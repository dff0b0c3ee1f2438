import Clither.RollbackExact
import Clither.ServerSteps

/-!
# Who owns a snake

The id of a new snake is the number of snakes plus one.  As long as nobody with
a lower id has left, this id is free, and every snake of the world belongs to
exactly one client (`snakes_owned`).  After that a new client may be given the
snake of somebody else (`snake_shared`).
-/

namespace Clither

open Faults (bind_eq_ok)

open Relation

/-- Every snake of the world belongs to exactly one client, and every client has one. -/
structure Owned (s : Server) : Prop where
  injective : ∀ e ∈ s.clients.entries, ∀ e' ∈ s.clients.entries,
    e.2.snakeId = e'.2.snakeId → e = e'
  keys : ∀ k, k ∈ bmapKeys s.world ↔ ∃ e ∈ s.clients.entries, e.2.snakeId = k

/-- A client that was not there at the start has got an id that was not in use. -/
def NewIds (start s : Server) : Prop :=
  ∀ e ∈ s.clients.entries, (∃ e₀ ∈ start.clients.entries, e₀.1 = e.1) ∨
    e.2.snakeId = spawnId start.world ∧ spawnId start.world ∉ bmapKeys start.world

theorem NewIds.refl (s : Server) : NewIds s s :=
  fun e he => Or.inl ⟨e, he, rfl⟩

section

variable {mem : Alloc} {settings : ServerSettings} {num : Numerics} {event : ServerEvent}
  {frame : UInt16} {start : Server}

/-! ## Steps -/

theorem snakeId_queueBezierHandles (record : ServerClient) (snakeId : UInt16) (snake : Snake) :
    (queueBezierHandles mem record snakeId snake).snakeId = record.snakeId := by
  unfold queueBezierHandles
  generalize rbIndexed snake.data.bezierHandles = handles
  induction handles generalizing record with
  | nil => rfl
  | cons x rest ih => exact ih (serverQueue mem record (msgSnakeBezier snakeId (UInt16.ofNat x.1) x.2))

/-- A client keeps its snake. -/
theorem RecordStep.snakeId_eq {s : Server} {slot : Nat} {addr : NetAddr}
    {record record' : ServerClient}
    (h : RecordStep mem settings event frame s slot addr record record') :
    record'.snakeId = record.snakeId := by
  cases h with
  | @entered _ other snake otherSnake prox hevent hother hsnake hotherSnake hinside hemplace =>
      exact snakeId_queueBezierHandles { record with snakesInProximity := prox } _ _
  | _ => rfl

theorem snakeId_of_steps {s : Server} {slot : Nat} {addr : NetAddr} {record record' : ServerClient}
    (h : ReflTransGen (RecordStep mem settings event frame s slot addr) record record') :
    record'.snakeId = record.snakeId := by
  induction h with
  | refl => rfl
  | tail _ hstep ih => exact hstep.snakeId_eq.trans ih

/-- The record in a cell changes, but neither its address nor its snake. -/
theorem Owned.setCell {s s' : Server} (h : Owned s) {slot : Nat} {addr : NetAddr}
    {record record' : ServerClient} (hcell : s.clients.cell slot = some (addr, record))
    (hid : record'.snakeId = record.snakeId)
    (hcells : s'.clients.cells = s.clients.cells.set slot (some (addr, record')))
    (hworld : bmapKeys s'.world = bmapKeys s.world) : Owned s' := by
  have hcell' := ValidHm.cell_of_cells_set hcell hcells
  have hmem : (addr, record) ∈ s.clients.entries := ValidHm.mem_entries.mpr ⟨slot, hcell⟩
  -- every record has one with the same snake behind it
  have hold {i : Nat} {e : NetAddr × ServerClient} (hi : s'.clients.cell i = some e) :
      ∃ e₀, s.clients.cell i = some e₀ ∧ e₀.2.snakeId = e.2.snakeId := by
    rw [hcell'] at hi
    by_cases hslot : i = slot
    · rw [if_pos hslot] at hi
      cases hi
      exact ⟨(addr, record), hslot ▸ hcell, hid.symm⟩
    · rw [if_neg hslot] at hi
      exact ⟨e, hi, rfl⟩
  constructor
  · intro e he e' he' hsame
    obtain ⟨i, hi⟩ := ValidHm.mem_entries.mp he
    obtain ⟨j, hj⟩ := ValidHm.mem_entries.mp he'
    obtain ⟨e₀, hi₀, hid₀⟩ := hold hi
    obtain ⟨e₁, hj₁, hid₁⟩ := hold hj
    have heq : e₀ = e₁ := h.injective e₀ (ValidHm.mem_entries.mpr ⟨i, hi₀⟩) e₁
      (ValidHm.mem_entries.mpr ⟨j, hj₁⟩) (hid₀.trans (hsame.trans hid₁.symm))
    subst heq
    obtain rfl := ValidHm.cell_unique hi₀ hj₁ (SameKey.refl _ _)
    exact Option.some.inj (hi.symm.trans hj)
  · intro k
    rw [hworld, h.keys]
    constructor
    · rintro ⟨e, he, rfl⟩
      obtain ⟨i, hi⟩ := ValidHm.mem_entries.mp he
      by_cases hslot : i = slot
      · subst hslot
        cases hcell.symm.trans hi
        exact ⟨(addr, record'), ValidHm.mem_entries.mpr ⟨i, by rw [hcell', if_pos rfl]⟩, hid⟩
      · exact ⟨e, ValidHm.mem_entries.mpr ⟨i, by rw [hcell', if_neg hslot, hi]⟩, rfl⟩
    · rintro ⟨e, he, rfl⟩
      obtain ⟨i, hi⟩ := ValidHm.mem_entries.mp he
      obtain ⟨e₀, hi₀, hid₀⟩ := hold hi
      exact ⟨e₀, ValidHm.mem_entries.mpr ⟨i, hi₀⟩, hid₀⟩

/-- A client leaves with its snake. -/
theorem Owned.removed {s s' : Server} (h : Owned s) {slot : Nat} {addr : NetAddr}
    {record : ServerClient} (hcell : s.clients.cell slot = some (addr, record))
    (hcells : s'.clients.cells = s.clients.cells.set slot none)
    (hworld : s'.world = bmapErase s.world record.snakeId) : Owned s' := by
  have hcell' := ValidHm.cell_of_cells_set hcell hcells
  have hmem : (addr, record) ∈ s.clients.entries := ValidHm.mem_entries.mpr ⟨slot, hcell⟩
  have hstays (e : NetAddr × ServerClient) : e ∈ s'.clients.entries ↔
      e ∈ s.clients.entries ∧ e ≠ (addr, record) := by
    constructor
    · intro he
      obtain ⟨i, hi⟩ := ValidHm.mem_entries.mp he
      rw [hcell'] at hi
      by_cases hslot : i = slot
      · rw [if_pos hslot] at hi
        cases hi
      · rw [if_neg hslot] at hi
        refine ⟨ValidHm.mem_entries.mpr ⟨i, hi⟩, ?_⟩
        rintro rfl
        exact hslot (ValidHm.cell_unique hi hcell (SameKey.refl _ _))
    · intro ⟨he, hne⟩
      obtain ⟨i, hi⟩ := ValidHm.mem_entries.mp he
      refine ValidHm.mem_entries.mpr ⟨i, ?_⟩
      rw [hcell', if_neg, hi]
      rintro rfl
      exact hne (Option.some.inj (hi.symm.trans hcell))
  constructor
  · intro e he e' he'
    exact h.injective e ((hstays e).mp he).1 e' ((hstays e').mp he').1
  · intro k
    rw [hworld, mem_bmapKeys_erase, h.keys]
    constructor
    · rintro ⟨⟨e, he, rfl⟩, hne⟩
      refine ⟨e, (hstays e).mpr ⟨he, ?_⟩, rfl⟩
      rintro rfl
      exact hne rfl
    · rintro ⟨e, he, rfl⟩
      obtain ⟨he, hne⟩ := (hstays e).mp he
      exact ⟨⟨e, he, rfl⟩, fun hsame => hne (h.injective e he _ hmem hsame)⟩

/-- A client joins, and its id is not in use. -/
theorem Owned.joined {s s' : Server} (h : Owned s) {addr : NetAddr} {slot : Nat}
    (hfresh : spawnId s.world ∉ bmapKeys s.world)
    (hcreate : createClient mem settings s addr frame = .ok (s', slot)) :
    Owned s' ∧ ∀ e ∈ s'.clients.entries, e ∈ s.clients.entries ∨ e.2.snakeId = spawnId s.world := by
  obtain ⟨clients, world, snake, hemplace, hspawn, hfind, rfl⟩ := createClient_ok hcreate
  obtain ⟨-, hperm, -⟩ := ValidHm.emplaceNew_some hemplace
  have hkeys : (bmapKeys world).Perm (spawnId s.world :: bmapKeys s.world) := by
    cases (worldSpawnSnake_spec hspawn).2 with
    | taken hkey => exact absurd hkey hfresh
    | refused hkey hroom =>
        exact absurd (mem_bmapKeys.mpr ⟨snake, findSnake_eq_ok.mp hfind⟩) hfresh
    | new hkey hinit hkeys hfound => exact hkeys
  have hentries (e : NetAddr × ServerClient) : e ∈ clients.entries ↔
      e = (addr, serverClientInit settings frame (spawnId s.world)) ∨ e ∈ s.clients.entries := by
    rw [hperm.mem_iff, List.mem_cons]
  have hnew {e : NetAddr × ServerClient} (he : e ∈ s.clients.entries) :
      e.2.snakeId ≠ spawnId s.world := by
    intro hid
    exact hfresh ((h.keys _).mpr ⟨e, he, hid⟩)
  refine ⟨⟨?_, ?_⟩, ?_⟩
  · intro e he e' he' hsame
    rcases (hentries e).mp he with rfl | hold
    · rcases (hentries e').mp he' with rfl | hold'
      · rfl
      · exact absurd hsame.symm (hnew hold')
    · rcases (hentries e').mp he' with rfl | hold'
      · exact absurd hsame (hnew hold)
      · exact h.injective e hold e' hold' hsame
  · intro k
    rw [bmapKeys_set, hkeys.mem_iff, List.mem_cons, h.keys]
    constructor
    · rintro (rfl | ⟨e, he, rfl⟩)
      · exact ⟨_, (hentries _).mpr (Or.inl rfl), rfl⟩
      · exact ⟨e, (hentries e).mpr (Or.inr he), rfl⟩
    · rintro ⟨e, he, rfl⟩
      rcases (hentries e).mp he with rfl | hold
      · exact Or.inl rfl
      · exact Or.inr ⟨e, hold, rfl⟩
  · intro e he
    rcases (hentries e).mp he with rfl | hold
    · exact Or.inr rfl
    · exact Or.inl hold

/-- **A step keeps the owners**, if a client that is created gets a free id. -/
theorem ServerStep.owned {s s' : Server}
    (hfresh : ∀ addr clientFrame usernameLen, AsksToJoin event addr clientFrame usernameLen →
      ¬ start.clients.Stores addr → spawnId start.world ∉ bmapKeys start.world)
    (hs : Owned s ∧ NewIds start s) (h : ServerStep mem settings num event frame start s s') :
    Owned s' ∧ NewIds start s' := by
  obtain ⟨howned, hnew⟩ := hs
  have hset {t : Server} {slot : Nat} {addr : NetAddr} {record record' : ServerClient}
      (hcell : s.clients.cell slot = some (addr, record))
      (hid : record'.snakeId = record.snakeId)
      (hcells : t.clients.cells = s.clients.cells.set slot (some (addr, record')))
      (hworld : t.world = s.world) : Owned t ∧ NewIds start t := by
    refine ⟨howned.setCell hcell hid hcells (by rw [hworld]), ?_⟩
    intro e he
    obtain ⟨i, hi⟩ := ValidHm.mem_entries.mp he
    rw [ValidHm.cell_of_cells_set hcell hcells] at hi
    by_cases hslot : i = slot
    · rw [if_pos hslot] at hi
      cases hi
      have hbefore := hnew _ (ValidHm.mem_entries.mpr ⟨slot, hcell⟩)
      dsimp only at hbefore ⊢
      rwa [hid]
    · rw [if_neg hslot] at hi
      exact hnew e (ValidHm.mem_entries.mpr ⟨i, hi⟩)
  cases h with
  | @record slot addr record record' hcell hsteps =>
      exact hset hcell (snakeId_of_steps hsteps) (ValidHm.cells_set hcell record') rfl
  | @sent slot addr record buf left hevent hcell hpack =>
      have hsent : ({ record with pendingMsgs := left,
                                  timeoutCounter := record.timeoutCounter + 1 } :
          ServerClient).snakeId = record.snakeId := rfl
      exact hset hcell hsent (ValidHm.cells_set hcell _) rfl
  | denied hasks hdenial => exact ⟨⟨howned.injective, howned.keys⟩, hnew⟩
  | joined hasks hclients hworld hdenial hcreate =>
      obtain ⟨-, -, hunknown⟩ := createClient_cell hcreate
      rw [hclients] at hunknown
      have hfree := hfresh _ _ _ hasks hunknown
      obtain ⟨howned', hentries⟩ := howned.joined (by rw [hworld]; exact hfree) hcreate
      refine ⟨howned', fun e he => ?_⟩
      rcases hentries e he with hold | hid
      · exact hnew e hold
      · rw [hworld] at hid
        exact Or.inr ⟨hid, hfree⟩
  | @removed slot a addr record _ hcell hsame hreason hremove =>
      obtain ⟨s₁, hok, hcells, -, hworld, -⟩ := clientRemove_of_cell hcell hsame
      cases hok.symm.trans hremove
      refine ⟨howned.removed hcell hcells hworld, fun e he => ?_⟩
      obtain ⟨i, hi⟩ := ValidHm.mem_entries.mp he
      rw [ValidHm.cell_of_cells_set hcell hcells] at hi
      by_cases hslot : i = slot
      · rw [if_pos hslot] at hi
        cases hi
      · rw [if_neg hslot] at hi
        exact hnew e (ValidHm.mem_entries.mpr ⟨i, hi⟩)
  | commands payload hcell hsnake =>
      exact ⟨⟨howned.injective, fun k => by rw [bmapKeys_set, howned.keys]⟩, hnew⟩
  | simulated hevent hsnake hstart hupdate =>
      exact ⟨⟨howned.injective, fun k => by rw [bmapKeys_set, howned.keys]⟩, hnew⟩
  | marked hdrops => exact ⟨⟨howned.injective, howned.keys⟩, hnew⟩
  | punished hempty => exact ⟨⟨howned.injective, howned.keys⟩, hnew⟩

/-! ## Packets that register a client -/

/-- The frames of an unknown sender register it: behind requests that are denied
there is one that is not. -/
def registers (settings : ServerSettings) (count : Nat) : List Frame → Bool
  | .message type payload :: rest =>
      match msgKind type payload with
      | .join _ usernameLen =>
          (joinDenial settings count usernameLen).isNone || registers settings count rest
      | _ => false
  | _ => false

theorem processFrames_unregistered {s s' : Server} {addr : NetAddr} {fs : List Frame}
    (hfs : registers settings s.clients.count fs = false)
    (h : processFrames mem settings none addr frame fs s = .ok s') :
    s'.clients = s.clients ∧ s'.world = s.world := by
  induction fs generalizing s with
  | nil =>
      cases h
      exact ⟨rfl, rfl⟩
  | cons f rest ih =>
      cases unknownFrame_of_ok h with
      | ends htype hsame =>
          rw [hsame]
          exact ⟨rfl, rfl⟩
      | @denied _ _ _ _ m hkind hdenial hrest =>
          simp only [registers, hkind, Bool.or_eq_false_iff] at hfs
          exact @ih (sendMsg s addr m) hfs.2 hrest
      | created hkind hdenial hcreate haccept hrest =>
          simp only [registers, hkind, hdenial, Option.isNone_none, Bool.true_or] at hfs
          cases hfs

/-- The packet is from an address without a record, and it creates one. -/
structure Registers (settings : ServerSettings) (s : Server) (sender : NetAddr)
    (udpBuf : List UInt8) : Prop where
  banned : hmFind netAddrHm s.bannedClients sender = .ok none
  malicious : hmFind netAddrHm s.maliciousClients sender = .ok none
  unknown : s.clients.find sender = .ok none
  joins : registers settings s.clients.count (frames udpBuf) = true

instance (settings : ServerSettings) (s : Server) (sender : NetAddr) (udpBuf : List UInt8) :
    Decidable (Registers settings s sender udpBuf) :=
  decidable_of_iff
    (hmFind netAddrHm s.bannedClients sender = .ok none ∧
      hmFind netAddrHm s.maliciousClients sender = .ok none ∧
      s.clients.find sender = .ok none ∧ registers settings s.clients.count (frames udpBuf) = true)
    ⟨fun ⟨hbanned, hmalicious, hunknown, hjoins⟩ => ⟨hbanned, hmalicious, hunknown, hjoins⟩,
      fun h => ⟨h.banned, h.malicious, h.unknown, h.joins⟩⟩

/-- Only such a packet creates a record. -/
theorem unregistered_packet {s s' : Server} {sender : NetAddr} {udpBuf : List UInt8}
    (hnot : ¬ Registers settings s sender udpBuf) (hunknown : ¬ s.clients.Stores sender)
    (h : receivePacket mem settings s sender udpBuf frame = .ok s') :
    s'.clients = s.clients ∧ s'.world = s.world := by
  cases received_of_ok h with
  | ignored => exact ⟨rfl, rfl⟩
  | punished hempty => exact ⟨rfl, rfl⟩
  | unknown hbanned hmalicious hfind hframes =>
      refine processFrames_unregistered ?_ hframes
      exact Bool.eq_false_iff.mpr fun hjoins => hnot ⟨hbanned, hmalicious, hfind, hjoins⟩
  | @known slot a record _ hbanned hmalicious hcell hsame hframes =>
      exact absurd ⟨slot, a, record, hcell, hsame⟩ hunknown

end

/-! ## Runs -/

section

variable (mem : Alloc) (settings : ServerSettings)

/-- A packet that registers a client comes when the number of snakes plus one is
not in use as an id, and there is room for another snake. -/
def joinsFresh (r : ServerRun) : ServerEvent → Prop
  | .packet sender udpBuf =>
      Registers settings r.server sender udpBuf →
        UInt16.ofNat (bmapCount r.server.world + 1) ∉ bmapKeys r.server.world ∧
          bmapHasRoom mem r.server.world = true
  | _ => True

instance (r : ServerRun) : (event : ServerEvent) → Decidable (joinsFresh mem settings r event)
  | .packet sender udpBuf =>
      inferInstanceAs (Decidable (Registers settings r.server sender udpBuf → _))
  | .timeouts | .malicious | .simulate | .snakesInRange _ | .queueData | .sendPending
  | .nextFrame => isTrue trivial

/-- A call of `world_spawn_snake` creates a snake with an id that was not in use. -/
def SpawnsFresh (r : ServerRun) : ServerEvent → Prop
  | .packet sender udpBuf =>
      Registers settings r.server sender udpBuf → ∀ world snakeId,
        worldSpawnSnake mem r.server.world = .ok (world, snakeId) →
        snakeId ≠ 0 ∧ snakeId ∉ bmapKeys r.server.world ∧ snakeId ∈ bmapKeys world
  | _ => True

/-- Every client has a snake of its own, and one that is new has an id that was
not in use. -/
structure OwnSnakes (r : ServerRun) (_ : ServerEvent) (r' : ServerRun) : Prop where
  owned : Owned r'.server
  fresh : ∀ e ∈ r'.server.clients.entries, (∀ e₀ ∈ r.server.clients.entries, e₀.1 ≠ e.1) →
    e.2.snakeId ≠ 0 ∧ e.2.snakeId ∉ bmapKeys r.server.world ∧
      e.2.snakeId ∈ bmapKeys r'.server.world

variable {mem settings} {num : Numerics}

theorem spawnsFresh_of_joinsFresh {r : ServerRun} {event : ServerEvent}
    (h : joinsFresh mem settings r event) : SpawnsFresh mem settings r event := by
  cases event with
  | packet sender udpBuf =>
      intro hregisters world snakeId hspawn
      obtain ⟨hfresh, hroom⟩ := h hregisters
      obtain ⟨rfl, hspawned⟩ := worldSpawnSnake_spec hspawn
      rw [← spawnId_eq] at hfresh
      refine ⟨spawnId_ne_zero _, hfresh, ?_⟩
      cases hspawned with
      | taken hkey => exact absurd hkey hfresh
      | refused hkey hfull =>
          rw [hroom] at hfull
          cases hfull
      | new hkey hinit hkeys hfind => exact hkeys.mem_iff.mpr List.mem_cons_self
  | _ => trivial

/-- **An event keeps the owners**, if it gives nobody an id that is in use. -/
theorem Owned.event {r r' : ServerRun} {event : ServerEvent} (howned : Owned r.server)
    (hcond : joinsFresh mem settings r event)
    (h : serverEvent mem settings num r event = .ok r') : OwnSnakes r event r' := by
  have hboth : Owned r'.server ∧ NewIds r.server r'.server := by
    by_cases hfresh : ∀ addr clientFrame usernameLen, AsksToJoin event addr clientFrame usernameLen →
        ¬ r.server.clients.Stores addr → spawnId r.server.world ∉ bmapKeys r.server.world
    · exact @serverEvent_invariant mem settings num (fun s => Owned s ∧ NewIds r.server s) r r' event
        (fun s s' hs hstep => hstep.owned hfresh hs) ⟨howned, NewIds.refl r.server⟩ h
    · push Not at hfresh
      obtain ⟨addr, clientFrame, usernameLen, hasks, hunknown, htaken⟩ := hfresh
      obtain ⟨sender, udpBuf, type, payload, rfl, hsame, -, -⟩ := hasks
      obtain ⟨s', hpacket, h⟩ := bind_eq_ok.mp h
      cases h
      have hsender : ¬ r.server.clients.Stores sender := by
        rintro ⟨slot, a, record, hcell, hkey⟩
        exact hunknown ⟨slot, a, record, hcell, hkey.trans hsame.symm⟩
      have hnot : ¬ Registers settings r.server sender udpBuf := by
        intro hregisters
        rw [spawnId_eq] at htaken
        exact (hcond hregisters).1 htaken
      obtain ⟨hclients, hworld⟩ := unregistered_packet hnot hsender hpacket
      constructor
      · constructor
        · show ∀ e ∈ s'.clients.entries, _
          rw [hclients]
          exact howned.injective
        · show ∀ k, k ∈ bmapKeys s'.world ↔ ∃ e ∈ s'.clients.entries, _
          rw [hclients, hworld]
          exact howned.keys
      · show ∀ e ∈ s'.clients.entries, _
        rw [hclients]
        exact NewIds.refl r.server
  obtain ⟨howned', hnew⟩ := hboth
  refine ⟨howned', fun e he hcame => ?_⟩
  rcases hnew e he with ⟨e₀, he₀, hsame⟩ | ⟨hid, hfree⟩
  · exact absurd hsame (hcame e₀ he₀)
  · have hkey : e.2.snakeId ∈ bmapKeys r'.server.world := (howned'.keys _).mpr ⟨e, he, rfl⟩
    rw [hid] at hkey ⊢
    exact ⟨spawnId_ne_zero _, hfree, hkey⟩

theorem owned_init : Owned serverInit where
  injective := nofun
  keys := by
    intro k
    constructor
    · exact nofun
    · rintro ⟨e, he, -⟩
      cases he

end

/-- **Every snake belongs to one client, and every client has a snake of its own**,
in all runs in which no client joins while the number of snakes plus one is in
use. -/
theorem snakes_owned (mem : Alloc) (settings : ServerSettings) (num : Numerics)
    (events : List ServerEvent)
    (hfresh : Run.Meets (serverEvent mem settings num) (joinsFresh mem settings) serverRunInit
      events) :
    Owned serverRunInit.server ∧
    Run.EverySafe (serverEvent mem settings num) OwnSnakes (fun _ => True) serverRunInit events ∧
    Run.Meets (serverEvent mem settings num) (SpawnsFresh mem settings) serverRunInit events := by
  refine ⟨owned_init, ?_, Run.meets_mono (fun _ _ => spawnsFresh_of_joinsFresh) hfresh⟩
  have hkeeps (r : ServerRun) (event : ServerEvent) (r' : ServerRun) (hr : Owned r.server)
      (hcond : joinsFresh mem settings r event)
      (h : serverEvent mem settings num r event = .ok r') :
      Owned r'.server ∧ OwnSnakes r event r' :=
    have heffect := hr.event hcond h
    ⟨heffect.owned, heffect⟩
  exact @Run.everySafe_of_meets _ _ _ _ (fun r => Owned r.server) _ _ hkeeps _ _ owned_init hfresh

/-- Two clients join, and one of them leaves. -/
def oneOfTwoLeaves (leaver : Nat) : List ServerEvent :=
  [.packet (loopback 40000) (joinPacket (cString "a")),
    .packet (loopback 40001) (joinPacket (cString "b")), .packet (loopback leaver) (msgBytes msgLeave)]

/-- A third client joins. -/
def thirdJoins : ServerEvent :=
  .packet (loopback 40002) (joinPacket (cString "c"))

/-- If the second client leaves, its id is free for the third one. -/
theorem snakes_owned_last_left :
    Run.EverySafe (serverEvent Alloc.unlimited serverSettingsDefaults eastward) OwnSnakes
      (fun _ => True) serverRunInit (oneOfTwoLeaves 40001 ++ [thirdJoins]) :=
  (snakes_owned Alloc.unlimited serverSettingsDefaults eastward
    (oneOfTwoLeaves 40001 ++ [thirdJoins]) (by decide +kernel)).2.1

/-- If the first one leaves, the third one gets the id of the second one. -/
theorem third_shares : ∃ r r' : ServerRun,
    Run.run (serverEvent Alloc.unlimited serverSettingsDefaults eastward) serverRunInit
      (oneOfTwoLeaves 40000) = .ok r ∧
    serverEvent Alloc.unlimited serverSettingsDefaults eastward r thirdJoins = .ok r' ∧
    ∃ e ∈ r'.server.clients.entries, ∃ e' ∈ r'.server.clients.entries,
      e.2.snakeId = e'.2.snakeId ∧ e.1 ≠ e'.1 := by
  have h : (do
      let r ← Run.run (serverEvent Alloc.unlimited serverSettingsDefaults eastward) serverRunInit
        (oneOfTwoLeaves 40000)
      let r' ← serverEvent Alloc.unlimited serverSettingsDefaults eastward r thirdJoins
      return decide (∃ e ∈ r'.server.clients.entries, ∃ e' ∈ r'.server.clients.entries,
        e.2.snakeId = e'.2.snakeId ∧ e.1 ≠ e'.1)) = Except.ok true := by decide +kernel
  obtain ⟨r, hr, h⟩ := bind_eq_ok.mp h
  obtain ⟨r', hr', h⟩ := bind_eq_ok.mp h
  rw [pure_eq_ok, Except.ok.injEq, decide_eq_true_eq] at h
  exact ⟨r, r', hr, hr', h⟩

/-- **Two clients with one snake.** -/
theorem snake_shared :
    ¬ Run.EverySafe (serverEvent Alloc.unlimited serverSettingsDefaults eastward) OwnSnakes
      (fun _ => True) serverRunInit (oneOfTwoLeaves 40000 ++ [thirdJoins]) := by
  intro hsafe
  obtain ⟨r, r', hr, hr', e, he, e', he', hid, haddr⟩ := third_shares
  have hown := (Run.effect_of_everySafe hsafe hr hr').owned
  exact haddr (congrArg Prod.fst (hown.injective e he e' he' hid))

end Clither
