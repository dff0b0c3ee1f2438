import Clither.ServerSteps

/-!
# What a packet cannot touch

A packet comes from one address.  Whatever its bytes are, the server changes only
what belongs to this address: its record and the snake of its record, its entry
among the malicious addresses, and it answers to no one else.

There is one exception.  A new client is given a snake id that may be taken, and
then the snake of another client is put on hold.
-/

namespace Clither

open Faults (bind_eq_ok)

/-! ## Tables -/

section

variable {K V : Type} {c : HmInstance K}

/-- A cell of a key is overwritten or cleared, and the entries of other keys stay. -/
theorem mem_entries_of_cells_set {m m' : ValidHm c V} {slot : Nat} {e : K × V}
    {x : Option (K × V)} {key : K} (hcell : m.cell slot = some e)
    (hcells : m'.cells = m.cells.set slot x) (he : SameKey c e.1 key)
    (hx : ∀ e' ∈ x, SameKey c e'.1 key) {other : K × V} (hother : ¬ SameKey c other.1 key) :
    other ∈ m'.entries ↔ other ∈ m.entries := by
  have hset := ValidHm.cell_of_cells_set hcell hcells
  rw [ValidHm.mem_entries, ValidHm.mem_entries]
  constructor
  · rintro ⟨i, hi⟩
    rw [hset] at hi
    by_cases hslot : i = slot
    · rw [if_pos hslot] at hi
      exact absurd (hx other hi) hother
    · rw [if_neg hslot] at hi
      exact ⟨i, hi⟩
  · rintro ⟨i, hi⟩
    have hslot : i ≠ slot := by
      rintro rfl
      cases hcell.symm.trans hi
      exact hother he
    exact ⟨i, by rw [hset, if_neg hslot, hi]⟩

/-- Setting a value keeps the entries of the other keys. -/
theorem mem_entries_setValue {t : HmTable K V} {slot : Nat} {h : UInt32} {k key : K} {v v' : V}
    (hslot : t.slotAt slot = .live h k v) (hsame : SameKey c k key) {other : K × V}
    (hother : ¬ SameKey c other.1 key) :
    other ∈ (t.setValue slot v').entries ↔ other ∈ t.entries := by
  obtain ⟨before, after, hold, hnew⟩ := entries_setValue hslot v'
  have hne (w : V) : other ≠ (k, w) := by
    rintro rfl
    exact hother hsame
  rw [hold, hnew]
  grind

/-- Writing the value of a key leaves the entries of other keys alone. -/
theorem mem_entries_insertUpdate {mem : Alloc} {hm hm' : Hm K V} (hwf : Hm.WF c hm) {key : K}
    {value : V} (h : hmInsertUpdate c mem hm key value = .ok hm') {other : K × V}
    (hother : ¬ SameKey c other.1 key) : other ∈ Hm.entries hm' ↔ other ∈ Hm.entries hm := by
  unfold hmInsertUpdate at h
  cases hemplace : hmEmplaceOrGet c mem hm key value with
  | error f =>
      rw [hemplace] at h
      cases h
  | ok r =>
      obtain ⟨hm₁, status⟩ := r
      have hspec := hmEmplaceOrGet_spec hwf hemplace
      rw [hemplace] at h
      cases hspec with
      | oom hdue hgrant =>
          cases h
          exact Iff.rfl
      | present htwf hperm hslot hsame =>
          cases h
          exact (mem_entries_setValue hslot hsame hother).trans hperm.mem_iff
      | new htwf hperm habsent hslot =>
          cases h
          have hne : other ≠ (key, value) := by
            rintro rfl
            exact hother (SameKey.refl c key)
          exact hperm.mem_iff.trans (by simp [hne])

end

/-! ## One address -/

/-- From one state of the server to the other, only what belongs to an address
and to the snakes `own` has changed. -/
structure TouchesOnly (addr : NetAddr) (own : UInt16 → Prop) (s s' : Server) : Prop where
  records : ∀ e, ¬ SameKey serverClientHm e.1 addr →
    (e ∈ s'.clients.entries ↔ e ∈ s.clients.entries)
  snakes : ∀ k, ¬ own k → bmapFind s'.world k = bmapFind s.world k
  malicious : Hm.WF netAddrHm s.maliciousClients → Hm.WF netAddrHm s'.maliciousClients ∧
    ∀ e, ¬ SameKey netAddrHm e.1 addr →
      (e ∈ Hm.entries s'.maliciousClients ↔ e ∈ Hm.entries s.maliciousClients)
  banned : s'.bannedClients = s.bannedClients
  sent : ∃ answers : List (List UInt8), s'.sent = s.sent ++ answers.map fun bytes => (addr, bytes)

namespace TouchesOnly

variable {addr : NetAddr} {own : UInt16 → Prop} {s s₁ s₂ : Server}

/-- Doing nothing touches nothing. -/
theorem refl (addr : NetAddr) (own : UInt16 → Prop) (s : Server) : TouchesOnly addr own s s where
  records := fun _ _ => Iff.rfl
  snakes := fun _ _ => rfl
  malicious := fun hwf => ⟨hwf, fun _ _ => Iff.rfl⟩
  banned := rfl
  sent := ⟨[], by simp⟩

/-- Touching only these goes through two steps one after the other. -/
theorem trans (h : TouchesOnly addr own s s₁) (h' : TouchesOnly addr own s₁ s₂) :
    TouchesOnly addr own s s₂ where
  records := fun e he => (h'.records e he).trans (h.records e he)
  snakes := fun k hk => (h'.snakes k hk).trans (h.snakes k hk)
  malicious := by
    intro hwf
    obtain ⟨hwf₁, hentries⟩ := h.malicious hwf
    obtain ⟨hwf₂, hentries'⟩ := h'.malicious hwf₁
    exact ⟨hwf₂, fun e he => (hentries' e he).trans (hentries e he)⟩
  banned := h'.banned.trans h.banned
  sent := by
    obtain ⟨answers, hsent⟩ := h.sent
    obtain ⟨answers', hsent'⟩ := h'.sent
    exact ⟨answers ++ answers', by rw [hsent', hsent, List.map_append, List.append_assoc]⟩

/-- Clients and world stay, and so do the lists. -/
theorem sendMsg (s : Server) (addr : NetAddr) (own : UInt16 → Prop) (m : Msg) :
    TouchesOnly addr own s (sendMsg s addr m) :=
  { refl addr own s with sent := ⟨[msgBytes m], rfl⟩ }

end TouchesOnly

section

variable {mem : Alloc} {settings : ServerSettings} {addr : NetAddr} {own : UInt16 → Prop}
  {s s' : Server} {slot : Nat} {a : NetAddr} {record : ServerClient} {frameNumber : UInt16}

/-- Storing a record touches the client of its address only. -/
theorem touches_setClient (hcell : s.clients.cell slot = some (a, record))
    (hsame : SameKey serverClientHm a addr) (record' : ServerClient) :
    TouchesOnly addr own s (s.setClient slot record') where
  records := fun e he => mem_entries_of_cells_set hcell (ValidHm.cells_set hcell record') hsame
    (by simpa using hsame) he
  snakes := fun _ _ => rfl
  malicious := fun hwf => ⟨hwf, fun _ _ => Iff.rfl⟩
  banned := rfl
  sent := ⟨[], by simp [Server.setClient]⟩

/-- A client is removed with its snake. -/
theorem touches_clientRemove (hcell : s.clients.cell slot = some (a, record))
    (hsame : SameKey serverClientHm a addr) (hown : own record.snakeId)
    (h : clientRemove s addr (some slot) = .ok s') : TouchesOnly addr own s s' := by
  obtain ⟨s₁, hok, hcells, -, hworld, hmalicious, hbanned, hsent⟩ :=
    clientRemove_of_cell hcell hsame
  cases hok.symm.trans h
  refine ⟨?_, ?_, ?_, hbanned, [], by simp [hsent]⟩
  · intro e he
    exact mem_entries_of_cells_set hcell hcells hsame (by simp) he
  · intro k hk
    have hne : k ≠ record.snakeId := by
      rintro rfl
      exact hk hown
    rw [hworld, bmapFind_erase, if_neg hne]
  · intro hwf
    rw [hmalicious]
    exact ⟨hwf, fun _ _ => Iff.rfl⟩

/-- Dropping a client touches its record and its snake. -/
theorem touches_mark (hcell : s.clients.cell slot = some (a, record))
    (hsame : SameKey serverClientHm a addr) (hown : own record.snakeId)
    (h : markClientAsMaliciousAndDrop mem settings s addr (some slot) = .ok s') :
    TouchesOnly addr own s s' := by
  obtain ⟨malicious, hmark, hremove⟩ := bind_eq_ok.mp h
  have hmarked : TouchesOnly addr own s { s with maliciousClients := malicious } :=
    { TouchesOnly.refl addr own s with
      malicious := fun hwf => ⟨hmInsertUpdate_spec hwf hmark, fun e he =>
        mem_entries_insertUpdate hwf hmark he⟩ }
  exact hmarked.trans (touches_clientRemove hcell hsame hown hremove)

/-- Accepting a join touches the sender's record only. -/
theorem touches_joinAccept {clientFrame : UInt16} (hcell : s.clients.cell slot = some (a, record))
    (hsame : SameKey serverClientHm a addr)
    (h : joinAccept mem settings s slot clientFrame frameNumber = .ok s') :
    TouchesOnly addr own s s' := by
  unfold joinAccept at h
  rw [client_of_cell hcell, ok_bind] at h
  obtain ⟨snake, -, h⟩ := bind_eq_ok.mp h
  cases h
  exact touches_setClient hcell hsame _

/-- Commands touch the sender's record and its snake. -/
theorem touches_processCommands {payload : List UInt8}
    (hcell : s.clients.cell slot = some (a, record)) (hsame : SameKey serverClientHm a addr)
    (hown : own record.snakeId)
    (h : processCommands mem settings s (some slot) addr payload frameNumber = .ok s') :
    TouchesOnly addr own s s' := by
  unfold processCommands at h
  rw [client_of_cell hcell, ok_bind] at h
  obtain ⟨snake, hsnake, h⟩ := bind_eq_ok.mp h
  simp only [msgCommandsUnpackInto_status] at h
  generalize hs₁ : ({ s with world := _ } : Server) = s₁ at h
  have hfirst : TouchesOnly addr own s s₁ := by
    subst hs₁
    refine { TouchesOnly.refl addr own s with snakes := ?_ }
    intro k hk
    have hne : k ≠ record.snakeId := by
      rintro rfl
      exact hk hown
    exact (bmapFind_set _ (mem_bmapKeys.mpr ⟨snake, findSnake_eq_ok.mp hsnake⟩) k).trans
      (if_neg hne)
  have hcell₁ : s₁.clients.cell slot = some (a, record) := by
    subst hs₁
    exact hcell
  split at h
  · exact hfirst.trans (touches_mark hcell₁ hsame hown h)
  · split at h
    · cases h
      exact hfirst
    · cases h
      exact hfirst.trans (touches_setClient hcell₁ hsame _)

/-! ## Packets -/

/-- Any message touches the sender's record and its snake. -/
theorem touches_processMessage {type : UInt8} {payload : List UInt8}
    (hcell : s.clients.cell slot = some (a, record)) (hsame : SameKey serverClientHm a addr)
    (hown : own record.snakeId)
    (h : processMessage mem settings s (some slot) addr type payload frameNumber = .ok s') :
    TouchesOnly addr own s s' := by
  rw [processMessage_eq] at h
  cases hkind : msgKind type payload with
  | join clientFrame usernameLen =>
      rw [hkind] at h
      simp only [processJoinRequest_eq] at h
      cases hdenial : joinDenial settings s.clients.count usernameLen with
      | some m =>
          rw [hdenial] at h
          cases h
          exact TouchesOnly.sendMsg _ addr own m
      | none =>
          rw [hdenial] at h
          exact touches_joinAccept hcell hsame h
  | leave =>
      rw [hkind] at h
      exact touches_clientRemove hcell hsame hown h
  | commands =>
      rw [hkind] at h
      exact touches_processCommands hcell hsame hown h
  | malicious =>
      rw [hkind] at h
      exact touches_mark hcell hsame hown h

/-- Without a record a message gets at most a denial. -/
theorem denied_of_unusable {client : Option Nat} {type : UInt8} {payload : List UInt8}
    (hpointer : Unusable s client addr)
    (h : processMessage mem settings s client addr type payload frameNumber = .ok s') :
    ∃ m, s' = sendMsg s addr m := by
  obtain ⟨f, hf, hclient⟩ := hpointer.fault
  rw [processMessage_eq] at h
  cases hkind : msgKind type payload with
  | join clientFrame usernameLen =>
      rw [hkind] at h
      cases hdenial : joinDenial settings s.clients.count usernameLen with
      | some m =>
          simp only [processJoinRequest_eq, hdenial] at h
          cases h
          exact ⟨m, rfl⟩
      | none =>
          obtain ⟨f', -, hjoin⟩ :=
            processJoinRequest_unusable mem hpointer hdenial clientFrame frameNumber
          cases hjoin.symm.trans h
  | leave =>
      rw [hkind] at h
      cases (clientRemove_of_error hclient).symm.trans h
  | commands =>
      rw [hkind] at h
      dsimp only at h
      rw [processCommands, hclient] at h
      cases h
  | malicious =>
      rw [hkind] at h
      exact absurd h ((mark_missing mem settings addr hclient hf).2 s')

/-- Frames without a usable record add answers to their sender and change nothing else. -/
theorem answered_of_unusable {client : Option Nat} {fs : List Frame}
    (hpointer : Unusable s client addr)
    (h : processFrames mem settings client addr frameNumber fs s = .ok s') :
    ∃ answers : List (List UInt8),
      s' = { s with sent := s.sent ++ answers.map fun bytes => (addr, bytes) } := by
  induction fs generalizing s with
  | nil =>
      cases h
      exact ⟨[], by simp⟩
  | cons f rest ih =>
      cases f with
      | truncated =>
          obtain ⟨g, hg, hclient⟩ := hpointer.fault
          exact absurd h ((mark_missing mem settings addr hclient hg).2 s')
      | message type payload =>
          rw [processFrames] at h
          split at h
          · cases h
            exact ⟨[], by simp⟩
          · obtain ⟨s₁, hmessage, h⟩ := bind_eq_ok.mp h
            obtain ⟨m, rfl⟩ := denied_of_unusable hpointer hmessage
            have hafter : Unusable (sendMsg s addr m) client addr :=
              ⟨hpointer.fault, hpointer.stores⟩
            obtain ⟨answers, hs'⟩ := ih hafter h
            exact ⟨msgBytes m :: answers, by simp [hs', sendMsg]⟩

/-- So they touch nobody. -/
theorem touches_processFrames_unusable {client : Option Nat} {fs : List Frame}
    (hpointer : Unusable s client addr)
    (h : processFrames mem settings client addr frameNumber fs s = .ok s') :
    TouchesOnly addr own s s' := by
  obtain ⟨answers, rfl⟩ := answered_of_unusable hpointer h
  exact { TouchesOnly.refl addr own s with sent := ⟨answers, rfl⟩ }

/-- The frames of a datagram touch the sender only, by induction on them. -/
theorem touches_processFrames {fs : List Frame}
    (hcell : s.clients.cell slot = some (a, record)) (hsame : SameKey serverClientHm a addr)
    (hown : own record.snakeId)
    (h : processFrames mem settings (some slot) addr frameNumber fs s = .ok s') :
    TouchesOnly addr own s s' := by
  induction fs generalizing s record with
  | nil =>
      cases h
      exact .refl addr own _
  | cons f rest ih =>
      cases f with
      | truncated => exact touches_mark hcell hsame hown h
      | message type payload =>
          rw [processFrames, if_neg (by simp)] at h
          obtain ⟨s₁, hmessage, h⟩ := bind_eq_ok.mp h
          have hfirst : TouchesOnly addr own s s₁ :=
            touches_processMessage hcell hsame hown hmessage
          rcases processMessage_registered hcell hsame hmessage with ⟨-, hkept⟩ | ⟨-, hgone⟩
          · obtain ⟨a', record', record₁, hcell', hcell₁, hident⟩ := hkept.cell
            cases hcell.symm.trans hcell'
            have hown₁ : own record₁.snakeId := by
              rw [(ident_inj hident).2.1]
              exact hown
            exact hfirst.trans (ih hcell₁ hown₁ h)
          · exact hfirst.trans
              (touches_processFrames_unusable (unusable_of_empty addr hgone.empty) h)

/-- A new record, and the snake that it is given. -/
theorem touches_createClient (h : createClient mem settings s addr frameNumber = .ok (s', slot)) :
    TouchesOnly addr (· = spawnId s.world) s s' := by
  obtain ⟨clients, world, snake, hemplace, hspawn, hsnake, rfl⟩ := createClient_ok h
  obtain ⟨-, hperm, -⟩ := ValidHm.emplaceNew_some hemplace
  have hkey : spawnId s.world ∈ bmapKeys world :=
    mem_bmapKeys.mpr ⟨snake, findSnake_eq_ok.mp hsnake⟩
  refine { TouchesOnly.refl addr (· = spawnId s.world) s with records := ?_, snakes := ?_ }
  · intro e he
    have hne : e ≠ (addr, serverClientInit settings frameNumber (spawnId s.world)) := by
      rintro rfl
      exact he (SameKey.refl _ addr)
    exact hperm.mem_iff.trans (by simp [hne])
  · intro k hk
    rw [bmapFind_set _ hkey, if_neg hk]
    cases (worldSpawnSnake_spec hspawn).2 with
    | taken _ => rfl
    | refused _ _ => rfl
    | new _ _ _ hfind => rw [hfind, if_neg hk]

/-- An id that is taken is not given a new snake: the one that is there is put on hold. -/
theorem createClient_taken (h : createClient mem settings s addr frameNumber = .ok (s', slot))
    {snake : Snake} (hsnake : findSnake s.world (spawnId s.world) = .ok snake) :
    findSnake s'.world (spawnId s.world) = .ok (snakeSetHold snake) := by
  obtain ⟨clients, world, snake', -, hspawn, hfound, rfl⟩ := createClient_ok h
  have hkey := mem_bmapKeys.mpr ⟨snake, findSnake_eq_ok.mp hsnake⟩
  have hkey' := mem_bmapKeys.mpr ⟨snake', findSnake_eq_ok.mp hfound⟩
  have hset := bmapFind_set (snakeSetHold snake') hkey' (spawnId s.world)
  rw [if_pos rfl] at hset
  have hworld : world = s.world := by
    cases (worldSpawnSnake_spec hspawn).2 with
    | taken _ => rfl
    | refused _ _ => rfl
    | new hfresh _ _ _ => exact absurd hkey hfresh
  rw [hworld] at hfound
  cases hsnake.symm.trans hfound
  exact findSnake_eq_ok.mpr hset

/-- More snakes may be exempted. -/
theorem TouchesOnly.mono {own' : UInt16 → Prop} (h : TouchesOnly addr own s s')
    (hown : ∀ k, own k → own' k) : TouchesOnly addr own' s s' :=
  { h with snakes := fun k hk => h.snakes k fun hmine => hk (hown k hmine) }

/-- Accepting a join leaves the world alone. -/
theorem world_joinAccept {clientFrame : UInt16} (hcell : s.clients.cell slot = some (a, record))
    (h : joinAccept mem settings s slot clientFrame frameNumber = .ok s') : s'.world = s.world := by
  unfold joinAccept at h
  rw [client_of_cell hcell, ok_bind] at h
  obtain ⟨snake, -, h⟩ := bind_eq_ok.mp h
  cases h
  rfl

/-- The snake in the place of a new one: it stays as it is, or is put on hold. -/
def StaysOrHeld (s s' : Server) : Prop :=
  ∀ snake, findSnake s.world (spawnId s.world) = .ok snake →
    findSnake s'.world (spawnId s.world) = .ok snake ∨
      findSnake s'.world (spawnId s.world) = .ok (snakeSetHold snake)

/-- A packet from an address without a record. -/
theorem touches_processFrames_unknown {fs : List Frame}
    (h : processFrames mem settings none addr frameNumber fs s = .ok s') :
    TouchesOnly addr (· = spawnId s.world) s s' ∧ StaysOrHeld s s' := by
  induction fs generalizing s with
  | nil =>
      cases h
      exact ⟨.refl addr _ _, fun snake hsnake => Or.inl hsnake⟩
  | cons f rest ih =>
      cases unknownFrame_of_ok h with
      | ends htype hsame =>
          rw [hsame]
          exact ⟨.refl addr _ _, fun snake hsnake => Or.inl hsnake⟩
      | @denied _ _ _ _ m hkind hdenial hrest =>
          obtain ⟨htouches, hheld⟩ := ih hrest
          exact ⟨(TouchesOnly.sendMsg s addr _ m).trans htouches, hheld⟩
      | @created _ _ _ _ slot s₁ s₂ hkind hdenial hcreate haccept hrest =>
          obtain ⟨hcell, -, -⟩ := createClient_cell hcreate
          obtain ⟨_, _, record', hcell', hcell₂, -⟩ := (kept_of_joinAccept hcell haccept).cell
          cases hcell.symm.trans hcell'
          have hstores := unusable_of_stores ⟨_, addr, record', hcell₂, SameKey.refl _ addr⟩
          have haccepted : TouchesOnly addr (· = spawnId s.world) s₁ s₂ :=
            touches_joinAccept hcell (SameKey.refl _ addr) haccept
          refine ⟨((touches_createClient hcreate).trans haccepted).trans
            (touches_processFrames_unusable hstores hrest), ?_⟩
          intro snake hsnake
          obtain ⟨-, hworld⟩ :=
            (processFrames_unusable mem settings hstores frameNumber rest).2 s' hrest
          rw [hworld, world_joinAccept hcell haccept]
          exact Or.inr (createClient_taken hcreate hsnake)

/-- The snake of a record of the address. -/
def OwnsSnake (s : Server) (addr : NetAddr) (k : UInt16) : Prop :=
  ∃ e ∈ s.clients.entries, SameKey serverClientHm e.1 addr ∧ e.2.snakeId = k

/-- Nothing has happened to anyone but the address, unless it is new and the id of its snake is
taken. -/
structure OthersAlone (addr : NetAddr) (s s' : Server) : Prop where
  touches : TouchesOnly addr
    (fun k => OwnsSnake s addr k ∨ (¬ s.clients.Stores addr ∧ k = spawnId s.world)) s s'
  held : ¬ s.clients.Stores addr → StaysOrHeld s s'

/-- **A packet touches its sender only.** -/
theorem receivePacket_othersAlone {udpBuf : List UInt8}
    (h : receivePacket mem settings s addr udpBuf frameNumber = .ok s') :
    OthersAlone addr s s' := by
  unfold receivePacket at h
  obtain ⟨banned, -, h⟩ := bind_eq_ok.mp h
  by_cases hsome : banned.isSome = true
  · rw [if_pos hsome] at h
    cases h
    exact ⟨.refl addr _ _, fun _ snake hsnake => Or.inl hsnake⟩
  rw [if_neg hsome] at h
  obtain ⟨malicious, hmalicious, h⟩ := bind_eq_ok.mp h
  cases malicious with
  | some slot =>
      cases h
      refine ⟨{ TouchesOnly.refl addr _ s with malicious := ?_ },
        fun _ snake hsnake => Or.inl hsnake⟩
      intro hwf
      rcases hmFind_spec hwf hmalicious with
        ⟨t, slot', hash, k, v, hhm, hslot', hslot, hsame⟩ | ⟨hnone, -⟩
      · cases hslot'
        rw [hhm] at hwf ⊢
        refine ⟨Hm.wf_some ((hwf t rfl).setValue _ _), ?_⟩
        intro e he
        exact mem_entries_setValue hslot hsame he
      · cases hnone
  | none =>
      obtain ⟨client, hfind, h⟩ := bind_eq_ok.mp h
      cases client with
      | none =>
          dsimp only at h
          rw [ok_bind, unpackPacket_eq] at h
          obtain ⟨htouches, hheld⟩ := touches_processFrames_unknown h
          have hunknown := ValidHm.find_none hfind
          exact ⟨htouches.mono fun k hk => Or.inr ⟨hunknown, hk⟩, fun _ => hheld⟩
      | some slot =>
          obtain ⟨a, record, hcell, hsame⟩ := ValidHm.find_some hfind
          dsimp only at h
          rw [client_of_cell hcell, ok_bind, ok_bind, unpackPacket_eq] at h
          have howns : OwnsSnake s addr record.snakeId :=
            ⟨(a, record), ValidHm.mem_entries.mpr ⟨slot, hcell⟩, hsame, rfl⟩
          refine ⟨(touches_setClient hcell hsame _).trans (touches_processFrames
            (cell_setClient hcell { record with timeoutCounter := 0 }) hsame (Or.inl howns) h), ?_⟩
          intro hunknown
          exact absurd ⟨slot, a, record, hcell, hsame⟩ hunknown

/-! ## Runs -/

/-- Removing a client leaves the malicious list alone. -/
theorem malicious_clientRemove {client : Option Nat} (h : clientRemove s addr client = .ok s') :
    s'.maliciousClients = s.maliciousClients := by
  obtain ⟨r, -, h⟩ := bind_eq_ok.mp h
  obtain ⟨clients, -, h⟩ := bind_eq_ok.mp h
  cases h
  rfl

/-- A loop over the clients leaves the list alone if its body does. -/
theorem malicious_forEach {body : Server → Nat → NetAddr → ServerClient → Except Fault Server}
    (hbody : ∀ s s' slot addr record, body s slot addr record = .ok s' →
      s'.maliciousClients = s.maliciousClients) {slots : List Nat}
    (h : forEachClient body slots s = .ok s') : s'.maliciousClients = s.maliciousClients := by
  have hkeeps (s₁ s₂ : Server) (slot : Nat) (addr : NetAddr) (record : ServerClient)
      (hs₁ : s₁.maliciousClients = s.maliciousClients)
      (_ : s₁.clients.cell slot = some (addr, record)) (hok : body s₁ slot addr record = .ok s₂) :
      s₂.maliciousClients = s.maliciousClients := (hbody s₁ s₂ slot addr record hok).trans hs₁
  exact forEachClient_invariant hkeeps rfl h

/-- Serving keeps the malicious list well formed. -/
theorem wf_updateMaliciousLoop {slots : List Nat} {malicious malicious' : Hm NetAddr Int}
    (hwf : Hm.WF netAddrHm malicious) (h : updateMaliciousLoop slots malicious = .ok malicious') :
    Hm.WF netAddrHm malicious' := by
  induction slots generalizing malicious with
  | nil =>
      cases h
      exact hwf
  | cons slot rest ih =>
      cases malicious with
      | none =>
          cases h
          exact hwf
      | some t =>
          have ht := hwf t rfl
          cases hslot : t.slotAt slot with
          | unused =>
              simp only [updateMaliciousLoop, hslot] at h
              exact ih hwf h
          | rip =>
              simp only [updateMaliciousLoop, hslot] at h
              exact ih hwf h
          | live hash a timeout =>
              have hset := Hm.wf_some (ht.setValue slot (wrapInt 32 (timeout - 1)))
              simp only [updateMaliciousLoop, hslot] at h
              split at h
              · exact ih hset h
              · obtain ⟨left, hleft, h⟩ := bind_eq_ok.mp h
                exact ih (hmErase_spec hset hleft).1 h

/-- Only packets and network updates change the list of malicious addresses. -/
theorem malicious_serverEvent {num : Numerics} {r r' : ServerRun} {event : ServerEvent}
    (hupdate : event ≠ .malicious) (hpacket : ∀ sender udpBuf, event ≠ .packet sender udpBuf)
    (h : serverEvent mem settings num r event = .ok r') :
    r'.server.maliciousClients = r.server.maliciousClients := by
  cases event with
  | timeouts =>
      refine malicious_forEach ?_ (server_of_ok h)
      intro s s' slot addr record hbody
      dsimp only at hbody
      split at hbody
      · rw [malicious_clientRemove hbody]
        rfl
      · cases hbody
        rfl
  | malicious => exact absurd rfl hupdate
  | packet sender udpBuf => exact absurd rfl (hpacket sender udpBuf)
  | simulate =>
      obtain ⟨world, -, hs⟩ := bind_eq_ok.mp (server_of_ok h)
      rw [← Except.ok.inj hs]
  | snakesInRange proximityRange =>
      refine malicious_forEach ?_ (server_of_ok h)
      intro s s' slot addr record hbody
      obtain ⟨record', -, hbody⟩ := bind_eq_ok.mp hbody
      cases hbody
      rfl
  | queueData =>
      obtain ⟨s₁, hheads, hdata⟩ := bind_eq_ok.mp (server_of_ok h)
      have hfirst : s₁.maliciousClients = r.server.maliciousClients := by
        refine malicious_forEach ?_ hheads
        intro s s' slot addr record hbody
        obtain ⟨snake, -, hbody⟩ := bind_eq_ok.mp hbody
        split at hbody
        · cases hbody
          rfl
        · cases hbody
          rfl
      refine (malicious_forEach ?_ hdata).trans hfirst
      intro s s' slot addr record hbody
      obtain ⟨record', -, hbody⟩ := bind_eq_ok.mp hbody
      cases hbody
      rfl
  | sendPending =>
      refine malicious_forEach ?_ (server_of_ok h)
      intro s s' slot addr record hbody
      dsimp only at hbody
      split at hbody
      · exact malicious_clientRemove hbody
      · split at hbody
        · cases hbody
          rfl
        · cases hbody
          rfl
  | nextFrame =>
      cases h
      rfl

/-- The list of malicious addresses stays well formed. -/
theorem wf_serverEvent {num : Numerics} {r r' : ServerRun} {event : ServerEvent}
    (hwf : Hm.WF netAddrHm r.server.maliciousClients)
    (h : serverEvent mem settings num r event = .ok r') :
    Hm.WF netAddrHm r'.server.maliciousClients := by
  by_cases hupdate : event = .malicious
  · subst hupdate
    obtain ⟨malicious, hloop, hs⟩ := bind_eq_ok.mp (server_of_ok h)
    rw [← Except.ok.inj hs]
    exact wf_updateMaliciousLoop hwf hloop
  by_cases hpacket : ∀ sender udpBuf, event ≠ .packet sender udpBuf
  · rw [malicious_serverEvent hupdate hpacket h]
    exact hwf
  · simp only [not_forall, not_not] at hpacket
    obtain ⟨sender, udpBuf, rfl⟩ := hpacket
    exact ((receivePacket_othersAlone (server_of_ok h)).touches.malicious hwf).1

/-- What a packet does in a run. -/
structure Isolated (r : ServerRun) (event : ServerEvent) (r' : ServerRun) : Prop where
  wf : Hm.WF netAddrHm r.server.maliciousClients
  alone : ∀ sender udpBuf, event = .packet sender udpBuf → OthersAlone sender r.server r'.server

/-- **Clients are isolated.**  In every run of the server, each packet, whatever its bytes are,
leaves the records and the bad name of all other addresses as they are, and only its sender is
answered.  It reaches no snake but the ones that its sender's record names, and, if the sender is
new, the one whose id is given away again: that one is put on hold. -/
theorem packets_isolated (mem : Alloc) (settings : ServerSettings) (num : Numerics)
    (events : List ServerEvent) :
    Run.EverySafe (serverEvent mem settings num) Isolated (fun _ => True) serverRunInit events := by
  have hkeeps (r : ServerRun) (event : ServerEvent) (r' : ServerRun)
      (hwf : Hm.WF netAddrHm r.server.maliciousClients)
      (hok : serverEvent mem settings num r event = .ok r') :
      Hm.WF netAddrHm r'.server.maliciousClients ∧ Isolated r event r' := by
    refine ⟨wf_serverEvent hwf hok, hwf, ?_⟩
    rintro sender udpBuf rfl
    exact receivePacket_othersAlone (server_of_ok hok)
  have hinit : Hm.WF netAddrHm serverRunInit.server.maliciousClients := by
    intro t ht
    cases ht
  exact Run.everySafe_of_invariant hkeeps hinit

end

end Clither
