import Clither.MissedAcks
import Clither.SnakeOwners
import Mathlib.Data.List.Flatten
import Mathlib.Data.List.Perm.Subperm

/-!
# Snakes in proximity

Each client has a map of the snakes whose enlarged box holds the head of its own
snake.  A loop over all pairs of clients keeps the maps up to date, and it looks
at the snakes of clients only.  So the maps are right as long as all of their
keys are the ids of other clients (`Known`).

A client that is removed takes its snake along, but its id stays in the maps of
the others.  `proximity_exact` is about the runs in which this does not happen,
and `removed_still_near` about one in which it does.
-/

namespace Clither

open Faults (bind_eq_ok)

/-! ## One client -/

/-- The head of the client's snake is in the enlarged box of that snake. -/
def Within (world : World) (proximityRange : Int) (record : ServerClient) (snakeId : UInt16) :
    Prop :=
  ∃ snake otherSnake, findSnake world record.snakeId = .ok snake ∧
    findSnake world snakeId = .ok otherSnake ∧
    qwaabbTestQwpos (enlargedAabb otherSnake proximityRange) snake.head.pos = true

/-- All bezier handles of a snake. -/
def handleMsgs (snakeId : UInt16) (snake : Snake) : List Msg :=
  (rbIndexed snake.data.bezierHandles).map fun x =>
    msgSnakeBezier snakeId (UInt16.ofNat x.1) x.2

/-- What a client is told about a snake that leaves its map or enters it. -/
def changeMsgs (world : World) (record : ServerClient) (snakeId : UInt16) : List Msg :=
  if (bmapFind record.snakesInProximity snakeId).isSome then [msgSnakeDestroy snakeId]
  else ((findSnake world snakeId).toOption.map (handleMsgs snakeId)).getD []

/-- The ids that satisfy one of the predicates only. -/
structure Changed (before after : UInt16 → Prop) (ids : List UInt16) : Prop where
  nodup : ids.Nodup
  mem : ∀ k, k ∈ ids ↔ ¬ (before k ↔ after k)

section

variable {mem : Alloc} {world : World} {proximityRange : Int}
  {record record₁ record' : ServerClient} {snakeId : UInt16}

/-- Queueing the handles of a snake queues one message for each and fills the pending set. -/
theorem queueBezierHandles_eq (record : ServerClient) (snakeId : UInt16) (snake : Snake) :
    queueBezierHandles mem record snakeId snake =
      { record with
        pendingMsgs := (handleMsgs snakeId snake).foldl (vecPush mem) record.pendingMsgs } := by
  unfold queueBezierHandles handleMsgs
  generalize rbIndexed snake.data.bezierHandles = handles
  induction handles generalizing record with
  | nil => rfl
  | cons x rest ih =>
      exact ih (serverQueue mem record (msgSnakeBezier snakeId (UInt16.ofNat x.1) x.2))

/-- Being within range looks only at the snake id of the record. -/
theorem within_congr (h : record'.snakeId = record.snakeId) :
    Within world proximityRange record' snakeId ↔ Within world proximityRange record snakeId := by
  rw [Within, Within, h]

/-- One turn of the inner loop, for the snake of another client. -/
structure Turned (mem : Alloc) (world : World) (proximityRange : Int) (snakeId : UInt16)
    (record record' : ServerClient) : Prop where
  snakeId_eq : record'.snakeId = record.snakeId
  key : snakeId ∈ bmapKeys record'.snakesInProximity ↔ Within world proximityRange record snakeId
  others : ∀ k, k ≠ snakeId →
    (k ∈ bmapKeys record'.snakesInProximity ↔ k ∈ bmapKeys record.snakesInProximity)
  same : (snakeId ∈ bmapKeys record.snakesInProximity ↔
      snakeId ∈ bmapKeys record'.snakesInProximity) → record'.pendingMsgs = record.pendingMsgs
  told : ¬ (snakeId ∈ bmapKeys record.snakesInProximity ↔
      snakeId ∈ bmapKeys record'.snakesInProximity) →
    record'.pendingMsgs =
      (changeMsgs world record snakeId).foldl (vecPush mem) record.pendingMsgs

/-- The snake is where it was before. -/
theorem turned_refl (h : snakeId ∈ bmapKeys record.snakesInProximity ↔
    Within world proximityRange record snakeId) :
    Turned mem world proximityRange snakeId record record where
  snakeId_eq := rfl
  key := h
  others := fun _ _ => Iff.rfl
  same := fun _ => rfl
  told := fun hchanged => absurd Iff.rfl hchanged

/-- A snake that came within range is added with its messages. -/
theorem turned_entered {otherSnake : Snake} {prox : Bmap proximityStateBmap ProximityState}
    (hwithin : Within world proximityRange record snakeId)
    (hsnake : findSnake world snakeId = .ok otherSnake)
    (hemplace : bmapEmplace mem record.snakesInProximity snakeId (.ok proximityStateInit) =
      .ok (prox, .new)) :
    Turned mem world proximityRange snakeId record
      (queueBezierHandles mem { record with snakesInProximity := prox } snakeId otherSnake) := by
  cases bmapEmplace_spec hemplace with
  | new hkey hinit hkeys hfind =>
      have hafter (k : UInt16) :
          k ∈ bmapKeys prox ↔ k = snakeId ∨ k ∈ bmapKeys record.snakesInProximity := by
        rw [hkeys.mem_iff, List.mem_cons]
      rw [queueBezierHandles_eq]
      refine ⟨rfl, iff_of_true ((hafter _).mpr (Or.inl rfl)) hwithin, fun k hk => ?_,
        fun hsame => ?_, fun _ => ?_⟩
      · exact (hafter k).trans (or_iff_right hk)
      · exact absurd (hsame.mpr ((hafter _).mpr (Or.inl rfl))) hkey
      · rw [changeMsgs, if_neg (isSome_bmapFind.not.mpr hkey), hsnake]
        rfl

/-- A snake that left the range is taken out. -/
theorem turned_left (hwithin : ¬ Within world proximityRange record snakeId)
    (hkey : snakeId ∈ bmapKeys record.snakesInProximity) :
    Turned mem world proximityRange snakeId record
      { serverQueue mem record (msgSnakeDestroy snakeId) with
        snakesInProximity := bmapErase record.snakesInProximity snakeId } where
  snakeId_eq := rfl
  key := iff_of_false (fun hmem => (mem_bmapKeys_erase.mp hmem).2 rfl) hwithin
  others := fun k hk => mem_bmapKeys_erase.trans (and_iff_left hk)
  same := fun hsame => absurd rfl (mem_bmapKeys_erase.mp (hsame.mp hkey)).2
  told := fun _ => by
    rw [changeMsgs, if_pos (isSome_bmapFind.mpr hkey)]
    rfl

/-- What the inner loop does to its client. -/
structure Updated (mem : Alloc) (world : World) (proximityRange : Int) (ids : List UInt16)
    (record record' : ServerClient) : Prop where
  snakeId_eq : record'.snakeId = record.snakeId
  seen : ∀ k ∈ ids,
    (k ∈ bmapKeys record'.snakesInProximity ↔ Within world proximityRange record k)
  unseen : ∀ k ∉ ids,
    (k ∈ bmapKeys record'.snakesInProximity ↔ k ∈ bmapKeys record.snakesInProximity)
  told : ∃ changed, Changed (fun k => k ∈ bmapKeys record.snakesInProximity)
      (fun k => k ∈ bmapKeys record'.snakesInProximity) changed ∧
    record'.pendingMsgs =
      (changed.flatMap (changeMsgs world record)).foldl (vecPush mem) record.pendingMsgs

/-- Over no other client nothing changes. -/
theorem updated_refl (record : ServerClient) :
    Updated mem world proximityRange [] record record where
  snakeId_eq := rfl
  seen := fun _ hk => absurd hk List.not_mem_nil
  unseen := fun _ _ => Iff.rfl
  told := ⟨[], ⟨List.nodup_nil, fun _ => by simp⟩, rfl⟩

/-- First one turn, then all others. -/
theorem Turned.updated {ids : List UInt16}
    (h : Turned mem world proximityRange snakeId record record₁)
    (h' : Updated mem world proximityRange ids record₁ record') :
    Updated mem world proximityRange (snakeId :: ids) record record' := by
  have hwithin (k : UInt16) := @within_congr world proximityRange record record₁ k h.snakeId_eq
  -- a later turn for the same snake finds what this one has left
  have hlater : snakeId ∈ bmapKeys record'.snakesInProximity ↔
      snakeId ∈ bmapKeys record₁.snakesInProximity := by
    by_cases hmem : snakeId ∈ ids
    · exact (h'.seen _ hmem).trans ((hwithin _).trans h.key.symm)
    · exact h'.unseen _ hmem
  refine ⟨h'.snakeId_eq.trans h.snakeId_eq, fun k hk => ?_, fun k hk => ?_, ?_⟩
  · by_cases hmem : k ∈ ids
    · exact (h'.seen k hmem).trans (hwithin k)
    · obtain rfl := (List.mem_cons.mp hk).resolve_right hmem
      exact hlater.trans h.key
  · obtain ⟨hne, hmem⟩ := not_or.mp (mt List.mem_cons.mpr hk)
    exact (h'.unseen k hmem).trans (h.others k hne)
  · obtain ⟨changed, hchanged, hpending⟩ := h'.told
    have hfresh : snakeId ∉ changed := fun hmem => (hchanged.mem _).mp hmem hlater.symm
    have hothers (k : UInt16) (hne : k ≠ snakeId) :
        k ∈ changed ↔ ¬ (k ∈ bmapKeys record.snakesInProximity ↔
          k ∈ bmapKeys record'.snakesInProximity) := by
      rw [hchanged.mem, h.others k hne]
    have hmsgs : changed.flatMap (changeMsgs world record₁) =
        changed.flatMap (changeMsgs world record) := by
      refine List.flatMap_congr fun k hk => ?_
      have hne : k ≠ snakeId := fun heq => hfresh (heq ▸ hk)
      simp only [changeMsgs, isSome_bmapFind, h.others k hne]
    rw [hmsgs] at hpending
    by_cases hsame : snakeId ∈ bmapKeys record.snakesInProximity ↔
        snakeId ∈ bmapKeys record₁.snakesInProximity
    · refine ⟨changed, ⟨hchanged.nodup, fun k => ?_⟩, by rw [hpending, h.same hsame]⟩
      by_cases hk : k = snakeId
      · rw [hk]
        exact iff_of_false hfresh (not_not.mpr (hsame.trans hlater.symm))
      · exact hothers k hk
    · refine ⟨snakeId :: changed, ⟨List.nodup_cons.mpr ⟨hfresh, hchanged.nodup⟩, fun k => ?_⟩, ?_⟩
      · by_cases hk : k = snakeId
        · rw [hk]
          exact iff_of_true List.mem_cons_self fun heq => hsame (heq.trans hlater)
        · rw [List.mem_cons, or_iff_right hk]
          exact hothers k hk
      · rw [hpending, h.told hsame, List.flatMap_cons, List.foldl_append]

/-- **The inner loop** brings the map up to date, and tells the client. -/
theorem updated_of_ok {others : List ServerClient}
    (h : updateSnakesInRangeOf mem world proximityRange others record = .ok record') :
    Updated mem world proximityRange (others.map ServerClient.snakeId) record record' := by
  induction others generalizing record with
  | nil =>
      cases h
      exact updated_refl _
  | cons other rest ih =>
      obtain ⟨snake, hsnake, h⟩ := bind_eq_ok.mp h
      obtain ⟨otherSnake, hotherSnake, h⟩ := bind_eq_ok.mp h
      by_cases hinside : qwaabbTestQwpos (enlargedAabb otherSnake proximityRange) snake.head.pos
      · rw [if_pos hinside] at h
        have hwithin : Within world proximityRange record other.snakeId :=
          ⟨snake, otherSnake, hsnake, hotherSnake, hinside⟩
        obtain ⟨⟨prox, status⟩, hemplace, h⟩ := bind_eq_ok.mp h
        cases status with
        | oom => cases h
        | present =>
            cases bmapEmplace_spec hemplace with
            | present hkey => exact (turned_refl (iff_of_true hkey hwithin)).updated (ih h)
        | new => exact (turned_entered hwithin hotherSnake hemplace).updated (ih h)
      · rw [if_neg hinside] at h
        have hwithin : ¬ Within world proximityRange record other.snakeId := by
          rintro ⟨snake', otherSnake', hsnake', hotherSnake', hinside'⟩
          cases hsnake.symm.trans hsnake'
          cases hotherSnake.symm.trans hotherSnake'
          exact hinside hinside'
        cases hfind : bmapFind record.snakesInProximity other.snakeId with
        | none =>
            rw [hfind] at h
            exact (turned_refl (iff_of_false (bmapFind_eq_none.mp hfind) hwithin)).updated (ih h)
        | some prox =>
            rw [hfind] at h
            exact (turned_left hwithin (mem_bmapKeys.mpr ⟨prox, hfind⟩)).updated (ih h)

end

/-! ## All clients -/

/-- The snake of another client that is to be in this client's map. -/
def Nearby (s : Server) (proximityRange : Int) (e : NetAddr × ServerClient) (snakeId : UInt16) :
    Prop :=
  (∃ other ∈ s.clients.entries, other.1 ≠ e.1 ∧ other.2.snakeId = snakeId) ∧
    Within s.world proximityRange e.2 snakeId

section

variable {mem : Alloc} {settings : ServerSettings} {num : Numerics} {s s' : Server}
  {proximityRange : Int}

/-- The address and the snake of a client. -/
def nameOf (e : NetAddr × ServerClient) : NetAddr × UInt16 :=
  (e.1, e.2.snakeId)

/-- The other cells hold the clients with other addresses. -/
theorem mem_otherClients {t : Server} {slot : Nat} {e : NetAddr × ServerClient}
    (hnames : ∀ i, (t.clients.cell i).map nameOf = (s.clients.cell i).map nameOf)
    (hcell : s.clients.cell slot = some e) (k : UInt16) :
    k ∈ (otherClients t slot).map ServerClient.snakeId ↔
      ∃ other ∈ s.clients.entries, other.1 ≠ e.1 ∧ other.2.snakeId = k := by
  constructor
  · intro hk
    obtain ⟨record, hrecord, rfl⟩ := List.mem_map.mp hk
    obtain ⟨i, -, hi⟩ := List.mem_filterMap.mp hrecord
    by_cases hslot : i = slot
    · rw [if_pos hslot] at hi
      cases hi
    · rw [if_neg hslot] at hi
      obtain ⟨e₁, he₁, rfl⟩ := Option.map_eq_some_iff.mp hi
      have hname := hnames i
      rw [he₁, Option.map_some] at hname
      obtain ⟨other, hother, heq⟩ := Option.map_eq_some_iff.mp hname.symm
      refine ⟨other, ValidHm.mem_entries.mpr ⟨i, hother⟩, fun haddr => ?_, congrArg Prod.snd heq⟩
      exact hslot (ValidHm.cell_unique hother hcell (haddr ▸ SameKey.refl _ _))
  · rintro ⟨other, hother, hne, rfl⟩
    obtain ⟨i, hi⟩ := ValidHm.mem_entries.mp hother
    have hslot : i ≠ slot := by
      rintro rfl
      exact hne (congrArg Prod.fst (Option.some.inj (hi.symm.trans hcell)))
    have hname := hnames i
    rw [hi, Option.map_some] at hname
    obtain ⟨e₁, he₁, heq⟩ := Option.map_eq_some_iff.mp hname
    have hid : e₁.2.snakeId = other.2.snakeId := congrArg Prod.snd heq
    refine List.mem_map.mpr ⟨e₁.2, List.mem_filterMap.mpr ⟨i, ?_, ?_⟩, hid⟩
    · exact List.mem_range.mpr (ValidHm.lt_capacity_of_cell he₁)
    · rw [if_neg hslot, he₁]
      rfl

/-- What the loop has made of a client: it has looked at the snakes of all others. -/
def Refreshed (mem : Alloc) (s : Server) (proximityRange : Int) (e e' : NetAddr × ServerClient) :
    Prop :=
  e'.1 = e.1 ∧ ∃ ids, (∀ k, k ∈ ids ↔ ∃ other ∈ s.clients.entries, other.1 ≠ e.1 ∧
    other.2.snakeId = k) ∧ Updated mem s.world proximityRange ids e.2 e'.2

/-- **The loop over the clients** refreshes each of them. -/
theorem refreshed_of_ok (h : serverUpdateSnakesInRange mem s proximityRange = .ok s') :
    s'.world = s.world ∧
    (∀ e ∈ s.clients.entries, ∃ e' ∈ s'.clients.entries, Refreshed mem s proximityRange e e') ∧
    ∀ e' ∈ s'.clients.entries, ∃ e ∈ s.clients.entries, Refreshed mem s proximityRange e e' := by
  let inv (t : Server) : Prop :=
    t.world = s.world ∧ ∀ i, (t.clients.cell i).map nameOf = (s.clients.cell i).map nameOf
  have hbody : ∀ t t' slot addr record, inv t → t.clients.cell slot = some (addr, record) →
      (do
        let record ← updateSnakesInRangeOf mem t.world proximityRange (otherClients t slot) record
        return t.setClient slot record) = Except.ok t' →
      inv t' ∧ ∃ x, t'.clients.cells = t.clients.cells.set slot x ∧
        ∃ e', x = some e' ∧ Refreshed mem s proximityRange (addr, record) e' := by
    rintro t t' slot addr record ⟨hworld, hnames⟩ hcell hok
    obtain ⟨record', hupdate, hok⟩ := bind_eq_ok.mp hok
    cases hok
    have hupdated := updated_of_ok hupdate
    have hname := hnames slot
    rw [hcell, Option.map_some] at hname
    obtain ⟨e₀, he₀, heq⟩ := Option.map_eq_some_iff.mp hname.symm
    have haddr : e₀.1 = addr := congrArg Prod.fst heq
    have hmem := mem_otherClients hnames he₀
    rw [haddr] at hmem
    rw [hworld] at hupdated
    refine ⟨⟨hworld, fun i => ?_⟩, _, ValidHm.cells_set hcell record', _, rfl, rfl, _, hmem,
      hupdated⟩
    show ((t.clients.set slot record').cell i).map nameOf = _
    rw [ValidHm.cell_set hcell]
    by_cases hi : i = slot
    · rw [if_pos hi, hi, ← hnames slot, hcell]
      exact congrArg some (Prod.ext rfl hupdated.snakeId_eq)
    · rw [if_neg hi]
      exact hnames i
  obtain ⟨⟨hworld, -⟩, hcapacity, hcells⟩ :=
    forEachClient_cells inv (fun _ e x => ∃ e', x = some e' ∧ Refreshed mem s proximityRange e e')
      hbody List.nodup_range ⟨rfl, fun _ => rfl⟩ h
  refine ⟨hworld, fun e he => ?_, fun e' he' => ?_⟩
  · obtain ⟨slot, hslot⟩ := ValidHm.mem_entries.mp he
    have hcell := (hcells slot).2 (List.mem_range.mpr (ValidHm.lt_capacity_of_cell hslot))
    rw [hslot] at hcell
    obtain ⟨e', he', hrefreshed⟩ := hcell
    exact ⟨e', ValidHm.mem_entries.mpr ⟨slot, he'⟩, hrefreshed⟩
  · obtain ⟨slot, hslot⟩ := ValidHm.mem_entries.mp he'
    have hlt := ValidHm.lt_capacity_of_cell hslot
    rw [hcapacity] at hlt
    have hcell := (hcells slot).2 (List.mem_range.mpr hlt)
    cases hstart : s.clients.cell slot with
    | none =>
        rw [hstart] at hcell
        cases hslot.symm.trans hcell
    | some e =>
        rw [hstart] at hcell
        obtain ⟨e₁, he₁, hrefreshed⟩ := hcell
        cases hslot.symm.trans he₁
        exact ⟨e, ValidHm.mem_entries.mpr ⟨slot, hstart⟩, hrefreshed⟩

/-! ## Keys -/

/-- Every key of a map is the id of a snake. -/
def KeysFound (s : Server) : Prop :=
  ∀ e ∈ s.clients.entries, ∀ k ∈ bmapKeys e.2.snakesInProximity, k ∈ bmapKeys s.world

/-- Every key of a map is the id of another client, and of a snake. -/
structure Known (s : Server) : Prop where
  owner : ∀ e ∈ s.clients.entries, ∀ k ∈ bmapKeys e.2.snakesInProximity,
    ∃ other ∈ s.clients.entries, other.1 ≠ e.1 ∧ other.2.snakeId = k
  found : KeysFound s

/-- Clients that leave are in no map of those that stay. -/
theorem Known.left {gone : NetAddr × ServerClient → Prop} (h : Known s) (hleft : Left gone s s')
    (hunseen : ∀ e ∈ s.clients.entries, gone e → ∀ e' ∈ s.clients.entries, ¬ gone e' →
      e.2.snakeId ∉ bmapKeys e'.2.snakesInProximity) : Known s' := by
  constructor
  · intro e' he' k hk
    obtain ⟨e, he, hstay, hident⟩ := hleft.came e' he'
    obtain ⟨haddr, -, hprox⟩ := ident_inj hident
    rw [hprox] at hk
    obtain ⟨other, hother, hne, rfl⟩ := h.owner e he k hk
    have hothers : ¬ gone other := fun hgone => hunseen other hother hgone e he hstay hk
    obtain ⟨other', hother', hident'⟩ := hleft.stays other hother hothers
    obtain ⟨haddr', hid', -⟩ := ident_inj hident'
    exact ⟨other', hother', by rwa [haddr, haddr'], hid'⟩
  · intro e' he' k hk
    obtain ⟨e, he, hstay, hident⟩ := hleft.came e' he'
    rw [(ident_inj hident).2.2] at hk
    refine (hleft.world k).mpr ⟨h.found e he k hk, fun e₁ he₁ hgone => ?_⟩
    rintro rfl
    exact hunseen e₁ he₁ hgone e he hstay hk

/-- Clients may have joined, with empty maps. -/
structure Joined (s s' : Server) : Prop where
  stays : ∀ e ∈ s.clients.entries, ∃ e' ∈ s'.clients.entries, ident e' = ident e
  came : ∀ e' ∈ s'.clients.entries, (∃ e ∈ s.clients.entries, ident e' = ident e) ∨
    e'.2.snakesInProximity = none ∧ ∀ e ∈ s.clients.entries, e.1 ≠ e'.1
  world : ∀ k ∈ bmapKeys s.world, k ∈ bmapKeys s'.world

/-- A step that keeps the clients and the snake ids joins nobody. -/
theorem joined_of_eq (hclients : s'.clients = s.clients)
    (hworld : bmapKeys s'.world = bmapKeys s.world) : Joined s s' where
  stays := by
    rw [hclients]
    exact fun e he => ⟨e, he, rfl⟩
  came := by
    rw [hclients]
    exact fun e he => Or.inl ⟨e, he, rfl⟩
  world := fun k hk => by rwa [hworld]

/-- Between states with the same clients and snakes nobody joins. -/
theorem Same.joined (h : Same s s') : Joined s s' where
  stays := fun e he => h.stays e he not_false
  came := by
    intro e' he'
    obtain ⟨e, he, -, hident⟩ := h.came e' he'
    exact Or.inl ⟨e, he, hident⟩
  world := fun k hk => (h.world k).mpr ⟨hk, fun _ _ => False.elim⟩

/-- Joins go through two steps one after the other. -/
theorem Joined.trans {s₁ : Server} (h : Joined s s₁) (h' : Joined s₁ s') : Joined s s' where
  stays := by
    intro e he
    obtain ⟨e₁, he₁, hident₁⟩ := h.stays e he
    obtain ⟨e', he', hident⟩ := h'.stays e₁ he₁
    exact ⟨e', he', hident.trans hident₁⟩
  came := by
    intro e' he'
    rcases h'.came e' he' with ⟨e₁, he₁, hident₁⟩ | ⟨hprox, hnew⟩
    · rcases h.came e₁ he₁ with ⟨e, he, hident⟩ | ⟨hprox, hnew⟩
      · exact Or.inl ⟨e, he, hident₁.trans hident⟩
      · obtain ⟨haddr, -, hprox₁⟩ := ident_inj hident₁
        exact Or.inr ⟨hprox₁.trans hprox, fun e he => haddr ▸ hnew e he⟩
    · refine Or.inr ⟨hprox, fun e he => ?_⟩
      obtain ⟨e₁, he₁, hident₁⟩ := h.stays e he
      rw [← (ident_inj hident₁).1]
      exact hnew e₁ he₁
  world := fun k hk => h'.world k (h.world k hk)

/-- A key of a map was in the map before. -/
theorem Joined.key {e' : NetAddr × ServerClient} (h : Joined s s') (he' : e' ∈ s'.clients.entries)
    {k : UInt16} (hk : k ∈ bmapKeys e'.2.snakesInProximity) :
    ∃ e ∈ s.clients.entries, e.1 = e'.1 ∧ k ∈ bmapKeys e.2.snakesInProximity := by
  rcases h.came e' he' with ⟨e, he, hident⟩ | ⟨hprox, -⟩
  · obtain ⟨haddr, -, hprox⟩ := ident_inj hident
    exact ⟨e, he, haddr.symm, hprox ▸ hk⟩
  · rw [hprox] at hk
    cases hk

/-- Every id in a proximity set still names a snake after a join. -/
theorem KeysFound.joined (h : KeysFound s) (hjoined : Joined s s') : KeysFound s' := by
  intro e' he' k hk
  obtain ⟨e, he, -, hk⟩ := hjoined.key he' hk
  exact hjoined.world k (h e he k hk)

/-- What the records know stays known when clients join. -/
theorem Known.joined (h : Known s) (hjoined : Joined s s') : Known s' where
  owner := by
    intro e' he' k hk
    obtain ⟨e, he, haddr, hk⟩ := hjoined.key he' hk
    obtain ⟨other, hother, hne, rfl⟩ := h.owner e he k hk
    obtain ⟨other', hother', hident'⟩ := hjoined.stays other hother
    obtain ⟨haddr', hid', -⟩ := ident_inj hident'
    exact ⟨other', hother', by rwa [← haddr, haddr'], hid'⟩
  found := h.found.joined hjoined

/-- The keys are known after an update of the maps, since these hold what is nearby. -/
theorem nearby_of_refreshed (h : Known s) {e e' : NetAddr × ServerClient}
    (he : e ∈ s.clients.entries) (hrefreshed : Refreshed mem s proximityRange e e') (k : UInt16) :
    k ∈ bmapKeys e'.2.snakesInProximity ↔ Nearby s proximityRange e k := by
  obtain ⟨-, ids, hids, hupdated⟩ := hrefreshed
  rw [Nearby, ← hids]
  by_cases hk : k ∈ ids
  · rw [hupdated.seen k hk, and_iff_right hk]
  · rw [hupdated.unseen k hk]
    refine iff_of_false (fun hmem => hk ((hids k).mpr (h.owner e he k hmem))) fun hnear => ?_
    exact hk hnear.1

/-- What the records know stays known after a proximity update. -/
theorem Known.refreshed (h : Known s)
    (hok : serverUpdateSnakesInRange mem s proximityRange = .ok s') : Known s' := by
  obtain ⟨hworld, hstays, hcame⟩ := refreshed_of_ok hok
  constructor
  · intro e' he' k hk
    obtain ⟨e, he, hrefreshed⟩ := hcame e' he'
    obtain ⟨⟨other, hother, hne, rfl⟩, -⟩ := (nearby_of_refreshed h he hrefreshed k).mp hk
    obtain ⟨other', hother', haddr, ids, -, hupdated⟩ := hstays other hother
    exact ⟨other', hother', by rwa [haddr, hrefreshed.1], hupdated.snakeId_eq⟩
  · intro e' he' k hk
    obtain ⟨e, he, hrefreshed⟩ := hcame e' he'
    obtain ⟨-, snake, otherSnake, -, hfound, -⟩ := (nearby_of_refreshed h he hrefreshed k).mp hk
    rw [hworld]
    exact mem_bmapKeys.mpr ⟨otherSnake, findSnake_eq_ok.mp hfound⟩

/-! ## Events -/

/-- The event removes this client. -/
def Removes (settings : ServerSettings) (s : Server) (e : NetAddr × ServerClient) :
    ServerEvent → Prop
  | .timeouts => timedOut settings e.2 = true
  | .packet sender udpBuf => SameKey serverClientHm e.1 sender ∧
      hmFind netAddrHm s.bannedClients sender = .ok none ∧
      hmFind netAddrHm s.maliciousClients sender = .ok none ∧
      ∃ f ∈ frames udpBuf, f.dropsSender = true
  | .sendPending => packMsgs e.2.pendingMsgs = none
  | _ => False

/-- Creating a client joins it and keeps the others. -/
theorem joined_of_create {addr : NetAddr} {frame : UInt16} {slot : Nat}
    (h : createClient mem settings s addr frame = .ok (s', slot)) : Joined s s' := by
  obtain ⟨clients, world, snake, hemplace, hspawn, -, rfl⟩ := createClient_ok h
  obtain ⟨habsent, hperm, -⟩ := ValidHm.emplaceNew_some hemplace
  refine ⟨fun e he => ⟨e, hperm.mem_iff.mpr (List.mem_cons_of_mem _ he), rfl⟩, fun e' he' => ?_,
    fun k hk => ?_⟩
  · rcases List.mem_cons.mp (hperm.mem_iff.mp he') with rfl | hold
    · refine Or.inr ⟨rfl, fun e he haddr => ?_⟩
      obtain ⟨i, hi⟩ := ValidHm.mem_entries.mp he
      exact habsent ⟨i, e.1, e.2, hi, haddr ▸ SameKey.refl _ _⟩
    · exact Or.inl ⟨e', hold, rfl⟩
  · rw [bmapKeys_set]
    cases (worldSpawnSnake_spec hspawn).2 with
    | taken _ => exact hk
    | refused _ _ => exact hk
    | new _ _ hkeys _ => exact hkeys.mem_iff.mpr (List.mem_cons_of_mem _ hk)

/-- A packet from an address without a record can only create one. -/
theorem joined_processFrames {addr : NetAddr} {frame : UInt16} {fs : List Frame}
    (h : processFrames mem settings none addr frame fs s = .ok s') : Joined s s' := by
  induction fs generalizing s with
  | nil =>
      cases h
      exact joined_of_eq rfl rfl
  | cons f rest ih =>
      cases unknownFrame_of_ok h with
      | ends htype hsame =>
          rw [hsame]
          exact joined_of_eq rfl rfl
      | @denied _ _ _ _ m hkind hdenial hrest =>
          have hdenied : Joined s (sendMsg s addr m) := joined_of_eq rfl rfl
          exact hdenied.trans (ih hrest)
      | created hkind hdenial hcreate haccept hrest =>
          have hkept := kept_of_joinAccept (createClient_cell hcreate).1 haccept
          exact (joined_of_create hcreate).trans (hkept.same.joined.trans (ih hrest))

/-- **A packet** may add a client, or it removes its sender. -/
theorem packet_cases {sender : NetAddr} {udpBuf : List UInt8} {frame : UInt16}
    (h : receivePacket mem settings s sender udpBuf frame = .ok s') :
    Joined s s' ∨ Left (fun e => Removes settings s e (.packet sender udpBuf)) s s' := by
  cases received_of_ok h with
  | ignored => exact Or.inl (joined_of_eq rfl rfl)
  | punished hempty => exact Or.inl (joined_of_eq rfl rfl)
  | unknown hbanned hmalicious hfind hframes => exact Or.inl (joined_processFrames hframes)
  | @known slot a record _ hbanned hmalicious hcell hsame hframes =>
      have hcell₁ := cell_setClient hcell { record with timeoutCounter := 0 }
      have hheard := (@kept_setClient s slot a record { record with timeoutCounter := 0 } hcell
        rfl).same
      rcases processFrames_registered hcell₁ hsame hframes with ⟨-, hkept⟩ | ⟨hdrops, hremoved⟩
      · exact Or.inl (hheard.joined.trans hkept.same.joined)
      · right
        have hremoves : (fun e => Removes settings s e (.packet sender udpBuf)) =
            fun e : NetAddr × ServerClient => SameKey serverClientHm e.1 a := by
          funext e
          exact propext ⟨fun hr => hr.1.trans hsame.symm, fun hkey =>
            ⟨hkey.trans hsame, hbanned, hmalicious, hdrops⟩⟩
        rw [hremoves]
        refine hheard.trans (hremoved.left hcell₁) fun e e' hident => ?_
        rw [(ident_inj hident).1]

/-- Counting the timeouts removes exactly the clients that timed out. -/
theorem left_updateTimeouts (h : updateTimeouts settings s = .ok s') :
    Left (fun e => timedOut settings e.2 = true) s s' := by
  refine forEachClient_left (fun s s₁ slot addr record hcell hbody => ?_) h
  dsimp only at hbody
  by_cases htimedOut : timedOut settings record = true
  · rw [if_pos htimedOut] at hbody
    have hcell₁ := cell_setClient hcell { record with timeoutCounter := record.timeoutCounter + 1 }
    obtain ⟨s₂, hok, hcells, -, hworld, -⟩ := clientRemove_of_cell hcell₁ (SameKey.refl _ addr)
    cases hok.symm.trans hbody
    refine ⟨⟨none, ?_, .removed htimedOut⟩, fun k => ?_⟩
    · rw [hcells]
      show (s.clients.set slot _).cells.set slot none = _
      rw [ValidHm.cells_set hcell, List.set_set]
    · rw [hworld, mem_bmapKeys_erase]
      exact and_congr_right fun _ =>
        ⟨fun hne _ => Ne.symm hne, fun himp => Ne.symm (himp htimedOut)⟩
  · rw [if_neg htimedOut] at hbody
    cases hbody
    exact ⟨⟨_, ValidHm.cells_set hcell _, .kept htimedOut rfl⟩, fun k =>
      (and_iff_left fun hgone => absurd hgone htimedOut).symm⟩

/-- A loop that changes nothing that identifies a client. -/
theorem joined_of_forEach {body : Server → Nat → NetAddr → ServerClient → Except Fault Server}
    (hbody : ∀ s s' slot addr record, s.clients.cell slot = some (addr, record) →
      body s slot addr record = .ok s' → Kept slot s s') {slots : List Nat}
    (h : forEachClient body slots s = .ok s') : Joined s s' :=
  forEachClient_invariant (fun s₁ s₂ slot addr record hs hcell hok =>
    hs.trans (hbody s₁ s₂ slot addr record hcell hok).same.joined) (joined_of_eq rfl rfl) h

/-- Queueing handles keeps who the record belongs to. -/
theorem ident_queuePendingHandles {world : World} {addr : NetAddr}
    {entries : List (UInt16 × ProximityState)} {record record' : ServerClient}
    (h : queuePendingHandles mem world entries record = .ok record') :
    ident (addr, record') = ident (addr, record) := by
  induction entries generalizing record with
  | nil =>
      cases h
      rfl
  | cons entry rest ih =>
      obtain ⟨snake, -, h⟩ := bind_eq_ok.mp h
      rw [ih h]
      exact ident_pendingHandles addr _ _ _ _

/-- Queueing snake data joins nobody. -/
theorem joined_queueData {frame : UInt16} (h : serverQueueSnakeData mem s frame = .ok s') :
    Joined s s' := by
  obtain ⟨s₁, hheads, hdata⟩ := bind_eq_ok.mp h
  refine Joined.trans (joined_of_forEach ?_ hheads) (joined_of_forEach ?_ hdata)
  · intro s s' slot addr record hcell hok
    obtain ⟨snake, -, hok⟩ := bind_eq_ok.mp hok
    split at hok
    · cases hok
      exact Kept.refl hcell
    · cases hok
      exact kept_setClient hcell rfl
  · intro s s' slot addr record hcell hok
    obtain ⟨record', hqueue, hok⟩ := bind_eq_ok.mp hok
    cases hok
    exact kept_setClient hcell (ident_queuePendingHandles hqueue)

/-- The loop over the snakes in proximity returns if there is a snake for each key. -/
theorem queueBezierData_total (h : KeysFound s) : ∃ s', queueBezierData mem s = .ok s' := by
  have hone (world : World) (entries : List (UInt16 × ProximityState))
      (hentries : ∀ entry ∈ entries, entry.1 ∈ bmapKeys world) (record : ServerClient) :
      ∃ record', queuePendingHandles mem world entries record = .ok record' := by
    induction entries generalizing record with
    | nil => exact ⟨record, rfl⟩
    | cons entry rest ih =>
        obtain ⟨hentry, hrest⟩ := List.forall_mem_cons.mp hentries
        obtain ⟨snake, hsnake⟩ := findSnake_of_mem hentry
        rw [queuePendingHandles, hsnake]
        exact ih hrest _
  have hbody (t : Server) (slot : Nat) (addr : NetAddr) (record : ServerClient) (ht : KeysFound t)
      (hcell : t.clients.cell slot = some (addr, record)) :
      ∃ t', (do
        let record ← queuePendingHandles mem t.world
          (bmapEntries record.snakesInProximity).entries record
        return t.setClient slot record) = Except.ok t' ∧ KeysFound t' := by
    obtain ⟨record', hqueue⟩ := hone t.world (bmapEntries record.snakesInProximity).entries
      (fun entry hentry => ht _ (ValidHm.mem_entries.mpr ⟨slot, hcell⟩) _
        (List.mem_map_of_mem hentry)) record
    refine ⟨t.setClient slot record', by rw [hqueue]; rfl, ht.joined ?_⟩
    exact (kept_setClient hcell (ident_queuePendingHandles hqueue)).same.joined
  obtain ⟨s', hloop, -⟩ := forEachClient_total hbody s.slots h
  exact ⟨s', hloop⟩

/-- The simulation keeps the ids of the snakes. -/
theorem keys_simUpdateLoop {frame : UInt16} {ids : List UInt16} {world world' : World}
    (h : simUpdateLoop mem settings num frame ids world = .ok world') :
    bmapKeys world' = bmapKeys world := by
  induction ids generalizing world with
  | nil =>
      cases h
      rfl
  | cons id rest ih =>
      obtain ⟨snake, -, h⟩ := bind_eq_ok.mp h
      obtain ⟨snake', -, h⟩ := bind_eq_ok.mp h
      rw [ih h, bmapKeys_set]

/-- **An event** adds a client, or it removes some, or it is an update of the maps. -/
theorem event_cases {r r' : ServerRun} {event : ServerEvent}
    (hevent : ∀ proximityRange, event ≠ .snakesInRange proximityRange)
    (h : serverEvent mem settings num r event = .ok r') :
    Joined r.server r'.server ∨
      Left (fun e => Removes settings r.server e event) r.server r'.server := by
  cases event with
  | snakesInRange proximityRange => exact absurd rfl (hevent proximityRange)
  | nextFrame =>
      cases h
      exact Or.inl (joined_of_eq rfl rfl)
  | timeouts => exact Or.inr (left_updateTimeouts (server_of_ok h))
  | malicious =>
      obtain ⟨malicious, -, hs⟩ := bind_eq_ok.mp (server_of_ok h)
      rw [← Except.ok.inj hs]
      exact Or.inl (joined_of_eq rfl rfl)
  | packet sender udpBuf => exact packet_cases (server_of_ok h)
  | simulate =>
      obtain ⟨world, hloop, hs⟩ := bind_eq_ok.mp (server_of_ok h)
      rw [← Except.ok.inj hs]
      exact Or.inl (joined_of_eq rfl (keys_simUpdateLoop hloop))
  | queueData => exact Or.inl (joined_queueData (server_of_ok h))
  | sendPending => exact Or.inr (left_sendPendingData (server_of_ok h))

/-! ## Runs -/

/-- A client that stays has the snake of no client that leaves in its map, and there is space for
what the clients are to be told about the snakes in range. -/
structure ProximityKept (mem : Alloc) (settings : ServerSettings) (s : Server)
    (event : ServerEvent) : Prop where
  unseen : ∀ e ∈ s.clients.entries, Removes settings s e event →
    ∀ e' ∈ s.clients.entries, ¬ Removes settings s e' event →
      e.2.snakeId ∉ bmapKeys e'.2.snakesInProximity
  room : ∀ proximityRange, event = .snakesInRange proximityRange → ∀ e ∈ s.clients.entries,
    ∀ changed, Changed (fun k => k ∈ bmapKeys e.2.snakesInProximity) (Nearby s proximityRange e)
      changed → vecTakesAll mem e.2.pendingMsgs (changed.flatMap (changeMsgs s.world e.2)) = true

/-- The client is told about each snake that has entered its map or left it, and nothing else. -/
def Announced (world : World) (record record' : ServerClient) : Prop :=
  ∃ changed, Changed (fun k => k ∈ bmapKeys record.snakesInProximity)
      (fun k => k ∈ bmapKeys record'.snakesInProximity) changed ∧
    record'.pendingMsgs.items =
      record.pendingMsgs.items ++ changed.flatMap (changeMsgs world record)

/-- The maps after an event. -/
structure ProximityExact (mem : Alloc) (r : ServerRun) (event : ServerEvent) (r' : ServerRun) :
    Prop where
  /-- An update makes each map exact and announces the changes. -/
  updated : ∀ proximityRange, event = .snakesInRange proximityRange →
    ∀ e' ∈ r'.server.clients.entries,
      (∀ k, k ∈ bmapKeys e'.2.snakesInProximity ↔ Nearby r'.server proximityRange e' k) ∧
      ∃ e ∈ r.server.clients.entries, e.1 = e'.1 ∧ Announced r.server.world e.2 e'.2
  /-- No other event changes the map of a client, and a new client has an empty one. -/
  steady : (∀ proximityRange, event ≠ .snakesInRange proximityRange) →
    ∀ e' ∈ r'.server.clients.entries,
      (∃ e ∈ r.server.clients.entries,
        e.1 = e'.1 ∧ e'.2.snakesInProximity = e.2.snakesInProximity) ∨
      e'.2.snakesInProximity = none ∧ ∀ e ∈ r.server.clients.entries, e.1 ≠ e'.1
  /-- Every key that the server looks up is the id of a snake. -/
  found : ∀ e' ∈ r'.server.clients.entries, ∀ k ∈ bmapKeys e'.2.snakesInProximity,
    ∃ snake, findSnake r'.server.world k = .ok snake
  /-- So the loop over the snakes in proximity returns. -/
  queues : ∃ s, queueBezierData mem r'.server = .ok s

/-- What is nearby is the same after an update of the maps. -/
theorem nearby_refreshed (hok : serverUpdateSnakesInRange mem s proximityRange = .ok s')
    {e e' : NetAddr × ServerClient} (hrefreshed : Refreshed mem s proximityRange e e')
    (k : UInt16) : Nearby s' proximityRange e' k ↔ Nearby s proximityRange e k := by
  obtain ⟨hworld, hstays, hcame⟩ := refreshed_of_ok hok
  obtain ⟨haddr, ids, -, hupdated⟩ := hrefreshed
  rw [Nearby, Nearby, hworld, haddr, within_congr hupdated.snakeId_eq]
  refine and_congr_left fun _ => ⟨?_, ?_⟩
  · rintro ⟨other', hother', hne, rfl⟩
    obtain ⟨other, hother, haddr', ids', -, hupdated'⟩ := hcame other' hother'
    exact ⟨other, hother, by rwa [← haddr'], hupdated'.snakeId_eq.symm⟩
  · rintro ⟨other, hother, hne, rfl⟩
    obtain ⟨other', hother', haddr', ids', -, hupdated'⟩ := hstays other hother
    exact ⟨other', hother', by rwa [haddr'], hupdated'.snakeId_eq⟩

/-- With room in the pending list, every change of proximity is announced by its messages. -/
theorem announced_of_refreshed (h : Known s) {e e' : NetAddr × ServerClient}
    (he : e ∈ s.clients.entries) (hrefreshed : Refreshed mem s proximityRange e e')
    (hroom : ∀ changed, Changed (fun k => k ∈ bmapKeys e.2.snakesInProximity)
      (Nearby s proximityRange e) changed →
        vecTakesAll mem e.2.pendingMsgs (changed.flatMap (changeMsgs s.world e.2)) = true) :
    Announced s.world e.2 e'.2 := by
  have hkeys := nearby_of_refreshed h he hrefreshed
  obtain ⟨-, ids, -, hupdated⟩ := hrefreshed
  obtain ⟨changed, hchanged, hpending⟩ := hupdated.told
  refine ⟨changed, hchanged, ?_⟩
  rw [hpending]
  refine items_foldl_vecPush (hroom changed ⟨hchanged.nodup, fun k => ?_⟩)
  rw [← hkeys]
  exact hchanged.mem k

/-- **One event.** -/
theorem Known.event {r r' : ServerRun} {event : ServerEvent} (h : Known r.server)
    (hcond : ProximityKept mem settings r.server event)
    (hok : serverEvent mem settings num r event = .ok r') :
    Known r'.server ∧ ProximityExact mem r event r' := by
  have hexact (hknown : Known r'.server)
      (hupdated : ∀ proximityRange, event = .snakesInRange proximityRange →
        ∀ e' ∈ r'.server.clients.entries,
          (∀ k, k ∈ bmapKeys e'.2.snakesInProximity ↔ Nearby r'.server proximityRange e' k) ∧
          ∃ e ∈ r.server.clients.entries, e.1 = e'.1 ∧ Announced r.server.world e.2 e'.2)
      (hsteady : (∀ proximityRange, event ≠ .snakesInRange proximityRange) →
        ∀ e' ∈ r'.server.clients.entries, (∃ e ∈ r.server.clients.entries, ident e' = ident e) ∨
          e'.2.snakesInProximity = none ∧ ∀ e ∈ r.server.clients.entries, e.1 ≠ e'.1) :
      Known r'.server ∧ ProximityExact mem r event r' := by
    refine ⟨hknown, hupdated, fun hevent e' he' => ?_,
      fun e' he' k hk => findSnake_of_mem (hknown.found e' he' k hk),
      queueBezierData_total hknown.found⟩
    refine (hsteady hevent e' he').imp_left ?_
    rintro ⟨e, he, hident⟩
    exact ⟨e, he, (ident_inj hident).1.symm, (ident_inj hident).2.2⟩
  by_cases hevent : ∃ proximityRange, event = .snakesInRange proximityRange
  · obtain ⟨proximityRange, rfl⟩ := hevent
    obtain ⟨s', hupdate, hok⟩ := bind_eq_ok.mp hok
    cases hok
    refine hexact (h.refreshed hupdate) (fun range hrange e' he' => ?_)
      (fun hne => absurd rfl (hne proximityRange))
    cases hrange
    obtain ⟨e, he, hrefreshed⟩ := (refreshed_of_ok hupdate).2.2 e' he'
    refine ⟨fun k => ?_, e, he, hrefreshed.1.symm,
      announced_of_refreshed h he hrefreshed (hcond.room proximityRange rfl e he)⟩
    exact (nearby_of_refreshed h he hrefreshed k).trans (nearby_refreshed hupdate hrefreshed k).symm
  · have hother (proximityRange : Int) : event ≠ .snakesInRange proximityRange :=
      fun heq => hevent ⟨proximityRange, heq⟩
    rcases event_cases hother hok with hjoined | hleft
    · exact hexact (h.joined hjoined) (fun range hrange => absurd hrange (hother range))
        fun _ e' he' => hjoined.came e' he'
    · refine hexact (h.left hleft hcond.unseen) (fun range hrange => absurd hrange (hother range))
        fun _ e' he' => ?_
      obtain ⟨e, he, -, hident⟩ := hleft.came e' he'
      exact Or.inl ⟨e, he, hident⟩

end

/-- **The maps are exact** after each update, and every key in them is the id of a snake at any
time, in all runs in which nobody leaves who is in the map of a client that stays. -/
theorem proximity_exact (mem : Alloc) (settings : ServerSettings) (num : Numerics)
    (events : List ServerEvent)
    (hkept : Run.Meets (serverEvent mem settings num)
      (fun r event => ProximityKept mem settings r.server event) serverRunInit events) :
    Run.EverySafe (serverEvent mem settings num) (ProximityExact mem) (fun _ => True)
      serverRunInit events := by
  have hinit : Known serverRunInit.server := by
    constructor
    · intro e he
      cases he
    · intro e he
      cases he
  have hkeeps (r : ServerRun) (event : ServerEvent) (r' : ServerRun) (hr : Known r.server)
      (hcond : ProximityKept mem settings r.server event)
      (h : serverEvent mem settings num r event = .ok r') :
      Known r'.server ∧ ProximityExact mem r event r' := hr.event hcond h
  exact @Run.everySafe_of_meets _ _ _ _ (fun r => Known r.server) _ _ hkeeps _ _ hinit hkept

/-! ## With memory for every request -/

instance decidableRemoves (settings : ServerSettings) (s : Server) (e : NetAddr × ServerClient) :
    (event : ServerEvent) → Decidable (Removes settings s e event)
  | .timeouts => inferInstanceAs (Decidable (_ = _))
  | .packet _ _ => inferInstanceAs (Decidable ((_ = _ ∧ _ = _) ∧ _ = _ ∧ _ = _ ∧ ∃ _ ∈ _, _))
  | .sendPending => inferInstanceAs (Decidable (_ = _))
  | .malicious | .simulate | .snakesInRange _ | .queueData | .nextFrame => isFalse not_false

/-- Whoever leaves is in no map, and nobody is told more than a queue can hold. -/
abbrev LeavesUnseen (settings : ServerSettings) (s : Server) (event : ServerEvent) : Prop :=
  (∀ e ∈ s.clients.entries, Removes settings s e event →
    ∀ e' ∈ s.clients.entries, ¬ Removes settings s e' event →
      e.2.snakeId ∉ bmapKeys e'.2.snakesInProximity) ∧
  ∀ e ∈ s.clients.entries, e.2.pendingMsgs.items.length +
    ((bmapKeys e.2.snakesInProximity ++ s.clients.entries.map fun other => other.2.snakeId).flatMap
      (changeMsgs s.world e.2)).length ≤ 2 ^ 14

/-- Without a limit on memory the condition is only that nobody seen leaves. -/
theorem proximityKept_unlimited {settings : ServerSettings} {s : Server} {event : ServerEvent}
    (h : LeavesUnseen settings s event) : ProximityKept Alloc.unlimited settings s event where
  unseen := h.1
  room := by
    intro proximityRange _ e he changed hchanged
    have hsub : changed ⊆ bmapKeys e.2.snakesInProximity ++
        s.clients.entries.map fun other => other.2.snakeId := by
      intro k hk
      rw [List.mem_append, or_iff_not_imp_left]
      intro hkey
      have hnear : Nearby s proximityRange e k :=
        (not_iff.mp ((hchanged.mem k).mp hk)).mp hkey
      obtain ⟨⟨other, hother, -, rfl⟩, -⟩ := hnear
      exact List.mem_map_of_mem hother
    obtain ⟨ids, hperm, hsublist⟩ := hchanged.nodup.subperm hsub
    have hlength := (hsublist.flatMap (changeMsgs s.world e.2)).length_le
    rw [(hperm.flatMap_right _).length_eq] at hlength
    have hfits := h.2 e he
    exact vecTakesAll_unlimited (by omega)

/-- A client leaves before anybody has seen it, and the other two meet. -/
def leavesUnseenRun : List ServerEvent :=
  oneOfTwoLeaves 40001 ++ [thirdJoins, .snakesInRange 163840, .queueData]

/-- A run with joins, a meeting and a leave: proximity is exact in every state of it. -/
theorem proximity_exact_unseen :
    Run.EverySafe (serverEvent Alloc.unlimited serverSettingsDefaults eastward)
      (ProximityExact Alloc.unlimited) (fun _ => True) serverRunInit leavesUnseenRun := by
  have hunseen : Run.Meets (serverEvent Alloc.unlimited serverSettingsDefaults eastward)
      (fun r event => LeavesUnseen serverSettingsDefaults r.server event) serverRunInit
      leavesUnseenRun := by decide +kernel
  exact proximity_exact Alloc.unlimited serverSettingsDefaults eastward leavesUnseenRun
    (Run.meets_mono (fun _ _ => proximityKept_unlimited) hunseen)

/-- Two clients join and meet. -/
def meetingEvents : List ServerEvent :=
  [.packet (loopback 40000) (joinPacket (cString "a")),
    .packet (loopback 40001) (joinPacket (cString "b")), .snakesInRange 163840]

/-- One of them leaves. -/
def secondLeaves : ServerEvent :=
  .packet (loopback 40001) (msgBytes msgLeave)

/-- **The snake that has left is still in the map**, and the next loop over the snakes in proximity
uses the null pointer that the lookup returns. -/
theorem removed_still_near :
    (∃ r r' : ServerRun,
      Run.run (serverEvent Alloc.unlimited serverSettingsDefaults eastward) serverRunInit
        meetingEvents = .ok r ∧
      serverEvent Alloc.unlimited serverSettingsDefaults eastward r secondLeaves = .ok r' ∧
      queueBezierData Alloc.unlimited r'.server = .error .nullSnake) ∧
    ¬ Run.EverySafe (serverEvent Alloc.unlimited serverSettingsDefaults eastward)
      (ProximityExact Alloc.unlimited) (fun _ => True) serverRunInit
      (meetingEvents ++ [secondLeaves]) := by
  have h : (do
      let r ← Run.run (serverEvent Alloc.unlimited serverSettingsDefaults eastward) serverRunInit
        meetingEvents
      let r' ← serverEvent Alloc.unlimited serverSettingsDefaults eastward r secondLeaves
      return decide (queueBezierData Alloc.unlimited r'.server = .error .nullSnake)) =
      Except.ok true := by decide +kernel
  obtain ⟨r, hr, h⟩ := bind_eq_ok.mp h
  obtain ⟨r', hr', h⟩ := bind_eq_ok.mp h
  rw [pure_eq_ok, Except.ok.injEq, decide_eq_true_eq] at h
  refine ⟨⟨r, r', hr, hr', h⟩, fun hsafe => ?_⟩
  obtain ⟨s, hs⟩ := (Run.effect_of_everySafe hsafe hr hr').queues
  cases h.symm.trans hs

end Clither
