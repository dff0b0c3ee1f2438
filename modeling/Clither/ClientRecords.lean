import Clither.Server

/-!
# The records of the clients

Nearly everything the server does changes one client record or removes one
client together with its snake.  `Kept` is the first of these for a record
behind a pointer, and `Left` sums both up for a whole function: the clients that
satisfy a predicate are gone, with their snakes, and all others are still there
with the same snake id and the same snakes in proximity.

`forEachClient_left` brings a body that does this to one client to the loop over
all of them.
-/

namespace Clither

open Faults (bind_eq_ok)

/-- What the server tells clients apart by, and what a client's record says about
other clients. -/
def ident (e : NetAddr × ServerClient) :
    NetAddr × UInt16 × Bmap proximityStateBmap ProximityState :=
  (e.1, e.2.snakeId, e.2.snakesInProximity)

/-- Two records of one identity share address, snake id and proximity. -/
theorem ident_inj {e e' : NetAddr × ServerClient} (h : ident e' = ident e) :
    e'.1 = e.1 ∧ e'.2.snakeId = e.2.snakeId ∧ e'.2.snakesInProximity = e.2.snakesInProximity := by
  simpa only [ident, Prod.mk.injEq] using h

/-! ## Pointers -/

/-- The pointer to a cell in use is a record. -/
theorem client_of_cell {s : Server} {slot : Nat} {addr : NetAddr} {record : ServerClient}
    (h : s.clients.cell slot = some (addr, record)) : s.client (some slot) = .ok (slot, record) := by
  rw [Server.client, h]

/-- The pointer to an empty cell is stale. -/
theorem client_of_empty {s : Server} {slot : Nat} (h : s.clients.cell slot = none) :
    s.client (some slot) = .error .staleClient := by
  rw [Server.client, h]

/-- The record that was stored is in the cell. -/
theorem cell_setClient {s : Server} {slot : Nat} {addr : NetAddr} {record : ServerClient}
    (h : s.clients.cell slot = some (addr, record)) (record' : ServerClient) :
    (s.setClient slot record').clients.cell slot = some (addr, record') :=
  (ValidHm.cell_set h record' slot).trans (if_pos rfl)

/-- Removing a client that is there erases its record and its snake. -/
theorem clientRemove_of_cell {s : Server} {slot : Nat} {a addr : NetAddr} {record : ServerClient}
    (h : s.clients.cell slot = some (a, record)) (hsame : SameKey serverClientHm a addr) :
    ∃ s', clientRemove s addr (some slot) = .ok s' ∧
      s'.clients.cells = s.clients.cells.set slot none ∧
      s'.clients.count = s.clients.count - 1 ∧
      s'.world = bmapErase s.world record.snakeId ∧
      s'.maliciousClients = s.maliciousClients ∧ s'.bannedClients = s.bannedClients ∧
      s'.sent = s.sent := by
  obtain ⟨clients, herase, hcells, hcount⟩ := ValidHm.erase_of_cell h hsame
  refine ⟨{ s with clients := clients, world := worldRemoveSnake s.world record.snakeId }, ?_,
    hcells, hcount, rfl, rfl, rfl, rfl⟩
  simp only [clientRemove, client_of_cell h, herase, ok_bind, pure_eq_ok]

/-- Removing through a bad pointer faults as the pointer does. -/
theorem clientRemove_of_error {s : Server} {addr : NetAddr} {client : Option Nat} {f : Fault}
    (h : s.client client = .error f) : clientRemove s addr client = .error f := by
  rw [clientRemove, h]
  rfl

/-! ## One record -/

/-- The record in a cell has changed, but not in what identifies it, and so may
have the snakes themselves. -/
structure Kept (slot : Nat) (s s' : Server) : Prop where
  cell : ∃ addr record record', s.clients.cell slot = some (addr, record) ∧
    s'.clients.cell slot = some (addr, record') ∧ ident (addr, record') = ident (addr, record)
  others : ∀ i, i ≠ slot → s'.clients.cell i = s.clients.cell i
  count : s'.clients.count = s.clients.count
  capacity : s'.clients.capacity = s.clients.capacity
  world : bmapKeys s'.world = bmapKeys s.world
  malicious : s'.maliciousClients = s.maliciousClients
  banned : s'.bannedClients = s.bannedClients

/-- Doing nothing keeps the record. -/
theorem Kept.refl {s : Server} {slot : Nat} {addr : NetAddr} {record : ServerClient}
    (h : s.clients.cell slot = some (addr, record)) : Kept slot s s where
  cell := ⟨addr, record, record, h, h, rfl⟩
  others := fun _ _ => rfl
  count := rfl
  capacity := rfl
  world := rfl
  malicious := rfl
  banned := rfl

/-- Keeping goes through two steps one after the other. -/
theorem Kept.trans {s s₁ s₂ : Server} {slot : Nat} (h : Kept slot s s₁) (h' : Kept slot s₁ s₂) :
    Kept slot s s₂ where
  cell := by
    obtain ⟨addr, record, record₁, hcell, hcell₁, hident⟩ := h.cell
    obtain ⟨addr', record', record₂, hcell', hcell₂, hident'⟩ := h'.cell
    cases hcell₁.symm.trans hcell'
    exact ⟨addr, record, record₂, hcell, hcell₂, hident'.trans hident⟩
  others := fun i hi => (h'.others i hi).trans (h.others i hi)
  count := h'.count.trans h.count
  capacity := h'.capacity.trans h.capacity
  world := h'.world.trans h.world
  malicious := h'.malicious.trans h.malicious
  banned := h'.banned.trans h.banned

/-- Storing a record of the same identity keeps it. -/
theorem kept_setClient {s : Server} {slot : Nat} {addr : NetAddr} {record record' : ServerClient}
    (h : s.clients.cell slot = some (addr, record))
    (hident : ident (addr, record') = ident (addr, record)) : Kept slot s (s.setClient slot record') where
  cell := ⟨addr, record, record', h, cell_setClient h record', hident⟩
  others := fun i hi => (ValidHm.cell_set h record' i).trans (if_neg hi)
  count := ValidHm.count_set _ _ _
  capacity := ValidHm.capacity_of_cells_set (ValidHm.cells_set h record')
  world := rfl
  malicious := rfl
  banned := rfl

/-! ## All records -/

/-- The clients with `gone` have been removed with their snakes, and the others
are still there. -/
structure Left (gone : NetAddr × ServerClient → Prop) (s s' : Server) : Prop where
  stays : ∀ e ∈ s.clients.entries, ¬ gone e → ∃ e' ∈ s'.clients.entries, ident e' = ident e
  came : ∀ e' ∈ s'.clients.entries, ∃ e ∈ s.clients.entries, ¬ gone e ∧ ident e' = ident e
  world : ∀ k, k ∈ bmapKeys s'.world ↔
    k ∈ bmapKeys s.world ∧ ∀ e ∈ s.clients.entries, gone e → e.2.snakeId ≠ k

/-- What has become of a cell. -/
inductive CellLeft (gone : NetAddr × ServerClient → Prop) :
    Option (NetAddr × ServerClient) → Option (NetAddr × ServerClient) → Prop where
  | empty : CellLeft gone none none
  | removed {e : NetAddr × ServerClient} (hgone : gone e) : CellLeft gone (some e) none
  | kept {e e' : NetAddr × ServerClient} (hstay : ¬ gone e) (hident : ident e' = ident e) :
      CellLeft gone (some e) (some e')

/-- It is enough to look at each cell. -/
theorem left_of_cells {gone : NetAddr × ServerClient → Prop} {s s' : Server}
    (hcells : ∀ slot, CellLeft gone (s.clients.cell slot) (s'.clients.cell slot))
    (hworld : ∀ k, k ∈ bmapKeys s'.world ↔ k ∈ bmapKeys s.world ∧
      ∀ slot e, s.clients.cell slot = some e → gone e → e.2.snakeId ≠ k) : Left gone s s' where
  stays := by
    intro e he hstay
    obtain ⟨slot, hslot⟩ := ValidHm.mem_entries.mp he
    have hcell := hcells slot
    rw [hslot] at hcell
    generalize hslot' : s'.clients.cell slot = o at hcell
    cases hcell with
    | removed hgone => exact absurd hgone hstay
    | kept _ hident => exact ⟨_, ValidHm.mem_entries.mpr ⟨slot, hslot'⟩, hident⟩
  came := by
    intro e' he'
    obtain ⟨slot, hslot'⟩ := ValidHm.mem_entries.mp he'
    have hcell := hcells slot
    rw [hslot'] at hcell
    generalize hslot : s.clients.cell slot = o at hcell
    cases hcell with
    | kept hstay hident => exact ⟨_, ValidHm.mem_entries.mpr ⟨slot, hslot⟩, hstay, hident⟩
  world := by
    intro k
    rw [hworld]
    refine and_congr_right fun _ => ⟨?_, ?_⟩
    · intro h e he
      obtain ⟨slot, hslot⟩ := ValidHm.mem_entries.mp he
      exact h slot e hslot
    · intro h slot e hslot
      exact h e (ValidHm.mem_entries.mpr ⟨slot, hslot⟩)

/-- Nobody has left. -/
abbrev Same (s s' : Server) : Prop :=
  Left (fun _ => False) s s'

/-- Keeping a record keeps everything the state has in common. -/
theorem Kept.same {s s' : Server} {slot : Nat} (h : Kept slot s s') : Same s s' := by
  refine left_of_cells ?_ fun k => by simp [h.world]
  intro i
  by_cases hi : i = slot
  · obtain ⟨addr, record, record', hcell, hcell', hident⟩ := h.cell
    rw [hi, hcell, hcell']
    exact .kept not_false hident
  · rw [h.others i hi]
    cases s.clients.cell i with
    | none => exact .empty
    | some e => exact .kept not_false rfl

/-- First nobody leaves, then some do. -/
theorem Same.trans {gone : NetAddr × ServerClient → Prop} {s s₁ s₂ : Server} (h : Same s s₁)
    (h' : Left gone s₁ s₂) (hgone : ∀ e e', ident e' = ident e → (gone e' ↔ gone e)) :
    Left gone s s₂ where
  stays := by
    intro e he hstay
    obtain ⟨e₁, he₁, hident₁⟩ := h.stays e he not_false
    obtain ⟨e₂, he₂, hident₂⟩ := h'.stays e₁ he₁ ((hgone e e₁ hident₁).not.mpr hstay)
    exact ⟨e₂, he₂, hident₂.trans hident₁⟩
  came := by
    intro e₂ he₂
    obtain ⟨e₁, he₁, hstay, hident₂⟩ := h'.came e₂ he₂
    obtain ⟨e, he, -, hident₁⟩ := h.came e₁ he₁
    exact ⟨e, he, (hgone e e₁ hident₁).not.mp hstay, hident₂.trans hident₁⟩
  world := by
    intro k
    rw [h'.world, h.world]
    constructor
    · intro ⟨⟨hk, _⟩, hleft⟩
      refine ⟨hk, fun e he hg => ?_⟩
      obtain ⟨e₁, he₁, hident₁⟩ := h.stays e he not_false
      rw [← (ident_inj hident₁).2.1]
      exact hleft e₁ he₁ ((hgone e e₁ hident₁).mpr hg)
    · intro ⟨hk, hleft⟩
      refine ⟨⟨hk, fun _ _ => False.elim⟩, fun e₁ he₁ hg => ?_⟩
      obtain ⟨e, he, -, hident₁⟩ := h.came e₁ he₁
      rw [(ident_inj hident₁).2.1]
      exact hleft e he ((hgone e e₁ hident₁).mp hg)

/-! ## The loop over the clients -/

/-- **Invariant rule** for `forEachClient`. -/
theorem forEachClient_invariant {body : Server → Nat → NetAddr → ServerClient → Except Fault Server}
    {inv : Server → Prop}
    (hbody : ∀ s s' slot addr record, inv s → s.clients.cell slot = some (addr, record) →
      body s slot addr record = .ok s' → inv s')
    {slots : List Nat} {s s' : Server} (hs : inv s) (h : forEachClient body slots s = .ok s') :
    inv s' := by
  induction slots generalizing s with
  | nil =>
      cases h
      exact hs
  | cons slot rest ih =>
      rw [forEachClient] at h
      cases hcell : s.clients.cell slot with
      | none =>
          rw [hcell] at h
          exact ih hs h
      | some e =>
          rw [hcell] at h
          obtain ⟨s₁, hs₁, h⟩ := bind_eq_ok.mp h
          exact ih (hbody s s₁ slot e.1 e.2 hs hcell hs₁) h

/-- **Total rule** for `forEachClient`. -/
theorem forEachClient_total {body : Server → Nat → NetAddr → ServerClient → Except Fault Server}
    {inv : Server → Prop}
    (hbody : ∀ s slot addr record, inv s → s.clients.cell slot = some (addr, record) →
      ∃ s', body s slot addr record = .ok s' ∧ inv s')
    (slots : List Nat) {s : Server} (hs : inv s) :
    ∃ s', forEachClient body slots s = .ok s' ∧ inv s' := by
  induction slots generalizing s with
  | nil => exact ⟨s, rfl, hs⟩
  | cons slot rest ih =>
      rw [forEachClient]
      cases hcell : s.clients.cell slot with
      | none => exact ih hs
      | some e =>
          obtain ⟨s₁, hbody₁, hs₁⟩ := hbody s slot e.1 e.2 hs hcell
          obtain ⟨s', hloop, hs'⟩ := ih hs₁
          exact ⟨s', by simp only [hbody₁, ok_bind, hloop], hs'⟩

/-- **Cell rule** for `forEachClient`: a body that overwrites its own cell is run
once for each cell, in a state where that cell is still as it was. -/
theorem forEachClient_cells {body : Server → Nat → NetAddr → ServerClient → Except Fault Server}
    (inv : Server → Prop)
    (done : Nat → NetAddr × ServerClient → Option (NetAddr × ServerClient) → Prop)
    (hbody : ∀ s s' slot addr record, inv s → s.clients.cell slot = some (addr, record) →
      body s slot addr record = .ok s' →
      inv s' ∧ ∃ x, s'.clients.cells = s.clients.cells.set slot x ∧ done slot (addr, record) x)
    {slots : List Nat} (hnodup : slots.Nodup) {s s' : Server} (hs : inv s)
    (h : forEachClient body slots s = .ok s') :
    inv s' ∧ s'.clients.capacity = s.clients.capacity ∧
    ∀ slot, (slot ∉ slots → s'.clients.cell slot = s.clients.cell slot) ∧
      (slot ∈ slots → match s.clients.cell slot with
        | none => s'.clients.cell slot = none
        | some e => done slot e (s'.clients.cell slot)) := by
  induction slots generalizing s with
  | nil =>
      cases h
      exact ⟨hs, rfl, fun slot => ⟨fun _ => rfl, fun hmem => absurd hmem List.not_mem_nil⟩⟩
  | cons slot rest ih =>
      obtain ⟨hfresh, hrest⟩ := List.nodup_cons.mp hnodup
      rw [forEachClient] at h
      cases hcell : s.clients.cell slot with
      | none =>
          rw [hcell] at h
          obtain ⟨hs', hcap, hcells⟩ := ih hrest hs h
          refine ⟨hs', hcap, fun i => ⟨fun hi => ?_, fun hi => ?_⟩⟩
          · exact (hcells i).1 fun hmem => hi (List.mem_cons_of_mem _ hmem)
          · rcases List.mem_cons.mp hi with rfl | hmem
            · rw [hcell]
              exact ((hcells i).1 hfresh).trans hcell
            · exact (hcells i).2 hmem
      | some e =>
          rw [hcell] at h
          obtain ⟨s₁, hbody₁, h⟩ := bind_eq_ok.mp h
          obtain ⟨hs₁, x, hset, hdone⟩ := hbody s s₁ slot e.1 e.2 hs hcell hbody₁
          obtain ⟨hs', hcap, hcells⟩ := ih hrest hs₁ h
          have hcell₁ := ValidHm.cell_of_cells_set hcell hset
          refine ⟨hs', hcap.trans (ValidHm.capacity_of_cells_set hset), fun i => ⟨fun hi => ?_,
            fun hi => ?_⟩⟩
          · have hne : i ≠ slot := fun heq => hi (heq ▸ List.mem_cons_self)
            rw [(hcells i).1 fun hmem => hi (List.mem_cons_of_mem _ hmem), hcell₁, if_neg hne]
          · rcases List.mem_cons.mp hi with rfl | hmem
            · rw [hcell, (hcells i).1 hfresh, hcell₁, if_pos rfl]
              exact hdone
            · have hne : i ≠ slot := fun heq => hfresh (heq ▸ hmem)
              have hi' := (hcells i).2 hmem
              rwa [hcell₁, if_neg hne] at hi'

/-- What a body does to its own client, as far as `Left` is concerned. -/
structure BodyLeft (gone : NetAddr × ServerClient → Prop) (slot : Nat)
    (e : NetAddr × ServerClient) (s s' : Server) : Prop where
  cells : ∃ x, s'.clients.cells = s.clients.cells.set slot x ∧ CellLeft gone (some e) x
  world : ∀ k, k ∈ bmapKeys s'.world ↔
    k ∈ bmapKeys s.world ∧ (gone e → e.2.snakeId ≠ k)

/-- **From one client to all of them.** -/
theorem forEachClient_left {body : Server → Nat → NetAddr → ServerClient → Except Fault Server}
    {gone : NetAddr × ServerClient → Prop}
    (hbody : ∀ s s' slot addr record, s.clients.cell slot = some (addr, record) →
      body s slot addr record = .ok s' → BodyLeft gone slot (addr, record) s s')
    {s s' : Server} (h : forEachClient body s.slots s = .ok s') : Left gone s s' := by
  have hall : ∀ slots : List Nat, slots.Nodup → ∀ s s', forEachClient body slots s = .ok s' →
      ∀ k, k ∈ bmapKeys s'.world ↔ k ∈ bmapKeys s.world ∧
        ∀ slot ∈ slots, ∀ e, s.clients.cell slot = some e → gone e → e.2.snakeId ≠ k := by
    intro slots
    induction slots with
    | nil =>
        intro _ s s' h k
        cases h
        simp
    | cons slot rest ih =>
        intro hnodup s s' h k
        obtain ⟨hfresh, hrest⟩ := List.nodup_cons.mp hnodup
        rw [forEachClient] at h
        cases hcell : s.clients.cell slot with
        | none =>
            rw [hcell] at h
            rw [ih hrest s s' h k]
            simp [hcell]
        | some e =>
            rw [hcell] at h
            obtain ⟨s₁, hbody₁, h⟩ := bind_eq_ok.mp h
            have hone := hbody s s₁ slot e.1 e.2 hcell hbody₁
            obtain ⟨x, hset, -⟩ := hone.cells
            have hcell₁ := ValidHm.cell_of_cells_set hcell hset
            have hsame : ∀ i ∈ rest, s₁.clients.cell i = s.clients.cell i := by
              intro i hi
              have hne : i ≠ slot := fun heq => hfresh (heq ▸ hi)
              rw [hcell₁, if_neg hne]
            rw [ih hrest s₁ s' h k, hone.world]
            simp only [List.forall_mem_cons, hcell, Option.some.injEq, forall_eq']
            rw [and_assoc]
            refine and_congr_right fun _ => and_congr_right fun _ => forall₂_congr fun i hi => ?_
            rw [hsame i hi]
  have hcells := (forEachClient_cells (fun _ => True) (fun _ e x => CellLeft gone (some e) x)
    (fun s s' slot addr record _ hcell hok =>
      ⟨trivial, (hbody s s' slot addr record hcell hok).cells⟩)
    List.nodup_range trivial h).2.2
  have hslots : ∀ slot e, s.clients.cell slot = some e → slot ∈ s.slots :=
    fun slot e hcell => List.mem_range.mpr (ValidHm.lt_capacity_of_cell hcell)
  refine left_of_cells (fun slot => ?_) fun k => ?_
  · by_cases hmem : slot ∈ s.slots
    · have hslot := (hcells slot).2 hmem
      cases hcell : s.clients.cell slot with
      | none =>
          rw [hcell] at hslot
          simp only at hslot
          rw [hslot]
          exact .empty
      | some e =>
          rw [hcell] at hslot
          exact hslot
    · rw [(hcells slot).1 hmem]
      cases hcell : s.clients.cell slot with
      | none => exact .empty
      | some e => exact absurd (hslots slot e hcell) hmem
  · rw [hall s.slots List.nodup_range s s' h k]
    refine and_congr_right fun _ => ⟨fun hleft slot e hcell => hleft slot (hslots slot e hcell) e hcell,
      fun hleft slot _ e hcell => hleft slot e hcell⟩

end Clither
