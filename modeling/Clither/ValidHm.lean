import Clither.HmOps

/-!
# Hash maps that carry their invariant

`ValidHm` is a hash map together with the proof that its table is valid.  Every
operation of `HmOps` keeps that, so a user of the map does not mention it again.

What a user does see are the cells of the table: the key and value of each live
slot.  A pointer to a value is the number of a cell, and `hm_for_each` goes
through the cells from the first to the last.  A lookup or an erasure touches
one cell, and only an insertion may rearrange them.
-/

namespace Clither

variable {K V : Type} {c : HmInstance K}

structure ValidHm (c : HmInstance K) (V : Type) where
  hm : Hm K V
  wf : Hm.WF c hm

instance [DecidableEq K] [DecidableEq V] : DecidableEq (ValidHm c V) :=
  fun a b => decidable_of_iff (a.hm = b.hm) (by cases a; cases b; simp)

namespace ValidHm

/-- `init`. -/
def empty : ValidHm c V where
  hm := none
  wf := fun t ht => by cases ht

/-- The live slots of the table. -/
def cells (m : ValidHm c V) : List (Option (K × V)) :=
  match m.hm with
  | none => []
  | some t => t.slots.map HmSlot.toEntry

/-- What a pointer to a value and its key refer to. -/
def cell (m : ValidHm c V) (slot : Nat) : Option (K × V) :=
  (m.cells[slot]?).join

/-- The entries in the order of `hm_for_each`. -/
def entries (m : ValidHm c V) : List (K × V) :=
  m.cells.filterMap id

/-- `hm_count`. -/
def count (m : ValidHm c V) : Nat :=
  match m.hm with
  | none => 0
  | some t => t.count

/-- `hm_capacity`. -/
def capacity (m : ValidHm c V) : Nat :=
  m.cells.length

/-! ## Operations -/

/-- Put the proof that a result is valid to it. -/
def attach {β : Type} (r : Except Fault (Hm K V × β)) (h : ∀ x, r = .ok x → Hm.WF c x.1) :
    Except Fault (ValidHm c V × β) :=
  match r, h with
  | .ok x, h => .ok (⟨x.1, h x rfl⟩, x.2)
  | .error f, _ => .error f

/-- The proof that is attached does not change the value. -/
theorem attach_eq_ok {β : Type} {r : Except Fault (Hm K V × β)}
    {h : ∀ x, r = .ok x → Hm.WF c x.1} {m : ValidHm c V} {b : β} :
    attach r h = .ok (m, b) ↔ r = .ok (m.hm, b) := by
  cases r with
  | error f =>
      constructor
      · intro h
        cases h
      · intro h
        cases h
  | ok x =>
      constructor
      · intro h
        cases h
        rfl
      · intro h
        cases h
        rfl

/-- Nor the fault. -/
theorem attach_eq_error {β : Type} {r : Except Fault (Hm K V × β)}
    {h : ∀ x, r = .ok x → Hm.WF c x.1} {f : Fault} :
    attach r h = .error f ↔ r = .error f := by
  cases r with
  | error f' => simp [attach]
  | ok x =>
      constructor
      · intro h
        cases h
      · intro h
        cases h

/-- `emplace_new` keeps the table well formed. -/
theorem emplaceNew_wf {mem : Alloc} (m : ValidHm c V) {key : K} {value : V}
    (x : Hm K V × Option Nat) (h : hmEmplaceNew c mem m.hm key value = .ok x) :
    Hm.WF c x.1 := by
  unfold hmEmplaceNew at h
  cases he : hmEmplaceOrGet c mem m.hm key value with
  | error f =>
      rw [he] at h
      cases h
  | ok r =>
      obtain ⟨hm', status⟩ := r
      have hwf := (hmEmplaceOrGet_spec m.wf he).wf m.wf
      rw [he] at h
      cases status with
      | oom => cases h; exact hwf
      | present slot => cases h; exact hwf
      | new slot => cases h; exact hwf

/-- `emplace_new`, with the value that the caller writes through the pointer. -/
def emplaceNew (mem : Alloc) (m : ValidHm c V) (key : K) (value : V) :
    Except Fault (ValidHm c V × Option Nat) :=
  attach (hmEmplaceNew c mem m.hm key value) m.emplaceNew_wf

/-- `find`. -/
def find (m : ValidHm c V) (key : K) : Except Fault (Option Nat) :=
  hmFind c m.hm key

/-- `erase` keeps the table well formed. -/
theorem erase_wf (m : ValidHm c V) {key : K} (x : Hm K V × Unit)
    (h : (hmErase c m.hm key).map (fun hm => (hm, ())) = .ok x) : Hm.WF c x.1 := by
  cases he : hmErase c m.hm key with
  | error f =>
      rw [he] at h
      cases h
  | ok hm' =>
      rw [he] at h
      cases h
      exact (hmErase_spec m.wf he).1

/-- `erase`. -/
def erase (m : ValidHm c V) (key : K) : Except Fault (ValidHm c V) :=
  (attach ((hmErase c m.hm key).map fun hm => (hm, ())) m.erase_wf).map Prod.fst

/-- Write through a pointer to a value. -/
def set (m : ValidHm c V) (slot : Nat) (value : V) : ValidHm c V where
  hm := m.hm.map (·.setValue slot value)
  wf := by
    intro t ht
    obtain ⟨u, hu, rfl⟩ := Option.map_eq_some_iff.mp ht
    exact (m.wf u hu).setValue slot value

/-! ## Cells -/

/-- A cell that holds something is in the table. -/
theorem lt_capacity_of_cell {m : ValidHm c V} {slot : Nat} {e : K × V} (h : m.cell slot = some e) :
    slot < m.capacity := by
  by_contra hge
  rw [cell, List.getElem?_eq_none (Nat.le_of_not_lt hge)] at h
  cases h

/-- The entries are what the cells hold. -/
theorem mem_entries {m : ValidHm c V} {e : K × V} :
    e ∈ m.entries ↔ ∃ slot, m.cell slot = some e := by
  have hmem : e ∈ m.entries ↔ some e ∈ m.cells := by
    simp only [entries, List.mem_filterMap, id_eq, exists_eq_right]
  rw [hmem, List.mem_iff_getElem?]
  simp only [cell, Option.join_eq_some_iff]

/-- The entries are those of the table. -/
theorem entries_eq (m : ValidHm c V) : m.entries = Hm.entries m.hm := by
  unfold entries cells
  cases m.hm with
  | none => rfl
  | some t =>
      show (t.slots.map HmSlot.toEntry).filterMap id = t.slots.filterMap HmSlot.toEntry
      rw [List.filterMap_map]
      rfl

/-- The count is the number of entries. -/
theorem count_eq (m : ValidHm c V) : m.count = m.entries.length := by
  rw [entries_eq]
  unfold count
  cases hm : m.hm with
  | none => rfl
  | some t => exact (m.wf t hm).count_eq

/-- A cell and the slot behind it. -/
theorem cell_eq_some {m : ValidHm c V} {slot : Nat} {k : K} {v : V} :
    m.cell slot = some (k, v) ↔ ∃ t h, m.hm = some t ∧ t.slotAt slot = .live h k v := by
  unfold cell cells
  cases hm : m.hm with
  | none => simp
  | some t =>
      simp only [List.getElem?_map, Option.some.injEq, HmTable.slotAt,
        List.getD_eq_getElem?_getD]
      cases hslot : t.slots[slot]? with
      | none => simp [hslot]
      | some s => cases s <;> simp [hslot]

/-- No key is in two cells. -/
theorem cell_unique {m : ValidHm c V} {i j : Nat} {k k' : K} {v v' : V}
    (hi : m.cell i = some (k, v)) (hj : m.cell j = some (k', v')) (hsame : SameKey c k k') : i = j := by
  obtain ⟨t, h, ht, hslot⟩ := cell_eq_some.mp hi
  obtain ⟨t', h', ht', hslot'⟩ := cell_eq_some.mp hj
  cases ht.symm.trans ht'
  exact (m.wf t ht).slot_unique hslot hslot' hsame

/-- The keys of the entries differ. -/
theorem distinct (m : ValidHm c V) : m.entries.Pairwise fun a b => ¬ SameKey c a.1 b.1 := by
  rw [entries_eq]
  cases hm : m.hm with
  | none => exact List.Pairwise.nil
  | some t => exact (m.wf t hm).distinct

/-- The key is in the map. -/
def Stores (m : ValidHm c V) (key : K) : Prop :=
  ∃ slot k v, m.cell slot = some (k, v) ∧ SameKey c k key

/-- A key is stored exactly when the table stores it. -/
theorem stores_iff {m : ValidHm c V} {key : K} : m.Stores key ↔ Hm.Stores c m.hm key := by
  unfold Stores Hm.Stores
  rw [← entries_eq]
  constructor
  · intro ⟨slot, k, v, hcell, hsame⟩
    exact ⟨(k, v), mem_entries.mpr ⟨slot, hcell⟩, hsame⟩
  · intro ⟨e, he, hsame⟩
    obtain ⟨slot, hcell⟩ := mem_entries.mp he
    exact ⟨slot, e.1, e.2, hcell, hsame⟩

/-! ## What the operations do to the cells -/

/-- What `find` returns is the cell of the key. -/
theorem find_some {m : ValidHm c V} {key : K} {slot : Nat} (h : m.find key = .ok (some slot)) :
    ∃ k v, m.cell slot = some (k, v) ∧ SameKey c k key := by
  rcases hmFind_spec m.wf h with ⟨t, s, h', k, v, ht, hs, hslot, hsame⟩ | ⟨hnone, -⟩
  · cases hs
    exact ⟨k, v, cell_eq_some.mpr ⟨t, h', ht, hslot⟩, hsame⟩
  · cases hnone

/-- A key that is not found is not stored. -/
theorem find_none {m : ValidHm c V} {key : K} (h : m.find key = .ok none) : ¬ m.Stores key := by
  rcases hmFind_spec m.wf h with ⟨t, s, h', k, v, ht, hs, -⟩ | ⟨-, hno⟩
  · cases hs
  · rwa [stores_iff]

/-- A key that is there is found. -/
theorem find_of_cell {m : ValidHm c V} {slot : Nat} {k key : K} {v : V}
    (hcell : m.cell slot = some (k, v)) (hsame : SameKey c k key) : m.find key = .ok (some slot) := by
  obtain ⟨t, h, ht, hslot⟩ := cell_eq_some.mp hcell
  rw [find, ht]
  exact hmFind_live (m.wf t ht) hslot hsame

/-- Erasing a key that is there clears its cell. -/
theorem erase_of_cell {m : ValidHm c V} {slot : Nat} {k key : K} {v : V}
    (hcell : m.cell slot = some (k, v)) (hsame : SameKey c k key) :
    ∃ m', m.erase key = .ok m' ∧ m'.cells = m.cells.set slot none ∧ m'.count = m.count - 1 := by
  obtain ⟨t, h, ht, hslot⟩ := cell_eq_some.mp hcell
  have herase := hmErase_live (m.wf t ht) hslot hsame
  have hwf : Hm.WF c (some (t.bury slot)) := Hm.wf_some ((m.wf t ht).bury hslot)
  refine ⟨⟨some (t.bury slot), hwf⟩, ?_, ?_, ?_⟩
  · rw [← ht] at herase
    have hattach : attach ((hmErase c m.hm key).map fun hm => (hm, ())) m.erase_wf =
        .ok (⟨some (t.bury slot), hwf⟩, ()) := attach_eq_ok.mpr (by rw [herase]; rfl)
    rw [erase, hattach]
    rfl
  · unfold cells
    rw [ht]
    show (t.slots.set slot .rip).map HmSlot.toEntry = _
    rw [List.map_set]
    rfl
  · unfold count
    rw [ht]
    rfl

/-- Setting a value changes one cell, and keeps the key in it. -/
theorem cells_set {m : ValidHm c V} {slot : Nat} {k : K} {v : V} (hcell : m.cell slot = some (k, v))
    (value : V) : (m.set slot value).cells = m.cells.set slot (some (k, value)) := by
  obtain ⟨t, h, ht, hslot⟩ := cell_eq_some.mp hcell
  have hset : (m.set slot value).hm = some (t.setValue slot value) := by
    show m.hm.map _ = _
    rw [ht]
    rfl
  unfold cells
  rw [hset, ht]
  simp only [setValue_slots hslot, List.map_set]
  rfl

/-- The cells after one of them has been overwritten. -/
theorem cell_of_cells_set {m m' : ValidHm c V} {slot : Nat} {e : K × V}
    (hcell : m.cell slot = some e) {x : Option (K × V)} (hcells : m'.cells = m.cells.set slot x)
    (i : Nat) : m'.cell i = if i = slot then x else m.cell i := by
  have hlt : slot < m.cells.length := lt_capacity_of_cell hcell
  rw [cell, hcells, cell]
  by_cases hi : i = slot
  · rw [if_pos hi, hi, List.getElem?_set_self hlt]
    rfl
  · rw [if_neg hi, List.getElem?_set_ne (Ne.symm hi)]

/-- The same, cell by cell. -/
theorem cell_set {m : ValidHm c V} {slot : Nat} {k : K} {v : V} (hcell : m.cell slot = some (k, v))
    (value : V) (i : Nat) :
    (m.set slot value).cell i = if i = slot then some (k, value) else m.cell i :=
  cell_of_cells_set hcell (cells_set hcell value) i

/-- Overwriting a cell leaves the capacity. -/
theorem capacity_of_cells_set {m m' : ValidHm c V} {slot : Nat} {x : Option (K × V)}
    (hcells : m'.cells = m.cells.set slot x) : m'.capacity = m.capacity := by
  rw [capacity, hcells, List.length_set]
  rfl

/-- Setting a value keeps the count. -/
@[simp] theorem count_set (m : ValidHm c V) (slot : Nat) (value : V) :
    (m.set slot value).count = m.count := by
  obtain ⟨hm, hwf⟩ := m
  cases hm with
  | none => rfl
  | some t =>
      show (t.setValue slot value).count = t.count
      unfold HmTable.setValue
      cases t.slotAt slot <;> rfl

/-- An insertion that takes place adds one entry. -/
theorem emplaceNew_some {mem : Alloc} {m m' : ValidHm c V} {key : K} {value : V} {slot : Nat}
    (h : m.emplaceNew mem key value = .ok (m', some slot)) :
    ¬ m.Stores key ∧ m'.entries.Perm ((key, value) :: m.entries) ∧
      m'.cell slot = some (key, value) := by
  have hm := attach_eq_ok.mp h
  unfold hmEmplaceNew at hm
  cases he : hmEmplaceOrGet c mem m.hm key value with
  | error f =>
      rw [he] at hm
      cases hm
  | ok r =>
      obtain ⟨hm₁, status⟩ := r
      have hspec := hmEmplaceOrGet_spec m.wf he
      rw [he] at hm
      cases hspec with
      | oom => simp at hm
      | present => simp at hm
      | @new t s hash htwf hperm habsent hslot =>
          simp only [Except.ok.injEq, Prod.mk.injEq, Option.some.injEq] at hm
          obtain ⟨hm, rfl⟩ := hm
          refine ⟨stores_iff.not.mpr habsent, ?_, cell_eq_some.mpr ⟨t, hash, hm.symm, hslot⟩⟩
          rw [entries_eq, entries_eq, ← hm]
          exact hperm

/-- An insertion fails to return only in an endless probe loop. -/
theorem emplaceNew_error {mem : Alloc} {m : ValidHm c V} {key : K} {value : V} {f : Fault}
    (h : m.emplaceNew mem key value = .error f) : f = .probeLoop := by
  have hm := attach_eq_error.mp h
  unfold hmEmplaceNew at hm
  cases he : hmEmplaceOrGet c mem m.hm key value with
  | error f' =>
      rw [he] at hm
      cases hm
      exact (hmEmplaceOrGet_error m.wf he).1
  | ok r =>
      obtain ⟨hm', status⟩ := r
      rw [he] at hm
      cases status <;> cases hm

/-- A second insertion of a key that is there fails, whatever memory there is. -/
theorem emplaceNew_of_stores {mem : Alloc} {m : ValidHm c V} {key : K} {value : V}
    (h : m.Stores key) : ∃ m', m.emplaceNew mem key value = .ok (m', none) := by
  have hstores := stores_iff.mp h
  cases hr : m.emplaceNew mem key value with
  | ok r =>
      obtain ⟨m', slot⟩ := r
      cases slot with
      | none => exact ⟨m', rfl⟩
      | some s => exact absurd h (emplaceNew_some hr).1
  | error f =>
      exfalso
      have hm := attach_eq_error.mp hr
      unfold hmEmplaceNew at hm
      cases he : hmEmplaceOrGet c mem m.hm key value with
      | ok r =>
          obtain ⟨hm', status⟩ := r
          rw [he] at hm
          cases status <;> cases hm
      | error f' =>
          obtain ⟨-, t, hprep, hloop⟩ := hmEmplaceOrGet_error m.wf he
          obtain ⟨htwf, hperm⟩ := hmPrepare_some m.wf hprep
          obtain ⟨e, hmem, hsame⟩ := (stores_congr hperm key).mpr hstores
          obtain ⟨i, hash, hslot⟩ := HmTable.exists_slotAt hmem
          have hfound := (findSlot_present_iff htwf).mpr ⟨hash, e.1, e.2, hslot, hsame⟩
          cases hfound.symm.trans hloop

end ValidHm

end Clither
