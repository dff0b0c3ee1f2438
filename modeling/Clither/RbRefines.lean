import Clither.RbOps
import Clither.Lib.Run

/-!
# The ring buffer is a double-ended list

`Deque` is what a ring buffer is for: a list that is filled at one end and
emptied at both, with room for one element less than its capacity.  The
functions of `rb.h` that `RbOps` leaves out follow, with `rb_for_each` as the
loop over the array that it is.

`rbCall_refines` is the step lemma: a call answers and changes the buffer as the
operation of the same name does to the list.  `ring_buffer_refines` carries it
over every sequence of calls from the null pointer.
-/

namespace Clither

/-! ## The abstract list -/

/-- A list with room for one element less than `capacity`, which is 0 before any
memory is allocated. -/
structure Deque (α : Type) where
  capacity : Nat
  elems : List α
  deriving DecidableEq

/-- What a call returns: whether there was space, the element that was removed, or
nothing. -/
inductive RbReply (α : Type) where
  | status (ok : Bool)
  | elem (x : α)
  | done
  deriving DecidableEq

/-- The calls that change a ring buffer. -/
inductive RbOp (α : Type) where
  | put (x : α)
  | putRealloc (x : α)
  | emplace (x : α)
  | emplaceRealloc (x : α)
  | take
  | takew
  | clear
  /-- To `2 ^ k` elements. -/
  | resize (k : Nat)

namespace Deque

variable {α : Type}

def init : Deque α where
  capacity := 0
  elems := []

def space (d : Deque α) : Nat :=
  d.capacity - 1 - d.elems.length

/-- A full list is left alone. -/
def put (d : Deque α) (x : α) : RbReply α × Deque α :=
  if d.elems.length + 1 = d.capacity then (.status false, d)
  else (.status true, { d with elems := d.elems ++ [x] })

/-- A full list gets twice the capacity first. -/
def putRealloc (d : Deque α) (x : α) : RbReply α × Deque α :=
  (.status true,
    { capacity :=
        if d.capacity = 0 then 16
        else if d.elems.length + 1 = d.capacity then 2 * d.capacity
        else d.capacity
      elems := d.elems ++ [x] })

/-- The oldest element. -/
def take (d : Deque α) : RbReply α × Deque α :=
  match d.elems with
  | [] => (.done, d)
  | x :: rest => (.elem x, { d with elems := rest })

/-- The newest element. -/
def takew (d : Deque α) : RbReply α × Deque α :=
  match d.elems.getLast? with
  | none => (.done, d)
  | some x => (.elem x, { d with elems := d.elems.dropLast })

def call (d : Deque α) : RbOp α → RbReply α × Deque α
  | .put x => d.put x
  | .putRealloc x => d.putRealloc x
  | .emplace x => d.put x
  | .emplaceRealloc x => d.putRealloc x
  | .take => d.take
  | .takew => d.takew
  | .clear => (.done, { d with elems := [] })
  | .resize k => (.status true, { d with capacity := 2 ^ k })

/-- A call after others, whose answers are kept. -/
def step (s : Deque α × List (RbReply α)) (op : RbOp α) : Deque α × List (RbReply α) :=
  ((s.1.call op).2, s.2 ++ [(s.1.call op).1])

end Deque

/-! ## The other functions of `rb.h` -/

variable {c : RbInstance} {α : Type}

/-- `rb_space`. -/
def rbSpace : Rb c α → Nat
  | none => 0
  | some r => (r.read + r.capacity - r.write - 1) &&& (r.capacity - 1)

/-- `put`. -/
def rbPut (rb : Rb c α) (x : α) : Except Fault (RbReply α × Rb c α) :=
  match rb with
  | none => .error .nullBuffer
  | some r => if r.isFull then .ok (.status false, rb) else .ok (.status true, some (r.push x))

/-- `emplace`, with the write its caller makes at once. -/
def rbEmplace (rb : Rb c α) (x : α) : Except Fault (RbReply α × Rb c α) :=
  match rb with
  | none => .error .nullBuffer
  | some r => if r.isFull then .ok (.status false, rb) else .ok (.status true, some (r.push x))

namespace Ring

/-- `clear`: `read` catches up with `write`. -/
def cleared (r : Ring c α) : Ring c α where
  logCapacity := r.logCapacity
  read := r.write
  write := r.write
  cells := r.cells
  fits := r.fits
  read_lt := r.write_lt
  write_lt := r.write_lt
  length_cells := r.length_cells
  live := by
    intro i hi
    rw [Nat.add_sub_cancel_left, Nat.and_two_pow_sub_one_eq_mod, Nat.mod_self] at hi
    exact absurd hi (Nat.not_lt_zero i)

/-- A buffer fresh from `resize(NULL, 2 ^ k)`. -/
def fresh (k : Nat) (hfits : k + 1 < c.bits) : Ring c α where
  logCapacity := k
  read := 0
  write := 0
  cells := List.replicate (2 ^ k) none
  fits := hfits
  read_lt := Nat.two_pow_pos k
  write_lt := Nat.two_pow_pos k
  length_cells := List.length_replicate
  live := by
    intro i hi
    rw [Nat.zero_add, Nat.sub_zero, Nat.and_two_pow_sub_one_eq_mod, Nat.mod_self] at hi
    exact absurd hi (Nat.not_lt_zero i)

/-- The turns of `rb_for_each` from cell `i` on.  There is no answer if a cell is
visited that holds no element, or after `fuel` turns. -/
def forEachFrom (r : Ring c α) : Nat → Nat → Option (List α)
  | 0, _ => none
  | fuel + 1, i =>
      if i = r.write then some []
      else
        match (r.cells[i]?).join with
        | none => none
        | some x => (r.forEachFrom fuel ((i + 1) &&& (r.capacity - 1))).map (x :: ·)

end Ring

/-- `clear`. -/
def rbClear (rb : Rb c α) : Except Fault (RbReply α × Rb c α) :=
  match rb with
  | none => .error .nullBuffer
  | some r => .ok (.done, some r.cleared)

/-- `resize` to `2 ^ k` elements. -/
def rbResize (mem : Alloc) (rb : Rb c α) (k : Nat) : Except Fault (RbReply α × Rb c α) :=
  if granted mem (rbRequest c (2 ^ k)) then
    match rb with
    | none =>
        if hfits : k + 1 < c.bits then .ok (.status true, some (.fresh k hfits))
        else .error .badCapacity
    | some r =>
        if h : r.logCapacity < k ∧ k + 1 < c.bits then
          .ok (.status true, some (r.widen k h.1 h.2))
        else .error .badCapacity
  else .ok (.status false, rb)

/-- The elements that `rb_for_each` visits. -/
def rbForEach : Rb c α → Option (List α)
  | none => some []
  | some r => r.forEachFrom r.capacity r.read

/-- The cell of `rb_peek_read`. -/
def rbReadCell : Rb c α → Option α
  | none => none
  | some r => if r.isEmpty then none else (r.cells[r.read]?).join

/-- The cell of `rb_peek_write`. -/
def rbWriteCell : Rb c α → Option α
  | none => none
  | some r =>
      if r.isEmpty then none
      else (r.cells[(r.write + r.capacity - 1) &&& (r.capacity - 1)]?).join

/-- The answer of `put_realloc` and `emplace_realloc`. -/
def rbGrowing (mem : Alloc) (rb : Rb c α) (x : α) : RbReply α × Rb c α :=
  match rbPutRealloc mem rb x with
  | some rb => (.status true, rb)
  | none => (.status false, rb)

/-- One call of the ring buffer. -/
def rbCall (mem : Alloc) (rb : Rb c α) : RbOp α → Except Fault (RbReply α × Rb c α)
  | .put x => rbPut rb x
  | .putRealloc x => .ok (rbGrowing mem rb x)
  | .emplace x => rbEmplace rb x
  | .emplaceRealloc x => .ok (rbGrowing mem rb x)
  | .take => do
      let (x, rb) ← rbTake rb
      return (.elem x, rb)
  | .takew => do
      let (x, rb) ← rbTakew rb
      return (.elem x, rb)
  | .clear => rbClear rb
  | .resize k => rbResize mem rb k

/-- A call after others, whose answers are kept. -/
def rbStep (mem : Alloc) (s : Rb c α × List (RbReply α)) (op : RbOp α) :
    Except Fault (Rb c α × List (RbReply α)) := do
  let (reply, rb) ← rbCall mem s.1 op
  return (rb, s.2 ++ [reply])

/-! ## What the functions do to the list -/

/-- The capacity field, 0 for the null pointer. -/
def rbCapacity : Rb c α → Nat
  | none => 0
  | some r => r.capacity

/-- The meaning of a ring buffer. -/
def rbMeaning (rb : Rb c α) : Deque α where
  capacity := rbCapacity rb
  elems := rbToList rb

namespace Ring

/-- A cleared buffer has no element. -/
@[simp] theorem toList_cleared (r : Ring c α) : r.cleared.toList = [] := by
  rw [← isEmpty_iff, isEmpty, decide_eq_true_eq]
  rfl

/-- A fresh buffer has no element. -/
@[simp] theorem toList_fresh (k : Nat) (hfits : k + 1 < c.bits) :
    (fresh k hfits : Ring c α).toList = [] := by
  rw [← isEmpty_iff, isEmpty, decide_eq_true_eq]
  rfl

/-- Masking twice is masking once. -/
theorem next_index (r : Ring c α) (i : Nat) :
    (((r.read + i) &&& (r.capacity - 1)) + 1) &&& (r.capacity - 1) =
      (r.read + (i + 1)) &&& (r.capacity - 1) := by
  simp only [capacity, Nat.and_two_pow_sub_one_eq_mod]
  rw [Nat.mod_add_mod, Nat.add_assoc]

/-- `write` is the cell behind the newest element. -/
theorem index_eq_write (r : Ring c α) {i : Nat} (hi : i ≤ r.count) :
    (r.read + i) &&& (r.capacity - 1) = r.write ↔ i = r.count := by
  have hr := r.read_lt
  have hw := r.write_lt
  have hlt := r.count_lt
  have hcases := r.count_cases
  simp only [capacity] at hlt hcases ⊢
  rw [and_mask (by omega)]
  split <;> omega

/-- The loop over the buffer visits the rest of the list, by induction on what is left. -/
theorem forEachFrom_eq (r : Ring c α) {n i fuel : Nat} (hn : i + n = r.count) (hfuel : n < fuel) :
    r.forEachFrom fuel ((r.read + i) &&& (r.capacity - 1)) = some (r.toList.drop i) := by
  induction n generalizing i fuel with
  | zero =>
      obtain ⟨fuel, rfl⟩ : ∃ m, fuel = m + 1 := ⟨fuel - 1, by omega⟩
      rw [forEachFrom, if_pos ((r.index_eq_write (by omega)).mpr (by omega)),
        List.drop_of_length_le (by rw [r.length_toList]; omega)]
  | succ n ih =>
      obtain ⟨fuel, rfl⟩ : ∃ m, fuel = m + 1 := ⟨fuel - 1, by omega⟩
      have hin : i < r.toList.length := by
        rw [r.length_toList]
        omega
      have hpeek : (r.cells[(r.read + i) &&& (r.capacity - 1)]?).join = some r.toList[i] := by
        rw [← List.getElem?_eq_getElem hin, ← r.peek_eq (by omega)]
        rfl
      rw [forEachFrom, if_neg (fun h => by have := (r.index_eq_write (by omega)).mp h; omega), hpeek]
      dsimp only
      rw [r.next_index, ih (by omega) (by omega), List.drop_eq_getElem_cons hin]
      rfl

end Ring

/-- **The loop visits the elements in order**, and ends. -/
theorem rbForEach_eq (rb : Rb c α) : rbForEach rb = some (rbToList rb) := by
  cases rb with
  | none => rfl
  | some r =>
      have hr : r.read < r.capacity := r.read_lt
      have h := r.forEachFrom_eq (n := r.count) (i := 0) (Nat.zero_add _) r.count_lt
      rwa [r.index_eq (Nat.lt_of_le_of_lt (Nat.zero_le _) r.count_lt), Nat.add_zero, if_pos hr] at h

/-- The free space is that of the deque. -/
theorem rbSpace_eq (rb : Rb c α) : rbSpace rb = (rbMeaning rb).space := by
  cases rb with
  | none => rfl
  | some r =>
      have hr := r.read_lt
      have hw := r.write_lt
      have hcases := r.count_cases
      show _ = r.capacity - 1 - r.toList.length
      rw [rbSpace, r.length_toList]
      simp only [Ring.capacity] at *
      rw [and_mask (by omega)]
      split <;> omega

/-- The cell at the read end holds the first element. -/
theorem rbReadCell_eq (rb : Rb c α) : rbReadCell rb = (rbToList rb).head? := by
  cases rb with
  | none => rfl
  | some r =>
      rw [rbReadCell, rbToList]
      by_cases hempty : r.isEmpty = true
      · rw [if_pos hempty, r.isEmpty_iff.mp hempty]
        rfl
      · have hr : r.read < r.capacity := r.read_lt
        have hpos : 0 < r.count := by
          rw [← r.length_toList]
          exact List.length_pos_iff.mpr fun h => hempty (r.isEmpty_iff.mpr h)
        rw [if_neg hempty, List.head?_eq_getElem?, ← r.peek_eq hpos, Ring.peek,
          r.index_eq (Nat.lt_trans hpos r.count_lt), Nat.add_zero, if_pos hr]

/-- The cell at the write end holds the last element. -/
theorem rbWriteCell_eq (rb : Rb c α) : rbWriteCell rb = (rbToList rb).getLast? := by
  cases rb with
  | none => rfl
  | some r =>
      rw [rbWriteCell, rbToList]
      by_cases hempty : r.isEmpty = true
      · rw [if_pos hempty, r.isEmpty_iff.mp hempty]
        rfl
      · have hr := r.read_lt
        have hw := r.write_lt
        have hlt := r.count_lt
        have hcases := r.count_cases
        have hpos : 0 < r.count := by
          rw [← r.length_toList]
          exact List.length_pos_iff.mpr fun h => hempty (r.isEmpty_iff.mpr h)
        have hindex : (r.write + r.capacity - 1) &&& (r.capacity - 1) =
            (r.read + (r.count - 1)) &&& (r.capacity - 1) := by
          simp only [Ring.capacity] at hlt hcases ⊢
          rw [and_mask (by omega), and_mask (by omega)]
          split <;> split <;> omega
        rw [if_neg hempty, hindex, List.getLast?_eq_getElem?, r.length_toList,
          ← r.peek_eq (by omega)]
        rfl

/-! ## One call -/

/-- What the callers of the functions see to.  `put`, `emplace` and `clear` need a
buffer that has been allocated, `take` and `takew` one that is not empty; an
allocation succeeds, and the new capacity is larger and fits the index type. -/
def RbAllowed (mem : Alloc) (rb : Rb c α) : RbOp α → Prop
  | .put _ => rb.isSome = true
  | .emplace _ => rb.isSome = true
  | .clear => rb.isSome = true
  | .putRealloc _ => rbHasSpace mem rb = true
  | .emplaceRealloc _ => rbHasSpace mem rb = true
  | .take => rbCount rb ≠ 0
  | .takew => rbCount rb ≠ 0
  | .resize k =>
      rbCapacity rb < 2 ^ k ∧ k + 1 < c.bits ∧ granted mem (rbRequest c (2 ^ k)) = true

instance (mem : Alloc) (rb : Rb c α) (op : RbOp α) : Decidable (RbAllowed mem rb op) :=
  match op with
  | .put _ | .emplace _ | .clear => inferInstanceAs (Decidable (rb.isSome = true))
  | .putRealloc _ | .emplaceRealloc _ => inferInstanceAs (Decidable (rbHasSpace mem rb = true))
  | .take | .takew => inferInstanceAs (Decidable (rbCount rb ≠ 0))
  | .resize k => inferInstanceAs (Decidable (rbCapacity rb < 2 ^ k ∧ k + 1 < c.bits ∧
      granted mem (rbRequest c (2 ^ k)) = true))

/-- `put` and `emplace` on an allocated buffer. -/
theorem rbPut_refines {rb : Rb c α} (hsome : rb.isSome = true) (x : α) :
    ∃ rb', rbPut rb x = .ok (((rbMeaning rb).put x).1, rb') ∧
      rbMeaning rb' = ((rbMeaning rb).put x).2 := by
  obtain ⟨r, rfl⟩ := Option.isSome_iff_exists.mp hsome
  have hfull : r.isFull = true ↔
      (rbMeaning (some r)).elems.length + 1 = (rbMeaning (some r)).capacity := r.isFull_iff
  show ∃ rb', (if r.isFull then _ else _) = _ ∧ _
  rw [Deque.put]
  by_cases h : r.isFull = true
  · rw [if_pos h, if_pos (hfull.mp h)]
    exact ⟨some r, rfl, rfl⟩
  · rw [if_neg h, if_neg (fun hlen => h (hfull.mpr hlen))]
    refine ⟨some (r.push x), rfl, ?_⟩
    rw [rbMeaning, rbToList, Ring.toList_push (Bool.eq_false_of_not_eq_true h)]
    rfl

/-- `put_realloc` and `emplace_realloc` with memory for the larger array. -/
theorem rbGrowing_refines {mem : Alloc} {rb : Rb c α} (hspace : rbHasSpace mem rb = true) (x : α) :
    (rbGrowing mem rb x).1 = ((rbMeaning rb).putRealloc x).1 ∧
      rbMeaning (rbGrowing mem rb x).2 = ((rbMeaning rb).putRealloc x).2 := by
  rcases rbPutRealloc_spec mem rb x with ⟨hno, -⟩ | ⟨-, rb', hput, hlist⟩
  · exact absurd (hspace.symm.trans hno) (by decide)
  · have hcapacity : rbCapacity rb' = ((rbMeaning rb).putRealloc x).2.capacity := by
      cases rb with
      | none =>
          rw [rbPutRealloc, if_pos (show granted mem _ = true from hspace)] at hput
          cases hput
          rfl
      | some r =>
          have hpos : (rbMeaning (some r)).capacity ≠ 0 := Nat.ne_of_gt (Nat.two_pow_pos _)
          have hisFull : r.isFull = true ↔
              (rbMeaning (some r)).elems.length + 1 = (rbMeaning (some r)).capacity := r.isFull_iff
          rw [Deque.putRealloc]
          dsimp only
          rw [if_neg hpos]
          by_cases hfull : r.isFull = true
          · have hgrant : granted mem (rbRequest c (rbGrowElems (some r))) = true := by
              simpa [rbHasSpace, hfull] using hspace
            rw [rbPutRealloc, if_pos hfull, dif_pos hgrant] at hput
            cases hput
            rw [if_pos (hisFull.mp hfull)]
            exact pow_succ' 2 r.logCapacity
          · rw [rbPutRealloc, if_neg hfull] at hput
            cases hput
            rw [if_neg (fun hlen => hfull (hisFull.mpr hlen))]
            rfl
    rw [rbGrowing, hput]
    exact ⟨rfl, by rw [rbMeaning, hcapacity, hlist]; rfl⟩

/-- Removing an element keeps the capacity. -/
theorem rbCapacity_rbTake {rb rb' : Rb c α} {x : α} (h : rbTake rb = .ok (x, rb')) :
    rbCapacity rb' = rbCapacity rb := by
  cases rb with
  | none => cases h
  | some r =>
      rw [rbTake] at h
      by_cases hempty : r.isEmpty = false
      · rw [dif_pos hempty] at h
        cases hpeek : r.peek 0 with
        | none =>
            rw [hpeek] at h
            cases h
        | some y =>
            rw [hpeek] at h
            cases h
            rfl
      · rw [dif_neg hempty] at h
        cases h

/-- Taking at the write end keeps the capacity. -/
theorem rbCapacity_rbTakew {rb rb' : Rb c α} {x : α} (h : rbTakew rb = .ok (x, rb')) :
    rbCapacity rb' = rbCapacity rb := by
  cases rb with
  | none => cases h
  | some r =>
      rw [rbTakew] at h
      by_cases hempty : r.isEmpty = false
      · rw [dif_pos hempty] at h
        cases hpeek : r.peek (r.count - 1) with
        | none =>
            rw [hpeek] at h
            cases h
        | some y =>
            rw [hpeek] at h
            cases h
            rfl
      · rw [dif_neg hempty] at h
        cases h

/-- `rb_take` takes what the deque takes. -/
theorem rbTake_refines {rb : Rb c α} (hne : rbCount rb ≠ 0) :
    ∃ x rb', rbTake rb = .ok (x, rb') ∧ ((rbMeaning rb).take).1 = .elem x ∧
      rbMeaning rb' = ((rbMeaning rb).take).2 := by
  cases hlist : rbToList rb with
  | nil =>
      rw [← length_rbToList, hlist] at hne
      exact absurd rfl hne
  | cons x rest =>
      obtain ⟨rb', htake, hrest⟩ := rbTake_of_cons hlist
      refine ⟨x, rb', htake, by simp only [Deque.take, rbMeaning, hlist], ?_⟩
      simp only [Deque.take, rbMeaning, hlist, hrest, rbCapacity_rbTake htake]

/-- `rb_takew` takes what the deque takes at its other end. -/
theorem rbTakew_refines {rb : Rb c α} (hne : rbCount rb ≠ 0) :
    ∃ x rb', rbTakew rb = .ok (x, rb') ∧ ((rbMeaning rb).takew).1 = .elem x ∧
      rbMeaning rb' = ((rbMeaning rb).takew).2 := by
  rcases List.eq_nil_or_concat (rbToList rb) with hnil | ⟨init, x, hconcat⟩
  · rw [← length_rbToList, hnil] at hne
    exact absurd rfl hne
  · rw [List.concat_eq_append] at hconcat
    obtain ⟨rb', htake, hinit⟩ := rbTakew_of_concat hconcat
    refine ⟨x, rb', htake, by simp only [Deque.takew, rbMeaning, hconcat, List.getLast?_concat], ?_⟩
    simp only [Deque.takew, rbMeaning, hconcat, List.getLast?_concat, List.dropLast_concat, hinit,
      rbCapacity_rbTakew htake]

/-- A resize that gets its memory keeps the elements. -/
theorem rbResize_refines {mem : Alloc} {rb : Rb c α} {k : Nat} (hlarger : rbCapacity rb < 2 ^ k)
    (hfits : k + 1 < c.bits) (hgrant : granted mem (rbRequest c (2 ^ k)) = true) :
    ∃ rb', rbResize mem rb k = .ok (.status true, rb') ∧
      rbMeaning rb' = { rbMeaning rb with capacity := 2 ^ k } := by
  cases rb with
  | none =>
      rw [rbResize, if_pos hgrant]
      refine ⟨_, dif_pos hfits, ?_⟩
      rw [rbMeaning, rbToList, Ring.toList_fresh]
      rfl
  | some r =>
      rw [rbResize, if_pos hgrant]
      have hlog : r.logCapacity < k := (Nat.pow_lt_pow_iff_right (by decide)).mp hlarger
      refine ⟨_, dif_pos ⟨hlog, hfits⟩, ?_⟩
      rw [rbMeaning, rbToList, Ring.toList_widen]
      rfl

/-- **Step lemma.**  A call answers and changes the buffer as the operation does
the list. -/
theorem rbCall_refines {mem : Alloc} {rb : Rb c α} {op : RbOp α} (h : RbAllowed mem rb op) :
    ∃ rb', rbCall mem rb op = .ok (((rbMeaning rb).call op).1, rb') ∧
      rbMeaning rb' = ((rbMeaning rb).call op).2 := by
  cases op with
  | put x => exact rbPut_refines h x
  | emplace x => exact rbPut_refines h x
  | putRealloc x =>
      obtain ⟨hreply, hmeaning⟩ := rbGrowing_refines h x
      exact ⟨_, congrArg Except.ok (Prod.ext hreply rfl), hmeaning⟩
  | emplaceRealloc x =>
      obtain ⟨hreply, hmeaning⟩ := rbGrowing_refines h x
      exact ⟨_, congrArg Except.ok (Prod.ext hreply rfl), hmeaning⟩
  | take =>
      obtain ⟨x, rb', htake, hreply, hmeaning⟩ := rbTake_refines h
      exact ⟨rb', by rw [rbCall, htake, Deque.call, hreply]; rfl, hmeaning⟩
  | takew =>
      obtain ⟨x, rb', htake, hreply, hmeaning⟩ := rbTakew_refines h
      exact ⟨rb', by rw [rbCall, htake, Deque.call, hreply]; rfl, hmeaning⟩
  | clear =>
      obtain ⟨r, rfl⟩ := Option.isSome_iff_exists.mp h
      refine ⟨some r.cleared, rfl, ?_⟩
      rw [rbMeaning, rbToList, Ring.toList_cleared]
      rfl
  | resize k => exact rbResize_refines h.1 h.2.1 h.2.2

/-! ## Runs -/

/-- Any run of allowed calls answers as the deque answers, by induction on the calls. -/
theorem rbStep_run_refines {mem : Alloc} {rb : Rb c α} {replies : List (RbReply α)}
    {ops : List (RbOp α)}
    (hallowed : Run.Meets (rbStep mem) (fun s op => RbAllowed mem s.1 op) (rb, replies) ops) :
    ∃ rb' replies', Run.run (rbStep mem) (rb, replies) ops = .ok (rb', replies') ∧
      ops.foldl Deque.step (rbMeaning rb, replies) = (rbMeaning rb', replies') := by
  induction ops generalizing rb replies with
  | nil => exact ⟨rb, replies, rfl, rfl⟩
  | cons op ops ih =>
      obtain ⟨next, hcall, hmeaning⟩ := rbCall_refines hallowed.1
      have hstep : rbStep mem (rb, replies) op =
          .ok (next, replies ++ [((rbMeaning rb).call op).1]) := by
        rw [rbStep, hcall]
        rfl
      obtain ⟨rb', replies', hrun, hfold⟩ := ih (hallowed.2 _ hstep)
      refine ⟨rb', replies', by rw [Run.run, hstep]; exact hrun, ?_⟩
      rw [← hfold, List.foldl_cons, Deque.step, hmeaning]

/-- What can be seen of a ring buffer is what the list says. -/
structure RbAgrees (rb : Rb c α) (d : Deque α) : Prop where
  count : rbCount rb = d.elems.length
  space : rbSpace rb = d.space
  peek : ∀ i x, rbPeek rb i = .ok x ↔ d.elems[i]? = some x
  peekRead : rbReadCell rb = d.elems.head?
  peekWrite : rbWriteCell rb = d.elems.getLast?
  forEach : rbForEach rb = some d.elems
  putFails : ∀ x, rb.isSome = true →
    (rbPut rb x = .ok (.status false, rb) ↔ rbCount rb = d.capacity - 1)
  emplaceFails : ∀ x, rb.isSome = true →
    (rbEmplace rb x = .ok (.status false, rb) ↔ rbCount rb = d.capacity - 1)

/-- `rb_put` fails exactly on a full buffer. -/
theorem rbPut_fails_iff {rb : Rb c α} (hsome : rb.isSome = true) (x : α) :
    rbPut rb x = .ok (.status false, rb) ↔ rbCount rb = rbCapacity rb - 1 := by
  obtain ⟨r, rfl⟩ := Option.isSome_iff_exists.mp hsome
  have hfull := r.isFull_iff
  have hlt := r.count_lt
  rw [r.length_toList] at hfull
  show (if r.isFull then _ else _) = _ ↔ r.count = r.capacity - 1
  by_cases h : r.isFull = true
  · rw [if_pos h]
    exact ⟨fun _ => by have := hfull.mp h; omega, fun _ => rfl⟩
  · rw [if_neg h]
    constructor
    · intro heq
      cases heq
    · intro hcount
      exact absurd (hfull.mpr (by omega)) h

/-- A buffer agrees with what it means. -/
theorem rbAgrees_meaning (rb : Rb c α) : RbAgrees rb (rbMeaning rb) where
  count := (length_rbToList rb).symm
  space := rbSpace_eq rb
  peek i x := by
    rw [rbPeek_eq, rbMeaning]
    cases (rbToList rb)[i]? with
    | none => simp
    | some y => simp
  peekRead := rbReadCell_eq rb
  peekWrite := rbWriteCell_eq rb
  forEach := rbForEach_eq rb
  putFails x h := rbPut_fails_iff h x
  emplaceFails x h := rbPut_fails_iff h x

/-- **The ring buffer refines the double-ended list**, from the null pointer on and
over every sequence of calls: it gives the answers of the list, and at the end
everything that can be seen of it agrees with the list. -/
theorem ring_buffer_refines (mem : Alloc) (ops : List (RbOp α))
    (hallowed : Run.Meets (rbStep mem) (fun s op => RbAllowed mem s.1 op)
      ((none : Rb c α), []) ops) :
    ∃ rb d replies, Run.run (rbStep mem) ((none : Rb c α), []) ops = .ok (rb, replies) ∧
      ops.foldl Deque.step (Deque.init, []) = (d, replies) ∧ RbAgrees rb d := by
  obtain ⟨rb, replies, hrun, hfold⟩ := rbStep_run_refines hallowed
  exact ⟨rb, rbMeaning rb, replies, hrun, hfold, rbAgrees_meaning rb⟩

/-- The instance of the ring buffer tests. -/
def rbobj : RbInstance where
  bits := 16
  sizeofElem := 32
  fits := by decide
  sizeofElem_pos := by decide

/-- The buffer is filled beyond the end of its array, refuses a put, and grows
while its data is wrapped. -/
def wrappedRbOps : List (RbOp Nat) :=
  [.resize 2, .put 1, .emplace 2, .put 3, .take, .put 4, .put 5, .putRealloc 6, .takew]

/-- Calls that fill the buffer, wrap it and take from both ends. -/
theorem ring_buffer_refines_wrapped :
    ∃ rb : Rb rbobj Nat,
      Run.run (rbStep Alloc.unlimited) (none, []) wrappedRbOps =
        .ok (rb, [.status true, .status true, .status true, .status true, .elem 1, .status true,
          .status false, .status true, .elem 6]) ∧
      RbAgrees rb ⟨8, [2, 3, 4]⟩ := by
  obtain ⟨rb, d, replies, hrun, hfold, hagrees⟩ :=
    ring_buffer_refines (c := rbobj) Alloc.unlimited wrappedRbOps (by decide)
  obtain ⟨rfl, rfl⟩ := Prod.mk.inj hfold
  exact ⟨rb, hrun, hagrees⟩

/-- A put needs a buffer that has been allocated before. -/
theorem put_unallocated :
    Run.run (rbStep Alloc.unlimited) ((none : Rb rbobj Nat), []) [.put 1] = .error .nullBuffer :=
  rfl

end Clither
