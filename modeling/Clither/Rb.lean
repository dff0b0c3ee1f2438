import Clither.Mem
import Mathlib.Data.Nat.Bitwise

/-!
# The ring buffer

`RB_DECLARE` generates a ring buffer over an array whose capacity is a power of
two.  Indices are reduced by masking with `capacity - 1`, and a buffer whose
`read` and `write` agree is empty, so one cell always stays free.

A `Ring` carries the facts that make the masked indices meaningful, so that a
client of the buffer never has to prove them again.  `toList` reads the
elements from `read` to `write`, oldest first, and each operation has one lemma
about it.
-/

namespace Clither

/-- The arguments of one `RB_DECLARE`: the width of `read`, `write` and
`capacity`, and `sizeof(T)`. -/
structure RbInstance where
  bits : Nat
  sizeofElem : Nat
  /-- `MIN_CAPACITY`, which is 16, is a value of the index type. -/
  fits : 5 < bits
  sizeofElem_pos : 0 < sizeofElem

/-- The index types of the ring buffers in the program. -/
inductive RbIndex where
  | int8
  | int16

def RbIndex.bits : RbIndex → Nat
  | int8 => 8
  | int16 => 16

/-- Each index type has room for the initial capacity. -/
theorem RbIndex.fits (t : RbIndex) : 5 < t.bits := by
  cases t <;> decide

/-- Masking with `capacity - 1` brings an index below twice the capacity back
into the array. -/
theorem and_mask {k x : Nat} (hx : x < 2 * 2 ^ k) :
    x &&& (2 ^ k - 1) = if x < 2 ^ k then x else x - 2 ^ k := by
  rw [Nat.and_two_pow_sub_one_eq_mod]
  by_cases h : x < 2 ^ k
  · rw [if_pos h, Nat.mod_eq_of_lt h]
  · rw [if_neg h, Nat.mod_eq_sub_mod (by omega), Nat.mod_eq_of_lt (by omega)]

/-- The memory of a ring buffer.  A cell that was never written is `none`. -/
structure Ring (c : RbInstance) (α : Type) where
  logCapacity : Nat
  read : Nat
  write : Nat
  cells : List (Option α)
  fits : logCapacity + 1 < c.bits
  read_lt : read < 2 ^ logCapacity
  write_lt : write < 2 ^ logCapacity
  length_cells : cells.length = 2 ^ logCapacity
  /-- The cells from `read` to `write` have been written. -/
  live : ∀ i, i < (write + 2 ^ logCapacity - read) &&& (2 ^ logCapacity - 1) →
    ((cells[(read + i) &&& (2 ^ logCapacity - 1)]?).join).isSome
  deriving DecidableEq

/-- A ring buffer before its first insertion is the null pointer. -/
abbrev Rb (c : RbInstance) (α : Type) := Option (Ring c α)

variable {c : RbInstance} {α : Type}

namespace Ring

def capacity (r : Ring c α) : Nat :=
  2 ^ r.logCapacity

/-- `rb_count`. -/
def count (r : Ring c α) : Nat :=
  (r.write + r.capacity - r.read) &&& (r.capacity - 1)

/-- `rb_is_full`. -/
def isFull (r : Ring c α) : Bool :=
  decide ((r.write + 1) &&& (r.capacity - 1) = r.read)

/-- `rb_is_empty`. -/
def isEmpty (r : Ring c α) : Bool :=
  decide (r.read = r.write)

/-- The cell that `rb_peek` reads. -/
def peek (r : Ring c α) (idx : Nat) : Option α :=
  (r.cells[(r.read + idx) &&& (r.capacity - 1)]?).join

/-- The elements in the order of `rb_for_each`. -/
def toList (r : Ring c α) : List α :=
  (List.range r.count).filterMap r.peek

/-- The count in the two cases of the read and write positions. -/
theorem count_eq (r : Ring c α) :
    r.count = if r.read ≤ r.write then r.write - r.read else r.write + r.capacity - r.read := by
  have hr := r.read_lt
  have hw := r.write_lt
  have h : r.write + r.capacity - r.read < 2 * 2 ^ r.logCapacity := by
    simp only [capacity]
    omega
  rw [count, capacity, and_mask (by simpa [capacity] using h)]
  split <;> split <;> omega

/-- One slot always stays free. -/
theorem count_lt (r : Ring c α) : r.count < r.capacity := by
  have hr := r.read_lt
  have hw := r.write_lt
  rw [count_eq]
  simp only [capacity] at *
  split <;> omega

/-- The masked index of an element. -/
theorem index_eq (r : Ring c α) {i : Nat} (hi : i < r.capacity) :
    (r.read + i) &&& (r.capacity - 1) =
      if r.read + i < r.capacity then r.read + i else r.read + i - r.capacity := by
  have hr := r.read_lt
  exact and_mask (by simp only [capacity] at hi; omega)

/-- Every counted slot holds an element. -/
theorem isSome_peek (r : Ring c α) {i : Nat} (hi : i < r.count) : (r.peek i).isSome :=
  r.live i hi

/-- The list has the peeked elements, in order. -/
theorem getElem?_toList (r : Ring c α) (i : Nat) :
    r.toList[i]? = if i < r.count then r.peek i else none := by
  unfold toList
  have hsome : ∀ j, j < r.count → (r.peek j).isSome := fun j hj => r.isSome_peek hj
  generalize r.count = n at hsome
  induction n with
  | zero => simp
  | succ n ih =>
      have hlen : ((List.range n).filterMap r.peek).length = n := by
        rw [List.filterMap_length_eq_length.mpr]
        · simp
        · intro j hj
          exact hsome j (by have := List.mem_range.mp hj; omega)
      obtain ⟨x, hx⟩ := Option.isSome_iff_exists.mp (hsome n (by omega))
      rw [List.range_succ, List.filterMap_append, List.getElem?_append, hlen,
        ih fun j hj => hsome j (by omega)]
      by_cases h : i < n
      · simp [h, Nat.lt_succ_of_lt h]
      · rw [if_neg h]
        by_cases heq : i = n
        · subst heq
          simp [hx]
        · have : ¬ i < n + 1 := by omega
          obtain ⟨m, hm⟩ : ∃ m, i - n = m + 1 := ⟨i - n - 1, by omega⟩
          simp [hx, this, hm]

/-- The list is as long as the count. -/
@[simp] theorem length_toList (r : Ring c α) : r.toList.length = r.count := by
  rw [toList, List.filterMap_length_eq_length.mpr]
  · simp
  · intro j hj
    exact r.isSome_peek (List.mem_range.mp hj)

/-- The buffer is empty exactly when its list is. -/
theorem isEmpty_iff (r : Ring c α) : r.isEmpty = true ↔ r.toList = [] := by
  have hr := r.read_lt
  rw [← List.length_eq_zero_iff, length_toList, count_eq, isEmpty, decide_eq_true_eq]
  have hw := r.write_lt
  simp only [capacity]
  split <;> omega

/-- A full buffer has one free cell. -/
theorem isFull_iff (r : Ring c α) : r.isFull = true ↔ r.toList.length + 1 = r.capacity := by
  have hr := r.read_lt
  have hw := r.write_lt
  rw [length_toList, count_eq, isFull, decide_eq_true_eq, capacity, and_mask (by omega)]
  split <;> split <;> omega

/-! ## Inserting and removing -/

/-- The two writes of `put` and `emplace` after the check for space. -/
def push (r : Ring c α) (elem : α) : Ring c α where
  logCapacity := r.logCapacity
  read := r.read
  write := (r.write + 1) &&& (2 ^ r.logCapacity - 1)
  cells := r.cells.set r.write (some elem)
  fits := r.fits
  read_lt := r.read_lt
  write_lt := by
    have := r.write_lt
    rw [and_mask (by omega)]
    split <;> omega
  length_cells := by rw [List.length_set, r.length_cells]
  live := by
    intro i hi
    have hr := r.read_lt
    have hw := r.write_lt
    have hold := r.isSome_peek (i := i)
    have hlt : i < 2 ^ r.logCapacity := by
      rw [Nat.and_two_pow_sub_one_eq_mod] at hi
      exact lt_trans hi (Nat.mod_lt _ (Nat.two_pow_pos _))
    simp only [count_eq, peek, capacity] at hold
    rw [List.getElem?_set]
    by_cases heq : r.write = (r.read + i) &&& (2 ^ r.logCapacity - 1)
    · simp [← heq, r.length_cells, hw]
    · -- an older element: its index is not the one just written
      rw [if_neg heq]
      apply hold
      rw [and_mask (x := r.write + 1) (by omega)] at hi
      rw [and_mask (x := r.read + i) (by omega)] at heq
      split at hi <;> rw [and_mask (by omega)] at hi <;> split at hi <;> split at heq <;>
        split <;> omega

/-- Move `read` past the oldest element. -/
def drop (r : Ring c α) (h : r.isEmpty = false) : Ring c α where
  logCapacity := r.logCapacity
  read := (r.read + 1) &&& (2 ^ r.logCapacity - 1)
  write := r.write
  cells := r.cells
  fits := r.fits
  read_lt := by
    have := r.read_lt
    rw [and_mask (by omega)]
    split <;> omega
  write_lt := r.write_lt
  length_cells := r.length_cells
  live := by
    intro i hi
    have hr := r.read_lt
    have hw := r.write_lt
    have hne : r.read ≠ r.write := by simpa [isEmpty] using h
    have hold := r.isSome_peek (i := i + 1)
    have hlt : i < 2 ^ r.logCapacity := by
      rw [Nat.and_two_pow_sub_one_eq_mod] at hi
      exact lt_trans hi (Nat.mod_lt _ (Nat.two_pow_pos _))
    simp only [count_eq, peek, capacity] at hold
    rw [and_mask (x := r.read + 1) (by omega)] at hi ⊢
    have hcount : i + 1 < if r.read ≤ r.write then r.write - r.read
        else r.write + 2 ^ r.logCapacity - r.read := by
      split at hi <;> rw [and_mask (by omega)] at hi <;> split at hi <;> split <;> omega
    have hsome := hold hcount
    have hidx : ((if r.read + 1 < 2 ^ r.logCapacity then r.read + 1
        else r.read + 1 - 2 ^ r.logCapacity) + i) &&& (2 ^ r.logCapacity - 1) =
        (r.read + (i + 1)) &&& (2 ^ r.logCapacity - 1) := by
      split at hcount <;> rw [and_mask (x := r.read + (i + 1)) (by omega)] <;> split <;>
        rw [and_mask (by omega)] <;> split <;> split <;> omega
    rw [hidx]
    exact hsome

/-- Move `write` back over the newest element. -/
def dropw (r : Ring c α) (h : r.isEmpty = false) : Ring c α where
  logCapacity := r.logCapacity
  read := r.read
  write := (r.write + 2 ^ r.logCapacity - 1) &&& (2 ^ r.logCapacity - 1)
  cells := r.cells
  fits := r.fits
  read_lt := r.read_lt
  write_lt := by
    have := r.write_lt
    rw [and_mask (by omega)]
    split <;> omega
  length_cells := r.length_cells
  live := by
    intro i hi
    have hr := r.read_lt
    have hw := r.write_lt
    have hne : r.read ≠ r.write := by simpa [isEmpty] using h
    have hold := r.isSome_peek (i := i)
    simp only [count_eq, peek, capacity] at hold
    apply hold
    rw [and_mask (x := r.write + 2 ^ r.logCapacity - 1) (by omega)] at hi
    split at hi <;> rw [and_mask (by omega)] at hi <;> split at hi <;> split <;> omega

/-- Write through the pointer that `rb_peek` returns. -/
def set (r : Ring c α) (idx : Nat) (elem : α) : Ring c α where
  logCapacity := r.logCapacity
  read := r.read
  write := r.write
  cells := r.cells.set ((r.read + idx) &&& (2 ^ r.logCapacity - 1)) (some elem)
  fits := r.fits
  read_lt := r.read_lt
  write_lt := r.write_lt
  length_cells := by rw [List.length_set, r.length_cells]
  live := by
    intro i hi
    have hold := r.live i hi
    rw [List.getElem?_set]
    split
    · next heq =>
        have : (r.read + i) &&& (2 ^ r.logCapacity - 1) < 2 ^ r.logCapacity := by
          rw [Nat.and_two_pow_sub_one_eq_mod]
          exact Nat.mod_lt _ (Nat.two_pow_pos _)
        rw [if_pos (by rw [heq, r.length_cells]; exact this)]
        rfl
    · exact hold

/-- Peeking reads the list. -/
theorem peek_eq (r : Ring c α) {i : Nat} (hi : i < r.count) : r.peek i = r.toList[i]? := by
  rw [getElem?_toList, if_pos hi]

/-- The cells after `realloc` to `2 ^ k` cells and the `memmove` of data that
had wrapped around the end of the array. -/
def widenCells (r : Ring c α) (k : Nat) : List (Option α) :=
  if r.read > r.write then
    r.cells ++ r.cells.take r.write ++
      List.replicate (2 ^ k - 2 ^ r.logCapacity - r.write) none
  else r.cells ++ List.replicate (2 ^ k - 2 ^ r.logCapacity) none

/-- `write` after `resize`. -/
def widenWrite (r : Ring c α) : Nat :=
  if r.read > r.write then r.write + 2 ^ r.logCapacity else r.write

/-- The index of an element stays the same, or moves behind the old array. -/
theorem getElem?_widenCells (r : Ring c α) {k i : Nat} (hk : r.logCapacity < k)
    (hi : i < r.count) :
    (r.widenCells k)[(r.read + i) &&& (2 ^ k - 1)]? =
      r.cells[(r.read + i) &&& (2 ^ r.logCapacity - 1)]? := by
  have hr := r.read_lt
  have hw := r.write_lt
  have hlen := r.length_cells
  have hcount := r.count_eq
  have hdouble : 2 * 2 ^ r.logCapacity ≤ 2 ^ k := by
    rw [← pow_succ']
    exact Nat.pow_le_pow_right (by decide) hk
  simp only [capacity] at hcount
  rw [and_mask (k := k) (by split at hcount <;> omega), if_pos (by split at hcount <;> omega),
    and_mask (by split at hcount <;> omega)]
  unfold widenCells
  by_cases hwrap : r.read > r.write
  · rw [if_pos hwrap, List.append_assoc]
    by_cases hin : r.read + i < 2 ^ r.logCapacity
    · rw [if_pos hin, List.getElem?_append_left (by omega)]
    · rw [if_neg hin, List.getElem?_append_right (by omega), List.getElem?_append_left (by
        rw [List.length_take, hlen]
        split at hcount <;> omega), List.getElem?_take_of_lt (by split at hcount <;> omega), hlen]
  · rw [if_neg hwrap, if_pos (by split at hcount <;> omega),
      List.getElem?_append_left (by split at hcount <;> omega)]

/-- Moving the wrapped part behind the old end keeps the distance of the positions. -/
theorem widen_count (r : Ring c α) {k : Nat} (hk : r.logCapacity < k) :
    (r.widenWrite + 2 ^ k - r.read) &&& (2 ^ k - 1) = r.count := by
  have hr := r.read_lt
  have hw := r.write_lt
  have hcount := r.count_eq
  have hdouble : 2 * 2 ^ r.logCapacity ≤ 2 ^ k := by
    rw [← pow_succ']
    exact Nat.pow_le_pow_right (by decide) hk
  simp only [capacity] at hcount
  unfold widenWrite
  split <;> rw [and_mask (by omega)] <;> split <;> split at hcount <;> omega

/-- `resize` to the larger capacity `2 ^ k`. -/
def widen (r : Ring c α) (k : Nat) (hk : r.logCapacity < k) (hfits : k + 1 < c.bits) :
    Ring c α where
  logCapacity := k
  read := r.read
  write := r.widenWrite
  cells := r.widenCells k
  fits := hfits
  read_lt := lt_of_lt_of_le r.read_lt (Nat.pow_le_pow_right (by decide) (Nat.le_of_lt hk))
  write_lt := by
    have hw := r.write_lt
    have hdouble : 2 * 2 ^ r.logCapacity ≤ 2 ^ k := by
      rw [← pow_succ']
      exact Nat.pow_le_pow_right (by decide) hk
    unfold widenWrite
    split <;> omega
  length_cells := by
    have hw := r.write_lt
    have hdouble : 2 * 2 ^ r.logCapacity ≤ 2 ^ k := by
      rw [← pow_succ']
      exact Nat.pow_le_pow_right (by decide) hk
    unfold widenCells
    split <;> simp only [List.length_append, List.length_take, List.length_replicate,
      r.length_cells] <;> omega
  live := by
    intro i hi
    rw [widen_count r hk] at hi
    rw [getElem?_widenCells r hk hi]
    exact r.live i hi

/-- Widening keeps the count. -/
@[simp] theorem count_widen (r : Ring c α) {k : Nat} (hk : r.logCapacity < k)
    (hfits : k + 1 < c.bits) : (r.widen k hk hfits).count = r.count :=
  widen_count r hk

/-- Resizing keeps the elements and their order. -/
@[simp] theorem toList_widen (r : Ring c α) {k : Nat} (hk : r.logCapacity < k)
    (hfits : k + 1 < c.bits) : (r.widen k hk hfits).toList = r.toList := by
  apply List.ext_getElem?
  intro i
  rw [getElem?_toList, getElem?_toList, count_widen]
  by_cases hi : i < r.count
  · rw [if_pos hi, if_pos hi]
    simp only [peek, widen, capacity]
    rw [getElem?_widenCells r hk hi]
  · rw [if_neg hi, if_neg hi]

/-- `write` runs ahead of `read`, or has wrapped and is behind it. -/
theorem count_cases (r : Ring c α) :
    (r.read ≤ r.write ∧ r.count + r.read = r.write) ∨
    (r.write < r.read ∧ r.count + r.read = r.write + r.capacity) := by
  have hr := r.read_lt
  have hcount := r.count_eq
  simp only [capacity] at *
  split at hcount <;> omega

/-- Pushing adds at the end. -/
theorem toList_push {r : Ring c α} (h : r.isFull = false) (elem : α) :
    (r.push elem).toList = r.toList ++ [elem] := by
  have hr := r.read_lt
  have hw := r.write_lt
  have hroom : r.count + 1 < 2 ^ r.logCapacity := by
    have hlt : r.count < 2 ^ r.logCapacity := r.count_lt
    have hne : ¬ r.toList.length + 1 = 2 ^ r.logCapacity := by
      have := r.isFull_iff
      rw [h] at this
      exact fun h' => Bool.false_ne_true (this.mpr h')
    rw [length_toList] at hne
    omega
  have hold := r.count_cases
  have hcount : (r.push elem).count = r.count + 1 := by
    have hnew := (r.push elem).count_cases
    have hwrite : (r.push elem).write = (r.write + 1) &&& (2 ^ r.logCapacity - 1) := rfl
    have hread : (r.push elem).read = r.read := rfl
    rw [and_mask (by omega)] at hwrite
    simp only [show (r.push elem).capacity = 2 ^ r.logCapacity from rfl,
      show r.capacity = 2 ^ r.logCapacity from rfl] at hnew hold
    split at hwrite <;> omega
  have hpeek : ∀ i, i ≤ r.count →
      (r.push elem).peek i = if i = r.count then some elem else r.peek i := by
    intro i hi
    have hat : r.write = (r.read + i) &&& (2 ^ r.logCapacity - 1) ↔ i = r.count := by
      rw [and_mask (x := r.read + i) (by omega)]
      simp only [show r.capacity = 2 ^ r.logCapacity from rfl] at hold
      split <;> omega
    simp only [peek, push, capacity, List.getElem?_set, r.length_cells, hat]
    by_cases heq : i = r.count
    · rw [if_pos heq, if_pos heq, if_pos hw]
      rfl
    · rw [if_neg heq, if_neg heq]
  apply List.ext_getElem?
  intro i
  rw [getElem?_toList, hcount, List.getElem?_append, length_toList]
  by_cases hi : i < r.count
  · rw [if_pos (by omega), if_pos hi, hpeek i (by omega), if_neg (by omega), peek_eq r hi]
  · by_cases heq : i = r.count
    · rw [if_pos (by omega), if_neg hi, hpeek i (by omega), if_pos heq, heq]
      simp
    · obtain ⟨m, hm⟩ : ∃ m, i - r.count = m + 1 := ⟨i - r.count - 1, by omega⟩
      rw [if_neg (by omega), if_neg hi, hm]
      rfl

/-- Dropping takes the first element away. -/
theorem toList_drop {r : Ring c α} (h : r.isEmpty = false) :
    (r.drop h).toList = r.toList.tail := by
  have hr := r.read_lt
  have hw := r.write_lt
  have hne : r.read ≠ r.write := by simpa [isEmpty] using h
  have hlt : r.count < 2 ^ r.logCapacity := r.count_lt
  have hcount : (r.drop h).count + 1 = r.count := by
    have hold := r.count_cases
    have hnew := (r.drop h).count_cases
    have hread : (r.drop h).read = (r.read + 1) &&& (2 ^ r.logCapacity - 1) := rfl
    have hwrite : (r.drop h).write = r.write := rfl
    have hbound : (r.drop h).count < 2 ^ r.logCapacity := (r.drop h).count_lt
    rw [and_mask (by omega)] at hread
    simp only [show (r.drop h).capacity = 2 ^ r.logCapacity from rfl,
      show r.capacity = 2 ^ r.logCapacity from rfl] at hnew hold
    split at hread <;> omega
  have hpeek : ∀ i, i < (r.drop h).count → (r.drop h).peek i = r.peek (i + 1) := by
    intro i hi
    simp only [peek, drop, capacity]
    rw [and_mask (x := r.read + 1) (by omega), and_mask (x := r.read + (i + 1)) (by omega)]
    split <;> rw [and_mask (by omega)] <;> split <;> split <;> (congr 2; omega)
  apply List.ext_getElem?
  intro i
  rw [getElem?_toList, List.getElem?_tail, getElem?_toList]
  by_cases hi : i < (r.drop h).count
  · rw [if_pos hi, if_pos (by omega), hpeek i hi]
  · rw [if_neg hi, if_neg (by omega)]

/-- Dropping at the write end takes the last element away. -/
theorem toList_dropw {r : Ring c α} (h : r.isEmpty = false) :
    (r.dropw h).toList = r.toList.dropLast := by
  have hr := r.read_lt
  have hw := r.write_lt
  have hne : r.read ≠ r.write := by simpa [isEmpty] using h
  have hlt : r.count < 2 ^ r.logCapacity := r.count_lt
  have hcount : (r.dropw h).count + 1 = r.count := by
    have hold := r.count_cases
    have hnew := (r.dropw h).count_cases
    have hwrite : (r.dropw h).write =
        (r.write + 2 ^ r.logCapacity - 1) &&& (2 ^ r.logCapacity - 1) := rfl
    have hread : (r.dropw h).read = r.read := rfl
    have hbound : (r.dropw h).count < 2 ^ r.logCapacity := (r.dropw h).count_lt
    rw [and_mask (by omega)] at hwrite
    simp only [show (r.dropw h).capacity = 2 ^ r.logCapacity from rfl,
      show r.capacity = 2 ^ r.logCapacity from rfl] at hnew hold
    split at hwrite <;> omega
  have hpeek : ∀ i, (r.dropw h).peek i = r.peek i := fun i => rfl
  apply List.ext_getElem?
  intro i
  rw [getElem?_toList, List.getElem?_dropLast, getElem?_toList, length_toList, hpeek]
  by_cases hi : i < (r.dropw h).count
  · rw [if_pos hi, if_pos (by omega), if_pos (by omega)]
  · rw [if_neg hi, if_neg (by omega)]

/-- Setting replaces one element. -/
theorem toList_set {r : Ring c α} {idx : Nat} (hidx : idx < r.count) (elem : α) :
    (r.set idx elem).toList = r.toList.set idx elem := by
  have hr := r.read_lt
  have hlt : r.count < 2 ^ r.logCapacity := r.count_lt
  have hcount : (r.set idx elem).count = r.count := rfl
  have hat : ∀ i, i < r.count → ((r.read + idx) &&& (2 ^ r.logCapacity - 1) =
      (r.read + i) &&& (2 ^ r.logCapacity - 1) ↔ idx = i) := by
    intro i hi
    rw [and_mask (by omega), and_mask (by omega)]
    split <;> split <;> omega
  apply List.ext_getElem?
  intro i
  rw [getElem?_toList, hcount, List.getElem?_set, length_toList, getElem?_toList]
  by_cases hi : i < r.count
  · have hin : (r.read + idx) &&& (2 ^ r.logCapacity - 1) < r.cells.length := by
      rw [r.length_cells, Nat.and_two_pow_sub_one_eq_mod]
      exact Nat.mod_lt _ (Nat.two_pow_pos _)
    simp only [if_pos hi, peek, set, capacity, List.getElem?_set, hat i hi]
    by_cases heq : idx = i
    · rw [if_pos heq, if_pos heq, if_pos hin, if_pos hidx]
      rfl
    · rw [if_neg heq, if_neg heq]
  · rw [if_neg hi]
    by_cases heq : idx = i
    · exact absurd (heq ▸ hidx) hi
    · rw [if_neg heq, if_neg hi]

/-- A buffer fresh from `resize(NULL, 16)`. -/
def empty : Ring c α where
  logCapacity := 4
  read := 0
  write := 0
  cells := List.replicate 16 none
  fits := c.fits
  read_lt := by decide
  write_lt := by decide
  length_cells := List.length_replicate
  live := by
    intro i hi
    simp at hi

/-- The empty buffer has no element. -/
@[simp] theorem toList_empty : (empty : Ring c α).toList = [] := by
  rw [← isEmpty_iff]
  rfl

/-- The empty buffer is not full. -/
theorem isFull_empty : (empty : Ring c α).isFull = false := by
  simp [isFull, empty, capacity]

end Ring

end Clither
