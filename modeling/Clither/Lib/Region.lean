import Clither.Lib.Cells

/-!
# Regions of a block

A block that is shared by two tables is described by regions: `At` says which elements the
cells from a place on hold.  `move` and `write` change the cells of one range, and each of
their rules says what this range holds afterwards and that the cells outside are kept.
-/

namespace Cells

variable {α : Type} {cells cells' : List (Option α)} {i : Nat} {xs ys : List α}

/-- The cells from `i` on hold the elements of the list. -/
def At (cells : List (Option α)) (i : Nat) (xs : List α) : Prop :=
  ∀ k x, xs[k]? = some x → load cells (i + k) = some x

/-- `memcpy` of a list to the cells from `i` on. -/
def write (cells : List (Option α)) (i : Nat) (xs : List α) : Option (List (Option α)) :=
  if i + xs.length ≤ cells.length then
    some (cells.take i ++ xs.map some ++ cells.drop (i + xs.length))
  else none

/-- The `n` elements from `i` on. -/
def read (cells : List (Option α)) : Nat → Nat → Option (List α)
  | _, 0 => some []
  | i, n + 1 =>
      match load cells i, read cells (i + 1) n with
      | some x, some xs => some (x :: xs)
      | _, _ => none

theorem at_nil (cells : List (Option α)) (i : Nat) : At cells i [] := by
  intro k x h
  cases h

theorem at_cons {x : α} : At cells i (x :: xs) ↔ load cells i = some x ∧ At cells (i + 1) xs := by
  constructor
  · intro h
    refine ⟨h 0 x rfl, fun k y hk => ?_⟩
    rw [Nat.add_right_comm]
    exact h (k + 1) y hk
  · rintro ⟨hfirst, hrest⟩ k y hk
    cases k with
    | zero =>
        cases hk
        exact hfirst
    | succ k =>
        rw [← Nat.add_assoc, Nat.add_right_comm]
        exact hrest k y hk

/-- Neighbouring regions are one region. -/
theorem at_append : At cells i (xs ++ ys) ↔ At cells i xs ∧ At cells (i + xs.length) ys := by
  induction xs generalizing i with
  | nil => exact ⟨fun h => ⟨at_nil _ _, h⟩, fun h => h.2⟩
  | cons x xs ih =>
      rw [List.cons_append, at_cons, at_cons, ih, List.length_cons, and_assoc,
        Nat.add_right_comm i 1, Nat.add_assoc i]

/-- What is outside of the changed range is kept. -/
theorem At.congr (h : At cells i xs)
    (hsame : ∀ p, i ≤ p → p < i + xs.length → load cells' p = load cells p) : At cells' i xs := by
  intro k x hk
  obtain ⟨hlt, -⟩ := List.getElem?_eq_some_iff.mp hk
  rw [hsame _ (by omega) (by omega)]
  exact h k x hk

theorem load_lt {p : Nat} {x : α} (h : load cells p = some x) : p < cells.length := by
  by_contra hge
  rw [load, List.getElem?_eq_none (by omega)] at h
  cases h

/-- A region lies in its block. -/
theorem At.length_le (h : At cells i xs) (hne : xs ≠ []) : i + xs.length ≤ cells.length := by
  have hpos : xs.length - 1 < xs.length :=
    Nat.sub_lt (List.length_pos_iff.mpr hne) Nat.zero_lt_one
  have hlast := load_lt (h (xs.length - 1) _ (List.getElem?_eq_getElem hpos))
  omega

theorem At.read (h : At cells i xs) : read cells i xs.length = some xs := by
  induction xs generalizing i with
  | nil => rfl
  | cons x xs ih =>
      obtain ⟨hfirst, hrest⟩ := at_cons.mp h
      rw [List.length_cons, Cells.read, hfirst, ih hrest]

/-- **`realloc`** to a larger block. -/
theorem load_resize {n p : Nat} (hp : p < cells.length) (hn : cells.length ≤ n) :
    load (resize cells n) p = load cells p := by
  rw [load, load, resize, List.take_of_length_le hn, List.getElem?_append_left hp]

/-- **`memmove`.** -/
theorem move_spec {dst src n : Nat} (hdst : dst + n ≤ cells.length) (hsrc : src + n ≤ cells.length) :
    ∃ moved, move cells dst src n = some moved ∧ moved.length = cells.length ∧
      ∀ p, load moved p =
        if dst ≤ p ∧ p < dst + n then load cells (src + (p - dst)) else load cells p := by
  rw [move]
  split_ifs with hzero hinside
  · refine ⟨cells, rfl, rfl, fun p => ?_⟩
    rw [if_neg (by omega)]
  · refine ⟨_, rfl, ?_, fun p => ?_⟩
    · simp only [List.length_append, List.length_take, List.length_drop]
      omega
    · simp only [load]
      simp only [List.getElem?_append, List.getElem?_take, List.getElem?_drop, List.length_append,
        List.length_take, List.length_drop]
      grind
  · exact absurd ⟨hdst, hsrc⟩ hinside

/-- What the moved cells hold. -/
theorem At.moved {dst src : Nat} (h : At cells src xs)
    (hload : ∀ p, load cells' p =
      if dst ≤ p ∧ p < dst + xs.length then load cells (src + (p - dst)) else load cells p) :
    At cells' dst xs := by
  intro k x hk
  obtain ⟨hlt, -⟩ := List.getElem?_eq_some_iff.mp hk
  rw [hload, if_pos (by omega), Nat.add_sub_cancel_left]
  exact h k x hk

/-- **`memcpy`.** -/
theorem write_spec (hi : i + xs.length ≤ cells.length) :
    ∃ written, write cells i xs = some written ∧ written.length = cells.length ∧
      At written i xs ∧ ∀ p, p < i ∨ i + xs.length ≤ p → load written p = load cells p := by
  have hlength : (cells.take i).length = i := by
    rw [List.length_take]
    omega
  rw [write, if_pos hi]
  refine ⟨_, rfl, ?_, fun k x hk => ?_, fun p hp => ?_⟩
  · simp only [List.length_append, List.length_take, List.length_drop, List.length_map]
    omega
  · obtain ⟨hlt, -⟩ := List.getElem?_eq_some_iff.mp hk
    rw [load, List.append_assoc, List.getElem?_append_right (by omega), hlength,
      Nat.add_sub_cancel_left, List.getElem?_append_left (by rw [List.length_map]; exact hlt),
      List.getElem?_map, hk]
    rfl
  · simp only [load]
    congr 1
    simp only [List.getElem?_append, List.getElem?_take, List.getElem?_drop, List.length_append,
      List.length_map, hlength]
    grind

end Cells
