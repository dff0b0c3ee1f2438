import Mathlib.Data.List.Basic

/-!
# Blocks of memory cells

A block that the allocator has handed out is a list of cells; a cell that was
never written is `none`.  An access outside of the block has no result.

`Holds` says that the first cells of a block are the elements of a list.  An
array that is shifted by `memmove` and written at the gap then holds the list
with the element inserted, and one that is shifted back holds it without.
-/

namespace Cells

variable {α : Type}

/-- `realloc` to `n` cells. -/
def resize (cells : List (Option α)) (n : Nat) : List (Option α) :=
  cells.take n ++ List.replicate (n - cells.length) none

/-- `memmove` of `n` cells; a move of no cells touches nothing. -/
def move (cells : List (Option α)) (dst src n : Nat) : Option (List (Option α)) :=
  if n = 0 then some cells
  else if dst + n ≤ cells.length ∧ src + n ≤ cells.length then
    some (cells.take dst ++ (cells.drop src).take n ++ cells.drop (dst + n))
  else none

def store (cells : List (Option α)) (i : Nat) (x : α) : Option (List (Option α)) :=
  if i < cells.length then some (cells.set i (some x)) else none

def load (cells : List (Option α)) (i : Nat) : Option α :=
  (cells[i]?).join

/-- The first cells are the elements of the list. -/
def Holds (cells : List (Option α)) (xs : List α) : Prop :=
  ∃ junk, cells = xs.map some ++ junk

@[simp] theorem length_resize (cells : List (Option α)) (n : Nat) :
    (resize cells n).length = n := by
  rw [resize, List.length_append, List.length_take, List.length_replicate]
  omega

theorem holds_nil (cells : List (Option α)) : Holds cells [] :=
  ⟨cells, rfl⟩

theorem Holds.length_le {cells : List (Option α)} {xs : List α} (h : Holds cells xs) :
    xs.length ≤ cells.length := by
  obtain ⟨junk, rfl⟩ := h
  rw [List.length_append, List.length_map]
  omega

theorem Holds.load {cells : List (Option α)} {xs : List α} (h : Holds cells xs) {i : Nat}
    (hi : i < xs.length) : load cells i = xs[i]? := by
  obtain ⟨junk, rfl⟩ := h
  rw [Cells.load, List.getElem?_append_left (by rw [List.length_map]; exact hi), List.getElem?_map]
  cases xs[i]? <;> rfl

/-- A block that stays large enough keeps its elements. -/
theorem Holds.resize {cells : List (Option α)} {xs : List α} (h : Holds cells xs) {n : Nat}
    (hn : xs.length ≤ n) : Holds (resize cells n) xs := by
  obtain ⟨junk, rfl⟩ := h
  refine ⟨junk.take (n - xs.length) ++
    List.replicate (n - (xs.map some ++ junk).length) none, ?_⟩
  rw [Cells.resize, List.take_append, List.length_map, List.take_of_length_le (by
    rw [List.length_map]
    exact hn), List.append_assoc]

theorem Holds.store {cells : List (Option α)} {l r : List α} {y : α} (h : Holds cells (l ++ y :: r))
    (x : α) : ∃ cells', Cells.store cells l.length x = some cells' ∧ Holds cells' (l ++ x :: r) ∧
      cells'.length = cells.length := by
  have hlt : l.length < cells.length := by
    have := h.length_le
    rw [List.length_append, List.length_cons] at this
    omega
  refine ⟨_, if_pos hlt, ?_, List.length_set⟩
  obtain ⟨junk, rfl⟩ := h
  refine ⟨junk, ?_⟩
  rw [List.map_append, List.append_assoc, List.set_append_right _ _ (Nat.le_of_eq (List.length_map _)),
    List.length_map, Nat.sub_self, List.map_append, List.append_assoc]
  rfl

/-- Elements that move one place up leave a copy of the first of them, or the old
cell, behind. -/
theorem move_up (a b j : List (Option α)) (g : Option α) :
    ∃ gap, move (a ++ b ++ g :: j) (a.length + 1) a.length b.length =
      some (a ++ gap :: b ++ j) := by
  cases b with
  | nil =>
      refine ⟨g, ?_⟩
      rw [move, List.length_nil, if_pos rfl, List.append_nil, List.append_assoc]
      rfl
  | cons y b =>
      have hfirst : (a ++ y :: b ++ g :: j).take (a.length + 1) = a ++ [y] := by
        rw [List.append_assoc, List.take_length_add_append]
        rfl
      have hmid : ((a ++ y :: b ++ g :: j).drop a.length).take (y :: b).length = y :: b := by
        rw [List.append_assoc, List.drop_left, List.take_left]
      have hrest : (a ++ y :: b ++ g :: j).drop (a.length + 1 + (y :: b).length) = j := by
        rw [show a.length + 1 + (y :: b).length = (a ++ y :: b).length + 1 by
          rw [List.length_append]
          omega, List.drop_length_add_append]
        rfl
      refine ⟨y, ?_⟩
      rw [move, if_neg (show (y :: b).length ≠ 0 from Nat.succ_ne_zero _), if_pos (by
        simp only [List.length_append, List.length_cons]
        omega), hfirst, hmid, hrest, List.append_assoc, List.append_assoc, List.append_assoc]
      rfl

/-- Elements that move one place down overwrite the one before them. -/
theorem move_down (a b j : List (Option α)) (g : Option α) :
    ∃ junk, move (a ++ g :: b ++ j) a.length (a.length + 1) b.length = some (a ++ b ++ junk) ∧
      (a ++ b ++ junk).length = (a ++ g :: b ++ j).length := by
  cases b with
  | nil =>
      refine ⟨g :: j, ?_, by simp⟩
      rw [move, List.length_nil, if_pos rfl, List.append_nil, List.append_assoc]
      rfl
  | cons y b =>
      have hfirst : (a ++ g :: y :: b ++ j).take a.length = a := by
        rw [List.append_assoc, List.take_left]
      have hmid : ((a ++ g :: y :: b ++ j).drop (a.length + 1)).take (y :: b).length = y :: b := by
        rw [List.append_assoc, List.drop_length_add_append]
        exact List.take_left
      refine ⟨(a ++ g :: y :: b ++ j).drop (a.length + (y :: b).length), ?_, ?_⟩
      · rw [move, if_neg (show (y :: b).length ≠ 0 from Nat.succ_ne_zero _), if_pos (by
          simp only [List.length_append, List.length_cons]
          omega), hfirst, hmid]
      · simp only [List.length_append, List.length_drop, List.length_cons]
        omega

/-- **Inserting**: shift the elements from a place on, and write there. -/
theorem Holds.insert {cells : List (Option α)} {l r : List α} (h : Holds cells (l ++ r))
    (hroom : (l ++ r).length < cells.length) :
    ∃ moved, move cells (l.length + 1) l.length r.length = some moved ∧
      ∀ x, ∃ cells', Cells.store moved l.length x = some cells' ∧ Holds cells' (l ++ x :: r) ∧
        cells'.length = cells.length := by
  obtain ⟨junk, rfl⟩ := h
  cases junk with
  | nil =>
      rw [List.append_nil, List.length_map] at hroom
      exact absurd hroom (Nat.lt_irrefl _)
  | cons g junk =>
      obtain ⟨gap, hmove⟩ := move_up (l.map some) (r.map some) junk g
      rw [List.length_map, List.length_map, ← List.map_append] at hmove
      refine ⟨_, hmove, fun x => ⟨_, if_pos ?_, ⟨junk, ?_⟩, ?_⟩⟩
      · simp only [List.length_append, List.length_map, List.length_cons]
        omega
      · rw [List.append_assoc, List.set_append_right _ _ (Nat.le_of_eq (List.length_map _)),
          List.length_map, Nat.sub_self, List.map_append, List.append_assoc]
        rfl
      · simp only [List.length_set, List.length_append, List.length_map, List.length_cons]
        omega

/-- A shift and a write that take place stay inside of the block. -/
theorem lt_of_insert {cells moved cells' : List (Option α)} {i len : Nat} {x : α} (hi : i ≤ len)
    (hmove : move cells (i + 1) i (len - i) = some moved) (hstore : store moved i x = some cells') :
    len < cells.length := by
  rw [move] at hmove
  split_ifs at hmove with hzero hinside
  · cases hmove
    rw [store] at hstore
    split_ifs at hstore
    omega
  · omega

/-- **Erasing**: shift the elements behind a place back over it. -/
theorem Holds.erase {cells : List (Option α)} {l r : List α} {x : α} (h : Holds cells (l ++ x :: r)) :
    ∃ cells', move cells l.length (l.length + 1) r.length = some cells' ∧ Holds cells' (l ++ r) ∧
      cells'.length = cells.length := by
  obtain ⟨junk, rfl⟩ := h
  obtain ⟨junk', hmove, hlen⟩ := move_down (l.map some) (r.map some) junk (some x)
  rw [List.length_map, List.length_map] at hmove
  rw [List.map_append, List.map_cons]
  exact ⟨_, hmove, ⟨junk', by rw [List.map_append]⟩, hlen⟩

end Cells
