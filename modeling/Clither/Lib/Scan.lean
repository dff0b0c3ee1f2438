import Mathlib.Data.List.TakeWhile
import Mathlib.Tactic.Common

/-!
# Reading a text by position

A scanner holds a position of a text and reads one element after the other.  A read behind
the end of the text is a fault.  `scanWhile` is its loop, which is told how many positions
there are to the bound that it compares with; `scanWhile_eq` is the loop that stops at the
end of the text.  One that does not look at the end is stopped by an element that it refuses
(`scanWhile_of_any`), or it reads on behind the text (`scanWhile_of_all`).
-/

namespace Scan

variable {α β φ : Type} (outside : φ) (xs : List α)

/-- The element at a position. -/
def readAt (i : Nat) : Except φ α :=
  match xs[i]? with
  | some x => .ok x
  | none => .error outside

/-- Go on while the elements are accepted, for at most `n` positions, and collect what
is read on the way. -/
def scanWhile (ok : α → Bool) (step : β → α → β) : Nat → Nat → β → Except φ (Nat × β)
  | 0, i, b => .ok (i, b)
  | n + 1, i, b => do
      let x ← readAt outside xs i
      if ok x then scanWhile ok step n (i + 1) (step b x) else .ok (i, b)

variable {outside xs}

theorem readAt_of_drop {i : Nat} {x : α} {rest : List α} (h : xs.drop i = x :: rest) :
    readAt outside xs i = .ok x := by
  have hget : xs[i]? = some x := by
    rw [← List.head?_drop, h]
    rfl
  rw [readAt, hget]

theorem readAt_of_le {i : Nat} (h : xs.length ≤ i) : readAt outside xs i = .error outside := by
  rw [readAt, List.getElem?_eq_none h]

theorem drop_succ_of_drop {i : Nat} {x : α} {rest : List α} (h : xs.drop i = x :: rest) :
    xs.drop (i + 1) = rest := by
  rw [← List.drop_drop, h]
  rfl

theorem lt_of_drop {i : Nat} {x : α} {rest : List α} (h : xs.drop i = x :: rest) :
    i < xs.length := by
  by_contra hle
  rw [List.drop_of_length_le (Nat.le_of_not_lt hle)] at h
  cases h

/-- What is left behind the longest run. -/
theorem drop_takeWhile (ok : α → Bool) (xs : List α) (i : Nat) :
    xs.drop (i + ((xs.drop i).takeWhile ok).length) = (xs.drop i).dropWhile ok := by
  rw [← List.drop_drop]
  calc (xs.drop i).drop ((xs.drop i).takeWhile ok).length
      = ((xs.drop i).takeWhile ok ++ (xs.drop i).dropWhile ok).drop
          ((xs.drop i).takeWhile ok).length := by rw [List.takeWhile_append_dropWhile]
    _ = (xs.drop i).dropWhile ok := List.drop_left

theorem length_takeWhile_drop (ok : α → Bool) {xs : List α} {i : Nat} (hi : i ≤ xs.length) :
    i + ((xs.drop i).takeWhile ok).length ≤ xs.length := by
  have hle := (List.takeWhile_sublist ok (l := xs.drop i)).length_le
  rw [List.length_drop] at hle
  omega

/-- A loop whose bound is inside the text accepts the longest run before it. -/
theorem scanWhile_of_le (ok : α → Bool) (step : β → α → β) {n i : Nat} (h : i + n ≤ xs.length)
    (b : β) :
    scanWhile outside xs ok step n i b =
      .ok (i + (((xs.drop i).take n).takeWhile ok).length,
        (((xs.drop i).take n).takeWhile ok).foldl step b) := by
  induction n generalizing i b with
  | zero => rfl
  | succ n ih =>
      have hlt : i < xs.length := by omega
      have hdrop := List.drop_eq_getElem_cons hlt
      rw [scanWhile, readAt_of_drop hdrop, hdrop, List.take_succ_cons, List.takeWhile_cons]
      show (if ok xs[i] then _ else _) = _
      by_cases hok : ok xs[i] = true
      · rw [if_pos hok, if_pos hok, ih (by omega) (step b xs[i]), List.length_cons,
          List.foldl_cons, Nat.add_assoc, Nat.add_comm 1]
      · rw [if_neg hok, if_neg hok]
        rfl

/-- The loop that stops at the end of the text. -/
theorem scanWhile_eq (ok : α → Bool) (step : β → α → β) {i : Nat} (hi : i ≤ xs.length) (b : β) :
    scanWhile outside xs ok step (xs.length - i) i b =
      .ok (i + ((xs.drop i).takeWhile ok).length, ((xs.drop i).takeWhile ok).foldl step b) := by
  have htake : (xs.drop i).take (xs.length - i) = xs.drop i :=
    List.take_of_length_le (by rw [List.length_drop])
  rw [scanWhile_of_le ok step (by omega), htake]

/-- A loop that is refused before the end of the text. -/
theorem scanWhile_of_any {ok : α → Bool} (step : β → α → β) {n i : Nat}
    (hany : (xs.drop i).any (fun x => !ok x) = true) (h : xs.length ≤ i + n) (b : β) :
    ∃ r, scanWhile outside xs ok step n i b = .ok r := by
  induction n generalizing i b with
  | zero => exact ⟨(i, b), rfl⟩
  | succ n ih =>
      cases hdrop : xs.drop i with
      | nil =>
          rw [hdrop] at hany
          cases hany
      | cons x rest =>
          rw [hdrop, List.any_cons, Bool.or_eq_true] at hany
          rw [scanWhile, readAt_of_drop hdrop]
          show ∃ r, (if ok x then _ else _) = _
          by_cases hok : ok x = true
          · rw [if_pos hok]
            refine ih ?_ (by omega) _
            rw [drop_succ_of_drop hdrop]
            exact hany.resolve_left (by rw [hok]; decide)
          · rw [if_neg hok]
            exact ⟨(i, b), rfl⟩

/-- A loop that is never refused reads on behind the text. -/
theorem scanWhile_of_all {ok : α → Bool} (step : β → α → β) {n i : Nat}
    (hall : (xs.drop i).any (fun x => !ok x) = false) (hi : i ≤ xs.length)
    (h : xs.length < i + n) (b : β) :
    scanWhile outside xs ok step n i b = .error outside := by
  induction n generalizing i b with
  | zero => omega
  | succ n ih =>
      cases hdrop : xs.drop i with
      | nil =>
          rw [scanWhile, readAt_of_le (List.drop_eq_nil_iff.mp hdrop)]
          rfl
      | cons x rest =>
          rw [hdrop, List.any_cons, Bool.or_eq_false_iff] at hall
          rw [scanWhile, readAt_of_drop hdrop]
          show (if ok x then _ else _) = _
          rw [if_pos (by simpa using hall.1)]
          refine ih ?_ (lt_of_drop hdrop) (by omega) _
          rw [drop_succ_of_drop hdrop]
          exact hall.2

end Scan
