import Mathlib.Order.Bounds.Basic
import Mathlib.Data.List.Chain

/-!
# A counter that follows a goal

At each turn a counter goes up by one if the goal of that turn is above it.  The
goals never fall, but they may jump, and then the counter lags behind and catches
up by one per turn.

`foldl_follow_isLeast` is the closed form: behind every turn there is the bound
that the counter was at the goal then and has gone up at each later turn, and the
counter stands at the least of these bounds.
-/

namespace Pace

def follow (count goal : Nat) : Nat :=
  if count < goal then count + 1 else count

theorem follow_eq_min {count goal : Nat} (h : count ≤ goal) :
    follow count goal = min (count + 1) goal := by
  grind [follow]

theorem follow_eq_add (count goal : Nat) :
    follow count goal = count + if 0 < goal - count then 1 else 0 := by
  grind [follow]

theorem follow_le {count goal : Nat} (h : count ≤ goal) : follow count goal ≤ goal := by
  grind [follow]

/-- The goals rise from the counter on. -/
theorem isChain_follow {count goal : Nat} {goals : List Nat}
    (h : (count :: goal :: goals).IsChain (· ≤ ·)) :
    (follow count goal :: goals).IsChain (· ≤ ·) := by
  cases goals with
  | nil => exact .singleton _
  | cons next rest =>
      obtain ⟨hfirst, hgoals⟩ := List.isChain_cons_cons.mp h
      obtain ⟨hnext, hrest⟩ := List.isChain_cons_cons.mp hgoals
      exact List.isChain_cons_cons.mpr ⟨(follow_le hfirst).trans hnext, hrest⟩

/-- What the counter cannot be above of: it goes up at most once per turn, and at
no turn is it above the goal. -/
def Bound (count : Nat) (goals : List Nat) (bound : Nat) : Prop :=
  bound = count + goals.length ∨
    ∃ before goal after, goals = before ++ goal :: after ∧ bound = goal + after.length

theorem foldl_follow_le (count : Nat) (goals : List Nat) :
    goals.foldl follow count ≤ count + goals.length := by
  induction goals generalizing count with
  | nil => exact Nat.le_refl count
  | cons goal rest ih =>
      have hstep : follow count goal ≤ count + 1 := by grind [follow]
      have hrest := ih (follow count goal)
      rw [List.foldl_cons, List.length_cons]
      omega

theorem foldl_follow_le_goal {count goal : Nat} {before after : List Nat}
    (h : (count :: (before ++ goal :: after)).IsChain (· ≤ ·)) :
    (before ++ goal :: after).foldl follow count ≤ goal + after.length := by
  induction before generalizing count with
  | nil =>
      obtain ⟨hfirst, -⟩ := List.isChain_cons_cons.mp h
      calc (goal :: after).foldl follow count
          ≤ follow count goal + after.length := foldl_follow_le _ after
        _ ≤ goal + after.length := Nat.add_le_add_right (follow_le hfirst) _
  | cons first rest ih => exact ih (isChain_follow h)

theorem foldl_follow_attained {count : Nat} {goals : List Nat}
    (h : (count :: goals).IsChain (· ≤ ·)) : Bound count goals (goals.foldl follow count) := by
  induction goals generalizing count with
  | nil => exact Or.inl rfl
  | cons goal rest ih =>
      obtain ⟨hfirst, -⟩ := List.isChain_cons_cons.mp h
      have hmin := follow_eq_min hfirst
      rw [List.foldl_cons]
      rcases ih (isChain_follow h) with hall | ⟨before, g, after, hrest, hlater⟩
      · rcases Nat.le_total (count + 1) goal with hle | hle
        · left
          rw [hall, hmin, Nat.min_eq_left hle, List.length_cons]
          omega
        · exact Or.inr ⟨[], goal, rest, rfl, by rw [hall, hmin, Nat.min_eq_right hle]⟩
      · exact Or.inr ⟨goal :: before, g, after, by rw [hrest, List.cons_append], hlater⟩

/-- **Closed form.** -/
theorem foldl_follow_isLeast {count : Nat} {goals : List Nat}
    (h : (count :: goals).IsChain (· ≤ ·)) :
    IsLeast {bound | Bound count goals bound} (goals.foldl follow count) := by
  refine ⟨foldl_follow_attained h, ?_⟩
  rintro bound (rfl | ⟨before, goal, after, rfl, rfl⟩)
  · exact foldl_follow_le count goals
  · exact foldl_follow_le_goal h

/-- A goal that never jumps is met at every turn. -/
theorem foldl_follow_of_steady {count : Nat} {goals : List Nat}
    (h : (count :: goals).IsChain fun a b => a ≤ b ∧ b ≤ a + 1) :
    goals.foldl follow count = goals.getLast?.getD count := by
  induction goals generalizing count with
  | nil => rfl
  | cons goal rest ih =>
      obtain ⟨⟨hle, hstep⟩, hrest⟩ := List.isChain_cons_cons.mp h
      have hmet : follow count goal = goal := by grind [follow]
      rw [List.foldl_cons, hmet, ih hrest, List.getLast?_cons]
      rfl

end Pace
