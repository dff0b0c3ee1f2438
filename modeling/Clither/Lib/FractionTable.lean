import Mathlib.Algebra.BigOperators.Intervals
import Mathlib.Algebra.BigOperators.Ring.Finset
import Mathlib.Algebra.Order.BigOperators.Group.Finset
import Mathlib.Tactic.Ring
import Mathlib.Tactic.Linarith

/-!
# A table of rounded fractions

The fractions `1/n`, …, `k/n` with `n = k + 1`, in fixed point with the unit `scale` and
rounded down.  Their sum is about `k/2` and the sum of their squares about `k/3`, and the
lemmas say how far off the rounding takes them.
-/

namespace FractionTable

open Finset

/-- The fraction `i/n`. -/
def frac (scale n i : Nat) : Nat :=
  i * scale / n

variable (scale k : Nat)

/-- Ones add up to their number. -/
theorem sum_add_one (f : Nat → Nat) : ∑ i ∈ range k, (f i + 1) = ∑ i ∈ range k, f i + k := by
  simp [sum_add_distrib]

/-- The sum of the first integers. -/
theorem sum_succ : 2 * ∑ i ∈ range k, (i + 1) = k * (k + 1) := by
  induction k with
  | zero => rfl
  | succ k ih =>
      rw [sum_range_succ, Nat.mul_add, ih]
      ring

/-- The sum of the first squares. -/
theorem sum_succ_sq : 6 * ∑ i ∈ range k, (i + 1) ^ 2 = k * (k + 1) * (2 * k + 1) := by
  induction k with
  | zero => rfl
  | succ k ih =>
      rw [sum_range_succ, Nat.mul_add, ih]
      ring

variable {scale}

/-- A rounded fraction is at most the fraction. -/
theorem mul_frac_le (n i : Nat) : n * frac scale n i ≤ i * scale :=
  Nat.mul_div_le _ _

/-- And less than one below it. -/
theorem lt_mul_frac {n : Nat} (hn : 0 < n) (i : Nat) : i * scale < n * (frac scale n i + 1) :=
  Nat.lt_mul_div_succ _ hn

/-- A fraction of at most one is at most the scale. -/
theorem frac_le_scale {n i : Nat} (h : i ≤ n) : frac scale n i ≤ scale :=
  Nat.div_le_of_le_mul (Nat.mul_le_mul_right _ h)

variable (scale)

/-- The fractions add up to half the scale each, at most. -/
theorem sum_frac_le : 2 * ∑ i ∈ range k, frac scale (k + 1) (i + 1) ≤ scale * k := by
  have hsum : (k + 1) * ∑ i ∈ range k, frac scale (k + 1) (i + 1) ≤
      (∑ i ∈ range k, (i + 1)) * scale := by
    rw [mul_sum, sum_mul]
    exact sum_le_sum fun i _ => mul_frac_le _ _
  have hline := sum_succ k
  refine Nat.le_of_mul_le_mul_left (?_ : (k + 1) * _ ≤ (k + 1) * _) (Nat.succ_pos k)
  calc (k + 1) * (2 * ∑ i ∈ range k, frac scale (k + 1) (i + 1))
      = 2 * ((k + 1) * ∑ i ∈ range k, frac scale (k + 1) (i + 1)) := by ring
    _ ≤ 2 * ((∑ i ∈ range k, (i + 1)) * scale) := Nat.mul_le_mul_left 2 hsum
    _ = (2 * ∑ i ∈ range k, (i + 1)) * scale := by ring
    _ = (k + 1) * (scale * k) := by rw [hline]; ring

/-- And to no less than that, but for one each. -/
theorem le_sum_frac : scale * k ≤ 2 * (∑ i ∈ range k, frac scale (k + 1) (i + 1) + k) := by
  have hsum : (∑ i ∈ range k, (i + 1)) * scale ≤
      (k + 1) * (∑ i ∈ range k, frac scale (k + 1) (i + 1) + k) := by
    rw [← sum_add_one, mul_sum, sum_mul]
    exact sum_le_sum fun i _ => (lt_mul_frac (Nat.succ_pos k) _).le
  have hline := sum_succ k
  refine Nat.le_of_mul_le_mul_left (?_ : (k + 1) * _ ≤ (k + 1) * _) (Nat.succ_pos k)
  calc (k + 1) * (scale * k) = (2 * ∑ i ∈ range k, (i + 1)) * scale := by rw [hline]; ring
    _ = 2 * ((∑ i ∈ range k, (i + 1)) * scale) := by ring
    _ ≤ 2 * ((k + 1) * (∑ i ∈ range k, frac scale (k + 1) (i + 1) + k)) :=
        Nat.mul_le_mul_left 2 hsum
    _ = (k + 1) * (2 * (∑ i ∈ range k, frac scale (k + 1) (i + 1) + k)) := by ring

/-- The squares of the fractions add up to about a third of the scale squared, at most. -/
theorem sum_frac_sq_le :
    6 * (k + 1) * ∑ i ∈ range k, frac scale (k + 1) (i + 1) ^ 2 ≤
      scale ^ 2 * (k * (2 * k + 1)) := by
  have hsum : (k + 1) ^ 2 * ∑ i ∈ range k, frac scale (k + 1) (i + 1) ^ 2 ≤
      (∑ i ∈ range k, (i + 1) ^ 2) * scale ^ 2 := by
    rw [mul_sum, sum_mul]
    refine sum_le_sum fun i _ => ?_
    rw [← mul_pow, ← mul_pow]
    exact Nat.pow_le_pow_left (mul_frac_le _ _) 2
  have hsquares := sum_succ_sq k
  refine Nat.le_of_mul_le_mul_left (?_ : (k + 1) * _ ≤ (k + 1) * _) (Nat.succ_pos k)
  calc (k + 1) * (6 * (k + 1) * ∑ i ∈ range k, frac scale (k + 1) (i + 1) ^ 2)
      = 6 * ((k + 1) ^ 2 * ∑ i ∈ range k, frac scale (k + 1) (i + 1) ^ 2) := by ring
    _ ≤ 6 * ((∑ i ∈ range k, (i + 1) ^ 2) * scale ^ 2) := Nat.mul_le_mul_left 6 hsum
    _ = (6 * ∑ i ∈ range k, (i + 1) ^ 2) * scale ^ 2 := by ring
    _ = (k + 1) * (scale ^ 2 * (k * (2 * k + 1))) := by rw [hsquares]; ring

/-- And to no less than that, but for the rounding. -/
theorem le_sum_frac_sq :
    scale ^ 2 * (k * (2 * k + 1)) ≤
      6 * (k + 1) * (∑ i ∈ range k, frac scale (k + 1) (i + 1) ^ 2 + (scale + 1) * k) := by
  have hsum : (∑ i ∈ range k, (i + 1) ^ 2) * scale ^ 2 ≤
      (k + 1) ^ 2 * ∑ i ∈ range k, (frac scale (k + 1) (i + 1) + 1) ^ 2 := by
    rw [mul_sum, sum_mul]
    refine sum_le_sum fun i _ => ?_
    rw [← mul_pow, ← mul_pow]
    exact Nat.pow_le_pow_left (lt_mul_frac (Nat.succ_pos k) _).le 2
  have hexpand : ∑ i ∈ range k, (frac scale (k + 1) (i + 1) + 1) ^ 2 =
      ∑ i ∈ range k, frac scale (k + 1) (i + 1) ^ 2 +
        2 * ∑ i ∈ range k, frac scale (k + 1) (i + 1) + k := by
    rw [mul_sum, ← sum_add_distrib, ← sum_add_one]
    exact sum_congr rfl fun i _ => by ring
  have hline := sum_frac_le scale k
  have hsquares := sum_succ_sq k
  refine Nat.le_of_mul_le_mul_left (?_ : (k + 1) * _ ≤ (k + 1) * _) (Nat.succ_pos k)
  calc (k + 1) * (scale ^ 2 * (k * (2 * k + 1)))
      = 6 * ((∑ i ∈ range k, (i + 1) ^ 2) * scale ^ 2) := by
        rw [← mul_assoc 6, hsquares]
        ring
    _ ≤ 6 * ((k + 1) ^ 2 * ∑ i ∈ range k, (frac scale (k + 1) (i + 1) + 1) ^ 2) :=
        Nat.mul_le_mul_left 6 hsum
    _ ≤ 6 * ((k + 1) ^ 2 * (∑ i ∈ range k, frac scale (k + 1) (i + 1) ^ 2 + (scale + 1) * k)) := by
        refine Nat.mul_le_mul_left 6 (Nat.mul_le_mul_left _ ?_)
        rw [hexpand]
        linarith
    _ = (k + 1) * (6 * (k + 1) *
          (∑ i ∈ range k, frac scale (k + 1) (i + 1) ^ 2 + (scale + 1) * k)) := by ring

end FractionTable
