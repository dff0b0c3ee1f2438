import Clither.FitTrail
import Clither.Lib.FractionTable

/-!
# The determinant of the regression

The matrix of the regression depends on the number of points only.  Its entries are sums over
a table of fractions, and they fit into Q16.16 for every trail.  The products of the
determinant do not: the one of the diagonal is saturated from 316 points on, the other one
from 365 points on.  When both are, the determinant is zero, and the fit asks for a new
segment.  In between it is not zero, and not a determinant.
-/

namespace Clither

open Finset FractionTable

/-- `q16_16_sat32` does not leave the product as it is. -/
def Saturated (a b : Int) : Prop :=
  q1616Mul a b ≠ q1616Product a b

instance decidableSaturated (a b : Int) : Decidable (Saturated a b) :=
  inferInstanceAs (Decidable (¬_ = _))

/-- A product below 2³¹ is not saturated. -/
theorem q1616Mul_of_lt {a b : Int} (h0 : 0 ≤ a * b) (h : q1616Product a b < 2 ^ 31) :
    q1616Mul a b = q1616Product a b := by
  refine q1616Mul_eq_product ?_ h
  rw [q1616Product_eq]
  omega

/-- A product from 2³¹ on is saturated. -/
theorem q1616Mul_of_le {a b : Int} (h : 2 ^ 31 ≤ q1616Product a b) : q1616Mul a b = 2 ^ 31 - 1 := by
  rw [q1616Mul, q1616Sat32, if_pos (by omega)]
  rfl

/-- Products saturate exactly from 2³¹ on. -/
theorem saturated_iff {a b : Int} (h0 : 0 ≤ a * b) : Saturated a b ↔ 2 ^ 31 ≤ q1616Product a b := by
  constructor
  · intro hsat
    by_contra hlt
    exact hsat (q1616Mul_of_lt h0 (by omega))
  · intro hle heq
    rw [q1616Mul_of_le hle] at heq
    omega

/-! ## The matrix -/

/-- The sum of the parameters. -/
def sumParams (count : Nat) : Nat :=
  ∑ i ∈ range (count - 2), frac 65536 (count - 1) (i + 1)

/-- The sum of their rounded squares. -/
def sumSquares (count : Nat) : Nat :=
  ∑ i ∈ range (count - 2), (frac 65536 (count - 1) (i + 1) ^ 2 + 32768) / 65536

/-- The parameter of a point is its index over the last one, rounded to 16 bits. -/
theorem fitParam_eq {count i : Nat} (hcount : 1 ≤ count) (hi : i < 32768) :
    fitParam count i = frac 65536 (count - 1) i := by
  have hnum : wrapInt 32 ((i : Int) * 2 ^ 16) = ((i * 65536 : Nat) : Int) := by
    rw [wrapInt_of_lt (by decide) (by omega) (by omega)]
    push_cast
    rfl
  have hden : ((count : Int) - 1) = ((count - 1 : Nat) : Int) := by omega
  rw [fitParam, makeQ1616Frac, hnum, hden, frac]
  exact Int.ofNat_tdiv _ _

/-- The square of a parameter is rounded to the nearest. -/
theorem q1616Mul_frac {t : Nat} (h : t ≤ 65536) :
    q1616Mul t t = ((t ^ 2 + 32768) / 65536 : Nat) := by
  have hsq : t ^ 2 ≤ 65536 ^ 2 := Nat.pow_le_pow_left h 2
  have hproduct : q1616Product t t = ((t ^ 2 + 32768) / 65536 : Nat) := by
    rw [q1616Product_eq]
    push_cast
    rw [sq]
  rw [q1616Mul_of_lt (by positivity) (by rw [hproduct]; omega), hproduct]

/-- The square of a parameter is at most one. -/
theorem square_le {t : Nat} (h : t ≤ 65536) : (t ^ 2 + 32768) / 65536 ≤ 65536 := by
  have hsq : t ^ 2 ≤ 65536 ^ 2 := Nat.pow_le_pow_left h 2
  omega

/-- The sums of the first `k` points fit into Q16.16. -/
theorem fitMatrix_loop {count : Nat} (h2 : 2 ≤ count) (hcount : count ≤ 32767) {k : Nat}
    (hk : k ≤ count - 2) :
    ((List.range k).map (· + 1)).foldl
      (fun m i =>
        let t := fitParam count i
        let t2 := q1616Mul t t
        { t00 := q1616Add m.t00 (makeQ1616 1)
          t01 := q1616Add m.t01 t
          t10 := q1616Add m.t10 t
          t11 := q1616Add m.t11 t2 })
      ({ t00 := 0, t01 := 0, t10 := 0, t11 := 0 } : FitMatrix) =
    { t00 := (65536 * k : Nat)
      t01 := (∑ i ∈ range k, frac 65536 (count - 1) (i + 1) : Nat)
      t10 := (∑ i ∈ range k, frac 65536 (count - 1) (i + 1) : Nat)
      t11 := (∑ i ∈ range k, (frac 65536 (count - 1) (i + 1) ^ 2 + 32768) / 65536 : Nat) } := by
  have hadd {a b : Nat} (h : a + b < 2 ^ 31) : q1616Add a b = ((a + b : Nat) : Int) := by
    rw [q1616Add, wrapInt_of_lt (by decide) (by omega) (by omega)]
    push_cast
    rfl
  have hbound (f : Nat → Nat) (hf : ∀ i < count - 2, f i ≤ 65536) {k : Nat} (hk : k ≤ count - 2) :
      ∑ i ∈ range k, f i ≤ k * 65536 := by
    have hsum := sum_le_card_nsmul (range k) f 65536 fun i hi =>
      hf i (Nat.lt_of_lt_of_le (mem_range.mp hi) hk)
    simpa using hsum
  have hfrac (i : Nat) (hi : i < count - 2) : frac 65536 (count - 1) (i + 1) ≤ 65536 :=
    frac_le_scale (by omega)
  induction k with
  | zero => rfl
  | succ k ih =>
      have hparams := hbound _ hfrac (Nat.le_of_succ_le hk)
      have hsquares := hbound _ (fun i hi => square_le (hfrac i hi)) (Nat.le_of_succ_le hk)
      have ht := hfrac k hk
      rw [List.range_succ, List.map_append, List.foldl_append, ih (Nat.le_of_succ_le hk),
        List.map_singleton, List.foldl_cons, List.foldl_nil]
      dsimp only
      rw [fitParam_eq (by omega) (by omega), q1616Mul_frac ht,
        hadd (show _ + frac 65536 (count - 1) (k + 1) < 2 ^ 31 by omega),
        hadd (by have := square_le ht; omega), show makeQ1616 1 = ((65536 : Nat) : Int) from rfl,
        hadd (by omega), sum_range_succ, sum_range_succ, Nat.mul_succ]

/-- The entries of the matrix are the count of the inner points and the sums over them. -/
theorem fitMatrix_eq {count : Nat} (h2 : 2 ≤ count) (hcount : count ≤ 32767) :
    fitMatrix count =
      { t00 := (65536 * (count - 2) : Nat), t01 := sumParams count, t10 := sumParams count
        t11 := sumSquares count } :=
  fitMatrix_loop h2 hcount (Nat.le_refl _)

/-! ## Where the products are saturated -/

/-- The product on the diagonal needs no rounding. -/
theorem product_diagonal {count : Nat} (h2 : 2 ≤ count) (hcount : count ≤ 32767) :
    q1616Product (fitMatrix count).t00 (fitMatrix count).t11 =
      ((count - 2) * sumSquares count : Nat) := by
  rw [q1616Product_eq, fitMatrix_eq h2 hcount]
  push_cast [h2]
  rw [mul_assoc]
  omega

/-- The other product is a rounded square. -/
theorem product_other {count : Nat} (h2 : 2 ≤ count) (hcount : count ≤ 32767) :
    q1616Product (fitMatrix count).t01 (fitMatrix count).t10 =
      ((sumParams count ^ 2 + 32768) / 65536 : Nat) := by
  rw [q1616Product_eq, fitMatrix_eq h2 hcount]
  push_cast
  rw [sq]

/-- The sum of the rounded squares is the rounded sum of the squares. -/
theorem sumSquares_bounds (count : Nat) :
    65536 * sumSquares count ≤
        ∑ i ∈ range (count - 2), frac 65536 (count - 1) (i + 1) ^ 2 + 32768 * (count - 2) ∧
      ∑ i ∈ range (count - 2), frac 65536 (count - 1) (i + 1) ^ 2 ≤
        65536 * sumSquares count + 32768 * (count - 2) := by
  rw [sumSquares]
  generalize count - 2 = k
  induction k with
  | zero => simp
  | succ k ih =>
      rw [sum_range_succ, sum_range_succ]
      omega

/-- Up to 313 inner points the diagonal product is not saturated. -/
theorem diagonal_lt {k : Nat} (h : k ≤ 313) : k * sumSquares (k + 2) < 2 ^ 31 := by
  obtain ⟨hle, -⟩ := sumSquares_bounds (k + 2)
  have htable := sum_frac_sq_le 65536 k
  rw [show k + 2 - 2 = k by omega, show k + 2 - 1 = k + 1 by omega] at hle
  generalize ∑ i ∈ range k, frac 65536 (k + 1) (i + 1) ^ 2 = squares at hle htable
  generalize sumSquares (k + 2) = sum at hle ⊢
  -- the mean square of the table grows with its length
  have hmean : 1884 * squares ≤ 65536 ^ 2 * 627 * k := by
    have hratio : 1884 * (2 * k + 1) ≤ 627 * (6 * (k + 1)) := by omega
    refine Nat.le_of_mul_le_mul_left (?_ : 6 * (k + 1) * _ ≤ 6 * (k + 1) * _) (by omega)
    calc 6 * (k + 1) * (1884 * squares) = 1884 * (6 * (k + 1) * squares) := by ring
      _ ≤ 1884 * (65536 ^ 2 * (k * (2 * k + 1))) := Nat.mul_le_mul_left _ htable
      _ = 65536 ^ 2 * k * (1884 * (2 * k + 1)) := by ring
      _ ≤ 65536 ^ 2 * k * (627 * (6 * (k + 1))) := Nat.mul_le_mul_left _ hratio
      _ = 6 * (k + 1) * (65536 ^ 2 * 627 * k) := by ring
  have hsum : sum ≤ 21812 * k := by omega
  calc k * sum ≤ 313 * (21812 * 313) := Nat.mul_le_mul h (by omega)
    _ < 2 ^ 31 := by norm_num

/-- From 314 inner points on it is. -/
theorem le_diagonal {k : Nat} (h : 314 ≤ k) : 2 ^ 31 ≤ k * sumSquares (k + 2) := by
  obtain ⟨-, hle⟩ := sumSquares_bounds (k + 2)
  have htable := le_sum_frac_sq 65536 k
  rw [show k + 2 - 2 = k by omega, show k + 2 - 1 = k + 1 by omega] at hle
  generalize ∑ i ∈ range k, frac 65536 (k + 1) (i + 1) ^ 2 = squares at hle htable
  generalize sumSquares (k + 2) = sum at hle ⊢
  have hmean : 65536 ^ 2 * 629 * k ≤ 1890 * (squares + 65537 * k) := by
    have hratio : 629 * (6 * (k + 1)) ≤ 1890 * (2 * k + 1) := by omega
    refine Nat.le_of_mul_le_mul_left (?_ : 6 * (k + 1) * _ ≤ 6 * (k + 1) * _) (by omega)
    calc 6 * (k + 1) * (65536 ^ 2 * 629 * k) = 65536 ^ 2 * k * (629 * (6 * (k + 1))) := by ring
      _ ≤ 65536 ^ 2 * k * (1890 * (2 * k + 1)) := Nat.mul_le_mul_left _ hratio
      _ = 1890 * (65536 ^ 2 * (k * (2 * k + 1))) := by ring
      _ ≤ 1890 * (6 * (k + 1) * (squares + 65537 * k)) := Nat.mul_le_mul_left _ htable
      _ = 6 * (k + 1) * (1890 * (squares + 65537 * k)) := by ring
  have hsum : 21809 * k ≤ sum := by omega
  calc 2 ^ 31 ≤ 314 * (21809 * 314) := by norm_num
    _ ≤ k * sum := Nat.mul_le_mul h (by omega)

/-- Up to 362 inner points the other product is not saturated. -/
theorem other_lt {k : Nat} (h : k ≤ 362) :
    (sumParams (k + 2) ^ 2 + 32768) / 65536 < 2 ^ 31 - 1 := by
  have htable := sum_frac_le 65536 k
  have hsum : sumParams (k + 2) ≤ 32768 * 362 := by
    change 2 * sumParams (k + 2) ≤ 65536 * k at htable
    omega
  have hsq := Nat.pow_le_pow_left hsum 2
  omega

/-- From 363 inner points on it is. -/
theorem le_other {k : Nat} (h : 363 ≤ k) : 2 ^ 31 ≤ (sumParams (k + 2) ^ 2 + 32768) / 65536 := by
  have htable := le_sum_frac 65536 k
  have hsum : 32767 * 363 ≤ sumParams (k + 2) := by
    change 65536 * k ≤ 2 * (sumParams (k + 2) + k) at htable
    omega
  have hsq := Nat.pow_le_pow_left hsum 2
  omega

/-- **The product of the diagonal** is saturated from 316 points on. -/
theorem saturated_diagonal_iff {count : Nat} (h2 : 2 ≤ count) (hcount : count ≤ 32767) :
    Saturated (fitMatrix count).t00 (fitMatrix count).t11 ↔ 316 ≤ count := by
  have hnonneg : 0 ≤ (fitMatrix count).t00 * (fitMatrix count).t11 := by
    rw [fitMatrix_eq h2 hcount]
    positivity
  rw [saturated_iff hnonneg, product_diagonal h2 hcount]
  obtain ⟨k, rfl⟩ := Nat.exists_eq_add_of_le' h2
  rw [Nat.add_sub_cancel]
  by_cases hk : 314 ≤ k
  · have hle := le_diagonal hk
    exact iff_of_true (by exact_mod_cast hle) (by omega)
  · have hlt := diagonal_lt (show k ≤ 313 by omega)
    exact iff_of_false (by exact_mod_cast Nat.not_le_of_lt hlt) (by omega)

/-- **The other product** is saturated from 365 points on. -/
theorem saturated_other_iff {count : Nat} (h2 : 2 ≤ count) (hcount : count ≤ 32767) :
    Saturated (fitMatrix count).t01 (fitMatrix count).t10 ↔ 365 ≤ count := by
  have hnonneg : 0 ≤ (fitMatrix count).t01 * (fitMatrix count).t10 := by
    rw [fitMatrix_eq h2 hcount]
    positivity
  rw [saturated_iff hnonneg, product_other h2 hcount]
  obtain ⟨k, rfl⟩ := Nat.exists_eq_add_of_le' h2
  by_cases hk : 363 ≤ k
  · have hle := le_other hk
    exact iff_of_true (by exact_mod_cast hle) (by omega)
  · have hlt := other_lt (show k ≤ 362 by omega)
    exact iff_of_false (by omega) (by omega)

/-- **The determinant of a long trail is zero.** -/
theorem fitDet_eq_zero {count : Nat} (h : 365 ≤ count) (hcount : count ≤ 32767) :
    fitDet (fitMatrix count) = 0 := by
  obtain ⟨k, rfl⟩ := Nat.exists_eq_add_of_le' (show 2 ≤ count by omega)
  have hdiagonal := le_diagonal (show 314 ≤ k by omega)
  have hother := le_other (show 363 ≤ k by omega)
  rw [fitDet, q1616Mul_of_le, q1616Mul_of_le]
  · rfl
  · rw [product_other (by omega) hcount]
    exact_mod_cast hother
  · rw [product_diagonal (by omega) hcount, Nat.add_sub_cancel]
    exact_mod_cast hdiagonal

/-- In between, one product is saturated and the other one is smaller. -/
theorem fitDet_ne_zero {count : Nat} (h : 316 ≤ count) (hcount : count ≤ 364) :
    fitDet (fitMatrix count) ≠ 0 := by
  obtain ⟨k, rfl⟩ := Nat.exists_eq_add_of_le' (show 2 ≤ count by omega)
  have hdiagonal := le_diagonal (show 314 ≤ k by omega)
  have hother := other_lt (show k ≤ 362 by omega)
  have hproduct := product_other (show 2 ≤ k + 2 by omega) (by omega)
  have hnonneg : 0 ≤ (fitMatrix (k + 2)).t01 * (fitMatrix (k + 2)).t10 := by
    rw [fitMatrix_eq (by omega) (by omega)]
    positivity
  rw [fitDet, q1616Mul_of_le, q1616Mul_of_lt hnonneg, hproduct, q1616Sub,
    wrapInt_of_lt (by decide)]
  · omega
  · omega
  · omega
  · rw [hproduct]
    omega
  · rw [product_diagonal (by omega) (by omega), Nat.add_sub_cancel]
    exact_mod_cast hdiagonal

/-! ## The determinant that the inverse is computed with -/

/-- The determinant comes from the sums over the table and from products that are only
rounded. -/
structure TrueDet (count : Nat) : Prop where
  sums : fitMatrix count =
    { t00 := (65536 * (count - 2) : Nat), t01 := sumParams count, t10 := sumParams count
      t11 := sumSquares count }
  diagonal : ¬Saturated (fitMatrix count).t00 (fitMatrix count).t11
  other : ¬Saturated (fitMatrix count).t01 (fitMatrix count).t10
  det : fitDet (fitMatrix count) =
    q1616Product (fitMatrix count).t00 (fitMatrix count).t11 -
      q1616Product (fitMatrix count).t01 (fitMatrix count).t10

/-- Up to 315 points the determinant is the true one. -/
theorem trueDet_of_short {count : Nat} (h2 : 2 ≤ count) (h : count < 316) : TrueDet count := by
  have hdiagonal := (saturated_diagonal_iff h2 (by omega)).not.mpr (show ¬316 ≤ count by omega)
  have hother := (saturated_other_iff h2 (by omega)).not.mpr (show ¬365 ≤ count by omega)
  refine ⟨fitMatrix_eq h2 (by omega), hdiagonal, hother, ?_⟩
  rw [fitDet, not_not.mp hdiagonal, not_not.mp hother, product_diagonal h2 (by omega),
    product_other h2 (by omega)]
  obtain ⟨k, rfl⟩ := Nat.exists_eq_add_of_le' h2
  have hlt := diagonal_lt (show k ≤ 313 by omega)
  have hlt' := other_lt (show k ≤ 362 by omega)
  rw [Nat.add_sub_cancel]
  generalize k * sumSquares (k + 2) = diagonal at hlt
  generalize (sumParams (k + 2) ^ 2 + 32768) / 65536 = other at hlt'
  exact Int.bmod_eq_of_le (by push_cast; omega) (by push_cast; omega)

/-- **The determinant is zero or true**, except for trails of 316 to 364 points. -/
theorem fit_det_true_iff {count : Nat} (h5 : 5 ≤ count) (hcount : count ≤ 32767) :
    (fitDet (fitMatrix count) = 0 ∨ TrueDet count) ↔ count < 316 ∨ 364 < count := by
  constructor
  · rintro (hzero | htrue)
    · by_contra hbetween
      exact fitDet_ne_zero (by omega) (by omega) hzero
    · have hshort := (saturated_diagonal_iff (by omega) hcount).not.mp htrue.diagonal
      omega
  · rintro (hshort | hlong)
    · exact .inr (trueDet_of_short (by omega) hshort)
    · exact .inl (fitDet_eq_zero (by omega) hcount)

/-- A trail of 100 points is short enough. -/
theorem fit_det_true_hundred : fitDet (fitMatrix 100) = 0 ∨ TrueDet 100 :=
  (fit_det_true_iff (by decide) (by decide)).mpr (.inl (by decide))

/-- A trail of 340 points. -/
theorem not_fit_det_true : fitDet (fitMatrix 340) ≠ 0 ∧
    Saturated (fitMatrix 340).t00 (fitMatrix 340).t11 ∧
      ¬(fitDet (fitMatrix 340) = 0 ∨ TrueDet 340) := by
  have hzero := fitDet_ne_zero (show 316 ≤ 340 by decide) (by decide)
  have hdiagonal := (saturated_diagonal_iff (show 2 ≤ 340 by decide) (by decide)).mpr (by decide)
  refine ⟨hzero, hdiagonal, ?_⟩
  rintro (h | h)
  · exact hzero h
  · exact h.diagonal hdiagonal

end Clither
