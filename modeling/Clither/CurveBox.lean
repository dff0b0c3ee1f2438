import Clither.Equidistant
import Clither.Lib.CubicMax
import Mathlib.Analysis.Real.Sqrt

/-!
# The bounding box of a curve

`bezier_calc_aabb_coeff` spans a box over the end points of a curve and over the points at the
roots of the derivative in each dimension.  The roots come out of a rounded discriminant, and
they are only looked for when the leading coefficient is not zero.

The sums do not wrap around here, so that what follows is about coefficients for which nothing
overflows.  `Exact` says that no product is saturated and no quotient is cut off, and `aabbSlack`
is what a curve can leave the box by then.
-/

namespace Clither

/-! ## The box -/

/-- The product before it is saturated. -/
def qwProduct (a b : Int) : Int :=
  (a * b + 2 ^ 13) >>> (14 : Nat)

/-- `make_qw(1)`. -/
def qwOne : Int := 2 ^ 14

/-- The bounds of a box in one dimension. -/
structure Extent where
  lo : Int
  hi : Int
  deriving DecidableEq, Repr

namespace Coeff

/-- `Dx` and `Dy`. -/
def discriminant (c : Coeff) : Int :=
  qwSub (qwMul (2 * c.a2) (2 * c.a2)) (4 * qwMul (3 * c.a3) c.a1)

/-- `t1`, the root with the square root added. -/
def upperRoot (c : Coeff) : Int :=
  qwDiv (qwAdd (-(2 * c.a2)) (qwSqrt c.discriminant)) (2 * (3 * c.a3))

/-- `t2`, the root with the square root subtracted. -/
def lowerRoot (c : Coeff) : Int :=
  qwDiv (qwSub (-(2 * c.a2)) (qwSqrt c.discriminant)) (2 * (3 * c.a3))

/-- The end points. -/
def ends (c : Coeff) : Extent :=
  let x1 := c.a0
  let x2 := qwAdd c.a0 (qwAdd c.a1 (qwAdd c.a2 c.a3))
  if x1 < x2 then { lo := x1, hi := x2 } else { lo := x2, hi := x1 }

/-- The point at a root, if the root is on the curve. -/
def includeRoot (c : Coeff) (t : Int) (bb : Extent) : Extent :=
  if t ≥ 0 ∧ t ≤ qwOne then
    let t2 := qwMul t t
    let t3 := qwMul t2 t
    let x := qwAdd (qwAdd (qwAdd c.a0 (qwMul c.a1 t)) (qwMul c.a2 t2)) (qwMul c.a3 t3)
    { lo := if bb.lo > x then x else bb.lo, hi := if bb.hi < x then x else bb.hi }
  else bb

/-- One dimension of the box. -/
def extent (c : Coeff) : Extent :=
  if c.discriminant ≥ 0 ∧ 3 * c.a3 ≠ 0 then
    c.includeRoot c.lowerRoot (c.includeRoot c.upperRoot c.ends)
  else c.ends

end Coeff

/-- `bezier_calc_aabb_coeff`. -/
def bezierCalcAabbCoeff (curve : Coeff × Coeff) : QwAabb where
  x1 := curve.1.extent.lo
  y1 := curve.2.extent.lo
  x2 := curve.1.extent.hi
  y2 := curve.2.extent.hi

/-! ## What is exact -/

/-- A signed number of 24 bits. -/
def Int24Range (x : Int) : Prop :=
  -0x800000 ≤ x ∧ x ≤ 0x7FFFFF

instance decidableInt24Range (x : Int) : Decidable (Int24Range x) :=
  inferInstanceAs (Decidable (-0x800000 ≤ x ∧ x ≤ 0x7FFFFF))

/-- A signed number of 32 bits. -/
def Int32Range (x : Int) : Prop :=
  -2 ^ 31 ≤ x ∧ x < 2 ^ 31

instance decidableInt32Range (x : Int) : Decidable (Int32Range x) :=
  inferInstanceAs (Decidable (-2 ^ 31 ≤ x ∧ x < 2 ^ 31))

namespace Coeff

/-- No product is saturated where the curve is evaluated. -/
def EvalExact (c : Coeff) (t : Int) : Prop :=
  Int24Range (qwProduct c.a1 t) ∧ Int24Range (qwProduct c.a2 (qwMul t t)) ∧
    Int24Range (qwProduct c.a3 (qwMul t (qwMul t t)))

instance decidableEvalExact (c : Coeff) (t : Int) : Decidable (c.EvalExact t) :=
  inferInstanceAs (Decidable (_ ∧ _ ∧ _))

/-- No product is saturated and no quotient is cut off where the box is computed.  The products
at the roots are those of the evaluation. -/
def BoxExact (c : Coeff) : Prop :=
  Int32Range (3 * c.a3) ∧ Int24Range (qwProduct (2 * c.a2) (2 * c.a2)) ∧
    Int24Range (qwProduct (3 * c.a3) c.a1) ∧
    (c.discriminant ≥ 0 ∧ 3 * c.a3 ≠ 0 →
      Int32Range (qwQuotient (-(2 * c.a2) + qwSqrt c.discriminant) (2 * (3 * c.a3))) ∧
      Int32Range (qwQuotient (-(2 * c.a2) - qwSqrt c.discriminant) (2 * (3 * c.a3))) ∧
      (c.upperRoot ≥ 0 ∧ c.upperRoot ≤ qwOne → c.EvalExact c.upperRoot) ∧
      (c.lowerRoot ≥ 0 ∧ c.lowerRoot ≤ qwOne → c.EvalExact c.lowerRoot))

instance decidableBoxExact (c : Coeff) : Decidable c.BoxExact :=
  inferInstanceAs (Decidable (_ ∧ _ ∧ _ ∧ (_ → _ ∧ _ ∧ (_ → _) ∧ (_ → _))))

/-- A leading coefficient of zero is one of a straight line. -/
def NotQuadratic (c : Coeff) : Prop :=
  c.a3 ≠ 0 ∨ c.a2 = 0

/-- How far the curve can be outside of the box: the products are rounded, and so are the
roots. -/
def slack (c : Coeff) : ℚ :=
  4 + (|(c.a2 : ℚ)| + 2 * |(c.a3 : ℚ)|) / 2 ^ 14 +
    min (165000 / (c.a3 : ℚ) ^ 2) ((|(c.a2 : ℚ)| + 2 * |(c.a3 : ℚ)|) / 4)

end Coeff

/-! ## Rounding -/

/-- A product that fits is not saturated. -/
theorem qwMul_eq_product {a b : Int} (h : Int24Range (qwProduct a b)) :
    qwMul a b = qwProduct a b := by
  obtain ⟨hlow, hhigh⟩ := h
  show qwSat24 (qwProduct a b) = _
  rw [qwSat24, if_neg (by omega), if_neg (by omega)]

/-- A product that fits is rounded to the next integer. -/
theorem qwMul_near {a b : Int} (h : Int24Range (qwProduct a b)) :
    |(qwMul a b : ℝ) - a * b / 2 ^ 14| ≤ 1 / 2 := by
  have hproduct : qwProduct a b = (a * b + 2 ^ 13) / 2 ^ 14 := Int.shiftRight_eq_div_pow _ _
  have hle : qwProduct a b * 2 ^ 14 ≤ a * b + 2 ^ 13 := by
    rw [hproduct]
    omega
  have hge : a * b + 2 ^ 13 ≤ qwProduct a b * 2 ^ 14 + 2 ^ 14 := by
    rw [hproduct]
    omega
  have hle' : (qwProduct a b : ℝ) * 2 ^ 14 ≤ a * b + 2 ^ 13 := by exact_mod_cast hle
  have hge' : (a * b + 2 ^ 13 : ℝ) ≤ qwProduct a b * 2 ^ 14 + 2 ^ 14 := by exact_mod_cast hge
  rw [qwMul_eq_product h, abs_le]
  constructor <;> linarith

/-- The rest of a truncated division is smaller than the divisor, and has the sign of the
dividend. -/
theorem tmod_near {x b : Int} (hb : b ≠ 0) :
    (x.tmod b).natAbs < b.natAbs ∧ (0 ≤ x → 0 ≤ x.tmod b) ∧ (x ≤ 0 → x.tmod b ≤ 0) := by
  refine ⟨?_, Int.tmod_nonneg b, fun h => ?_⟩
  · rw [Int.natAbs_tmod]
    exact Nat.mod_lt _ (Int.natAbs_pos.mpr hb)
  · have hneg := Int.tmod_nonneg b (Int.neg_nonneg_of_nonpos h)
    rw [Int.neg_tmod] at hneg
    omega

/-- A quotient by an even number is rounded to the next integer. -/
theorem qwQuotient_near {a n : Int} (hn : n ≠ 0) :
    |2 * n * qwQuotient a (2 * n) - a * 2 ^ 14| ≤ |n| := by
  have hb : 2 * n ≠ 0 := by omega
  have hhalf : (2 * n).tdiv 2 = n := Int.mul_tdiv_cancel_left n (by decide)
  rw [qwQuotient, hhalf, Int.abs_eq_natAbs, Int.abs_eq_natAbs]
  split_ifs with hsame
  · obtain ⟨hlt, hpos, hneg⟩ := tmod_near (x := a * 2 ^ 14 + n) hb
    have hdiv := Int.mul_tdiv_add_tmod (a * 2 ^ 14 + n) (2 * n)
    omega
  · obtain ⟨hlt, hpos, hneg⟩ := tmod_near (x := a * 2 ^ 14 - n) hb
    have hdiv := Int.mul_tdiv_add_tmod (a * 2 ^ 14 - n) (2 * n)
    omega

/-- A parameter is not saturated when it is multiplied by another one. -/
theorem qwMul_unit {s t : Int} (hs0 : 0 ≤ s) (hs : s ≤ 2 ^ 14) (h0 : 0 ≤ t) (ht : t ≤ 2 ^ 14) :
    Int24Range (qwProduct s t) ∧ 0 ≤ qwMul s t ∧ qwMul s t ≤ 2 ^ 14 := by
  have hproduct : qwProduct s t = (s * t + 2 ^ 13) / 2 ^ 14 := Int.shiftRight_eq_div_pow _ _
  have hlow : 0 ≤ s * t := mul_nonneg hs0 h0
  have hhigh : s * t ≤ 2 ^ 14 * 2 ^ 14 := mul_le_mul hs ht h0 (by decide)
  have hbounds : 0 ≤ qwProduct s t ∧ qwProduct s t ≤ 2 ^ 14 := by
    rw [hproduct]
    omega
  have hfits : Int24Range (qwProduct s t) := ⟨by omega, by omega⟩
  rw [qwMul_eq_product hfits]
  exact ⟨hfits, hbounds⟩

/-- **The evaluation** of the curve, with the rounding of all products. -/
theorem Coeff.eval_near {c : Coeff} {t : Int} (h0 : 0 ≤ t) (ht : t ≤ 2 ^ 14) (h : c.EvalExact t) :
    |(c.eval t : ℝ) - (c.a0 + CubicMax.cubic (c.a1 : ℝ) c.a2 c.a3 (t / 2 ^ 14))| ≤
      3 / 2 + (|(c.a2 : ℝ)| + 2 * |(c.a3 : ℝ)|) / 2 ^ 15 := by
  obtain ⟨h1, h2, h3⟩ := h
  obtain ⟨hfit2, h20, h21⟩ := qwMul_unit h0 ht h0 ht
  obtain ⟨hfit3, -, -⟩ := qwMul_unit h0 ht h20 h21
  have hsquare := qwMul_near hfit2
  have hcube := qwMul_near hfit3
  have hterm1 := qwMul_near h1
  have hterm2 := qwMul_near h2
  have hterm3 := qwMul_near h3
  have heval : (c.eval t : ℝ) = c.a0 + qwMul c.a1 t + qwMul c.a2 (qwMul t t) +
      qwMul c.a3 (qwMul t (qwMul t t)) := by
    rw [Coeff.eval]
    simp only [qwAdd]
    push_cast
    ring
  rw [heval]
  generalize (qwMul t (qwMul t t) : Int) = t3 at *
  generalize (qwMul t t : Int) = t2 at *
  have hu0 : (0 : ℝ) ≤ t / 2 ^ 14 := by positivity
  have hu1 : (t : ℝ) / 2 ^ 14 ≤ 1 := by
    rw [div_le_one (by positivity)]
    exact_mod_cast ht
  have hsquare' : |(t2 : ℝ) / 2 ^ 14 - (t / 2 ^ 14) ^ 2| ≤ 1 / 2 ^ 15 := by
    rw [abs_le] at hsquare ⊢
    constructor <;> linarith
  have hcube' : |(t3 : ℝ) / 2 ^ 14 - (t / 2 ^ 14) ^ 3| ≤ 2 / 2 ^ 15 := by
    have hstep : (t3 : ℝ) / 2 ^ 14 - (t / 2 ^ 14) ^ 3 =
        (t3 - t * t2 / 2 ^ 14) / 2 ^ 14 + t / 2 ^ 14 * (t2 / 2 ^ 14 - (t / 2 ^ 14) ^ 2) := by ring
    have hscaled : |(t : ℝ) / 2 ^ 14 * (t2 / 2 ^ 14 - (t / 2 ^ 14) ^ 2)| ≤ 1 * (1 / 2 ^ 15) := by
      rw [abs_mul, abs_of_nonneg hu0]
      exact mul_le_mul hu1 hsquare' (abs_nonneg _) zero_le_one
    rw [hstep]
    rw [abs_le] at hcube hscaled ⊢
    constructor <;> linarith
  have hsplit : (c.a0 + qwMul c.a1 t + qwMul c.a2 t2 + qwMul c.a3 t3 : ℝ) -
      (c.a0 + CubicMax.cubic (c.a1 : ℝ) c.a2 c.a3 (t / 2 ^ 14)) =
      (qwMul c.a1 t - c.a1 * t / 2 ^ 14) + (qwMul c.a2 t2 - c.a2 * t2 / 2 ^ 14) +
        (qwMul c.a3 t3 - c.a3 * t3 / 2 ^ 14) + c.a2 * (t2 / 2 ^ 14 - (t / 2 ^ 14) ^ 2) +
          c.a3 * (t3 / 2 ^ 14 - (t / 2 ^ 14) ^ 3) := by
    unfold CubicMax.cubic
    ring
  rw [hsplit]
  have hbend2 : |(c.a2 : ℝ) * (t2 / 2 ^ 14 - (t / 2 ^ 14) ^ 2)| ≤ |(c.a2 : ℝ)| * (1 / 2 ^ 15) := by
    rw [abs_mul]
    exact mul_le_mul_of_nonneg_left hsquare' (abs_nonneg _)
  have hbend3 : |(c.a3 : ℝ) * (t3 / 2 ^ 14 - (t / 2 ^ 14) ^ 3)| ≤ |(c.a3 : ℝ)| * (2 / 2 ^ 15) := by
    rw [abs_mul]
    exact mul_le_mul_of_nonneg_left hcube' (abs_nonneg _)
  rw [abs_le] at hterm1 hterm2 hterm3 hbend2 hbend3 ⊢
  constructor <;> linarith

/-! ## The roots -/

/-- The discriminant of the derivative, before it is rounded. -/
theorem Coeff.discriminant_near {c : Coeff} (h : c.BoxExact) :
    |(c.discriminant : ℝ) * 2 ^ 14 - CubicMax.discrim (c.a1 : ℝ) c.a2 c.a3| ≤ 40960 ∧
      c.discriminant ≤ 5 * 2 ^ 23 := by
  obtain ⟨-, hsquare, hproduct, -⟩ := h
  have hnear2 := qwMul_near hsquare
  have hnear1 := qwMul_near hproduct
  have hdisc : (c.discriminant : ℝ) =
      qwMul (2 * c.a2) (2 * c.a2) - 4 * qwMul (3 * c.a3) c.a1 := by
    rw [Coeff.discriminant, qwSub]
    push_cast
    ring
  constructor
  · rw [hdisc]
    unfold CubicMax.discrim
    rw [abs_le] at hnear1 hnear2 ⊢
    push_cast at hnear1 hnear2
    constructor <;> linarith
  · have hsat (x : Int) : -0x800000 ≤ qwSat24 x ∧ qwSat24 x ≤ 0x7FFFFF := by
      rw [qwSat24]
      split_ifs <;> omega
    have hfirst := hsat (qwProduct (2 * c.a2) (2 * c.a2))
    have hsecond := hsat (qwProduct (3 * c.a3) c.a1)
    show qwSat24 (qwProduct (2 * c.a2) (2 * c.a2)) - 4 * qwSat24 (qwProduct (3 * c.a3) c.a1) ≤ _
    omega

/-- The root is rounded down. -/
theorem qwSqrt_near {q : Int} (h0 : 0 ≤ q) :
    0 ≤ qwSqrt q ∧ qwSqrt q ^ 2 ≤ q * 2 ^ 14 ∧ q * 2 ^ 14 < (qwSqrt q + 1) ^ 2 := by
  obtain ⟨n, hn⟩ := Int.eq_ofNat_of_zero_le (by omega : 0 ≤ q * 2 ^ 14)
  rw [qwSqrt, hn, Int.toNat_natCast]
  have hle := Nat.sqrt_le' n
  have hlt := Nat.lt_succ_sqrt' n
  exact ⟨Int.natCast_nonneg _, by exact_mod_cast hle, by exact_mod_cast hlt⟩

/-- The error `d` of the square root, which is largest for a small root. -/
theorem sqrt_loss {s r d : ℝ} (hs0 : 0 ≤ s) (hs : s ≤ 830000) (hr : 0 ≤ r)
    (habove : s ^ 2 - r ^ 2 ≤ 40960) (hbelow : r ^ 2 - s ^ 2 ≤ 40961 + 2 * s) (hd : d = |s - r|) :
    d ^ 2 ≤ 40961 ∧ d ^ 2 * (3 * r + d) ≤ 33300000 ∧ r ≤ 830203 := by
  have hd0 : 0 ≤ d := hd ▸ abs_nonneg _
  have hroot (hsq : d ^ 2 ≤ 40961) : d ≤ 203 := by nlinarith
  rcases le_total s r with hle | hle
  · rw [abs_sub_comm, abs_of_nonneg (sub_nonneg.mpr hle)] at hd
    obtain rfl : r = s + d := by linarith
    rcases le_total d 3 with hsmall | hlarge
    · have hsq : d ^ 2 ≤ 9 := by nlinarith
      refine ⟨by linarith, ?_, by linarith⟩
      calc
        d ^ 2 * (3 * (s + d) + d) ≤ 9 * (3 * (s + d) + d) :=
          mul_le_mul_of_nonneg_right hsq (by linarith)
        _ ≤ 33300000 := by linarith
    · have hgap : 2 * s * (d - 1) + d ^ 2 ≤ 40961 := by linarith
      have hpos : 0 ≤ s * (d - 1) := mul_nonneg hs0 (by linarith)
      have hsq : d ^ 2 ≤ 40961 := by linarith
      have hfar : s * d ≤ 3 / 4 * (40961 - d ^ 2) := by nlinarith
      refine ⟨hsq, ?_, by linarith [hroot hsq]⟩
      calc
        d ^ 2 * (3 * (s + d) + d) = d * (3 * (s * d) + 4 * d ^ 2) := by ring
        _ ≤ d * 163844 := mul_le_mul_of_nonneg_left (by linarith) hd0
        _ ≤ 33300000 := by linarith [hroot hsq]
  · rw [abs_of_nonneg (sub_nonneg.mpr hle)] at hd
    obtain rfl : s = r + d := by linarith
    have hgap : 2 * r * d + d ^ 2 ≤ 40960 := by linarith
    have hpos : 0 ≤ r * d := mul_nonneg hr hd0
    have hsq : d ^ 2 ≤ 40961 := by linarith
    refine ⟨hsq, ?_, by linarith⟩
    calc
      d ^ 2 * (3 * r + d) = d * (3 * (r * d) + d ^ 2) := by ring
      _ ≤ d * 61440 := mul_le_mul_of_nonneg_left (by linarith [sq_nonneg d]) hd0
      _ ≤ 33300000 := by linarith [hroot hsq]

/-- Together with the error `η` of the quotient. -/
theorem root_loss {s r e η : ℝ} (hs0 : 0 ≤ s) (hs : s ≤ 830000) (hr : 0 ≤ r)
    (habove : s ^ 2 - r ^ 2 ≤ 40960) (hbelow : r ^ 2 - s ^ 2 ≤ 40961 + 2 * s) (hη0 : 0 ≤ η)
    (hη : η ≤ 400000) (he : e = η + |s - r|) :
    e ^ 2 * (3 * r + e) ≤ 24 * (2 ^ 14) ^ 2 * η ^ 2 + 216 * 165000 := by
  obtain ⟨hsq, hloss, hlarge⟩ := sqrt_loss hs0 hs hr habove hbelow rfl
  have hd0 := abs_nonneg (s - r)
  generalize |s - r| = d at *
  have hd : d ≤ 203 := by nlinarith
  have hsquare : e ^ 2 ≤ 17 / 16 * d ^ 2 + 17 * η ^ 2 := by
    rw [he]
    nlinarith [sq_nonneg (d - 16 * η)]
  have hquotient : 17 * η ^ 2 * (3 * r + e) ≤ 17 * η ^ 2 * 3000000 := by
    apply mul_le_mul_of_nonneg_left _ (by positivity)
    linarith
  have hmixed : 17 / 16 * d ^ 2 * η ≤ 258750 + 2000 * η ^ 2 := by
    have hcoeff : 17 / 16 * d ^ 2 * η ≤ 43522 * η := mul_le_mul_of_nonneg_right (by linarith) hη0
    nlinarith [sq_nonneg (2000 * η - 21761)]
  calc
    e ^ 2 * (3 * r + e) ≤ (17 / 16 * d ^ 2 + 17 * η ^ 2) * (3 * r + e) :=
      mul_le_mul_of_nonneg_right hsquare (by linarith)
    _ = 17 / 16 * (d ^ 2 * (3 * r + d)) + 17 / 16 * d ^ 2 * η + 17 * η ^ 2 * (3 * r + e) := by
      rw [he]
      ring
    _ ≤ 24 * (2 ^ 14) ^ 2 * η ^ 2 + 216 * 165000 := by
      linarith [sq_nonneg η]

/-- **Without an overflow** the maximum of the curve is found, up to the loss at the root. -/
theorem cubic_le_of_computed {a₁ a₂ a₃ D s q p u : ℝ} (ha : a₃ ≠ 0) (hword : |3 * a₃| ≤ 2 ^ 31)
    (hD : |D * 2 ^ 14 - CubicMax.discrim a₁ a₂ a₃| ≤ 40960) (hlarge : D ≤ 5 * 2 ^ 23)
    (hs0 : 0 ≤ s) (hs : s ^ 2 ≤ D * 2 ^ 14) (hs' : D * 2 ^ 14 < (s + 1) ^ 2)
    (hq : |6 * a₃ * q + 2 * a₂ + s| ≤ |3 * a₃| / 2 ^ 14)
    (hp : p = q ∨ (p = 0 ∧ q < 0) ∨ (p = 1 ∧ 1 < q)) (h0 : 0 ≤ u) (hu : u ≤ 1) :
    CubicMax.cubic a₁ a₂ a₃ u ≤
      max (CubicMax.cubic a₁ a₂ a₃ p) (max 0 (CubicMax.cubic a₁ a₂ a₃ 1)) +
        (1 + 165000 / a₃ ^ 2) := by
  have hsquare : 0 < a₃ ^ 2 := by positivity
  obtain ⟨hlow, hhigh⟩ := abs_le.mp hD
  rcases le_total 0 (CubicMax.discrim a₁ a₂ a₃) with hreal | hcomplex
  · have hr := Real.sqrt_nonneg (CubicMax.discrim a₁ a₂ a₃)
    have hdisc : CubicMax.discrim a₁ a₂ a₃ = √(CubicMax.discrim a₁ a₂ a₃) ^ 2 :=
      (Real.sq_sqrt hreal).symm
    generalize √(CubicMax.discrim a₁ a₂ a₃) = r at hr hdisc
    have hsmall : s ≤ 830000 := by nlinarith
    have hnear : |6 * a₃ * q + 2 * a₂ + r| ≤ |3 * a₃| / 2 ^ 14 + |s - r| := by
      have hsplit : 6 * a₃ * q + 2 * a₂ + r = (6 * a₃ * q + 2 * a₂ + s) - (s - r) := by ring
      rw [hsplit]
      exact (abs_sub _ _).trans (by linarith)
    have hloss := root_loss hs0 hsmall hr (by linarith) (by linarith) (by positivity)
      (by linarith : |3 * a₃| / 2 ^ 14 ≤ 400000) rfl
    refine (CubicMax.cubic_le_of_root ha hr hdisc hnear hp h0 hu).trans (add_le_add_right ?_ _)
    rw [div_le_iff₀ (by positivity)]
    refine hloss.trans (le_of_eq ?_)
    rw [div_pow, abs_mul, mul_pow, sq_abs]
    field_simp
    norm_num
    ring
  · have hflat := CubicMax.cubic_le_of_flat ha (le_refl 0) (by linarith :
      CubicMax.discrim a₁ a₂ a₃ ≤ 0 ^ 2) h0 hu
    have hmax := le_max_right (CubicMax.cubic a₁ a₂ a₃ p) (max 0 (CubicMax.cubic a₁ a₂ a₃ 1))
    have hrest : 0 ≤ 165000 / a₃ ^ 2 := by positivity
    rw [zero_pow (by decide), mul_zero, zero_div] at hflat
    linarith

/-- **A bound** on the ends and on the root, if the root is on the curve, is almost one on the
curve. -/
theorem cubic_le_top {a₁ a₂ a₃ D s q u top : ℝ} (ha : a₃ ≠ 0) (hword : |3 * a₃| ≤ 2 ^ 31)
    (hD : |D * 2 ^ 14 - CubicMax.discrim a₁ a₂ a₃| ≤ 40960) (hlarge : D ≤ 5 * 2 ^ 23)
    (hs0 : 0 ≤ s) (hs : s ^ 2 ≤ D * 2 ^ 14) (hs' : D * 2 ^ 14 < (s + 1) ^ 2)
    (hq : |6 * a₃ * q + 2 * a₂ + s| ≤ |3 * a₃| / 2 ^ 14) (hbegin : 0 ≤ top)
    (hend : CubicMax.cubic a₁ a₂ a₃ 1 ≤ top)
    (hroot : 0 ≤ q → q ≤ 1 → CubicMax.cubic a₁ a₂ a₃ q ≤ top) (h0 : 0 ≤ u) (hu : u ≤ 1) :
    CubicMax.cubic a₁ a₂ a₃ u ≤ top + (1 + 165000 / a₃ ^ 2) := by
  have hends := max_le hbegin hend
  rcases lt_or_ge q 0 with hbefore | hq0
  · refine (cubic_le_of_computed ha hword hD hlarge hs0 hs hs' hq (.inr (.inl ⟨rfl, hbefore⟩)) h0
      hu).trans (add_le_add_left (max_le ?_ hends) _)
    rw [CubicMax.cubic_zero]
    exact hbegin
  rcases lt_or_ge 1 q with hbehind | hq1
  · exact (cubic_le_of_computed ha hword hD hlarge hs0 hs hs' hq (.inr (.inr ⟨rfl, hbehind⟩)) h0
      hu).trans (add_le_add_left (max_le hend hends) _)
  · exact (cubic_le_of_computed ha hword hD hlarge hs0 hs hs' hq (.inl rfl) h0 hu).trans
      (add_le_add_left (max_le (hroot hq0 hq1) hends) _)

/-! ## The curve in its box -/

namespace Coeff

/-- What a root adds to the box. -/
theorem includeRoot_spec (c : Coeff) (t : Int) (bb : Extent) :
    (c.includeRoot t bb).lo ≤ bb.lo ∧ bb.hi ≤ (c.includeRoot t bb).hi ∧
      (0 ≤ t → t ≤ qwOne →
        (c.includeRoot t bb).lo ≤ c.eval t ∧ c.eval t ≤ (c.includeRoot t bb).hi) := by
  rw [includeRoot]
  split_ifs with hon
  · have heval : qwAdd (qwAdd (qwAdd c.a0 (qwMul c.a1 t)) (qwMul c.a2 (qwMul t t)))
        (qwMul c.a3 (qwMul (qwMul t t) t)) = c.eval t := by
      have hcomm : qwMul (qwMul t t) t = qwMul t (qwMul t t) := by
        rw [qwMul, Int.mul_comm, ← qwMul]
      rw [hcomm, Coeff.eval]
    dsimp only
    rw [heval]
    grind
  · exact ⟨le_refl _, le_refl _, fun h0 ht => absurd ⟨h0, ht⟩ hon⟩

theorem ends_spec (c : Coeff) :
    c.ends.lo ≤ c.a0 ∧ c.a0 ≤ c.ends.hi ∧ c.ends.lo ≤ c.a0 + (c.a1 + (c.a2 + c.a3)) ∧
      c.a0 + (c.a1 + (c.a2 + c.a3)) ≤ c.ends.hi := by
  have hends : c.ends =
      if c.a0 < c.a0 + (c.a1 + (c.a2 + c.a3)) then
        { lo := c.a0, hi := c.a0 + (c.a1 + (c.a2 + c.a3)) }
      else { lo := c.a0 + (c.a1 + (c.a2 + c.a3)), hi := c.a0 } := rfl
  rw [hends]
  split_ifs <;> dsimp only <;> omega

/-- **What the box holds**: the end points, and the points at the roots that are on the curve. -/
theorem extent_spec (c : Coeff) :
    c.extent.lo ≤ c.a0 ∧ c.a0 ≤ c.extent.hi ∧ c.extent.lo ≤ c.a0 + (c.a1 + (c.a2 + c.a3)) ∧
      c.a0 + (c.a1 + (c.a2 + c.a3)) ≤ c.extent.hi ∧
      (c.discriminant ≥ 0 ∧ 3 * c.a3 ≠ 0 →
        (0 ≤ c.upperRoot → c.upperRoot ≤ qwOne → c.extent.lo ≤ c.eval c.upperRoot) ∧
        (0 ≤ c.lowerRoot → c.lowerRoot ≤ qwOne → c.eval c.lowerRoot ≤ c.extent.hi)) := by
  obtain ⟨h1, h2, h3, h4⟩ := c.ends_spec
  rw [extent]
  split_ifs with hroots
  · obtain ⟨hlo, hhi, hupper⟩ := c.includeRoot_spec c.upperRoot c.ends
    obtain ⟨hlo', hhi', hlower⟩ :=
      c.includeRoot_spec c.lowerRoot (c.includeRoot c.upperRoot c.ends)
    refine ⟨by omega, by omega, by omega, by omega, fun _ => ⟨fun h0 ht => ?_, fun h0 ht => ?_⟩⟩
    · exact hlo'.trans (hupper h0 ht).1
    · exact (hlower h0 ht).2
  · exact ⟨h1, h2, h3, h4, fun h => absurd h hroots⟩

/-- The ends of the curve, as real numbers. -/
theorem extent_ends (c : Coeff) :
    CubicMax.cubic (c.a1 : ℝ) c.a2 c.a3 1 = c.a1 + (c.a2 + c.a3) ∧
      (c.extent.lo : ℝ) ≤ c.a0 ∧ (c.a0 : ℝ) ≤ c.extent.hi ∧
      (c.extent.lo : ℝ) ≤ c.a0 + (c.a1 + (c.a2 + c.a3)) ∧
      (c.a0 + (c.a1 + (c.a2 + c.a3)) : ℝ) ≤ c.extent.hi := by
  obtain ⟨hlo0, hhi0, hlo1, hhi1, -⟩ := c.extent_spec
  refine ⟨?_, by exact_mod_cast hlo0, by exact_mod_cast hhi0, by exact_mod_cast hlo1,
    by exact_mod_cast hhi1⟩
  unfold CubicMax.cubic
  ring

/-- The loss where the curve is evaluated. -/
def evalLoss (c : Coeff) : ℚ :=
  3 / 2 + (|(c.a2 : ℚ)| + 2 * |(c.a3 : ℚ)|) / 2 ^ 15

/-- The curve at a parameter, and the polynomial. -/
theorem eval_evalLoss {c : Coeff} {t : Int} (h0 : 0 ≤ t) (ht : t ≤ qwOne) (h : c.EvalExact t) :
    |(c.eval t : ℝ) - (c.a0 + CubicMax.cubic (c.a1 : ℝ) c.a2 c.a3 (t / 2 ^ 14))| ≤ c.evalLoss := by
  have hloss : ((c.evalLoss : ℚ) : ℝ) = 3 / 2 + (|(c.a2 : ℝ)| + 2 * |(c.a3 : ℝ)|) / 2 ^ 15 := by
    rw [evalLoss]
    push_cast
    rfl
  rw [hloss]
  exact eval_near h0 ht h

/-- A root that is not cut off. -/
theorem root_near {c : Coeff} {num : Int} (ha : c.a3 ≠ 0)
    (h : Int32Range (qwQuotient num (2 * (3 * c.a3)))) :
    |6 * (c.a3 : ℝ) * ((qwDiv num (2 * (3 * c.a3)) : ℝ) / 2 ^ 14) - num| ≤
      |3 * (c.a3 : ℝ)| / 2 ^ 14 := by
  have hdiv : qwDiv num (2 * (3 * c.a3)) = qwQuotient num (2 * (3 * c.a3)) :=
    Int.bmod_eq_of_le h.1 h.2
  have hnear : |2 * (3 * (c.a3 : ℝ)) * qwQuotient num (2 * (3 * c.a3)) - num * 2 ^ 14| ≤
      |3 * (c.a3 : ℝ)| := by
    exact_mod_cast qwQuotient_near (a := num) (by omega : 3 * c.a3 ≠ 0)
  rw [hdiv, abs_le]
  obtain ⟨hlow, hhigh⟩ := abs_le.mp hnear
  constructor <;> linarith

/-- The loss of an evaluation is not negative. -/
theorem evalLoss_nonneg (c : Coeff) : (0 : ℝ) ≤ c.evalLoss := by
  have hrat : 0 ≤ c.evalLoss := by
    rw [evalLoss]
    positivity
  exact_mod_cast hrat

/-- Without turning points the ends bound the curve, up to the little that a discriminant which is
rounded to a negative number leaves. -/
theorem flat_extent {c : Coeff} (h : c.BoxExact) (ha : c.a3 ≠ 0) (hdisc : ¬ c.discriminant ≥ 0)
    {u : ℝ} (h0 : 0 ≤ u) (hu : u ≤ 1) :
    (c.extent.lo : ℝ) - (c.evalLoss + (1 + 165000 / (c.a3 : ℝ) ^ 2)) ≤
        c.a0 + CubicMax.cubic (c.a1 : ℝ) c.a2 c.a3 u ∧
      c.a0 + CubicMax.cubic (c.a1 : ℝ) c.a2 c.a3 u ≤
        c.extent.hi + (c.evalLoss + (1 + 165000 / (c.a3 : ℝ) ^ 2)) := by
  have ha' : (c.a3 : ℝ) ≠ 0 := by exact_mod_cast ha
  obtain ⟨hD, -⟩ := discriminant_near h
  obtain ⟨hone, hlo0', hhi0', hlo1', hhi1'⟩ := c.extent_ends
  have hloss := c.evalLoss_nonneg
  have hsmall : CubicMax.discrim (c.a1 : ℝ) c.a2 c.a3 ≤ 157 ^ 2 := by
    have hneg : (c.discriminant : ℝ) ≤ -1 := by
      have hint : c.discriminant ≤ -1 := by omega
      exact_mod_cast hint
    have hlow := (abs_le.mp hD).1
    linarith
  have hpeak : (4 * 157 ^ 3 : ℝ) / (216 * (c.a3 : ℝ) ^ 2) ≤ 165000 / (c.a3 : ℝ) ^ 2 := by
    rw [div_le_div_iff₀ (by positivity) (by positivity)]
    have hpos : (0 : ℝ) < (c.a3 : ℝ) ^ 2 := by positivity
    linarith
  have hupper := CubicMax.cubic_le_of_flat ha' (by norm_num) hsmall h0 hu
  have hlower := CubicMax.cubic_le_of_flat (neg_ne_zero.mpr ha') (by norm_num)
    (CubicMax.discrim_neg.trans_le hsmall) h0 hu
  rw [hone] at hupper
  rw [CubicMax.cubic_neg, CubicMax.cubic_neg, hone, neg_sq] at hlower
  have htop : max 0 ((c.a1 : ℝ) + (c.a2 + c.a3)) ≤ c.extent.hi - c.a0 :=
    max_le (by linarith) (by linarith)
  have hbottom : max 0 (-((c.a1 : ℝ) + (c.a2 + c.a3))) ≤ c.a0 - c.extent.lo :=
    max_le (by linarith) (by linarith)
  constructor <;> linarith

/-- **The curve between the roots** is in the box, up to the losses. -/
theorem cubic_extent {c : Coeff} (h : c.BoxExact) (ha : c.a3 ≠ 0) {u : ℝ} (h0 : 0 ≤ u)
    (hu : u ≤ 1) :
    (c.extent.lo : ℝ) - (c.evalLoss + (1 + 165000 / (c.a3 : ℝ) ^ 2)) ≤
        c.a0 + CubicMax.cubic (c.a1 : ℝ) c.a2 c.a3 u ∧
      c.a0 + CubicMax.cubic (c.a1 : ℝ) c.a2 c.a3 u ≤
        c.extent.hi + (c.evalLoss + (1 + 165000 / (c.a3 : ℝ) ^ 2)) := by
  have ha' : (c.a3 : ℝ) ≠ 0 := by exact_mod_cast ha
  obtain ⟨hD, hlarge⟩ := discriminant_near h
  have hflat := flat_extent (u := u) h ha
  obtain ⟨hleading, -, -, hroots⟩ := h
  obtain ⟨-, -, -, -, hpoints⟩ := c.extent_spec
  obtain ⟨hone, hlo0', hhi0', hlo1', hhi1'⟩ := c.extent_ends
  have hword : |3 * (c.a3 : ℝ)| ≤ 2 ^ 31 := by
    have hint : |3 * c.a3| ≤ 2 ^ 31 := abs_le.mpr ⟨hleading.1, hleading.2.le⟩
    exact_mod_cast hint
  have hlarge' : (c.discriminant : ℝ) ≤ 5 * 2 ^ 23 := by exact_mod_cast hlarge
  have hloss := c.evalLoss_nonneg
  by_cases hdisc : c.discriminant ≥ 0
  · have hlead : 3 * c.a3 ≠ 0 := by omega
    obtain ⟨hcut₁, hcut₂, hexact₁, hexact₂⟩ := hroots ⟨hdisc, hlead⟩
    obtain ⟨hpoint₁, hpoint₂⟩ := hpoints ⟨hdisc, hlead⟩
    obtain ⟨hs0, hs, hs'⟩ := qwSqrt_near hdisc
    have hs0' : (0 : ℝ) ≤ qwSqrt c.discriminant := by exact_mod_cast hs0
    have hsq : (qwSqrt c.discriminant : ℝ) ^ 2 ≤ c.discriminant * 2 ^ 14 := by exact_mod_cast hs
    have hsq' : (c.discriminant : ℝ) * 2 ^ 14 < (qwSqrt c.discriminant + 1) ^ 2 := by
      exact_mod_cast hs'
    have honCurve {t : Int} (h0 : 0 ≤ (t : ℝ) / 2 ^ 14) (ht : (t : ℝ) / 2 ^ 14 ≤ 1) :
        0 ≤ t ∧ t ≤ qwOne := by
      rw [le_div_iff₀ (by positivity), zero_mul] at h0
      rw [div_le_one (by positivity)] at ht
      exact ⟨by exact_mod_cast h0, by rw [qwOne]; exact_mod_cast ht⟩
    have hflip : |3 * -(c.a3 : ℝ)| = |3 * (c.a3 : ℝ)| := by rw [mul_neg, abs_neg]
    constructor
    · have hnear : |6 * -(c.a3 : ℝ) * ((c.upperRoot : ℝ) / 2 ^ 14) + 2 * -(c.a2 : ℝ) +
          qwSqrt c.discriminant| ≤ |3 * -(c.a3 : ℝ)| / 2 ^ 14 := by
        have hroot := root_near ha hcut₁
        push_cast at hroot
        rw [hflip, ← abs_neg (_ + _)]
        refine (le_of_eq ?_).trans hroot
        congr 1
        rw [upperRoot, qwAdd]
        ring
      have hfit := cubic_le_top (u := u) (neg_ne_zero.mpr ha') (hflip.trans_le hword)
        (by rwa [CubicMax.discrim_neg]) hlarge' hs0' hsq hsq' hnear
        (by linarith : (0 : ℝ) ≤ c.a0 - c.extent.lo + c.evalLoss)
        (by rw [CubicMax.cubic_neg, hone]; linarith) (fun hq0 hq1 => ?_) h0 hu
      · rw [CubicMax.cubic_neg, neg_sq] at hfit
        linarith
      · obtain ⟨ht0, ht⟩ := honCurve hq0 hq1
        have heval := (abs_le.mp (eval_evalLoss ht0 ht (hexact₁ ⟨ht0, ht⟩))).2
        have hin : (c.extent.lo : ℝ) ≤ c.eval c.upperRoot := by exact_mod_cast hpoint₁ ht0 ht
        rw [CubicMax.cubic_neg]
        linarith
    · have hnear : |6 * (c.a3 : ℝ) * ((c.lowerRoot : ℝ) / 2 ^ 14) + 2 * (c.a2 : ℝ) +
          qwSqrt c.discriminant| ≤ |3 * (c.a3 : ℝ)| / 2 ^ 14 := by
        have hroot := root_near ha hcut₂
        push_cast at hroot
        refine (le_of_eq ?_).trans hroot
        congr 1
        rw [lowerRoot, qwSub]
        ring
      have hfit := cubic_le_top (u := u) ha' hword hD hlarge' hs0' hsq hsq' hnear
        (by linarith : (0 : ℝ) ≤ c.extent.hi - c.a0 + c.evalLoss)
        (by rw [hone]; linarith) (fun hq0 hq1 => ?_) h0 hu
      · linarith
      · obtain ⟨ht0, ht⟩ := honCurve hq0 hq1
        have heval := (abs_le.mp (eval_evalLoss ht0 ht (hexact₂ ⟨ht0, ht⟩))).1
        have hin : (c.eval c.lowerRoot : ℝ) ≤ c.extent.hi := by exact_mod_cast hpoint₂ ht0 ht
        linarith
  · exact hflat hdisc h0 hu

/-- The ends alone, for any shape of the curve. -/
theorem chord_extent (c : Coeff) {u : ℝ} (h0 : 0 ≤ u) (hu : u ≤ 1) :
    (c.extent.lo : ℝ) - (|(c.a2 : ℝ)| + 2 * |(c.a3 : ℝ)|) / 4 ≤
        c.a0 + CubicMax.cubic (c.a1 : ℝ) c.a2 c.a3 u ∧
      c.a0 + CubicMax.cubic (c.a1 : ℝ) c.a2 c.a3 u ≤
        c.extent.hi + (|(c.a2 : ℝ)| + 2 * |(c.a3 : ℝ)|) / 4 := by
  obtain ⟨hone, hlo0', hhi0', hlo1', hhi1'⟩ := c.extent_ends
  have hupper : CubicMax.cubic (c.a1 : ℝ) c.a2 c.a3 u ≤ _ := CubicMax.cubic_le_chord h0 hu
  have hlower : CubicMax.cubic (-c.a1 : ℝ) (-c.a2) (-c.a3) u ≤ _ :=
    CubicMax.cubic_le_chord h0 hu
  rw [hone] at hupper
  rw [CubicMax.cubic_neg, CubicMax.cubic_neg, hone, abs_neg, abs_neg] at hlower
  have htop : max 0 ((c.a1 : ℝ) + (c.a2 + c.a3)) ≤ c.extent.hi - c.a0 :=
    max_le (by linarith) (by linarith)
  have hbottom : max 0 (-((c.a1 : ℝ) + (c.a2 + c.a3))) ≤ c.a0 - c.extent.lo :=
    max_le (by linarith) (by linarith)
  constructor <;> linarith

/-- **One dimension** of the curve stays in the box, up to the slack. -/
theorem eval_extent {c : Coeff} {t : Int} (h0 : 0 ≤ t) (ht : t ≤ qwOne) (hbox : c.BoxExact)
    (heval : c.EvalExact t) (hshape : c.NotQuadratic) :
    (c.extent.lo : ℚ) - c.slack ≤ c.eval t ∧ (c.eval t : ℚ) ≤ c.extent.hi + c.slack := by
  have hu0 : (0 : ℝ) ≤ t / 2 ^ 14 := by positivity
  have hu1 : (t : ℝ) / 2 ^ 14 ≤ 1 := by
    rw [div_le_one (by positivity)]
    exact_mod_cast ht
  have hslack : ((c.slack : ℚ) : ℝ) = 2 * c.evalLoss + 1 +
      min (165000 / (c.a3 : ℝ) ^ 2) ((|(c.a2 : ℝ)| + 2 * |(c.a3 : ℝ)|) / 4) := by
    rw [slack, evalLoss]
    push_cast
    ring
  have hloss := c.evalLoss_nonneg
  obtain ⟨hnearlow, hnearhigh⟩ := abs_le.mp (eval_evalLoss h0 ht heval)
  obtain ⟨hchordlow, hchordhigh⟩ := c.chord_extent hu0 hu1
  have hreal : (c.extent.lo : ℝ) - (c.slack : ℚ) ≤ c.eval t ∧
      (c.eval t : ℝ) ≤ c.extent.hi + (c.slack : ℚ) := by
    rw [hslack]
    by_cases ha : c.a3 = 0
    · have ha2 : c.a2 = 0 := hshape.resolve_left (not_not.mpr ha)
      rw [ha, ha2] at hnearlow hnearhigh hchordlow hchordhigh ⊢
      simp only [Int.cast_zero, abs_zero, mul_zero, add_zero, zero_div, ne_eq, OfNat.ofNat_ne_zero,
        not_false_eq_true, zero_pow, div_zero, min_self, sub_zero] at *
      constructor <;> linarith
    · obtain ⟨hrootlow, hroothigh⟩ := cubic_extent hbox ha hu0 hu1
      generalize CubicMax.cubic (c.a1 : ℝ) c.a2 c.a3 (t / 2 ^ 14) = y at *
      have hlow : (c.extent.lo : ℝ) - c.a0 - y - c.evalLoss - 1 ≤
          min (165000 / (c.a3 : ℝ) ^ 2) ((|(c.a2 : ℝ)| + 2 * |(c.a3 : ℝ)|) / 4) :=
        le_min (by linarith) (by linarith)
      have hhigh : (c.a0 : ℝ) + y - c.extent.hi - c.evalLoss - 1 ≤
          min (165000 / (c.a3 : ℝ) ^ 2) ((|(c.a2 : ℝ)| + 2 * |(c.a3 : ℝ)|) / 4) :=
        le_min (by linarith) (by linarith)
      constructor <;> linarith
  exact ⟨by exact_mod_cast hreal.1, by exact_mod_cast hreal.2⟩

/-- A leading coefficient of a straight line, or one between 1/256 and 24 world units. -/
def Moderate (c : Coeff) : Prop :=
  c.a3 = 0 ∨ 64 ≤ |c.a3| ∧ |c.a3| ≤ 24 * 2 ^ 14

instance decidableModerate (c : Coeff) : Decidable c.Moderate :=
  inferInstanceAs (Decidable (_ ∨ _ ∧ _))

instance decidableNotQuadratic (c : Coeff) : Decidable c.NotQuadratic :=
  inferInstanceAs (Decidable (_ ∨ _))

/-- **The slack** is not more than 64 then. -/
theorem slack_le {c : Coeff} (hbox : c.BoxExact) (hshape : c.NotQuadratic) (h : c.Moderate) :
    c.slack ≤ 64 := by
  have hwide : |c.a2| ≤ 185400 := by
    have hsquare := hbox.2.1.2
    have hproduct : qwProduct (2 * c.a2) (2 * c.a2) =
        (2 * c.a2 * (2 * c.a2) + 2 ^ 13) / 2 ^ 14 := Int.shiftRight_eq_div_pow _ _
    rw [hproduct, show 2 * c.a2 * (2 * c.a2) = 4 * (c.a2 * c.a2) by ring] at hsquare
    have hsq : c.a2 ^ 2 ≤ 185400 ^ 2 := by
      rw [sq]
      omega
    exact abs_le_of_sq_le_sq hsq (by decide)
  rw [slack]
  rcases h with ha | ⟨hlow, hhigh⟩
  · have ha2 : c.a2 = 0 := hshape.resolve_left (not_not.mpr ha)
    rw [ha, ha2]
    norm_num
  · have hwide' : |(c.a2 : ℚ)| ≤ 185400 := by exact_mod_cast hwide
    have hlow' : (64 : ℚ) ≤ |(c.a3 : ℚ)| := by exact_mod_cast hlow
    have hhigh' : |(c.a3 : ℚ)| ≤ 24 * 2 ^ 14 := by exact_mod_cast hhigh
    have hmin := min_le_left (165000 / (c.a3 : ℚ) ^ 2) ((|(c.a2 : ℚ)| + 2 * |(c.a3 : ℚ)|) / 4)
    rw [← sq_abs (c.a3 : ℚ)] at hmin ⊢
    generalize |(c.a3 : ℚ)| = x at *
    rcases le_total x 1024 with hsmall | hlarge
    · have hroot : 165000 / x ^ 2 ≤ 165000 / 64 ^ 2 :=
        div_le_div_of_nonneg_left (by norm_num) (by norm_num) (pow_le_pow_left₀ (by norm_num) hlow' 2)
      linarith
    · have hroot : 165000 / x ^ 2 ≤ 165000 / 1024 ^ 2 :=
        div_le_div_of_nonneg_left (by norm_num) (by norm_num)
          (pow_le_pow_left₀ (by norm_num) hlarge 2)
      linarith

end Coeff

/-- The box with `n` units more on each side. -/
def enlargeBox (bb : QwAabb) (n : Int) : QwAabb where
  x1 := bb.x1 - n
  y1 := bb.y1 - n
  x2 := bb.x2 + n
  y2 := bb.y2 + n

/-- Nothing is saturated where the box is computed and where the curve is evaluated. -/
def Considered (curve : Coeff × Coeff) (t : Int) : Prop :=
  (0 ≤ t ∧ t ≤ qwOne) ∧ (curve.1.BoxExact ∧ curve.2.BoxExact) ∧
    curve.1.EvalExact t ∧ curve.2.EvalExact t

instance decidableConsidered (curve : Coeff × Coeff) (t : Int) : Decidable (Considered curve t) :=
  inferInstanceAs (Decidable (_ ∧ _ ∧ _ ∧ _))

/-- The curve is in its box with 64 units more on each side. -/
def InBox (curve : Coeff × Coeff) (t : Int) : Prop :=
  qwaabbTestQwpos (enlargeBox (bezierCalcAabbCoeff curve) 64) (bezierXy curve t) = true

instance decidableInBox (curve : Coeff × Coeff) (t : Int) : Decidable (InBox curve t) :=
  inferInstanceAs (Decidable (_ = true))

/-- **The bounding box of a curve.**  When nothing is saturated and no dimension is quadratic, the
curve stays in the box up to the slack of its coefficients, and up to 64 units when the leading
coefficients are moderate. -/
theorem bezierXy_in_box (curve : Coeff × Coeff) (t : Int) (h : Considered curve t)
    (hshape : curve.1.NotQuadratic ∧ curve.2.NotQuadratic) :
    (((bezierCalcAabbCoeff curve).x1 : ℚ) - curve.1.slack ≤ (bezierXy curve t).x ∧
        ((bezierXy curve t).x : ℚ) ≤ (bezierCalcAabbCoeff curve).x2 + curve.1.slack) ∧
      (((bezierCalcAabbCoeff curve).y1 : ℚ) - curve.2.slack ≤ (bezierXy curve t).y ∧
        ((bezierXy curve t).y : ℚ) ≤ (bezierCalcAabbCoeff curve).y2 + curve.2.slack) ∧
      (curve.1.Moderate → curve.2.Moderate → InBox curve t) := by
  obtain ⟨⟨h0, ht⟩, hbox, heval⟩ := h
  have hx := Coeff.eval_extent h0 ht hbox.1 heval.1 hshape.1
  have hy := Coeff.eval_extent h0 ht hbox.2 heval.2 hshape.2
  refine ⟨hx, hy, fun hmodx hmody => ?_⟩
  have hslackx := Coeff.slack_le hbox.1 hshape.1 hmodx
  have hslacky := Coeff.slack_le hbox.2 hshape.2 hmody
  have hx1 : curve.1.extent.lo - 64 ≤ curve.1.eval t := by
    have hrat : (curve.1.extent.lo : ℚ) - 64 ≤ curve.1.eval t := by linarith [hx.1]
    exact_mod_cast hrat
  have hx2 : curve.1.eval t ≤ curve.1.extent.hi + 64 := by
    have hrat : (curve.1.eval t : ℚ) ≤ curve.1.extent.hi + 64 := by linarith [hx.2]
    exact_mod_cast hrat
  have hy1 : curve.2.extent.lo - 64 ≤ curve.2.eval t := by
    have hrat : (curve.2.extent.lo : ℚ) - 64 ≤ curve.2.eval t := by linarith [hy.1]
    exact_mod_cast hrat
  have hy2 : curve.2.eval t ≤ curve.2.extent.hi + 64 := by
    have hrat : (curve.2.eval t : ℚ) ≤ curve.2.extent.hi + 64 := by linarith [hy.2]
    exact_mod_cast hrat
  exact decide_eq_true ⟨hx1, hx2, hy1, hy2⟩

/-- A curve that swings back and forth in one dimension, and goes straight on in the other. -/
def swing : Coeff × Coeff :=
  ({ a0 := 0, a1 := 30000, a2 := -90000, a3 := 60000 },
    { a0 := 100, a1 := 5000, a2 := 0, a3 := 0 })

theorem bezierXy_in_box_swing : InBox swing 4000 :=
  (bezierXy_in_box swing 4000 (by decide +kernel) ⟨by decide, by decide⟩).2.2 (by decide) (by decide)

/-- A curve that stays at 0 in its second dimension. -/
def flatCurve (a1 a2 a3 : Int) : Coeff × Coeff :=
  ({ a0 := 0, a1 := a1, a2 := a2, a3 := a3 }, { a0 := 0, a1 := 0, a2 := 0, a3 := 0 })

/-- A parabola leaves its box by one world unit.  So do, by more than 64 units, a curve with a very
small leading coefficient, whose root is not exact, and one with a very large one, whose points are
not. -/
theorem not_bezierXy_in_box :
    (Considered (flatCurve 65536 (-65536) 0) 8192 ∧
      ¬ InBox (flatCurve 65536 (-65536) 0) 8192) ∧
    (Considered (flatCurve 59469 (-178889) 1) 2722 ∧
      ¬ InBox (flatCurve 59469 (-178889) 1) 2722) ∧
    (Considered (flatCurve (-17243) (-1686) 2046695) 872 ∧
      ¬ InBox (flatCurve (-17243) (-1686) 2046695) 872) := by
  decide +kernel

end Clither
