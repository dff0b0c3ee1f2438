import Mathlib.Algebra.Order.Field.Basic
import Mathlib.Tactic.Linarith
import Mathlib.Tactic.Positivity
import Mathlib.Tactic.Ring

/-!
# The maximum of a cubic polynomial on an interval

A cubic polynomial on an interval is largest at an end or at a root of its derivative.  When
the root is known up to an error, the value there misses the maximum by a term of second order.

The derivative is completed to a square first.  What remains is `bend d v = v ^ 3 - 3 * d * v`
for the discriminant `d`, with its peak at `-r` when `d = r ^ 2`.
-/

namespace CubicMax

variable {𝕜 : Type} [Field 𝕜]

/-- A cubic polynomial without its square. -/
def bend (d v : 𝕜) : 𝕜 :=
  v ^ 3 - 3 * d * v

theorem bend_sub (d v w : 𝕜) : bend d w - bend d v = (w - v) * (w ^ 2 + w * v + v ^ 2 - 3 * d) := by
  unfold bend
  ring

/-- A cubic polynomial without its constant. -/
def cubic (a₁ a₂ a₃ u : 𝕜) : 𝕜 :=
  a₁ * u + a₂ * u ^ 2 + a₃ * u ^ 3

/-- The discriminant of its derivative. -/
def discrim (a₁ a₂ a₃ : 𝕜) : 𝕜 :=
  (2 * a₂) ^ 2 - 4 * (3 * a₃) * a₁

section

variable {a₁ a₂ a₃ u : 𝕜}

theorem cubic_zero : cubic a₁ a₂ a₃ 0 = 0 := by
  unfold cubic
  ring

theorem cubic_neg : cubic (-a₁) (-a₂) (-a₃) u = -cubic a₁ a₂ a₃ u := by
  unfold cubic
  ring

theorem discrim_neg : discrim (-a₁) (-a₂) (-a₃) = discrim a₁ a₂ a₃ := by
  unfold discrim
  ring

/-- Completing the square. -/
theorem cubic_sub (w : 𝕜) :
    216 * a₃ ^ 2 * (cubic a₁ a₂ a₃ u - cubic a₁ a₂ a₃ w) =
      bend (discrim a₁ a₂ a₃) (6 * a₃ * u + 2 * a₂) -
        bend (discrim a₁ a₂ a₃) (6 * a₃ * w + 2 * a₂) := by
  unfold cubic bend discrim
  ring

end

/-! ## Bounds -/

variable [LinearOrder 𝕜] [IsStrictOrderedRing 𝕜]

section

variable {d r v w x lo hi m e : 𝕜}

/-- It rises behind the larger root of the derivative. -/
theorem bend_le_right (hr : 0 ≤ r) (hv : r ≤ v) (hvw : v ≤ w) : bend (r ^ 2) v ≤ bend (r ^ 2) w := by
  have hfactor : 0 ≤ w ^ 2 + w * v + v ^ 2 - 3 * r ^ 2 := by nlinarith
  have hsub := bend_sub (r ^ 2) v w
  have hprod := mul_nonneg (sub_nonneg.mpr hvw) hfactor
  linarith

/-- It falls between the roots. -/
theorem bend_le_between (hv : -r ≤ v) (hvw : v ≤ w) (hw : w ≤ r) :
    bend (r ^ 2) w ≤ bend (r ^ 2) v := by
  have hfactor : w ^ 2 + w * v + v ^ 2 - 3 * r ^ 2 ≤ 0 := by nlinarith
  have hsub := bend_sub (r ^ 2) v w
  have hprod := mul_nonneg (sub_nonneg.mpr hvw) (neg_nonneg.mpr hfactor)
  linarith

/-- It rises before the smaller root. -/
theorem bend_le_left (hr : 0 ≤ r) (hvw : v ≤ w) (hw : w ≤ -r) :
    bend (r ^ 2) v ≤ bend (r ^ 2) w := by
  have hfactor : 0 ≤ w ^ 2 + w * v + v ^ 2 - 3 * r ^ 2 := by nlinarith
  have hsub := bend_sub (r ^ 2) v w
  have hprod := mul_nonneg (sub_nonneg.mpr hvw) hfactor
  linarith

/-- The peak. -/
theorem bend_le_peak (hv : v ≤ 2 * r) : bend (r ^ 2) v ≤ 2 * r ^ 3 := by
  have hprod := mul_nonneg (sq_nonneg (v + r)) (sub_nonneg.mpr hv)
  unfold bend
  linarith

/-- Near the peak. -/
theorem peak_le_bend (hr : 0 ≤ r) (hx : |x + r| ≤ e) :
    2 * r ^ 3 ≤ bend (r ^ 2) x + e ^ 2 * (3 * r + e) := by
  obtain ⟨hge, hle⟩ := abs_le.mp hx
  have hsq : (x + r) ^ 2 ≤ e ^ 2 := sq_le_sq' hge hle
  have hfactor : (x + r) ^ 2 * (2 * r - x) ≤ e ^ 2 * (3 * r + e) := by
    have he : 0 ≤ 3 * r + e := by linarith [abs_nonneg (x + r)]
    calc
      (x + r) ^ 2 * (2 * r - x) ≤ (x + r) ^ 2 * (3 * r + e) :=
        mul_le_mul_of_nonneg_left (by linarith) (sq_nonneg _)
      _ ≤ e ^ 2 * (3 * r + e) := mul_le_mul_of_nonneg_right hsq he
  unfold bend
  linarith

/-- **Between two ends**, with a point that is the approximate root, or the end next to it. -/
theorem bend_le_of_near (hr : 0 ≤ r) (hm : |m + r| ≤ e) (hlo : lo ≤ v) (hhi : v ≤ hi)
    (hx : x = m ∨ (x = lo ∧ m ≤ lo) ∨ (x = hi ∧ hi ≤ m)) :
    bend (r ^ 2) v ≤ bend (r ^ 2) x + e ^ 2 * (3 * r + e) ∨ bend (r ^ 2) v ≤ bend (r ^ 2) lo ∨
      bend (r ^ 2) v ≤ bend (r ^ 2) hi := by
  obtain ⟨hge, hle⟩ := abs_le.mp hm
  have hpeak (hv : v ≤ 2 * r) (hnear : |x + r| ≤ e) :
      bend (r ^ 2) v ≤ bend (r ^ 2) x + e ^ 2 * (3 * r + e) :=
    (bend_le_peak hv).trans (peak_le_bend hr hnear)
  rcases le_total r v with hright | hleft
  · exact .inr (.inr (bend_le_right hr hright hhi))
  have hv : v ≤ 2 * r := by linarith
  rcases hx with rfl | ⟨rfl, hlom⟩ | ⟨rfl, hhim⟩
  · exact .inl (hpeak hv hm)
  · rcases le_total x (-r) with hbefore | hbehind
    · exact .inl (hpeak hv (abs_le.mpr ⟨by linarith, by linarith⟩))
    · exact .inr (.inl (bend_le_between hbehind hlo hleft))
  · rcases le_total x (-r) with hbefore | hbehind
    · exact .inr (.inr (bend_le_left hr hhi hbefore))
    · exact .inl (hpeak hv (abs_le.mpr ⟨by linarith, by linarith⟩))

/-- **A small discriminant**: the fall between the roots is small. -/
theorem bend_le_of_flat (hr : 0 ≤ r) (hd : d ≤ r ^ 2) (hvw : v ≤ w) :
    bend d v ≤ bend d w + 4 * r ^ 3 := by
  have hsquare : bend (r ^ 2) v ≤ bend (r ^ 2) w + 4 * r ^ 3 := by
    have hcube : 0 ≤ r ^ 3 := pow_nonneg hr 3
    rcases le_total v (2 * r) with hv | hv
    · rcases le_total (-(2 * r)) w with hw | hw
      · have hlow : -(2 * r ^ 3) ≤ bend (r ^ 2) w := by
          have hprod := mul_nonneg (sq_nonneg (w - r)) (by linarith : 0 ≤ w + 2 * r)
          unfold bend
          linarith
        linarith [bend_le_peak hv]
      · linarith [bend_le_left hr hvw (by linarith)]
    · linarith [bend_le_right hr (by linarith : r ≤ v) hvw]
  have hprod := mul_nonneg (sub_nonneg.mpr hd) (sub_nonneg.mpr hvw)
  unfold bend at hsquare ⊢
  linarith

end

section

variable {a₁ a₂ a₃ u : 𝕜}

/-- **The chord**: without any root the ends miss the maximum by the bend of the curve. -/
theorem cubic_le_chord (h0 : 0 ≤ u) (hu : u ≤ 1) :
    cubic a₁ a₂ a₃ u ≤ max 0 (cubic a₁ a₂ a₃ 1) + (|a₂| + 2 * |a₃|) / 4 := by
  have hchord : cubic a₁ a₂ a₃ u =
      u * cubic a₁ a₂ a₃ 1 + u * (1 - u) * -(a₂ + a₃ * (1 + u)) := by
    unfold cubic
    ring
  have hend : u * cubic a₁ a₂ a₃ 1 ≤ max 0 (cubic a₁ a₂ a₃ 1) := by
    have hmax := le_max_right 0 (cubic a₁ a₂ a₃ 1)
    have hmax0 := le_max_left 0 (cubic a₁ a₂ a₃ 1)
    nlinarith
  have hslope : -(a₂ + a₃ * (1 + u)) ≤ |a₂| + 2 * |a₃| := by
    have h2 := neg_abs_le a₂
    have h3 : -(a₃ * (1 + u)) ≤ |a₃| * 2 := by
      have h3' := neg_abs_le a₃
      have h3'' := abs_nonneg a₃
      nlinarith
    linarith
  have hquarter : u * (1 - u) ≤ 1 / 4 := by nlinarith [sq_nonneg (2 * u - 1)]
  have hpos : 0 ≤ u * (1 - u) := mul_nonneg h0 (by linarith)
  have hsum : 0 ≤ |a₂| + 2 * |a₃| := by positivity
  have hbend : u * (1 - u) * -(a₂ + a₃ * (1 + u)) ≤ (|a₂| + 2 * |a₃|) / 4 :=
    calc
      u * (1 - u) * -(a₂ + a₃ * (1 + u)) ≤ u * (1 - u) * (|a₂| + 2 * |a₃|) :=
        mul_le_mul_of_nonneg_left hslope hpos
      _ ≤ 1 / 4 * (|a₂| + 2 * |a₃|) := mul_le_mul_of_nonneg_right hquarter hsum
      _ = (|a₂| + 2 * |a₃|) / 4 := by ring
  linarith

/-- A difference in `bend` is one in the polynomial. -/
theorem cubic_le_add {w x : 𝕜} (ha : a₃ ≠ 0)
    (h : bend (discrim a₁ a₂ a₃) (6 * a₃ * u + 2 * a₂) ≤
      bend (discrim a₁ a₂ a₃) (6 * a₃ * w + 2 * a₂) + x) :
    cubic a₁ a₂ a₃ u ≤ cubic a₁ a₂ a₃ w + x / (216 * a₃ ^ 2) := by
  have hpos : 0 < 216 * a₃ ^ 2 := by positivity
  have hsub : 216 * a₃ ^ 2 * (cubic a₁ a₂ a₃ u - cubic a₁ a₂ a₃ w) = _ := cubic_sub w
  have hdiv : cubic a₁ a₂ a₃ u - cubic a₁ a₂ a₃ w ≤ x / (216 * a₃ ^ 2) := by
    rw [le_div_iff₀ hpos]
    linarith
  linarith

/-- **The approximate root** `q`, or the end `p` of the interval next to it. -/
theorem cubic_le_of_root {r p q e : 𝕜} (ha : a₃ ≠ 0) (hr : 0 ≤ r) (hd : discrim a₁ a₂ a₃ = r ^ 2)
    (hq : |6 * a₃ * q + 2 * a₂ + r| ≤ e) (hp : p = q ∨ (p = 0 ∧ q < 0) ∨ (p = 1 ∧ 1 < q))
    (h0 : 0 ≤ u) (hu : u ≤ 1) :
    cubic a₁ a₂ a₃ u ≤ max (cubic a₁ a₂ a₃ p) (max 0 (cubic a₁ a₂ a₃ 1)) +
      e ^ 2 * (3 * r + e) / (216 * a₃ ^ 2) := by
  have he : 0 ≤ e := (abs_nonneg _).trans hq
  have hrest : 0 ≤ e ^ 2 * (3 * r + e) / (216 * a₃ ^ 2) := by positivity
  have hfrom {w : 𝕜} (hw : cubic a₁ a₂ a₃ w ≤ max (cubic a₁ a₂ a₃ p) (max 0 (cubic a₁ a₂ a₃ 1)))
      (hle : bend (r ^ 2) (6 * a₃ * u + 2 * a₂) ≤
        bend (r ^ 2) (6 * a₃ * w + 2 * a₂) + e ^ 2 * (3 * r + e)) :
      cubic a₁ a₂ a₃ u ≤ max (cubic a₁ a₂ a₃ p) (max 0 (cubic a₁ a₂ a₃ 1)) +
        e ^ 2 * (3 * r + e) / (216 * a₃ ^ 2) := by
    rw [← hd] at hle
    exact (cubic_le_add ha hle).trans (add_le_add_left hw _)
  have hstart : cubic a₁ a₂ a₃ 0 ≤ max (cubic a₁ a₂ a₃ p) (max 0 (cubic a₁ a₂ a₃ 1)) := by
    rw [cubic_zero]
    exact le_max_of_le_right (le_max_left _ _)
  have hend : cubic a₁ a₂ a₃ 1 ≤ max (cubic a₁ a₂ a₃ p) (max 0 (cubic a₁ a₂ a₃ 1)) :=
    le_max_of_le_right (le_max_right _ _)
  have hloss : 0 ≤ e ^ 2 * (3 * r + e) := by positivity
  rcases lt_or_gt_of_ne ha with hneg | hpos
  · have hx : 6 * a₃ * p + 2 * a₂ = 6 * a₃ * q + 2 * a₂ ∨
        (6 * a₃ * p + 2 * a₂ = 6 * a₃ * 1 + 2 * a₂ ∧ 6 * a₃ * q + 2 * a₂ ≤ 6 * a₃ * 1 + 2 * a₂) ∨
        (6 * a₃ * p + 2 * a₂ = 6 * a₃ * 0 + 2 * a₂ ∧ 6 * a₃ * 0 + 2 * a₂ ≤ 6 * a₃ * q + 2 * a₂) := by
      rcases hp with rfl | ⟨rfl, hq⟩ | ⟨rfl, hq⟩
      · exact .inl rfl
      · exact .inr (.inr ⟨rfl, by nlinarith⟩)
      · exact .inr (.inl ⟨rfl, by nlinarith⟩)
    rcases bend_le_of_near hr hq (v := 6 * a₃ * u + 2 * a₂) (by nlinarith) (by nlinarith) hx with
      h | h | h
    · exact hfrom (le_max_left _ _) h
    · exact hfrom hend (by linarith)
    · exact hfrom hstart (by linarith)
  · have hx : 6 * a₃ * p + 2 * a₂ = 6 * a₃ * q + 2 * a₂ ∨
        (6 * a₃ * p + 2 * a₂ = 6 * a₃ * 0 + 2 * a₂ ∧ 6 * a₃ * q + 2 * a₂ ≤ 6 * a₃ * 0 + 2 * a₂) ∨
        (6 * a₃ * p + 2 * a₂ = 6 * a₃ * 1 + 2 * a₂ ∧ 6 * a₃ * 1 + 2 * a₂ ≤ 6 * a₃ * q + 2 * a₂) := by
      rcases hp with rfl | ⟨rfl, hq⟩ | ⟨rfl, hq⟩
      · exact .inl rfl
      · exact .inr (.inl ⟨rfl, by nlinarith⟩)
      · exact .inr (.inr ⟨rfl, by nlinarith⟩)
    rcases bend_le_of_near hr hq (v := 6 * a₃ * u + 2 * a₂) (by nlinarith) (by nlinarith) hx with
      h | h | h
    · exact hfrom (le_max_left _ _) h
    · exact hfrom hstart (by linarith)
    · exact hfrom hend (by linarith)

/-- **No root**, or two that are close to each other. -/
theorem cubic_le_of_flat {r : 𝕜} (ha : a₃ ≠ 0) (hr : 0 ≤ r) (hd : discrim a₁ a₂ a₃ ≤ r ^ 2)
    (h0 : 0 ≤ u) (hu : u ≤ 1) :
    cubic a₁ a₂ a₃ u ≤ max 0 (cubic a₁ a₂ a₃ 1) + 4 * r ^ 3 / (216 * a₃ ^ 2) := by
  rcases lt_or_gt_of_ne ha with hneg | hpos
  · have hle : 6 * a₃ * u + 2 * a₂ ≤ 6 * a₃ * 0 + 2 * a₂ := by nlinarith
    have hzero := cubic_le_add ha (bend_le_of_flat hr hd hle)
    rw [cubic_zero] at hzero
    exact hzero.trans (add_le_add_left (le_max_left _ _) _)
  · have hle : 6 * a₃ * u + 2 * a₂ ≤ 6 * a₃ * 1 + 2 * a₂ := by nlinarith
    exact (cubic_le_add ha (bend_le_of_flat hr hd hle)).trans (add_le_add_left (le_max_right _ _) _)

end

end CubicMax
