import Clither.FitTrail
import Mathlib.Tactic.Linarith
import Mathlib.Tactic.Positivity

/-!
# The distance of a point from the curve

`binary_search_min_dist_sq` goes down along the squared distance with halving steps.  It
squares differences in Q16.16 as `int32_t`, so that a squared distance from `2 ^ 31` on, of
about 0.7 world units, is wrapped around; and when both neighbours are nearer it takes the
upper one, also when the lower one is the nearest.

`Close` says that neither of the two happens on the way, and then the result is the exact
squared distance at the nearest parameter that has been probed.
-/

namespace Clither

/-! ## The search -/

/-- The parameters that a round probes. -/
def roundProbes (tStep t : Int) : List Int :=
  (if q1616Add t tStep ≤ makeQ1616 1 then [q1616Add t tStep] else []) ++
    if q1616Sub t tStep ≥ 0 then [q1616Sub t tStep] else []

/-- The parameters that the rounds probe behind the first guess. -/
def searchProbes (error : Int → Int) : Nat → Int → List Int
  | 0, _ => []
  | k + 1, t =>
      roundProbes (2 ^ k) t ++ searchProbes error k (searchRound error (2 ^ k) t (error t)).1

/-- In no round the lower neighbour is nearer than the upper one that is taken. -/
def TakesNearest (error : Int → Int) : Nat → Int → Prop
  | 0, _ => True
  | k + 1, t =>
      (q1616Add t (2 ^ k) ≤ makeQ1616 1 → q1616Sub t (2 ^ k) ≥ 0 →
        error (q1616Add t (2 ^ k)) < error t →
          error (q1616Add t (2 ^ k)) ≤ error (q1616Sub t (2 ^ k))) ∧
      TakesNearest error k (searchRound error (2 ^ k) t (error t)).1

instance decidableTakesNearest (error : Int → Int) :
    (k : Nat) → (t : Int) → Decidable (TakesNearest error k t)
  | 0, _ => isTrue trivial
  | k + 1, t =>
      haveI := decidableTakesNearest error k (searchRound error (2 ^ k) t (error t)).1
      inferInstanceAs (Decidable (_ ∧ _))

section

variable {error error' : Int → Int}

/-- A neighbour that is not probed is not nearer. -/
theorem searchRound_eq (error : Int → Int) (tStep t lastError : Int) :
    searchRound error tStep t lastError =
      if q1616Add t tStep ≤ makeQ1616 1 ∧ error (q1616Add t tStep) < lastError then
        (q1616Add t tStep, error (q1616Add t tStep))
      else if q1616Sub t tStep ≥ 0 ∧ error (q1616Sub t tStep) < lastError then
        (q1616Sub t tStep, error (q1616Sub t tStep))
      else (t, lastError) := by
  rw [searchRound]
  by_cases hup : q1616Add t tStep ≤ makeQ1616 1 <;> by_cases hdown : q1616Sub t tStep ≥ 0 <;>
    simp [hup, hdown]

/-- A round probes one step up and one down, as far as these stay in range. -/
theorem mem_roundProbes {tStep t t' : Int} :
    t' ∈ roundProbes tStep t ↔
      (q1616Add t tStep ≤ makeQ1616 1 ∧ t' = q1616Add t tStep) ∨
        (q1616Sub t tStep ≥ 0 ∧ t' = q1616Sub t tStep) := by
  rw [roundProbes, List.mem_append]
  split_ifs <;> simp [*]

/-- What a round can do: it stays, or goes to a nearer parameter that it has probed. -/
theorem searchRound_cases (error : Int → Int) (tStep t : Int) :
    searchRound error tStep t (error t) = (t, error t) ∨
      ∃ t' ∈ roundProbes tStep t, searchRound error tStep t (error t) = (t', error t') ∧
        error t' < error t := by
  rw [searchRound_eq]
  by_cases hup : q1616Add t tStep ≤ makeQ1616 1 ∧ error (q1616Add t tStep) < error t
  · rw [if_pos hup]
    exact .inr ⟨_, mem_roundProbes.mpr (.inl ⟨hup.1, rfl⟩), rfl, hup.2⟩
  rw [if_neg hup]
  by_cases hdown : q1616Sub t tStep ≥ 0 ∧ error (q1616Sub t tStep) < error t
  · rw [if_pos hdown]
    exact .inr ⟨_, mem_roundProbes.mpr (.inr ⟨hdown.1, rfl⟩), rfl, hdown.2⟩
  · rw [if_neg hdown]
    exact .inl rfl

/-- The error goes along with the parameter. -/
theorem searchRound_snd (error : Int → Int) (tStep t : Int) :
    (searchRound error tStep t (error t)).2 = error (searchRound error tStep t (error t)).1 := by
  rcases searchRound_cases error tStep t with hstay | ⟨t', -, hgo, -⟩
  · rw [hstay]
  · rw [hgo]

/-- A round never makes the guess worse. -/
theorem searchRound_le_guess (error : Int → Int) (tStep t : Int) :
    error (searchRound error tStep t (error t)).1 ≤ error t := by
  rcases searchRound_cases error tStep t with hstay | ⟨t', -, hgo, hlt⟩
  · rw [hstay]
  · rw [hgo]
    exact hlt.le

/-- The rounds go from the greatest step down. -/
theorem searchRounds_succ (error : Int → Int) (k : Nat) (t : Int) :
    searchRounds error (k + 1) t (error t) =
      searchRounds error k (searchRound error (2 ^ k) t (error t)).1
        (error (searchRound error (2 ^ k) t (error t)).1) := by
  show searchRounds error k (searchRound error (2 ^ k) t (error t)).1
    (searchRound error (2 ^ k) t (error t)).2 = _
  rw [searchRound_snd]

/-- **The result** is the error at a parameter that has been probed, and not larger than the
one at the guess. -/
theorem searchRounds_spec (error : Int → Int) (k : Nat) (t : Int) :
    ∃ t' ∈ t :: searchProbes error k t, (searchRounds error k t (error t)).2 = error t' ∧
      error t' ≤ error t := by
  induction k generalizing t with
  | zero => exact ⟨t, List.mem_cons_self, rfl, le_refl _⟩
  | succ k ih =>
      rw [searchRounds_succ, searchProbes]
      obtain ⟨t', hmem, heq, hle⟩ := ih (searchRound error (2 ^ k) t (error t)).1
      refine ⟨t', ?_, heq, hle.trans (searchRound_le_guess error _ t)⟩
      rcases List.mem_cons.mp hmem with rfl | hmem
      · rcases searchRound_cases error (2 ^ k) t with hstay | ⟨t₁, hprobed, hgo, -⟩
        · rw [hstay]
          exact List.mem_cons_self
        · rw [hgo]
          exact List.mem_cons_of_mem _ (List.mem_append_left _ hprobed)
      · exact List.mem_cons_of_mem _ (List.mem_append_right _ hmem)

/-- A round that takes the nearest is at least as near as what it has probed. -/
theorem searchRound_le {tStep t : Int}
    (hnearest : q1616Add t tStep ≤ makeQ1616 1 → q1616Sub t tStep ≥ 0 →
      error (q1616Add t tStep) < error t →
        error (q1616Add t tStep) ≤ error (q1616Sub t tStep))
    {t' : Int} (ht' : t' ∈ roundProbes tStep t) :
    error (searchRound error tStep t (error t)).1 ≤ error t' := by
  rw [searchRound_eq]
  rw [mem_roundProbes] at ht'
  by_cases hup : q1616Add t tStep ≤ makeQ1616 1 ∧ error (q1616Add t tStep) < error t
  · rw [if_pos hup]
    rcases ht' with ⟨-, rfl⟩ | ⟨hdown, rfl⟩
    · exact le_refl _
    · exact hnearest hup.1 hdown hup.2
  rw [if_neg hup]
  by_cases hdown : q1616Sub t tStep ≥ 0 ∧ error (q1616Sub t tStep) < error t
  · rw [if_pos hdown]
    rcases ht' with ⟨hle, rfl⟩ | ⟨-, rfl⟩
    · exact hdown.2.le.trans (not_lt.mp fun hlt => hup ⟨hle, hlt⟩)
    · exact le_refl _
  · rw [if_neg hdown]
    rcases ht' with ⟨hle, rfl⟩ | ⟨hge, rfl⟩
    · exact not_lt.mp fun hlt => hup ⟨hle, hlt⟩
    · exact not_lt.mp fun hlt => hdown ⟨hge, hlt⟩

/-- **The least error.** -/
theorem searchRounds_le {k : Nat} {t t' : Int} (hnearest : TakesNearest error k t)
    (ht' : t' ∈ t :: searchProbes error k t) : (searchRounds error k t (error t)).2 ≤ error t' := by
  induction k generalizing t t' with
  | zero =>
      rw [searchProbes, List.mem_singleton] at ht'
      rw [ht']
      exact le_refl _
  | succ k ih =>
      obtain ⟨hround, hlater⟩ := hnearest
      rw [searchRounds_succ]
      have hbegin := ih hlater List.mem_cons_self
      rcases List.mem_cons.mp ht' with rfl | hmem
      · exact hbegin.trans (searchRound_le_guess error _ t')
      rcases List.mem_append.mp hmem with hmem | hmem
      · exact hbegin.trans (searchRound_le hround hmem)
      · exact ih hlater (List.mem_cons_of_mem _ hmem)

/-- A round looks at the error at its probes only. -/
theorem searchRound_congr {tStep t lastError : Int}
    (h : ∀ t' ∈ roundProbes tStep t, error' t' = error t') :
    searchRound error' tStep t lastError = searchRound error tStep t lastError := by
  have hup (hle : q1616Add t tStep ≤ makeQ1616 1) := h _ (mem_roundProbes.mpr (.inl ⟨hle, rfl⟩))
  have hdown (hge : q1616Sub t tStep ≥ 0) := h _ (mem_roundProbes.mpr (.inr ⟨hge, rfl⟩))
  rw [searchRound_eq, searchRound_eq]
  grind

/-- Two functions that agree on what is probed give the same search. -/
theorem searchRounds_congr {k : Nat} {t : Int}
    (h : ∀ t' ∈ t :: searchProbes error k t, error' t' = error t') :
    searchRounds error' k t (error' t) = searchRounds error k t (error t) ∧
      searchProbes error' k t = searchProbes error k t := by
  induction k generalizing t with
  | zero => exact ⟨by rw [searchRounds, searchRounds, h t List.mem_cons_self], rfl⟩
  | succ k ih =>
      have hround : searchRound error' (2 ^ k) t (error' t) = searchRound error (2 ^ k) t (error t) := by
        rw [h t List.mem_cons_self]
        exact searchRound_congr fun t' ht' =>
          h t' (List.mem_cons_of_mem _ (List.mem_append_left _ ht'))
      have hnext : ∀ t' ∈ (searchRound error (2 ^ k) t (error t)).1 ::
          searchProbes error k (searchRound error (2 ^ k) t (error t)).1, error' t' = error t' := by
        intro t' ht'
        rcases List.mem_cons.mp ht' with rfl | hmem
        · rcases searchRound_cases error (2 ^ k) t with hstay | ⟨t₁, hprobed, hgo, -⟩
          · rw [hstay]
            exact h t List.mem_cons_self
          · rw [hgo]
            exact h t₁ (List.mem_cons_of_mem _ (List.mem_append_left _ hprobed))
        · exact h t' (List.mem_cons_of_mem _ (List.mem_append_right _ hmem))
      obtain ⟨hrounds, hprobes⟩ := ih hnext
      rw [searchRounds_succ, searchRounds_succ, searchProbes, searchProbes, hround, hrounds, hprobes]
      exact ⟨rfl, rfl⟩

end

/-! ## Without wrapping around -/

/-- The products of the evaluation are rounded, and nothing else. -/
def Cubic.exactEval (c : Cubic) (t : Int) : Int :=
  c.a0 + q1616Product c.a1 t + q1616Product c.a2 (q1616Product t t) +
    q1616Product c.a3 (q1616Product t (q1616Product t t))

/-- The exact integer `dx * dx + dy * dy`. -/
def exactDistSq (p : QwPos) (curve : FittedCurve) (t : Int) : Int :=
  (4 * p.x - curve.x.exactEval t) ^ 2 + (4 * p.y - curve.y.exactEval t) ^ 2

/-- The polynomial stays within 64 world units for parameters from 0 to 1. -/
def Cubic.Within (c : Cubic) : Prop :=
  ∀ t : Int, 0 ≤ t → t ≤ 2 ^ 16 →
    |c.a0 * 2 ^ 48 + c.a1 * t * 2 ^ 32 + c.a2 * t ^ 2 * 2 ^ 16 + c.a3 * t ^ 3| ≤ 64 * 2 ^ 16 * 2 ^ 48

structure FittedCurve.Within (curve : FittedCurve) : Prop where
  x : curve.x.Within
  y : curve.y.Within

/-- The point is within 64 world units. -/
structure QwPos.Within (p : QwPos) : Prop where
  x : |p.x| ≤ 64 * 2 ^ 14
  y : |p.y| ≤ 64 * 2 ^ 14

/-- Four values bound the coefficients. -/
theorem Cubic.Within.coefficients {c : Cubic} (h : c.Within) :
    |c.a0| ≤ 2 ^ 22 ∧ |c.a1| ≤ 18 * 2 ^ 22 ∧ |c.a2| ≤ 48 * 2 ^ 22 ∧ |c.a3| ≤ 32 * 2 ^ 22 := by
  have h0 := h 0 (by decide) (by decide)
  have h1 := h (2 ^ 14) (by decide) (by decide)
  have h3 := h (3 * 2 ^ 14) (by decide) (by decide)
  have h4 := h (2 ^ 16) (by decide) (by decide)
  rw [abs_le] at h0 h1 h3 h4
  rw [abs_le, abs_le, abs_le, abs_le]
  omega

/-- A product with a parameter is at most the other factor. -/
theorem q1616Product_bounds {a t bound : Int} (ha : |a| ≤ bound) (h0 : 0 ≤ t) (ht : t ≤ 65536) :
    |q1616Product a t| ≤ bound := by
  rw [abs_le] at ha ⊢
  have hle : a * t ≤ bound * 65536 := by nlinarith
  have hge : -(bound * 65536) ≤ a * t := by nlinarith
  rw [q1616Product_eq]
  omega

/-- The product of two parameters is a parameter. -/
theorem q1616Product_unit {s t : Int} (hs0 : 0 ≤ s) (hs : s ≤ 65536) (h0 : 0 ≤ t) (ht : t ≤ 65536) :
    0 ≤ q1616Product s t ∧ q1616Product s t ≤ 65536 := by
  have hle := q1616Product_bounds (abs_le.mpr ⟨by omega, hs⟩ : |s| ≤ 65536) h0 ht
  have hge : 0 ≤ s * t := mul_nonneg hs0 h0
  rw [abs_le] at hle
  refine ⟨?_, hle.2⟩
  rw [q1616Product_eq]
  omega

/-- **The evaluation** does not wrap around. -/
theorem Cubic.Within.eval_eq {c : Cubic} (h : c.Within) {t : Int} (h0 : 0 ≤ t) (ht : t ≤ 65536) :
    c.eval t = c.exactEval t ∧ |c.exactEval t| ≤ 99 * 2 ^ 22 := by
  obtain ⟨ha0, ha1, ha2, ha3⟩ := h.coefficients
  obtain ⟨h20, h2⟩ := q1616Product_unit h0 ht h0 ht
  obtain ⟨h30, h3⟩ := q1616Product_unit h0 ht h20 h2
  have hp1 := q1616Product_bounds ha1 h0 ht
  have hp2 := q1616Product_bounds ha2 h20 h2
  have hp3 := q1616Product_bounds ha3 h30 h3
  rw [abs_le] at ha0 hp1 hp2 hp3
  rw [Cubic.eval]
  rw [q1616Mul_eq_product (a := t) (b := t) (by omega) (by omega),
    q1616Mul_eq_product (a := t) (by omega) (by omega),
    q1616Mul_eq_product (a := c.a1) (by omega) (by omega),
    q1616Mul_eq_product (a := c.a2) (by omega) (by omega),
    q1616Mul_eq_product (a := c.a3) (by omega) (by omega)]
  rw [Cubic.exactEval, abs_le]
  generalize q1616Product c.a1 t = s1 at hp1
  generalize q1616Product c.a2 (q1616Product t t) = s2 at hp2
  generalize q1616Product c.a3 (q1616Product t (q1616Product t t)) = s3 at hp3
  have hadd {a b : Int} (h0 : -2 ^ 31 ≤ a + b) (h : a + b < 2 ^ 31) : q1616Add a b = a + b :=
    Int.bmod_eq_of_le (by push_cast; omega) (by push_cast; omega)
  rw [hadd (a := c.a0) (by omega) (by omega), hadd (b := s2) (by omega) (by omega),
    hadd (b := s3) (by omega) (by omega)]
  exact ⟨rfl, by omega, by omega⟩

/-- **The squared distance** is the exact one, wrapped around. -/
theorem distanceToSegmentSq_eq {p : QwPos} (hp : p.Within) {curve : FittedCurve}
    (hcurve : curve.Within) {t : Int} (h0 : 0 ≤ t) (ht : t ≤ 65536) :
    distanceToSegmentSq (qwToQ1616 p.x) (qwToQ1616 p.y) t curve =
      wrapInt 32 (exactDistSq p curve t) := by
  have hdiff {q : Int} (hq : |q| ≤ 64 * 2 ^ 14) {c : Cubic} (hc : c.Within) :
      q1616Sub (qwToQ1616 q) (c.eval t) = 4 * q - c.exactEval t := by
    obtain ⟨heval, hbound⟩ := hc.eval_eq h0 ht
    rw [abs_le] at hq hbound
    have hpoint : qwToQ1616 q = 4 * q := by
      have hdiv : (q * 2 ^ 16).tdiv (2 ^ 14) = 4 * q := by
        rw [show q * 2 ^ 16 = 4 * q * 2 ^ 14 by ring]
        exact Int.mul_tdiv_cancel _ (by decide)
      rw [qwToQ1616, hdiv]
      exact Int.bmod_eq_of_le (by push_cast; omega) (by push_cast; omega)
    rw [heval, hpoint]
    exact Int.bmod_eq_of_le (by push_cast; omega) (by push_cast; omega)
  rw [distanceToSegmentSq]
  rw [hdiff hp.x hcurve.x, hdiff hp.y hcurve.y, exactDistSq, sq, sq]

/-- The parameters stay between 0 and 1. -/
theorem searchProbes_unit {error : Int → Int} {k : Nat} (hk : k ≤ 16) {t t' : Int} (h0 : 0 ≤ t)
    (ht : t ≤ 65536) (ht' : t' ∈ t :: searchProbes error k t) : 0 ≤ t' ∧ t' ≤ 65536 := by
  induction k generalizing t with
  | zero =>
      rw [searchProbes, List.mem_singleton] at ht'
      exact ht' ▸ ⟨h0, ht⟩
  | succ k ih =>
      have hprobed {s : Int} (hs : s ∈ roundProbes (2 ^ k) t) : 0 ≤ s ∧ s ≤ 65536 := by
        have hstep : (2 : Int) ^ k ≤ 2 ^ 15 := pow_le_pow_right₀ (by decide) (by omega)
        have hpos : (0 : Int) < 2 ^ k := by positivity
        have hadd : q1616Add t (2 ^ k) = t + 2 ^ k :=
          Int.bmod_eq_of_le (by push_cast; omega) (by push_cast; omega)
        have hsub : q1616Sub t (2 ^ k) = t - 2 ^ k :=
          Int.bmod_eq_of_le (by push_cast; omega) (by push_cast; omega)
        rw [mem_roundProbes, hadd, hsub, show makeQ1616 1 = 65536 from rfl] at hs
        omega
      rcases List.mem_cons.mp ht' with rfl | hmem
      · exact ⟨h0, ht⟩
      rcases List.mem_append.mp hmem with hmem | hmem
      · exact hprobed hmem
      · have hnext : 0 ≤ (searchRound error (2 ^ k) t (error t)).1 ∧
            (searchRound error (2 ^ k) t (error t)).1 ≤ 65536 := by
          rcases searchRound_cases error (2 ^ k) t with hstay | ⟨t₁, ht₁, hgo, -⟩
          · rw [hstay]
            exact ⟨h0, ht⟩
          · rw [hgo]
            exact hprobed ht₁
        exact ih (by omega) hnext.1 hnext.2 (List.mem_cons_of_mem _ hmem)

/-! ## The nearest parameter that has been probed -/

/-- The least value of a function on a list that begins with `t`. -/
def leastAt (f : Int → Int) (t : Int) (ts : List Int) : Int :=
  ts.foldl (fun least t' => min least (f t')) (f t)

/-- The least error is attained, and no guess has a smaller one. -/
theorem leastAt_spec (f : Int → Int) (t : Int) (ts : List Int) :
    (∃ t' ∈ t :: ts, leastAt f t ts = f t') ∧ ∀ t' ∈ t :: ts, leastAt f t ts ≤ f t' := by
  induction ts using List.reverseRecOn with
  | nil =>
      refine ⟨⟨t, List.mem_cons_self, rfl⟩, fun t' ht' => ?_⟩
      rw [List.mem_singleton.mp ht']
      exact le_refl _
  | append_singleton ts a ih =>
      obtain ⟨⟨s, hs, heq⟩, hle⟩ := ih
      have hlast : leastAt f t (ts ++ [a]) = min (leastAt f t ts) (f a) := List.foldl_append
      rw [hlast, ← List.cons_append]
      constructor
      · rcases min_choice (leastAt f t ts) (f a) with hmin | hmin
        · exact ⟨s, List.mem_append_left _ hs, hmin.trans heq⟩
        · exact ⟨a, List.mem_append_right _ List.mem_cons_self, hmin⟩
      · intro t' ht'
        rcases List.mem_append.mp ht' with ht' | ht'
        · exact (min_le_left _ _).trans (hle t' ht')
        · rw [List.mem_singleton.mp ht']
          exact min_le_right _ _

variable (p : QwPos) (curve : FittedCurve) (tInitialGuess : Int)

/-- The squared distance at a parameter, as the search computes it. -/
def searchError (t : Int) : Int :=
  distanceToSegmentSq (qwToQ1616 p.x) (qwToQ1616 p.y) t curve

/-- The least exact squared distance at the parameters that the search probes. -/
def nearestDistSq : Int :=
  leastAt (exactDistSq p curve) tInitialGuess
    (searchProbes (searchError p curve) 16 tInitialGuess)

/-- The result is the squared distance at the nearest parameter. -/
structure Searched : Prop where
  nonneg : 0 ≤ binarySearchMinDistSq p curve tInitialGuess
  nearest : binarySearchMinDistSq p curve tInitialGuess = nearestDistSq p curve tInitialGuess
  le_guess : binarySearchMinDistSq p curve tInitialGuess ≤ exactDistSq p curve tInitialGuess

/-- A descent along the exact squared distance meets no value from `2 ^ 31` on, and takes no
upper neighbour when the lower one is nearer. -/
structure Close : Prop where
  fits : ∀ t ∈ tInitialGuess :: searchProbes (exactDistSq p curve) 16 tInitialGuess,
    exactDistSq p curve t < 2 ^ 31
  takesNearest : TakesNearest (exactDistSq p curve) 16 tInitialGuess

variable {p curve tInitialGuess}

/-- A squared distance is not negative. -/
theorem exactDistSq_nonneg (p : QwPos) (curve : FittedCurve) (t : Int) :
    0 ≤ exactDistSq p curve t :=
  add_nonneg (sq_nonneg _) (sq_nonneg _)

/-- The search of the code is sixteen rounds from the initial guess. -/
theorem binarySearch_eq :
    binarySearchMinDistSq p curve tInitialGuess =
      (searchRounds (searchError p curve) 16 tInitialGuess
        (searchError p curve tInitialGuess)).2 := by
  rw [binarySearchMinDistSq]
  unfold searchError
  rfl

/-- Its error fits 31 bits. -/
theorem binarySearch_lt : binarySearchMinDistSq p curve tInitialGuess < 2 ^ 31 := by
  obtain ⟨t, -, heq, -⟩ := searchRounds_spec (searchError p curve) 16 tInitialGuess
  rw [binarySearch_eq, heq]
  exact Int.bmod_lt (by decide)

/-- **A close search** finds the nearest parameter. -/
theorem Close.searched (hcurve : curve.Within) (hp : p.Within) (h0 : 0 ≤ tInitialGuess)
    (ht : tInitialGuess ≤ 2 ^ 16) (h : Close p curve tInitialGuess) :
    Searched p curve tInitialGuess := by
  have hexact : ∀ t ∈ tInitialGuess :: searchProbes (exactDistSq p curve) 16 tInitialGuess,
      searchError p curve t = exactDistSq p curve t := by
    intro t hmem
    obtain ⟨hlow, hhigh⟩ := searchProbes_unit (le_refl 16) h0 ht hmem
    have hfits := h.fits t hmem
    have hnonneg := exactDistSq_nonneg p curve t
    rw [searchError, distanceToSegmentSq_eq hp hcurve hlow hhigh]
    exact Int.bmod_eq_of_le (by push_cast; omega) (by push_cast; omega)
  obtain ⟨hrounds, hprobes⟩ := searchRounds_congr hexact
  obtain ⟨t, hmem, heq, hguess⟩ := searchRounds_spec (exactDistSq p curve) 16 tInitialGuess
  have hresult : binarySearchMinDistSq p curve tInitialGuess = exactDistSq p curve t := by
    rw [binarySearch_eq, hrounds, heq]
  refine ⟨?_, ?_, hresult.trans_le hguess⟩
  · rw [hresult]
    exact exactDistSq_nonneg p curve t
  · rw [nearestDistSq, hprobes, hresult]
    obtain ⟨⟨s, hs, hleast⟩, hle⟩ := leastAt_spec (exactDistSq p curve) tInitialGuess
      (searchProbes (exactDistSq p curve) 16 tInitialGuess)
    refine le_antisymm ?_ (hle t hmem)
    rw [hleast, ← heq]
    exact searchRounds_le h.takesNearest hs

/-- The sum of values that fit. -/
theorem toNat_foldl_add {α : Type} (value : α → Int) (l : List α) (acc : UInt64)
    (hvalue : ∀ a ∈ l, 0 ≤ value a ∧ value a < 2 ^ 31)
    (hfits : acc.toNat + l.length * 2 ^ 31 < 2 ^ 64) :
    ((l.foldl (fun sum a => sum + UInt64.ofInt (value a)) acc).toNat : Int) =
      acc.toNat + (l.map value).sum := by
  induction l generalizing acc with
  | nil => simp
  | cons a l ih =>
      obtain ⟨hnonneg, hlt⟩ := hvalue a List.mem_cons_self
      rw [List.length_cons] at hfits
      have hadd : ((acc + UInt64.ofInt (value a)).toNat : Int) = acc.toNat + value a := by
        obtain ⟨n, hn⟩ := Int.eq_ofNat_of_zero_le hnonneg
        rw [hn] at hlt ⊢
        have hof : (UInt64.ofInt (n : Int)).toNat = n := by
          rw [UInt64.ofInt, UInt64.toNat_ofNat']
          omega
        rw [UInt64.toNat_add, hof]
        omega
      rw [List.foldl_cons, ih _ (fun b hb => hvalue b (List.mem_cons_of_mem _ hb)) (by omega), hadd,
        List.map_cons, List.sum_cons]
      ring

/-- The guess for a point lies between 0 and 1. -/
theorem fitParam_unit {count i : Nat} (hcount : count ≤ 2 ^ 15) (hi : i ∈ innerPoints count) :
    0 ≤ fitParam count i ∧ fitParam count i ≤ 2 ^ 16 := by
  obtain ⟨j, hj, rfl⟩ := List.mem_map.mp hi
  rw [List.mem_range] at hj
  have hmake : wrapInt 32 (((j + 1 : Nat) : Int) * 2 ^ 16) = ((j + 1 : Nat) : Int) * 2 ^ 16 :=
    Int.bmod_eq_of_le (by push_cast; omega) (by push_cast; omega)
  rw [fitParam, makeQ1616Frac, hmake, Int.tdiv_eq_ediv_of_nonneg (by positivity)]
  refine ⟨Int.ediv_nonneg (by positivity) (by omega), ?_⟩
  apply Int.ediv_le_of_le_mul (by omega)
  omega

/-- **The distance of a point from the curve.**  A close search returns the squared distance at
the nearest parameter that it has probed, and then the sum over a trail is the one of these;
a search that stays far away does not. -/
theorem close_distances_exact (curve : FittedCurve) (hcurve : curve.Within) :
    (∀ p tInitialGuess, p.Within → 0 ≤ tInitialGuess → tInitialGuess ≤ 2 ^ 16 →
      (Close p curve tInitialGuess → Searched p curve tInitialGuess) ∧
      ((∀ t ∈ tInitialGuess :: searchProbes (searchError p curve) 16 tInitialGuess,
          2 ^ 31 ≤ exactDistSq p curve t) → ¬ Searched p curve tInitialGuess)) ∧
    ∀ trail : List QwPos, trail.length ≤ 2 ^ 15 →
      (∀ i ∈ innerPoints trail.length, (trail.getD i ⟨0, 0⟩).Within ∧
        Close (trail.getD i ⟨0, 0⟩) curve (fitParam trail.length i)) →
      ((mseError trail curve).toNat : Int) =
        ((innerPoints trail.length).map fun i =>
          nearestDistSq (trail.getD i ⟨0, 0⟩) curve (fitParam trail.length i)).sum := by
  constructor
  · intro p tInitialGuess hp h0 ht
    refine ⟨Close.searched hcurve hp h0 ht, fun hfar hsearched => ?_⟩
    have hlt : binarySearchMinDistSq p curve tInitialGuess < 2 ^ 31 := binarySearch_lt
    obtain ⟨⟨t, hmem, hleast⟩, -⟩ := leastAt_spec (exactDistSq p curve) tInitialGuess
      (searchProbes (searchError p curve) 16 tInitialGuess)
    rw [hsearched.nearest, nearestDistSq, hleast] at hlt
    exact absurd hlt (not_lt.mpr (hfar t hmem))
  · intro trail hlength hclose
    have hsearched : ∀ i ∈ innerPoints trail.length,
        Searched (trail.getD i ⟨0, 0⟩) curve (fitParam trail.length i) := by
      intro i hi
      obtain ⟨h0, ht⟩ := fitParam_unit hlength hi
      exact (hclose i hi).2.searched hcurve (hclose i hi).1 h0 ht
    rw [mseError, toNat_foldl_add _ _ _ fun i hi => ⟨(hsearched i hi).nonneg, binarySearch_lt⟩]
    · rw [UInt64.toNat_zero, Nat.cast_zero, zero_add]
      exact congrArg List.sum (List.map_congr_left fun i hi => (hsearched i hi).nearest)
    · rw [UInt64.toNat_zero, innerPoints, List.length_map, List.length_range]
      omega

/-- From the origin to the right by one world unit. -/
def lineCurve : FittedCurve where
  x := { a0 := 0, a1 := 2 ^ 16, a2 := 0, a3 := 0 }
  y := { a0 := 0, a1 := 0, a2 := 0, a3 := 0 }

/-- The handles of the line are within range. -/
theorem lineCurve_within : lineCurve.Within := by
  constructor
  all_goals
    intro t h0 ht
    simp only [lineCurve]
    rw [abs_le]
    constructor <;> nlinarith

/-- Points close to the line. -/
def lineTrail : List QwPos :=
  [⟨0, 0⟩, ⟨4096, 100⟩, ⟨8192, -200⟩, ⟨12288, 100⟩, ⟨16384, 0⟩]

/-- The points of the trail are close to the line. -/
theorem lineTrail_close :
    ∀ i ∈ innerPoints lineTrail.length, (lineTrail.getD i ⟨0, 0⟩).Within ∧
      Close (lineTrail.getD i ⟨0, 0⟩) lineCurve (fitParam lineTrail.length i) := by
  intro i hi
  have hcases : i = 1 ∨ i = 2 ∨ i = 3 := by
    obtain ⟨j, hj, rfl⟩ := List.mem_map.mp hi
    have hlt : j < 3 := List.mem_range.mp hj
    omega
  rcases hcases with rfl | rfl | rfl
  all_goals exact ⟨⟨by decide, by decide⟩, ⟨by decide +kernel, by decide +kernel⟩⟩

/-- The distances to a line, summed up over its trail, are exact. -/
theorem close_distances_exact_line :
    Searched ⟨4096, 100⟩ lineCurve 0 ∧
      ((mseError lineTrail lineCurve).toNat : Int) =
        ((innerPoints lineTrail.length).map fun i =>
          nearestDistSq (lineTrail.getD i ⟨0, 0⟩) lineCurve (fitParam lineTrail.length i)).sum :=
  have hexact := close_distances_exact lineCurve lineCurve_within
  ⟨(hexact.1 ⟨4096, 100⟩ 0 ⟨by decide, by decide⟩ (by decide) (by decide)).1
      ⟨by decide +kernel, by decide +kernel⟩,
    hexact.2 lineTrail (by decide) lineTrail_close⟩

/-- A curve that stays at the origin. -/
def stillCurve : FittedCurve where
  x := { a0 := 0, a1 := 0, a2 := 0, a3 := 0 }
  y := { a0 := 0, a1 := 0, a2 := 0, a3 := 0 }

/-- A curve that leaves the origin to the right and comes back almost. -/
def bumpCurve : FittedCurve where
  x := { a0 := 0, a1 := 400, a2 := -396, a3 := 0 }
  y := { a0 := 0, a1 := 0, a2 := 0, a3 := 0 }

/-- The handles of the still curve are within range. -/
theorem stillCurve_within : stillCurve.Within := by
  constructor
  all_goals
    intro t h0 ht
    simp only [stillCurve]
    rw [abs_le]
    constructor <;> linarith

/-- The handles of the bump are within range. -/
theorem bumpCurve_within : bumpCurve.Within := by
  constructor
  all_goals
    intro t h0 ht
    simp only [bumpCurve]
    rw [abs_le]
    constructor <;> nlinarith

/-- A point one world unit away from the curve is reported at distance 0, and at the origin the
search goes to the end of the bump although the begin is nearer. -/
theorem not_distances_exact :
    (stillCurve.Within ∧ QwPos.Within ⟨16384, 0⟩ ∧ ¬ Searched ⟨16384, 0⟩ stillCurve 0) ∧
      (bumpCurve.Within ∧ QwPos.Within ⟨0, 0⟩ ∧ ¬ Searched ⟨0, 0⟩ bumpCurve (2 ^ 15)) := by
  refine ⟨⟨stillCurve_within, ⟨by decide, by decide⟩, fun hsearched => ?_⟩,
    ⟨bumpCurve_within, ⟨by decide, by decide⟩, fun hsearched => ?_⟩⟩
  · exact absurd hsearched.nearest (by decide +kernel)
  · exact absurd hsearched.nearest (by decide +kernel)

end Clither
