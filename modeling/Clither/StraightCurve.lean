import Clither.Equidistant

/-!
# The points of a straight snake

With a spacing of zero, the next point of a curve is where the distance is not rounded to
zero any more.  On a straight curve that is as fast as the handles make it, the search goes
31 or 32 steps of the parameter for that.  `length_sampleCurve_east` counts the points of 33
such segments: they are more than a vector has space for.
-/

namespace Clither

/-! ## The search -/

/-- `dist_sq` at a parameter. -/
def distSqAt (curve : Coeff × Coeff) (pos : QwPos) (t : Int) : Int :=
  qwAdd (qwMul (qwSub pos.x (bezierXy curve t).x) (qwSub pos.x (bezierXy curve t).x))
    (qwMul (qwSub pos.y (bezierXy curve t).y) (qwSub pos.y (bezierXy curve t).y))

/-- The parameter behind one step of the search. -/
def searchStep (curve : Coeff × Coeff) (pos : QwPos) (spacingSq lastT : Int) (k : Nat) (t : Int) :
    Int :=
  let t := if distSqAt curve pos t > spacingSq then qwSub t (2 ^ k) else qwAdd t (2 ^ k)
  let t := if t ≥ 2 ^ 14 then lastOnSegment else t
  if t < lastT then lastT else t

theorem searchPoint_zero (curve : Coeff × Coeff) (pos : QwPos) (spacingSq lastT t : Int) :
    searchPoint curve pos spacingSq lastT 0 t =
      (searchStep curve pos spacingSq lastT 0 t, bezierXy curve t, distSqAt curve pos t) :=
  rfl

theorem searchPoint_succ (curve : Coeff × Coeff) (pos : QwPos) (spacingSq lastT : Int) (k : Nat)
    (t : Int) :
    searchPoint curve pos spacingSq lastT (k + 1) t =
      searchPoint curve pos spacingSq lastT k (searchStep curve pos spacingSq lastT (k + 1) t) :=
  rfl

/-- A step goes back from parameters that are too far away. -/
theorem searchStep_spec {curve : Coeff × Coeff} {pos : QwPos} {spacingSq lastT bound : Int}
    (hfar : ∀ t, bound ≤ t → t ≤ lastOnSegment → spacingSq < distSqAt curve pos t)
    (hlast : lastT ≤ lastOnSegment) (hbound : lastT ≤ bound) (k : Nat) {t : Int} (ht : lastT ≤ t)
    (hle : t ≤ lastOnSegment) (hnear : t < bound + 2 ^ (k + 1)) :
    lastT ≤ searchStep curve pos spacingSq lastT k t ∧
      searchStep curve pos spacingSq lastT k t ≤ lastOnSegment ∧
      searchStep curve pos spacingSq lastT k t < bound + 2 ^ k ∧
      searchStep curve pos spacingSq lastT k t ≤ t + 2 ^ k ∧
      t ≤ searchStep curve pos spacingSq lastT k t + 2 ^ k := by
  have hback (h : bound ≤ t) := hfar t h hle
  have hpow : (0 : Int) < 2 ^ k := by positivity
  rw [pow_succ] at hnear
  unfold lastOnSegment at *
  unfold searchStep qwAdd qwSub lastOnSegment
  dsimp only
  split_ifs <;> omega

/-- **How far the search goes.**  If all parameters from `bound` on are too far away, it ends there
at the latest, and next to the parameter that it has looked at last. -/
theorem searchPoint_le {curve : Coeff × Coeff} {pos : QwPos} {spacingSq lastT bound : Int}
    (hfar : ∀ t, bound ≤ t → t ≤ lastOnSegment → spacingSq < distSqAt curve pos t)
    (hlast : lastT ≤ lastOnSegment) (hbound : lastT ≤ bound) (k : Nat) {t : Int} (ht : lastT ≤ t)
    (hle : t ≤ lastOnSegment) (hnear : t < bound + 2 ^ (k + 1)) :
    ∃ found s, searchPoint curve pos spacingSq lastT k t =
        (found, bezierXy curve s, distSqAt curve pos s) ∧
      lastT ≤ found ∧ found ≤ bound ∧ found ≤ lastOnSegment ∧ lastT ≤ s ∧ s ≤ lastOnSegment ∧
      s ≤ found + 1 ∧ found ≤ s + 1 := by
  obtain ⟨hge, hend, hstep, hup, hdown⟩ := searchStep_spec hfar hlast hbound k ht hle hnear
  induction k generalizing t with
  | zero =>
      rw [searchPoint_zero]
      exact ⟨_, t, rfl, hge, by omega, hend, ht, hle, by omega, by omega⟩
  | succ k ih =>
      rw [searchPoint_succ]
      obtain ⟨hge', hend', hstep', hup', hdown'⟩ :=
        searchStep_spec hfar hlast hbound k hge hend hstep
      exact ih hge hend hstep hge' hend' hstep' hup' hdown'

/-! ## A straight curve -/

/-- The curve goes east, three for each step of the parameter. -/
def goesEast (start : Int) (curve : Coeff × Coeff) : Prop :=
  ∀ t, 0 ≤ t → t ≤ lastOnSegment → bezierXy curve t = { x := start + 3 * t, y := 0 }

theorem distSqAt_east {start p t : Int} {curve : Coeff × Coeff} (hcurve : goesEast start curve)
    (h0 : 0 ≤ t) (hle : t ≤ lastOnSegment) :
    distSqAt curve { x := start + 3 * p, y := 0 } t =
      qwMul (3 * (p - t)) (3 * (p - t)) := by
  unfold distSqAt
  rw [hcurve t h0 hle]
  have hzero : qwMul (qwSub 0 0) (qwSub 0 0) = 0 := by decide
  have hdiff : qwSub (start + 3 * p) (start + 3 * t) = 3 * (p - t) := by
    unfold qwSub
    ring
  dsimp only
  rw [hzero, hdiff]
  exact Int.add_zero _

theorem qwMul_far {d : Int} (h : 31 ≤ d) : 0 < qwMul (3 * -d) (3 * -d) := by
  have hsq : 31 * 31 ≤ d * d := by nlinarith
  have hprod : 3 * -d * (3 * -d) = 9 * (d * d) := by ring
  unfold qwMul qwSat24
  rw [hprod, Int.shiftRight_eq_div_pow]
  split_ifs <;> omega

theorem qwMul_of_near {d : Int} (h0 : -33 ≤ d) (h : d ≤ 33) : qwMul (3 * d) (3 * d) ≤ 1 := by
  have hsq : d * d ≤ 33 * 33 := by nlinarith
  have hprod : 3 * d * (3 * d) = 9 * (d * d) := by ring
  unfold qwMul qwSat24
  rw [hprod, Int.shiftRight_eq_div_pow]
  split_ifs <;> omega

theorem qwSqrt_le_of_le_one {q : Int} (h : q ≤ 1) : qwSqrt q ≤ 128 := by
  unfold qwSqrt
  have hroot : (q * 2 ^ 14).toNat.sqrt ≤ 128 := by
    have hmono := Nat.sqrt_le_sqrt (show (q * 2 ^ 14).toNat ≤ 128 * 128 by omega)
    rwa [Nat.sqrt_eq] at hmono
  omega

/-- **One point.**  The search goes at most 31 steps on from the last point. -/
theorem nextPoint_east {start lastT p : Int} {curve : Coeff × Coeff} (hcurve : goesEast start curve)
    (h0 : 0 ≤ lastT) (hlast : lastT < lastOnSegment) (hp : lastT - 32 ≤ p) (hp' : p ≤ lastT + 1) :
    ∃ found s distSq, nextPoint curve { x := start + 3 * p, y := 0 } 0 lastT =
        (found, { x := start + 3 * s, y := 0 }, distSq) ∧
      lastT ≤ found ∧ (found ≤ lastT ∨ found ≤ p + 31) ∧ found ≤ lastOnSegment ∧
      found - 1 ≤ s ∧ s ≤ found + 1 ∧ s ≤ lastOnSegment ∧ qwSqrt distSq ≤ 128 := by
  have hfar (t : Int) (ht : max lastT (p + 31) ≤ t) (hle : t ≤ lastOnSegment) :
      0 < distSqAt curve { x := start + 3 * p, y := 0 } t := by
    rw [distSqAt_east hcurve (by omega) hle, show p - t = -(t - p) by ring]
    exact qwMul_far (by omega)
  obtain ⟨found, s, hfound, hge, hbound, hend, hs, hs', hup, hdown⟩ :=
    searchPoint_le hfar (by omega) (by omega) 13 (le_refl lastT) (by omega) (by omega)
  rw [hcurve s (by omega) hs', distSqAt_east hcurve (by omega) hs'] at hfound
  exact ⟨found, s, _, hfound, hge, by omega, hend, by omega, hup, hs',
    qwSqrt_le_of_le_one (qwMul_of_near (by omega) (by omega))⟩

/-- A container that only counts. -/
def countPoint (n : Nat) (_ : BezierPoint) : Except Fault Nat :=
  .ok (n + 1)

theorem emplaceAll_count (n : Nat) (sampled : List BezierPoint) :
    emplaceAll countPoint n sampled = .ok (n + sampled.length) := by
  induction sampled generalizing n with
  | nil => rfl
  | cons point rest ih =>
      rw [emplaceAll, List.foldlM_cons, countPoint, ok_bind, ← emplaceAll, ih, List.length_cons]
      congr 1
      omega

/-- **One segment** takes 511 points at least, if the snake is long. -/
theorem segmentLoop_east {start : Int} {curve : Coeff × Coeff} {off : QwPos}
    (hcurve : goesEast start curve) {fuel n n' : Nat} {lastT p total : Int}
    {ended : Option (Int × QwPos)} (h0 : 0 ≤ lastT) (hlast : lastT < lastOnSegment)
    (hp : lastT - 32 ≤ p) (hp' : p ≤ lastT + 1) (htotal : total ≤ 128 * n)
    (h : segmentLoop countPoint qwSqrt curve off 0 (2 ^ 23) fuel lastT
      (total, { x := start + 3 * p, y := 0 }) n = some (.ok (ended, n'))) :
    ended = none ∧ 2 ^ 14 < n' ∨ ∃ total' p', ended = some (total', { x := start + 3 * p', y := 0 }) ∧
      2 ^ 14 - 32 ≤ p' ∧ p' < 2 ^ 14 ∧ total' ≤ 128 * n' ∧
      lastOnSegment ≤ lastT + 32 * (n' - n) + 32 := by
  induction fuel generalizing lastT p total n with
  | zero => cases h
  | succ fuel ih =>
      obtain ⟨found, s, distSq, hfound, hge, hnear, hend, hs, hs', hs'', hroot⟩ :=
        nextPoint_east hcurve h0 hlast hp hp'
      have hzero : qwMul 0 0 = 0 := by decide
      rw [segmentLoop, hzero, hfound] at h
      dsimp only [countPoint] at h
      by_cases hstop : found = lastOnSegment
      · rw [if_pos hstop] at h
        cases h
        refine Or.inr ⟨total, p, rfl, ?_, ?_, htotal, ?_⟩ <;> unfold lastOnSegment at * <;> omega
      rw [if_neg hstop] at h
      by_cases hlong : qwAdd total (qwSqrt distSq) ≥ 2 ^ 23
      · rw [if_pos hlong] at h
        cases h
        refine Or.inl ⟨rfl, ?_⟩
        unfold qwAdd at hlong
        omega
      rw [if_neg hlong] at h
      have hsum : qwAdd total (qwSqrt distSq) ≤ 128 * (n + 1 : Nat) := by
        unfold qwAdd
        push_cast
        omega
      rcases ih (by omega) (by omega) (by omega) (by omega) hsum h with hmany | hrest
      · exact Or.inl hmany
      · obtain ⟨total', p', hended, hlow, hhigh, htotal', hcount⟩ := hrest
        refine Or.inr ⟨total', p', hended, hlow, hhigh, htotal', ?_⟩
        push_cast at hcount
        omega

/-! ## A straight snake -/

/-- A handle on a curve that goes east as fast as it can. -/
def eastHandle (x : Int) : BezierHandle where
  pos := { x := x, y := 0 }
  angle := 0
  lenBackwards := 255
  lenForwards := 255

theorem goesEast_handles {num : Numerics} (hcos : num.qaCos 0 = 2 ^ 14) (hsin : num.qaSin 0 = 0)
    (x : Int) :
    goesEast x (calcCoeff num (eastHandle x) (eastHandle (x + 3 * 2 ^ 14)) { x := 0, y := 0 }) := by
  have hscale : qwRescale (2 ^ 14) 255 255 = 2 ^ 14 ∧ qwRescale 0 255 255 = 0 := by decide
  have hcoeff : calcCoeff num (eastHandle x) (eastHandle (x + 3 * 2 ^ 14)) { x := 0, y := 0 } =
      (⟨x, 3 * 2 ^ 14, 0, 0⟩, ⟨0, 0, 0, 0⟩) := by
    simp only [calcCoeff, eastHandle, hcos, hsin, coeffOf, Prod.mk.injEq, Coeff.mk.injEq]
    rw [show ((255 : UInt8).toNat : Int) = 255 from rfl, hscale.1, hscale.2]
    unfold qwAdd qwSub
    omega
  intro t h0 hle
  unfold lastOnSegment at hle
  have hzero (a : Int) : qwMul 0 a = 0 := by
    unfold qwMul
    rw [zero_mul]
    rfl
  have hthree : qwMul (3 * 2 ^ 14) t = 3 * t := by
    unfold qwMul qwSat24
    rw [Int.shiftRight_eq_div_pow]
    split_ifs <;> omega
  rw [hcoeff]
  simp only [bezierXy, Coeff.eval, hzero, hthree, qwAdd, add_zero]

/-- The handles of 33 straight segments, the oldest first. -/
def eastHandles : List BezierHandle :=
  (List.range 34).map fun j : Nat => eastHandle (3 * 2 ^ 14 * (33 - j))

theorem eastHandles_get {j : Nat} (h : j ≤ 33) :
    eastHandles[j]? = some (eastHandle (3 * 2 ^ 14 * (33 - j))) := by
  unfold eastHandles
  rw [List.getElem?_map, List.getElem?_range (by omega)]
  rfl

/-- **The segments that are left**, with 511 points for each. -/
theorem equidistantLoop_east {num : Numerics} (hcos : num.qaCos 0 = 2 ^ 14)
    (hsin : num.qaSin 0 = 0) {m n n' : Nat} (hm : m ≤ 33) {total p : Int} {stale : Nat}
    (hp : -32 ≤ p) (hp' : p ≤ 1) (htotal : total ≤ 128 * n) (hn : 1 + 511 * (33 - m) ≤ n)
    (h : equidistantLoop countPoint qwSqrt num eastHandles { x := 0, y := 0 } 0 (2 ^ 23) m
      (total, { x := 3 * 2 ^ 14 * (33 - m) + 3 * p, y := 0 }) n = some (.ok (stale, n'))) :
    2 ^ 14 < n' := by
  induction m generalizing total p n with
  | zero =>
      cases h
      omega
  | succ i ih =>
      have hcurve := goesEast_handles hcos hsin (3 * 2 ^ 14 * (33 - (i + 1 : Nat)))
      have htail : 3 * 2 ^ 14 * (33 - ((i + 1 : Nat) : Int)) + 3 * 2 ^ 14 = 3 * 2 ^ 14 * (33 - i) := by
        push_cast
        ring
      rw [htail] at hcurve
      rw [equidistantLoop, eastHandles_get (by omega), eastHandles_get (by omega)] at h
      simp only [segmentWalk] at h
      cases hwalk : segmentLoop countPoint qwSqrt
          (calcCoeff num (eastHandle (3 * 2 ^ 14 * (33 - (i + 1 : Nat))))
            (eastHandle (3 * 2 ^ 14 * (33 - i))) { x := 0, y := 0 }) { x := 0, y := 0 } 0 (2 ^ 23)
          (2 ^ 14 + ((2 ^ 23 : Int) - total).toNat) 0
          (total, { x := 3 * 2 ^ 14 * (33 - (i + 1 : Nat)) + 3 * p, y := 0 }) n with
      | none =>
          rw [hwalk] at h
          cases h
      | some result =>
          rw [hwalk] at h
          cases result with
          | error f => cases h
          | ok result =>
              obtain ⟨ended, counted⟩ := result
              have hlast : (0 : Int) < lastOnSegment := by decide
              rcases segmentLoop_east hcurve (le_refl 0) hlast hp hp' htotal hwalk with
                ⟨rfl, hmany⟩ | ⟨total', p₁, rfl, hlow, hhigh, htotal', hcount⟩
              · cases h
                exact hmany
              · have hpos : 3 * 2 ^ 14 * (33 - ((i + 1 : Nat) : Int)) + 3 * p₁ =
                    3 * 2 ^ 14 * (33 - i) + 3 * (p₁ - 2 ^ 14) := by
                  push_cast
                  ring
                rw [hpos] at h
                unfold lastOnSegment at hcount
                exact ih (by omega) (by omega) (by omega) htotal' (by omega) h

/-- **A straight snake has more points** than the vector has space for. -/
theorem length_sampleCurve_east {num : Numerics} (hcos : num.qaCos 0 = 2 ^ 14)
    (hsin : num.qaSin 0 = 0) : 2 ^ 14 < (sampleCurve qwSqrt num eastHandles 0 (2 ^ 23)).length := by
  obtain ⟨sampled, stale, -, -, hspec⟩ := equidistantPoints_spec qwSqrt_nonneg one_le_qwSqrt num
    (show 2 ≤ eastHandles.length by decide) 0 (2 ^ 23)
  have hsampled : sampleCurve qwSqrt num eastHandles 0 (2 ^ 23) = sampled := by
    rw [sampleCurve, hspec, emplaceAll_list]
    rfl
  have hcounted := hspec countPoint 0
  rw [emplaceAll_count, equidistantPoints] at hcounted
  rw [hsampled]
  have hmany := @equidistantLoop_east num hcos hsin 33 1 (0 + sampled.length) (le_refl 33) 0 0 stale
    (by decide) (by decide) (by decide) (by decide) hcounted
  omega

end Clither
