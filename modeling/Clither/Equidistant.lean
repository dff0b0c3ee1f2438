import Clither.Snake

/-!
# Superfluous segments

`snake_step` asks `bezier_calc_equidistant_points` how many segments are behind
the end of the snake.  The function samples the curve from the head backwards,
one point for each `spacing`, until the length of the snake has been reached.  On
each segment a binary search looks for the next point.

The points go into a vector, and the function writes to what `emplace` returns without
looking at it.  Its loops are therefore over any container that the points go into.
`Samples` says which points a curve has, without a container, and `equidistantPoints_spec`
that every curve has such a list, that the function goes through it with one `emplace` for
each point, and that it never counts the newest segment.  Of the square root this needs no
more than that it is not negative, and not zero for a positive number.
`bezierCalcEquidistantPoints` is the function with the vector.
-/

namespace Clither

/-- `qw_sqrt`.  A double is precise enough for the root of a `qw` to be truncated
to the integer below it. -/
def qwSqrt (q : Int) : Int :=
  (q * 2 ^ 14).toNat.sqrt

/-- The quotient before it is converted.  Mid values are rounded up, or down when the signs are
different. -/
def qwQuotient (a b : Int) : Int :=
  let temp := a * 2 ^ 14
  let temp :=
    if (temp ≥ 0 ∧ b ≥ 0) ∨ (temp < 0 ∧ b < 0) then temp + b.tdiv 2 else temp - b.tdiv 2
  temp.tdiv b

def qwDiv (a b : Int) : Int :=
  wrapInt 32 (qwQuotient a b)

/-- The coefficients of a cubic polynomial. -/
structure Coeff where
  a0 : Int
  a1 : Int
  a2 : Int
  a3 : Int
  deriving DecidableEq, Repr

/-- The coefficients for the four control points, in one dimension. -/
def coeffOf (p0 p1 p2 p3 : Int) : Coeff where
  a0 := p0
  a1 := qwSub (3 * p1) (3 * p0)
  a2 := qwSub (qwAdd (3 * p0) (3 * p2)) (6 * p1)
  a3 := qwSub (qwSub (qwAdd (3 * p1) p3) (3 * p2)) p0

/-- `calc_coeff`. -/
def calcCoeff (num : Numerics) (head tail : BezierHandle) (off : QwPos) : Coeff × Coeff :=
  let p0x := qwSub head.pos.x off.x
  let p0y := qwSub head.pos.y off.y
  let p3x := qwSub tail.pos.x off.x
  let p3y := qwSub tail.pos.y off.y
  let p1x := qwAdd p0x (qwRescale (num.qaCos head.angle) head.lenBackwards.toNat 255)
  let p1y := qwAdd p0y (qwRescale (num.qaSin head.angle) head.lenBackwards.toNat 255)
  let p2x := qwSub p3x (qwRescale (num.qaCos tail.angle) tail.lenForwards.toNat 255)
  let p2y := qwSub p3y (qwRescale (num.qaSin tail.angle) tail.lenForwards.toNat 255)
  (coeffOf p0x p1x p2x p3x, coeffOf p0y p1y p2y p3y)

def Coeff.eval (c : Coeff) (t : Int) : Int :=
  let t2 := qwMul t t
  let t3 := qwMul t t2
  qwAdd (qwAdd (qwAdd c.a0 (qwMul c.a1 t)) (qwMul c.a2 t2)) (qwMul c.a3 t3)

/-- `bezier_xy`. -/
def bezierXy (curve : Coeff × Coeff) (t : Int) : QwPos where
  x := curve.1.eval t
  y := curve.2.eval t

/-! ## One point -/

/-- `make_qw(1) - 1`, where a segment ends. -/
def lastOnSegment : Int := 2 ^ 14 - 1

/-- The innermost loop of `bezier_calc_equidistant_points`, with the step `2 ^ k`:
the parameter it ends with, and the point and the squared distance it looked at
last. -/
def searchPoint (curve : Coeff × Coeff) (pos : QwPos) (spacingSq lastT : Int) :
    Nat → Int → Int × QwPos × Int
  | k, t =>
      let next := bezierXy curve t
      let dx := qwSub pos.x next.x
      let dy := qwSub pos.y next.y
      let distSq := qwAdd (qwMul dx dx) (qwMul dy dy)
      let t := if distSq > spacingSq then qwSub t (2 ^ k) else qwAdd t (2 ^ k)
      let t := if t ≥ 2 ^ 14 then lastOnSegment else t
      let t := if t < lastT then lastT else t
      match k with
      | 0 => (t, next, distSq)
      | k + 1 => searchPoint curve pos spacingSq lastT k t

/-- The search does not go back, and when it does not go on either the point is
far from the previous one. -/
theorem searchPoint_spec (curve : Coeff × Coeff) (pos : QwPos) (spacingSq : Int) {lastT : Int}
    (hlast : lastT ≤ lastOnSegment) (k : Nat) {t : Int} (ht : lastT ≤ t) :
    lastT ≤ (searchPoint curve pos spacingSq lastT k t).1 ∧
      (searchPoint curve pos spacingSq lastT k t).1 ≤ lastOnSegment ∧
      ((searchPoint curve pos spacingSq lastT k t).1 = lastT → lastT ≠ lastOnSegment →
        spacingSq < (searchPoint curve pos spacingSq lastT k t).2.2) := by
  induction k generalizing t with
  | zero =>
      unfold searchPoint
      simp only [lastOnSegment, qwAdd, qwSub] at hlast ⊢
      refine ⟨?_, ?_, ?_⟩ <;> omega
  | succ k ih =>
      rw [searchPoint]
      refine ih ?_
      split <;> omega

/-- The search behind `lastT`, which begins with `make_qw2(1, 2)`. -/
def nextPoint (curve : Coeff × Coeff) (pos : QwPos) (spacingSq lastT : Int) : Int × QwPos × Int :=
  searchPoint curve pos spacingSq lastT 13 lastT

theorem nextPoint_spec (curve : Coeff × Coeff) (pos : QwPos) (spacingSq : Int) {lastT t distSq : Int}
    {next : QwPos} (hlast : lastT ≤ lastOnSegment)
    (h : nextPoint curve pos spacingSq lastT = (t, next, distSq)) :
    lastT ≤ t ∧ t ≤ lastOnSegment ∧ (t = lastT → lastT ≠ lastOnSegment → spacingSq < distSq) := by
  have hspec := searchPoint_spec curve pos spacingSq hlast 13 (le_refl lastT)
  unfold nextPoint at h
  rwa [h] at hspec

theorem qwMul_self_nonneg (a : Int) : 0 ≤ qwMul a a := by
  have hsq : 0 ≤ (a * a + 2 ^ 13) >>> (14 : Nat) := by
    have := mul_self_nonneg a
    rw [Int.shiftRight_eq_div_pow]
    omega
  unfold qwMul qwSat24
  split
  · decide
  · split <;> omega

theorem one_le_qwSqrt (q : Int) (hq : 0 < q) : 1 ≤ qwSqrt q := by
  unfold qwSqrt
  have : 0 < (q * 2 ^ 14).toNat.sqrt := Nat.sqrt_pos.mpr (by omega)
  omega

theorem qwSqrt_nonneg (q : Int) : 0 ≤ qwSqrt q :=
  Int.natCast_nonneg _

/-! ## Points on the curve -/

/-- `struct bezier_point`. -/
structure BezierPoint where
  pos : QwPos
  dir : QwPos
  deriving DecidableEq, Repr

/-- `qwpos_normalize`. -/
def qwposNormalize (sqrt : Int → Int) (p : QwPos) : QwPos :=
  let len := sqrt (qwAdd (qwMul p.x p.x) (qwMul p.y p.y))
  if len = 0 then { x := 0, y := 0 }
  else { x := qwDiv p.x len, y := qwDiv p.y len }

/-- The derivative, in one dimension. -/
def Coeff.slope (c : Coeff) (t : Int) : Int :=
  let t2 := qwMul t t
  qwAdd (qwAdd c.a1 (qwMul (2 * 2 ^ 14) (qwMul c.a2 t))) (qwMul (3 * 2 ^ 14) (qwMul c.a3 t2))

/-- The point at the newest handle. -/
def firstPoint (num : Numerics) (newest : BezierHandle) : BezierPoint where
  pos := { x := qwAdd 0 newest.pos.x, y := qwAdd 0 newest.pos.y }
  dir := { x := -num.qaCos newest.angle, y := -num.qaSin newest.angle }

/-- The point that the search has found, moved back to where the curve is. -/
def pointOn (sqrt : Int → Int) (curve : Coeff × Coeff) (off : QwPos) (t : Int) (next : QwPos) :
    BezierPoint where
  pos := { x := qwAdd next.x off.x, y := qwAdd next.y off.y }
  dir := qwposNormalize sqrt { x := -curve.1.slope t, y := -curve.2.slope t }

/-! ## The loops -/

section

variable {ρ : Type} (emplace : ρ → BezierPoint → Except Fault ρ) (sqrt : Int → Int)
  (num : Numerics)

/-- The loop over the points of one segment, with fuel.  The points come with nothing when the
length of the snake has been reached, and else with the spacing so far and the position to go
on with. -/
def segmentLoop (curve : Coeff × Coeff) (off : QwPos) (spacing snakeLength : Int) :
    Nat → Int → Int × QwPos → ρ → Option (Except Fault (Option (Int × QwPos) × ρ))
  | 0, _, _, _ => none
  | fuel + 1, lastT, (totalSpacing, pos), points =>
      let (t, next, distSq) := nextPoint curve pos (qwMul spacing spacing) lastT
      if t = lastOnSegment then some (.ok (some (totalSpacing, pos), points))
      else
        match emplace points (pointOn sqrt curve off t next) with
        | .error fault => some (.error fault)
        | .ok points =>
            let totalSpacing := qwAdd totalSpacing (sqrt distSq)
            if totalSpacing ≥ snakeLength then some (.ok (none, points))
            else segmentLoop curve off spacing snakeLength fuel t (totalSpacing, next) points

/-- One turn of the loop over the segments. -/
def segmentWalk (head tail : BezierHandle) (off : QwPos) (spacing snakeLength : Int)
    (reached : Int × QwPos) (points : ρ) : Option (Except Fault (Option (Int × QwPos) × ρ)) :=
  segmentLoop emplace sqrt (calcCoeff num head tail off) off spacing snakeLength
    (2 ^ 14 + (snakeLength - reached.1).toNat) 0 reached points

/-- The loop over the segments, from the one before `handles[i]` down to the
oldest. -/
def equidistantLoop (handles : List BezierHandle) (off : QwPos) (spacing snakeLength : Int) :
    Nat → Int × QwPos → ρ → Option (Except Fault (Nat × ρ))
  | 0, _, points => some (.ok (0, points))
  | i + 1, reached, points =>
      match handles[i + 1]?, handles[i]? with
      | some head, some tail =>
          match segmentWalk emplace sqrt num head tail off spacing snakeLength reached points with
          | none => none
          | some (.error fault) => some (.error fault)
          | some (.ok (none, points)) => some (.ok (i, points))
          | some (.ok (some reached, points)) =>
              equidistantLoop handles off spacing snakeLength i reached points
      | _, _ => some (.error .empty)

/-- The body of `bezier_calc_equidistant_points`, for the container that `points` is. -/
def equidistantPoints (handles : List BezierHandle) (spacing snakeLength : Int) (points : ρ) :
    Option (Except Fault (Nat × ρ)) :=
  match handles.getLast? with
  | none => some (.error .empty)
  | some newest =>
      match emplace points (firstPoint num newest) with
      | .error fault => some (.error fault)
      | .ok points =>
          equidistantLoop emplace sqrt num handles newest.pos spacing snakeLength
            (handles.length - 1) (0, { x := 0, y := 0 }) points

end

/-! ## The points of a curve -/

section

variable (sqrt : Int → Int) (spacing snakeLength : Int)

/-- The points that a segment is sampled at behind `lastT`, whatever they are put into: the search
finds one after the other, until it comes to the end of the segment or the length of the snake
has been reached.  In `reached` are the length so far and the last position, and the next segment
goes on with them if there is one to go on with. -/
inductive SegmentSamples (curve : Coeff × Coeff) (off : QwPos) :
    Int → Int × QwPos → List BezierPoint → Option (Int × QwPos) → Prop
  | atEnd {lastT t distSq : Int} {next : QwPos} {reached : Int × QwPos}
      (hsearch : nextPoint curve reached.2 (qwMul spacing spacing) lastT = (t, next, distSq))
      (hend : t = lastOnSegment) : SegmentSamples curve off lastT reached [] (some reached)
  | long {lastT t distSq : Int} {next : QwPos} {reached : Int × QwPos}
      (hsearch : nextPoint curve reached.2 (qwMul spacing spacing) lastT = (t, next, distSq))
      (hinside : t ≠ lastOnSegment) (hlong : qwAdd reached.1 (sqrt distSq) ≥ snakeLength) :
      SegmentSamples curve off lastT reached [pointOn sqrt curve off t next] none
  | further {lastT t distSq : Int} {next : QwPos} {reached : Int × QwPos}
      {later : List BezierPoint} {ended : Option (Int × QwPos)}
      (hsearch : nextPoint curve reached.2 (qwMul spacing spacing) lastT = (t, next, distSq))
      (hinside : t ≠ lastOnSegment) (hshort : ¬ qwAdd reached.1 (sqrt distSq) ≥ snakeLength)
      (hlater : SegmentSamples curve off t (qwAdd reached.1 (sqrt distSq), next) later ended) :
      SegmentSamples curve off lastT reached (pointOn sqrt curve off t next :: later) ended

variable (num : Numerics)

/-- The points of the segments from the one before `handles[i]` down to the oldest. -/
inductive SegmentsSamples (handles : List BezierHandle) (off : QwPos) :
    Nat → Int × QwPos → List BezierPoint → Prop
  | oldest {reached : Int × QwPos} : SegmentsSamples handles off 0 reached []
  | long {i : Nat} {head tail : BezierHandle} {reached : Int × QwPos} {sampled : List BezierPoint}
      (hhead : handles[i + 1]? = some head) (htail : handles[i]? = some tail)
      (hsegment : SegmentSamples sqrt spacing snakeLength (calcCoeff num head tail off) off 0 reached
        sampled none) :
      SegmentsSamples handles off (i + 1) reached sampled
  | older {i : Nat} {head tail : BezierHandle} {reached reached' : Int × QwPos}
      {sampled later : List BezierPoint}
      (hhead : handles[i + 1]? = some head) (htail : handles[i]? = some tail)
      (hsegment : SegmentSamples sqrt spacing snakeLength (calcCoeff num head tail off) off 0 reached
        sampled (some reached'))
      (holder : SegmentsSamples handles off i reached' later) :
      SegmentsSamples handles off (i + 1) reached (sampled ++ later)

/-- The points that a curve is sampled at: the one at the newest handle and those of its
segments, from the newest to the oldest. -/
inductive Samples (handles : List BezierHandle) : List BezierPoint → Prop
  | intro {newest : BezierHandle} {sampled : List BezierPoint}
      (hnewest : handles.getLast? = some newest)
      (hsegments : SegmentsSamples sqrt spacing snakeLength num handles newest.pos
        (handles.length - 1) (0, { x := 0, y := 0 }) sampled) :
      Samples handles (firstPoint num newest :: sampled)

end

section

variable {sqrt : Int → Int} {spacing snakeLength : Int} {num : Numerics}

/-- A segment has one list of points, by induction on the first of the two. -/
theorem SegmentSamples.unique {curve : Coeff × Coeff} {off : QwPos} {lastT : Int}
    {reached : Int × QwPos} {sampled sampled' : List BezierPoint} {ended ended' : Option (Int × QwPos)}
    (h : SegmentSamples sqrt spacing snakeLength curve off lastT reached sampled ended)
    (h' : SegmentSamples sqrt spacing snakeLength curve off lastT reached sampled' ended') :
    sampled = sampled' ∧ ended = ended' := by
  induction h generalizing sampled' ended' with
  | atEnd hsearch hend =>
      cases h' with
      | atEnd => exact ⟨rfl, rfl⟩
      | long hsearch' hinside | further hsearch' hinside =>
          rw [hsearch] at hsearch'
          cases hsearch'
          exact absurd hend hinside
  | long hsearch hinside hlong =>
      cases h' with
      | atEnd hsearch' hend =>
          rw [hsearch] at hsearch'
          cases hsearch'
          exact absurd hend hinside
      | long hsearch' =>
          rw [hsearch] at hsearch'
          cases hsearch'
          exact ⟨rfl, rfl⟩
      | further hsearch' _ hshort =>
          rw [hsearch] at hsearch'
          cases hsearch'
          exact absurd hlong hshort
  | further hsearch hinside hshort _ ih =>
      cases h' with
      | atEnd hsearch' hend =>
          rw [hsearch] at hsearch'
          cases hsearch'
          exact absurd hend hinside
      | long hsearch' _ hlong =>
          rw [hsearch] at hsearch'
          cases hsearch'
          exact absurd hlong hshort
      | further hsearch' _ _ hlater =>
          rw [hsearch] at hsearch'
          cases hsearch'
          obtain ⟨rfl, rfl⟩ := ih hlater
          exact ⟨rfl, rfl⟩

/-- So have the segments, -/
theorem SegmentsSamples.unique {handles : List BezierHandle} {off : QwPos} {i : Nat}
    {reached : Int × QwPos} {sampled sampled' : List BezierPoint}
    (h : SegmentsSamples sqrt spacing snakeLength num handles off i reached sampled)
    (h' : SegmentsSamples sqrt spacing snakeLength num handles off i reached sampled') :
    sampled = sampled' := by
  induction h generalizing sampled' with
  | oldest =>
      cases h'
      rfl
  | long hhead htail hsegment =>
      cases h' with
      | long hhead' htail' hsegment' =>
          cases hhead.symm.trans hhead'
          cases htail.symm.trans htail'
          exact (hsegment.unique hsegment').1
      | older hhead' htail' hsegment' =>
          cases hhead.symm.trans hhead'
          cases htail.symm.trans htail'
          cases (hsegment.unique hsegment').2
  | older hhead htail hsegment _ ih =>
      cases h' with
      | long hhead' htail' hsegment' =>
          cases hhead.symm.trans hhead'
          cases htail.symm.trans htail'
          cases (hsegment.unique hsegment').2
      | older hhead' htail' hsegment' holder' =>
          cases hhead.symm.trans hhead'
          cases htail.symm.trans htail'
          obtain ⟨rfl, hended⟩ := hsegment.unique hsegment'
          cases hended
          rw [ih holder']

/-- and the curve. -/
theorem Samples.unique {handles : List BezierHandle} {sampled sampled' : List BezierPoint}
    (h : Samples sqrt spacing snakeLength num handles sampled)
    (h' : Samples sqrt spacing snakeLength num handles sampled') : sampled = sampled' := by
  cases h with
  | intro hnewest hsegments =>
      cases h' with
      | intro hnewest' hsegments' =>
          cases hnewest.symm.trans hnewest'
          rw [hsegments.unique hsegments']

end

/-- The points go into the container one after the other. -/
def emplaceAll {ρ : Type} (emplace : ρ → BezierPoint → Except Fault ρ) (points : ρ)
    (sampled : List BezierPoint) : Except Fault ρ :=
  sampled.foldlM emplace points

section

variable {sqrt : Int → Int}

/-- **The points of a segment.**  Each point is further on the segment or it adds to the length, so
that there is a last one.  The container has no influence on them. -/
theorem segmentLoop_spec (hnonneg : ∀ q, 0 ≤ sqrt q) (hpos : ∀ q, 0 < q → 1 ≤ sqrt q)
    (curve : Coeff × Coeff) (off : QwPos) (spacing snakeLength : Int) {fuel : Nat} {lastT : Int}
    (hlast : lastT ≤ lastOnSegment) (reached : Int × QwPos)
    (hfuel : (lastOnSegment - lastT).toNat + (snakeLength - reached.1).toNat < fuel) :
    ∃ (sampled : List BezierPoint) (ended : Option (Int × QwPos)),
      SegmentSamples sqrt spacing snakeLength curve off lastT reached sampled ended ∧ ∀ {ρ : Type}
        (emplace : ρ → BezierPoint → Except Fault ρ) (points : ρ),
          segmentLoop emplace sqrt curve off spacing snakeLength fuel lastT reached points =
            some (emplaceAll emplace points sampled >>= fun points => .ok (ended, points)) := by
  induction fuel generalizing lastT reached with
  | zero => exact absurd hfuel (Nat.not_lt_zero _)
  | succ fuel ih =>
      obtain ⟨totalSpacing, pos⟩ := reached
      cases hsearch : nextPoint curve pos (qwMul spacing spacing) lastT with
      | mk t found =>
      obtain ⟨next, distSq⟩ := found
      obtain ⟨hge, hle, hstuck⟩ := nextPoint_spec curve pos _ hlast hsearch
      dsimp only at hfuel
      by_cases hend : t = lastOnSegment
      · refine ⟨[], some (totalSpacing, pos), .atEnd hsearch hend, ?_⟩
        intro ρ emplace points
        rw [segmentLoop, hsearch]
        dsimp only
        rw [if_pos hend]
        rfl
      by_cases hlong : qwAdd totalSpacing (sqrt distSq) ≥ snakeLength
      · refine ⟨[pointOn sqrt curve off t next], none, .long hsearch hend hlong, ?_⟩
        intro ρ emplace points
        rw [segmentLoop, hsearch]
        dsimp only
        rw [if_neg hend]
        simp only [if_pos hlong, emplaceAll, List.foldlM_cons, List.foldlM_nil]
        cases emplace points (pointOn sqrt curve off t next) <;> rfl
      · obtain ⟨sampled, ended, hlater, hrest⟩ := @ih t hle (qwAdd totalSpacing (sqrt distSq), next) (by
          have hroot := hnonneg distSq
          unfold qwAdd at hlong ⊢
          dsimp only
          by_cases hsame : t = lastT
          · have hfar := hstuck hsame (by omega)
            have := hpos distSq (lt_of_le_of_lt (qwMul_self_nonneg spacing) hfar)
            omega
          · omega)
        refine ⟨pointOn sqrt curve off t next :: sampled, ended,
          .further hsearch hend hlong hlater, ?_⟩
        intro ρ emplace points
        rw [segmentLoop, hsearch]
        dsimp only
        rw [if_neg hend]
        simp only [if_neg hlong, hrest, emplaceAll, List.foldlM_cons]
        cases emplace points (pointOn sqrt curve off t next) <;> rfl

/-- The fuel of a walk is enough. -/
theorem segmentWalk_spec (hnonneg : ∀ q, 0 ≤ sqrt q) (hpos : ∀ q, 0 < q → 1 ≤ sqrt q)
    (num : Numerics) (head tail : BezierHandle) (off : QwPos) (spacing snakeLength : Int)
    (reached : Int × QwPos) :
    ∃ (sampled : List BezierPoint) (ended : Option (Int × QwPos)),
      SegmentSamples sqrt spacing snakeLength (calcCoeff num head tail off) off 0 reached sampled
        ended ∧ ∀ {ρ : Type} (emplace : ρ → BezierPoint → Except Fault ρ) (points : ρ),
          segmentWalk emplace sqrt num head tail off spacing snakeLength reached points =
            some (emplaceAll emplace points sampled >>= fun points => .ok (ended, points)) := by
  refine segmentLoop_spec hnonneg hpos _ off spacing snakeLength ?_ reached ?_ <;>
    unfold lastOnSegment <;> omega

/-- **All segments.**  The function goes through a list of points, whatever they are put
into, and the newest segment is never superfluous. -/
theorem equidistantPoints_spec (hnonneg : ∀ q, 0 ≤ sqrt q) (hpos : ∀ q, 0 < q → 1 ≤ sqrt q)
    (num : Numerics) {handles : List BezierHandle} (htwo : 2 ≤ handles.length) (spacing snakeLength : Int) :
    ∃ (sampled : List BezierPoint) (stale : Nat), stale < handles.length - 1 ∧
      Samples sqrt spacing snakeLength num handles sampled ∧ ∀ {ρ : Type}
        (emplace : ρ → BezierPoint → Except Fault ρ) (points : ρ),
          equidistantPoints emplace sqrt num handles spacing snakeLength points =
            some (emplaceAll emplace points sampled >>= fun points => .ok (stale, points)) := by
  have hloop (off : QwPos) (n : Nat) (hn : n < handles.length) (reached : Int × QwPos) :
      ∃ (sampled : List BezierPoint) (stale : Nat), stale ≤ n - 1 ∧
        SegmentsSamples sqrt spacing snakeLength num handles off n reached sampled ∧ ∀ {ρ : Type}
          (emplace : ρ → BezierPoint → Except Fault ρ) (points : ρ),
            equidistantLoop emplace sqrt num handles off spacing snakeLength n reached points =
              some (emplaceAll emplace points sampled >>= fun points => .ok (stale, points)) := by
    induction n generalizing reached with
    | zero => exact ⟨[], 0, Nat.le_refl 0, .oldest, fun _ _ => rfl⟩
    | succ i ih =>
        obtain ⟨first, ended, hsegment, hfirst⟩ := segmentWalk_spec hnonneg hpos num handles[i + 1]
          handles[i] off spacing snakeLength reached
        have hgets : handles[i + 1]? = some handles[i + 1] ∧ handles[i]? = some handles[i] :=
          ⟨List.getElem?_eq_getElem hn, List.getElem?_eq_getElem (Nat.lt_of_succ_lt hn)⟩
        cases ended with
        | none =>
            refine ⟨first, i, Nat.le_refl i, .long hgets.1 hgets.2 hsegment, ?_⟩
            intro ρ emplace points
            rw [equidistantLoop, hgets.1, hgets.2]
            simp only [hfirst]
            cases emplaceAll emplace points first <;> rfl
        | some reached' =>
            obtain ⟨later, stale, hle, holder, hlater⟩ := ih (Nat.lt_of_succ_lt hn) reached'
            refine ⟨first ++ later, stale, Nat.le_trans hle (Nat.sub_le i 1),
              .older hgets.1 hgets.2 hsegment holder, ?_⟩
            intro ρ emplace points
            rw [equidistantLoop, hgets.1, hgets.2]
            simp only [hfirst, emplaceAll, List.foldlM_append]
            cases hall : first.foldlM emplace points with
            | error fault => rfl
            | ok points =>
                simp only [ok_bind]
                exact hlater emplace points
  obtain ⟨newest, hnewest⟩ : ∃ newest, handles.getLast? = some newest := by
    cases hlast : handles.getLast? with
    | none =>
        rw [List.getLast?_eq_none_iff.mp hlast] at htwo
        cases htwo
    | some newest => exact ⟨newest, rfl⟩
  obtain ⟨sampled, stale, hle, hsegments, hrest⟩ := hloop newest.pos (handles.length - 1) (by omega)
    (0, { x := 0, y := 0 })
  refine ⟨firstPoint num newest :: sampled, stale, by omega, .intro hnewest hsegments, ?_⟩
  intro ρ emplace points
  rw [equidistantPoints, hnewest]
  simp only [hrest, emplaceAll, List.foldlM_cons]
  cases emplace points (firstPoint num newest) <;> rfl

end

/-! ## The vector -/

/-- `bezier_point_vec`. -/
def bezierPointVec : VecInstance where
  header := 4
  sizeofElem := 16
  header_lt := ElemType.vecHeader_lt .bezierPoint
  sizeofElem_pos := ElemType.size_pos .bezierPoint

/-- `bezier_point_vec_emplace`, and the point is written to the pointer that it returns. -/
def emplacePoint (mem : Alloc) (points : Vec bezierPointVec BezierPoint) (point : BezierPoint) :
    Except Fault (Vec bezierPointVec BezierPoint) :=
  if vecHasSpace mem points then .ok (vecPush mem points point) else .error .nullSegment

/-- `bezier_calc_equidistant_points`: the index that it returns and the points that it leaves. -/
def bezierCalcEquidistantPoints (mem : Alloc) (sqrt : Int → Int) (num : Numerics)
    (points : Vec bezierPointVec BezierPoint) (handles : List BezierHandle)
    (spacing snakeLength : Int) : Option (Except Fault (Nat × Vec bezierPointVec BezierPoint)) :=
  equidistantPoints (emplacePoint mem) sqrt num handles spacing snakeLength points.clear

/-- The points that the curve is sampled at, as they come out in a list that has space for all of
them. -/
def sampleCurve (sqrt : Int → Int) (num : Numerics) (handles : List BezierHandle)
    (spacing snakeLength : Int) : List BezierPoint :=
  match equidistantPoints (fun points point => .ok (points ++ [point])) sqrt num handles spacing
      snakeLength [] with
  | some (.ok (_, sampled)) => sampled
  | _ => []

/-- The index that the function returns if there is space for its points. -/
def staleIndex (sqrt : Int → Int) (num : Numerics) (handles : List BezierHandle)
    (spacing snakeLength : Int) : Option Nat :=
  match equidistantPoints (fun _ _ => .ok ()) sqrt num handles spacing snakeLength () with
  | some (.ok (stale, _)) => some stale
  | _ => none

theorem emplaceAll_list (points sampled : List BezierPoint) :
    emplaceAll (fun points point => .ok (points ++ [point])) points sampled =
      .ok (points ++ sampled) := by
  induction sampled generalizing points with
  | nil => exact congrArg Except.ok (List.append_nil points).symm
  | cons point rest ih =>
      rw [emplaceAll, List.foldlM_cons, ok_bind, ← emplaceAll, ih, List.append_assoc,
        List.singleton_append]

theorem emplaceAll_unit (sampled : List BezierPoint) :
    emplaceAll (fun _ _ => .ok ()) () sampled = .ok () := by
  induction sampled with
  | nil => rfl
  | cons point rest ih => rw [emplaceAll, List.foldlM_cons, ok_bind, ← emplaceAll, ih]

/-- The vector takes all of the points, or the one behind the last that it takes is written to
`NULL`. -/
theorem emplaceAll_points (mem : Alloc) (points : Vec bezierPointVec BezierPoint)
    (sampled : List BezierPoint) :
    emplaceAll (emplacePoint mem) points sampled =
      if vecTakesAll mem points sampled then .ok (sampled.foldl (vecPush mem) points)
      else .error .nullSegment := by
  induction sampled generalizing points with
  | nil => rfl
  | cons point rest ih =>
      rw [emplaceAll, List.foldlM_cons, emplacePoint, vecTakesAll]
      by_cases hspace : vecHasSpace mem points = true
      · rw [if_pos hspace, ok_bind, ← emplaceAll, ih, hspace, Bool.true_and, List.foldl_cons]
      · rw [if_neg hspace, error_bind, Bool.eq_false_of_not_eq_true hspace, Bool.false_and]
        rfl

/-- **The function**, with what it needs of the vector: it returns if the vector has space for the
points of the curve, with an index that leaves out the newest segment, and it stops at the first
point that there is no space for otherwise. -/
theorem bezierCalcEquidistantPoints_spec {sqrt : Int → Int} (hnonneg : ∀ q, 0 ≤ sqrt q)
    (hpos : ∀ q, 0 < q → 1 ≤ sqrt q) (num : Numerics) {handles : List BezierHandle}
    (htwo : 2 ≤ handles.length) (spacing snakeLength : Int) :
    ∃ sampled stale, Samples sqrt spacing snakeLength num handles sampled ∧
      stale < handles.length - 1 ∧ staleIndex sqrt num handles spacing snakeLength = some stale ∧
      ∀ (mem : Alloc) (points : Vec bezierPointVec BezierPoint),
        bezierCalcEquidistantPoints mem sqrt num points handles spacing snakeLength = some (
          if vecTakesAll mem points.clear sampled then
            .ok (stale, sampled.foldl (vecPush mem) points.clear)
          else .error .nullSegment) := by
  obtain ⟨sampled, stale, hlt, hsamples, hspec⟩ :=
    equidistantPoints_spec hnonneg hpos num htwo spacing snakeLength
  refine ⟨sampled, stale, hsamples, hlt, ?_, ?_⟩
  · rw [staleIndex, hspec, emplaceAll_unit]
    rfl
  · intro mem points
    rw [bezierCalcEquidistantPoints, hspec, emplaceAll_points]
    split <;> rfl

/-- The points of a curve can be computed. -/
theorem samples_iff {sqrt : Int → Int} (hnonneg : ∀ q, 0 ≤ sqrt q) (hpos : ∀ q, 0 < q → 1 ≤ sqrt q)
    (num : Numerics) {handles : List BezierHandle} (htwo : 2 ≤ handles.length)
    (spacing snakeLength : Int) {sampled : List BezierPoint} :
    Samples sqrt spacing snakeLength num handles sampled ↔
      sampled = sampleCurve sqrt num handles spacing snakeLength := by
  obtain ⟨sampled', stale, -, hsamples, hspec⟩ :=
    equidistantPoints_spec hnonneg hpos num htwo spacing snakeLength
  have hcomputed : sampleCurve sqrt num handles spacing snakeLength = sampled' := by
    rw [sampleCurve, hspec, emplaceAll_list]
    rfl
  rw [hcomputed]
  constructor
  · intro h
    exact h.unique hsamples
  · rintro rfl
    exact hsamples

/-- With enough memory, the points have space in the vector up to its largest capacity. -/
theorem vecTakesAll_unlimited_iff {c : VecInstance} {α : Type} (v : Vec c α) (elems : List α) :
    vecTakesAll Alloc.unlimited v elems = true ↔ v.items.length + elems.length ≤ 2 ^ 14 := by
  refine ⟨?_, vecTakesAll_unlimited⟩
  induction elems generalizing v with
  | nil =>
      intro _
      have hlen := v.length_le
      rcases v.capacity_eq with hzero | ⟨j, hj, hcap⟩
      · rw [List.length_nil]
        omega
      · have hbound : 2 ^ (j + 5) ≤ 2 ^ 14 := Nat.pow_le_pow_right (by decide) (by omega)
        rw [List.length_nil]
        omega
  | cons elem rest ih =>
      intro h
      rw [vecTakesAll, Bool.and_eq_true] at h
      have hrest := ih _ h.2
      rw [items_vecPush, if_pos h.1, List.length_append, List.length_singleton] at hrest
      rw [List.length_cons]
      omega

/-- The numerics with the index of the program for the superfluous segments. -/
def Numerics.countingBy (sqrt : Int → Int) (num : Numerics) : Numerics :=
  { num with
    equidistantPoints := fun handles spacing snakeLength =>
      (staleIndex sqrt num handles spacing snakeLength).getD 0 }

def Numerics.counting (num : Numerics) : Numerics :=
  num.countingBy qwSqrt

theorem Numerics.countingBy_equidistantPoints (sqrt : Int → Int) (num : Numerics)
    (handles : List BezierHandle) (spacing snakeLength : Int) :
    (num.countingBy sqrt).equidistantPoints handles spacing snakeLength =
      (staleIndex sqrt num handles spacing snakeLength).getD 0 :=
  rfl

end Clither
