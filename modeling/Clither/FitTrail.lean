import Clither.SnakeHead

/-!
# Fitting a segment to its trail

`bezier_fit_trail` fits a cubic to the points of a trail by regression, with the ends of
the curve fixed at the ends of the trail, and estimates the error of the fit.  It computes
in Q16.16.  A sum wraps around in an `int32_t` and a product is saturated; a quotient is
converted to `int32_t`.

Angles and lengths go through floating point, and `FitFloats` holds these functions.
-/

namespace Clither

/-! ## Q16.16 -/

/-- `make_q16_16`. -/
def makeQ1616 (v : Int) : Int :=
  wrapInt 32 (v * 2 ^ 16)

/-- `make_q16_16_2`. -/
def makeQ1616Frac (v div : Int) : Int :=
  (wrapInt 32 (v * 2 ^ 16)).tdiv div

/-- `qw_to_q16_16`, assigned to a `q16_16`. -/
def qwToQ1616 (q : Int) : Int :=
  wrapInt 32 ((q * 2 ^ 16).tdiv (2 ^ 14))

def q1616Add (a b : Int) : Int :=
  wrapInt 32 (a + b)

def q1616Sub (a b : Int) : Int :=
  wrapInt 32 (a - b)

/-- `-a`, and a product with a small constant. -/
def q1616Times (n a : Int) : Int :=
  wrapInt 32 (n * a)

def q1616Sat32 (x : Int) : Int :=
  if x > 0x7FFFFFFF then 0x7FFFFFFF
  else if x < -0x80000000 then -0x80000000
  else x

/-- The product before it is saturated.  Mid values are rounded up. -/
def q1616Product (a b : Int) : Int :=
  (a * b + 2 ^ 15) >>> (16 : Nat)

def q1616Mul (a b : Int) : Int :=
  q1616Sat32 (q1616Product a b)

theorem q1616Product_eq (a b : Int) : q1616Product a b = (a * b + 32768) / 65536 :=
  Int.shiftRight_eq_div_pow _ _

/-- A product that fits is not saturated. -/
theorem q1616Mul_eq_product {a b : Int} (h0 : -2 ^ 31 ≤ q1616Product a b)
    (h : q1616Product a b < 2 ^ 31) : q1616Mul a b = q1616Product a b := by
  rw [q1616Mul, q1616Sat32, if_neg (by omega), if_neg (by omega)]

/-- Mid values are rounded up, or down when the signs are different. -/
def q1616Div (a b : Int) : Int :=
  let temp := a * 2 ^ 16
  let temp :=
    if (temp ≥ 0 ∧ b ≥ 0) ∨ (temp < 0 ∧ b < 0) then temp + b.tdiv 2 else temp - b.tdiv 2
  wrapInt 32 (temp.tdiv b)

/-! ## Polynomials -/

/-- The coefficients of a cubic polynomial in Q16.16. -/
structure Cubic where
  a0 : Int
  a1 : Int
  a2 : Int
  a3 : Int
  deriving DecidableEq

namespace Cubic

def eval (c : Cubic) (t : Int) : Int :=
  let t2 := q1616Mul t t
  let t3 := q1616Mul t t2
  q1616Add (q1616Add (q1616Add c.a0 (q1616Mul c.a1 t)) (q1616Mul c.a2 t2)) (q1616Mul c.a3 t3)

end Cubic

/-- The coefficients of a curve, in each dimension. -/
structure FittedCurve where
  x : Cubic
  y : Cubic
  deriving DecidableEq

/-- `distance_to_segment_sq`.  The squares are products of `int32_t`. -/
def distanceToSegmentSq (px py t : Int) (curve : FittedCurve) : Int :=
  let dx := q1616Sub px (curve.x.eval t)
  let dy := q1616Sub py (curve.y.eval t)
  wrapInt 32 (dx * dx + dy * dy)

/-- A round of the search, for a function that gives the error at a parameter: the parameter
and the error to go on with. -/
def searchRound (error : Int → Int) (tStep : Int) (t lastError : Int) : Int × Int :=
  let tUp := q1616Add t tStep
  let tDown := q1616Sub t tStep
  let errorUp := if tUp ≤ makeQ1616 1 then error tUp else lastError
  let errorDown := if tDown ≥ 0 then error tDown else lastError
  if errorUp < lastError then (tUp, errorUp)
  else if errorDown < lastError then (tDown, errorDown)
  else (t, lastError)

/-- The rounds of the search with the steps `2 ^ (k - 1)` to 1. -/
def searchRounds (error : Int → Int) : Nat → Int → Int → Int × Int
  | 0, t, lastError => (t, lastError)
  | k + 1, t, lastError =>
      let (t, lastError) := searchRound error (2 ^ k) t lastError
      searchRounds error k t lastError

/-- `binary_search_min_dist_sq`.  The first step is one half, and the last one is the last bit. -/
def binarySearchMinDistSq (p : QwPos) (curve : FittedCurve) (tInitialGuess : Int) : Int :=
  let px := qwToQ1616 p.x
  let py := qwToQ1616 p.y
  let error := fun t => distanceToSegmentSq px py t curve
  (searchRounds error 16 tInitialGuess (error tInitialGuess)).2

/-! ## Regression -/

/-- The matrix `T'*T`. -/
structure FitMatrix where
  t00 : Int
  t01 : Int
  t10 : Int
  t11 : Int
  deriving DecidableEq

/-- The parameter of a point, for a trail of `count` points. -/
def fitParam (count i : Nat) : Int :=
  makeQ1616Frac i (count - 1)

/-- The indices of the points between the first and the last. -/
def innerPoints (count : Nat) : List Nat :=
  (List.range (count - 2)).map (· + 1)

/-- The loop that sums up the matrix. -/
def fitMatrix (count : Nat) : FitMatrix :=
  (innerPoints count).foldl
    (fun m i =>
      let t := fitParam count i
      let t2 := q1616Mul t t
      { t00 := q1616Add m.t00 (makeQ1616 1)
        t01 := q1616Add m.t01 t
        t10 := q1616Add m.t10 t
        t11 := q1616Add m.t11 t2 })
    { t00 := 0, t01 := 0, t10 := 0, t11 := 0 }

def fitDet (m : FitMatrix) : Int :=
  q1616Sub (q1616Mul m.t00 m.t11) (q1616Mul m.t01 m.t10)

/-- `T_inv`. -/
def fitInverse (m : FitMatrix) (det : Int) : FitMatrix where
  t00 := q1616Div m.t11 det
  t01 := q1616Div (q1616Times (-1) m.t01) det
  t10 := q1616Div (q1616Times (-1) m.t10) det
  t11 := q1616Div m.t00 det

/-- The loop that sums up the unknown coefficients `cx0`, `cx1` or `cy0`, `cy1` of one
dimension, for the straight line with slope `m` and offset `q` through the end points. -/
def fitCoefficients (inv : FitMatrix) (count : Nat) (m q : Int) (coord : Nat → Int) : Int × Int :=
  (innerPoints count).foldl
    (fun c i =>
      let t := fitParam count i
      let r := q1616Mul t (q1616Sub t (makeQ1616 1))
      let f := q1616Add (q1616Mul m t) q
      let x := q1616Div (q1616Sub (qwToQ1616 (coord i)) f) r
      (q1616Add c.1 (q1616Mul (q1616Add inv.t00 (q1616Mul inv.t01 t)) x),
        q1616Add c.2 (q1616Mul (q1616Add inv.t10 (q1616Mul inv.t11 t)) x)))
    (0, 0)

/-- The control points of one dimension. -/
def controlPoints (m q c0 c1 : Int) : Int × Int × Int × Int :=
  let x0 := q
  let x1 := (q1616Add (q1616Sub m c0) (q1616Times 3 x0)).tdiv 3
  let x2 := (q1616Add (q1616Sub (q1616Sub c0 c1) (q1616Times 3 x0)) (q1616Times 6 x1)).tdiv 3
  let x3 := q1616Add (q1616Sub (q1616Add c1 x0) (q1616Times 3 x1)) (q1616Times 3 x2)
  (x0, x1, x2, x3)

/-- The polynomial with these control points. -/
def controlCubic (x0 x1 x2 x3 : Int) : Cubic where
  a0 := x0
  a1 := q1616Sub (q1616Times 3 x1) (q1616Times 3 x0)
  a2 := q1616Add (q1616Sub (q1616Times 3 x0) (q1616Times 6 x1)) (q1616Times 3 x2)
  a3 := q1616Add (q1616Sub (q1616Sub (q1616Times 3 x1) x0) (q1616Times 3 x2)) x3

/-! ## The function -/

/-- What is computed with `double`. -/
structure FitFloats where
  /-- `make_qa(atan2(qw_to_float(dy), qw_to_float(dx)))`. -/
  qwAngle : Int → Int → Int
  /-- `(uint8_t)(sqrt(qw_to_float(lensq)) * 255.0)`. -/
  qwLen : Int → UInt8
  /-- The same two for Q16.16. -/
  q1616Angle : Int → Int → Int
  q1616Len : Int → UInt8
  /-- `make_q16_16(len * -cos(qa_to_float(angle)) / 255)`, and with `sin`. -/
  forwardsX : UInt8 → Int → Int
  forwardsY : UInt8 → Int → Int

variable (fl : FitFloats)

/-- Trails of three and four points: `nearHead` and `nearTail` are the neighbours of the end
points. -/
def fitShort (head tail : BezierHandle) (p0 nearTail nearHead pm : QwPos) :
    BezierHandle × BezierHandle × Int :=
  let headDx := qwSub nearHead.x pm.x
  let headDy := qwSub nearHead.y pm.y
  let tailDx := qwSub p0.x nearTail.x
  let tailDy := qwSub p0.y nearTail.y
  let headLensq := qwAdd (qwMul headDx headDx) (qwMul headDy headDy)
  let tailLensq := qwAdd (qwMul tailDx tailDx) (qwMul tailDy tailDy)
  ({ head with
      pos := pm
      angle := fl.qwAngle headDy headDx
      lenBackwards := fl.qwLen headLensq },
    { tail with lenForwards := fl.qwLen tailLensq }, 0)

/-- The loop of the error estimation, in an `uint64_t`. -/
def mseError (trail : List QwPos) (curve : FittedCurve) : UInt64 :=
  (innerPoints trail.length).foldl
    (fun mse i =>
      mse + UInt64.ofInt
        (binarySearchMinDistSq (trail.getD i ⟨0, 0⟩) curve (fitParam trail.length i)))
    0

/-- The curve of a trail of five points or more, and the two handles. -/
def fitLong (head tail : BezierHandle) (inv : FitMatrix) (p0 pm : QwPos) (trail : List QwPos) :
    BezierHandle × BezierHandle × FittedCurve :=
  let mx := qwToQ1616 (qwSub pm.x p0.x)
  let qx := qwToQ1616 p0.x
  let my := qwToQ1616 (qwSub pm.y p0.y)
  let qy := qwToQ1616 p0.y
  let (cx0, cx1) := fitCoefficients inv trail.length mx qx fun i => (trail.getD i ⟨0, 0⟩).x
  let (cy0, cy1) := fitCoefficients inv trail.length my qy fun i => (trail.getD i ⟨0, 0⟩).y
  let (x0, x1, x2, x3) := controlPoints mx qx cx0 cx1
  let (y0, y1, y2, y3) := controlPoints my qy cy0 cy1
  let tailDx := q1616Sub x1 x0
  let tailDy := q1616Sub y1 y0
  let headDx := q1616Sub x2 x3
  let headDy := q1616Sub y2 y3
  let headLensq := q1616Add (q1616Mul headDx headDx) (q1616Mul headDy headDy)
  let tailLensq := q1616Add (q1616Mul tailDx tailDx) (q1616Mul tailDy tailDy)
  let head :=
    { head with
      pos := pm
      angle := fl.q1616Angle headDy headDx
      lenBackwards := fl.q1616Len headLensq }
  let tail := { tail with lenForwards := fl.q1616Len tailLensq }
  -- the angle of the tail is not fitted, and so its control point moves
  let x1 := q1616Add x0 (fl.forwardsX tail.lenForwards tail.angle)
  let y1 := q1616Add y0 (fl.forwardsY tail.lenForwards tail.angle)
  (head, tail, { x := controlCubic x0 x1 x2 x3, y := controlCubic y0 y1 y2 y3 })

/-- `bezier_fit_trail`, with the handles that it leaves.  The sum of the errors is converted to
`int32_t` where it is divided. -/
def bezierFitTrail (head tail : BezierHandle) (trail : List QwPos) :
    BezierHandle × BezierHandle × Int :=
  let p0 := trail.headD ⟨0, 0⟩
  let pm := trail.getLastD ⟨0, 0⟩
  let count := trail.length
  if count ≤ 2 then
    ({ head with pos := pm, angle := tail.angle, lenBackwards := 0 },
      { tail with lenForwards := 0 }, 0)
  else if count = 3 then
    let p1 := trail.getD 1 ⟨0, 0⟩
    fitShort fl head tail p0 p1 p1 pm
  else if count = 4 then
    fitShort fl head tail p0 (trail.getD 1 ⟨0, 0⟩) (trail.getD 2 ⟨0, 0⟩) pm
  else
    let m := fitMatrix count
    let det := fitDet m
    if det = 0 then ({ head with pos := pm }, tail, 2 ^ 30)
    else
      let (head, tail, curve) := fitLong fl head tail (fitInverse m det) p0 pm trail
      (head, tail, q1616Div (wrapInt 32 (mseError trail curve).toNat) (makeQ1616 (count - 1)))

/-- The numerics with this fit. -/
def Numerics.fitting (num : Numerics) : Numerics :=
  { num with fitTrail := bezierFitTrail fl }

end Clither
