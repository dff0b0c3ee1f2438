import Clither.Cmd

/-!
# Fixed-point numbers, snake parameters and the step of a head

World coordinates (`qw`) have 14 fractional bits and angles (`qa`) have 12.
`snakeStepHead` moves a head forward by one frame under a command; it is the
one function that client and server have to agree on.

Sine, cosine and the curve fitter compute with floating point or with tables
and are parameters, gathered in `Numerics`.
-/

namespace Clither

/-- `make_qw2`. -/
def makeQw2 (v div : Int) : Int :=
  (v * 2 ^ 14).tdiv div

/-- Saturation to a signed 24-bit number. -/
def qwSat24 (x : Int) : Int :=
  if x > 0x7FFFFF then 0x7FFFFF
  else if x < -0x800000 then -0x800000
  else x

def qwAdd (a b : Int) : Int :=
  a + b

def qwSub (a b : Int) : Int :=
  a - b

/-- The product is rounded, mid values up. -/
def qwMul (a b : Int) : Int :=
  qwSat24 ((a * b + 2 ^ 13) >>> (14 : Nat))

def qwRescale (q num den : Int) : Int :=
  (q * num).tdiv den

/-- `QA_PI`. -/
def qaPi : Int := 12867

/-- `make_qa2`. -/
def makeQa2 (v div : Int) : Int :=
  wrapInt 16 ((v * 2 ^ 12).tdiv div)

/-- Back into `[-pi .. pi)`, for a value that left it by one turn. -/
def qaWrapvalue (value : Int) : Int :=
  let value := if value < -qaPi then value + 2 * qaPi else value
  let value := if value ≥ qaPi then value - 2 * qaPi else value
  wrapInt 16 value

def qaAdd (a b : Int) : Int :=
  qaWrapvalue (a + b)

def qaSub (a b : Int) : Int :=
  qaWrapvalue (a - b)

/-- Saturation to a signed 16-bit number. -/
def qaSat16 (x : Int) : Int :=
  if x > 0x7FFF then 0x7FFF
  else if x < -0x8000 then -0x8000
  else x

def qaMul (a b : Int) : Int :=
  qaSat16 ((a * b + 2 ^ 11) >>> (12 : Nat))

/-- `u8_to_qa`. -/
def u8ToQa (u : UInt8) : Int :=
  wrapInt 16 ((2 * qaPi * u.toNat).tdiv 256 - qaPi)

/-! ## Positions -/

structure QwPos where
  x : Int
  y : Int
  deriving DecidableEq, Repr

structure QwAabb where
  x1 : Int
  y1 : Int
  x2 : Int
  y2 : Int
  deriving DecidableEq, Repr

/-- `make_qwaabbqw(p.x, p.y, p.x, p.y)`. -/
def qwaabbPoint (p : QwPos) : QwAabb where
  x1 := p.x
  y1 := p.y
  x2 := p.x
  y2 := p.y

def qwaabbUnion (a b : QwAabb) : QwAabb where
  x1 := if a.x1 > b.x1 then b.x1 else a.x1
  y1 := if a.y1 > b.y1 then b.y1 else a.y1
  x2 := if a.x2 < b.x2 then b.x2 else a.x2
  y2 := if a.y2 < b.y2 then b.y2 else a.y2

/-- `qwaabb_test_qwpos`. -/
def qwaabbTestQwpos (bb : QwAabb) (p : QwPos) : Bool :=
  decide (p.x ≥ bb.x1 ∧ p.x ≤ bb.x2 ∧ p.y ≥ bb.y1 ∧ p.y ≤ bb.y2)

/-! ## Parameters of a snake -/

/-- `base_stats`. -/
structure BaseStats where
  turnSpeed : Int
  minSpeed : Int
  maxSpeed : Int
  boostSpeed : Int
  acceleration : UInt8
  deriving DecidableEq, Repr

/-- `cached_stats`. -/
structure CachedStats extends BaseStats where
  scale : Int
  length : Int
  deriving DecidableEq, Repr

/-- `struct snake_param`.  Of the upgrades only `turn` is read. -/
structure SnakeParam where
  foodEaten : UInt32
  baseStats : BaseStats
  cachedStats : CachedStats
  upgradeTurn : Fin 2
  deriving DecidableEq, Repr

/-- `snake_param_update`. -/
def snakeParamUpdate (baseStats : BaseStats) (upgradeTurn : Fin 2) (foodEaten : UInt32) :
    SnakeParam where
  foodEaten := foodEaten
  baseStats := baseStats
  upgradeTurn := upgradeTurn
  cachedStats :=
    let degradeScale : Int := 1024
    let food := wrapInt 32 foodEaten.toNat
    let degradeFac := makeQa2 degradeScale (if food > degradeScale then food else degradeScale)
    let modified := qaMul baseStats.turnSpeed degradeFac
    let upgrade := wrapInt 16 (upgradeTurn.val * 2 ^ 12)
    let minTurnSpeed := makeQa2 1 64
    let modified := if modified < minTurnSpeed then minTurnSpeed else modified
    { turnSpeed := qaAdd modified upgrade
      minSpeed := baseStats.minSpeed
      maxSpeed := baseStats.maxSpeed
      boostSpeed := baseStats.boostSpeed
      acceleration := baseStats.acceleration
      -- `food_eaten` is unsigned, and so are product and quotient
      scale := qwAdd (2 ^ 14) (foodEaten * 16384 / 4096).toNat
      length := (foodEaten * 16384 / 128).toNat }

/-- `snake_param_init`. -/
def snakeParamInit : SnakeParam :=
  snakeParamUpdate
    { turnSpeed := makeQa2 1 16
      minSpeed := makeQw2 1 96
      maxSpeed := makeQw2 1 48
      boostSpeed := makeQw2 1 16
      acceleration := 8 }
    0 40

/-! ## The head -/

structure SnakeHead where
  pos : QwPos
  angle : Int
  speed : UInt8
  deriving DecidableEq, Repr

/-- `snake_head_init`. -/
def snakeHeadInit (spawnPos : QwPos) : SnakeHead where
  pos := spawnPos
  angle := 0
  speed := 0

/-- A knot of the curve. -/
structure BezierHandle where
  pos : QwPos
  angle : Int
  lenBackwards : UInt8
  lenForwards : UInt8
  deriving DecidableEq, Repr

/-- `bezier_handle_init`. -/
def bezierHandleInit (pos : QwPos) (angle : Int) : BezierHandle where
  pos := pos
  angle := angle
  lenBackwards := 0
  lenForwards := 0

/-- The functions that are not modelled: sine and cosine of an angle,
`bezier_fit_trail` with the head and tail handle it leaves and the error it
returns, and the number that `bezier_calc_equidistant_points` returns for
handles, spacing and length. -/
structure Numerics where
  qaCos : Int → Int
  qaSin : Int → Int
  fitTrail : BezierHandle → BezierHandle → List QwPos → BezierHandle × BezierHandle × Int
  equidistantPoints : List BezierHandle → Int → Int → Nat

/-- The angle after one frame. -/
def stepAngle (angle turnSpeed target : Int) (simTickRate : UInt8) : Int :=
  let angleDiff := qaSub angle target
  if angleDiff > turnSpeed then
    qaSub angle (qaMul turnSpeed (makeQa2 simTickRate.toNat 60))
  else if angleDiff < -turnSpeed then qaAdd angle turnSpeed
  else target

/-- The speed that a command asks for, as an `uint8_t`. -/
def targetSpeed (stats : CachedStats) (command : Cmd) : UInt8 :=
  if command.action = cmdActionBoost then 255
  else
    UInt8.ofNat (((qwSub stats.maxSpeed stats.minSpeed * command.speed.toNat).tdiv
      (qwSub stats.boostSpeed stats.minSpeed)) % 256).toNat

/-- The speed after one frame. -/
def stepSpeed (speed acceleration target : UInt8) : UInt8 :=
  if (speed.toNat : Int) - target.toNat > acceleration.toNat then speed - acceleration
  else if (speed.toNat : Int) - target.toNat < -acceleration.toNat then speed + acceleration
  else target

/-- How far a head moves along an axis, for the cosine or sine of its angle. -/
def stepDistance (stats : CachedStats) (speed : UInt8) (direction : Int) : Int :=
  let d := qwSub stats.boostSpeed stats.minSpeed
  let d := qwRescale d speed.toNat 255
  let d := qwAdd d stats.minSpeed
  qwMul direction d

/-- `snake_step_head`. -/
def snakeStepHead (num : Numerics) (param : SnakeParam) (simTickRate : UInt8) (head : SnakeHead)
    (command : Cmd) : SnakeHead :=
  let stats := param.cachedStats
  let angle := stepAngle head.angle stats.turnSpeed (u8ToQa command.angle) simTickRate
  let speed := stepSpeed head.speed stats.acceleration (targetSpeed stats command)
  { pos :=
      { x := qwAdd head.pos.x (stepDistance stats speed (num.qaCos angle))
        y := qwAdd head.pos.y (stepDistance stats speed (num.qaSin angle)) }
    angle := angle
    speed := speed }

end Clither
