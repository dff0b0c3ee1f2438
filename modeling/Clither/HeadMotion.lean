import Clither.PositionRange

/-!
# How a head moves

`snakeStepHead` turns a head towards the commanded angle, brings its speed towards the
commanded speed, and moves it on.  Client and server replay the same commands, so the
numbers have to stay in their types along every run: angles between `-QA_PI` and
`QA_PI`, and speeds in 8 bits.

`heads_move_safely` says so.  `turning_fair_iff` is about the two directions in which a
head can turn, which are different code: a turn with falling angle is scaled by the tick
rate, and one with rising angle is not.
-/

namespace Clither

/-! ## Angles -/

/-- An angle in `[-QA_PI, QA_PI)`. -/
def InTurn (angle : Int) : Prop :=
  -qaPi ≤ angle ∧ angle < qaPi

instance (angle : Int) : Decidable (InTurn angle) :=
  inferInstanceAs (Decidable (_ ∧ _))

/-- Wrapping keeps what fits. -/
theorem wrapInt16_of_in16 {x : Int} (h : In16 x) : wrapInt 16 x = x := by
  obtain ⟨hlow, hhigh⟩ := h
  exact wrapInt_of_range (by decide) (by omega) (by omega)

/-- **Wrapping** goes round once at most, and not at all where it need not. -/
theorem qaWrapvalue_spec {v : Int} (hlow : -3 * qaPi ≤ v) (hhigh : v < 3 * qaPi) :
    InTurn (qaWrapvalue v) ∧
      (qaWrapvalue v = v ∨ (v < -qaPi ∧ qaWrapvalue v = v + 2 * qaPi) ∨
        (qaPi ≤ v ∧ qaWrapvalue v = v - 2 * qaPi)) := by
  have hwrap (x : Int) (hx : InTurn x) : wrapInt 16 x = x := by
    refine wrapInt16_of_in16 ?_
    unfold InTurn qaPi at hx
    unfold In16
    omega
  unfold qaWrapvalue
  dsimp only
  by_cases hneg : v < -qaPi
  · have hturn : InTurn (v + 2 * qaPi) := by
      unfold InTurn qaPi at *
      omega
    rw [if_pos hneg, if_neg (not_le.mpr hturn.2), hwrap _ hturn]
    exact ⟨hturn, Or.inr (Or.inl ⟨hneg, rfl⟩)⟩
  · rw [if_neg hneg]
    by_cases hpos : v ≥ qaPi
    · have hturn : InTurn (v - 2 * qaPi) := by
        unfold InTurn qaPi at *
        omega
      rw [if_pos hpos, hwrap _ hturn]
      exact ⟨hturn, Or.inr (Or.inr ⟨hpos, rfl⟩)⟩
    · have hturn : InTurn v := ⟨not_lt.mp hneg, not_le.mp hpos⟩
      rw [if_neg hpos, hwrap v hturn]
      exact ⟨hturn, Or.inl rfl⟩

/-- A difference of angles is the integer one, up to a full turn. -/
theorem qaSub_spec {a b : Int} (ha : InTurn a) (hb : InTurn b) :
    InTurn (qaSub a b) ∧
      (qaSub a b = a - b ∨ qaSub a b = a - b + 2 * qaPi ∨ qaSub a b = a - b - 2 * qaPi) := by
  unfold InTurn at ha hb
  obtain ⟨hturn, hcases⟩ := @qaWrapvalue_spec (a - b) (by omega) (by omega)
  refine ⟨hturn, ?_⟩
  rcases hcases with heq | ⟨-, heq⟩ | ⟨-, heq⟩
  · exact Or.inl heq
  · exact Or.inr (Or.inl heq)
  · exact Or.inr (Or.inr heq)

/-- The angle of a command is one of 256. -/
theorem inTurn_u8ToQa (u : UInt8) : InTurn (u8ToQa u) := by
  have hu := u.toNat_lt
  have hdiv : (2 * qaPi * (u.toNat : Int)).tdiv 256 = 2 * qaPi * (u.toNat : Int) / 256 :=
    Int.tdiv_eq_ediv_of_nonneg (by unfold qaPi; positivity)
  unfold u8ToQa
  rw [hdiv, wrapInt16_of_in16]
  · unfold InTurn qaPi
    omega
  · unfold In16 qaPi
    omega

/-! ## Parameters -/

/-- The parameters of a snake that has eaten so much food. -/
def fedParam (upgradeTurn : Fin 2) (foodEaten : UInt32) : SnakeParam :=
  snakeParamUpdate snakeParamInit.baseStats upgradeTurn foodEaten

example : fedParam 0 40 = snakeParamInit := rfl

section

variable (upgradeTurn : Fin 2) (foodEaten : UInt32)

/-- Food leaves the minimum speed at its start. -/
@[simp] theorem fedParam_minSpeed : (fedParam upgradeTurn foodEaten).cachedStats.minSpeed = 170 :=
  rfl

/-- Food leaves the maximum speed at its start. -/
@[simp] theorem fedParam_maxSpeed : (fedParam upgradeTurn foodEaten).cachedStats.maxSpeed = 341 :=
  rfl

/-- Food leaves the boost speed at its start. -/
@[simp] theorem fedParam_boostSpeed :
    (fedParam upgradeTurn foodEaten).cachedStats.boostSpeed = 1024 := rfl

/-- So the distance of a step does not depend on the food. -/
theorem stepDistance_fedParam (speed : UInt8) (direction : Int) :
    stepDistance (fedParam upgradeTurn foodEaten).cachedStats speed direction =
      stepDistance snakeParamInit.cachedStats speed direction := by
  rw [stepDistance_eq, stepDistance, fedParam_minSpeed, fedParam_boostSpeed]
  rfl

end

/-- The product of two positive angles with a small product is rounded only. -/
theorem qaMul_of_small {a b : Int} (h0 : 0 ≤ a * b) (h : a * b < 2 ^ 27 - 2 ^ 12) :
    qaMul a b = (a * b + 2048) / 4096 := by
  unfold qaMul qaSat16
  rw [Int.shiftRight_eq_div_pow]
  norm_num
  rw [if_neg (by omega), if_neg (by omega)]

/-- **Turn speed** falls with the food, from 256 down to 64. -/
theorem turnSpeed_bounds (upgradeTurn : Fin 2) (foodEaten : UInt32) :
    64 + 4096 * (upgradeTurn.val : Int) ≤ (fedParam upgradeTurn foodEaten).cachedStats.turnSpeed ∧
      (fedParam upgradeTurn foodEaten).cachedStats.turnSpeed ≤
        256 + 4096 * (upgradeTurn.val : Int) := by
  have hup : (upgradeTurn.val : Int) ≤ 1 := by have := upgradeTurn.isLt; omega
  have hup0 : 0 ≤ (upgradeTurn.val : Int) := Int.natCast_nonneg _
  have hmin : makeQa2 1 64 = 64 := by decide
  have hbase : snakeParamInit.baseStats.turnSpeed = 256 := by decide
  simp only [fedParam, snakeParamUpdate, hmin, hbase]
  generalize wrapInt 32 (foodEaten.toNat : Int) = food
  generalize (upgradeTurn.val : Int) = up at *
  -- the factor by which food slows down turning
  have hfactor (div : Int) (hdiv : 1024 ≤ div) :
      0 ≤ makeQa2 1024 div ∧ makeQa2 1024 div ≤ 4096 := by
    have hquot : (1024 * 2 ^ 12 : Int).tdiv div = 1024 * 2 ^ 12 / div :=
      Int.tdiv_eq_ediv_of_nonneg (by norm_num)
    have hnonneg : 0 ≤ (1024 * 2 ^ 12 : Int) / div := Int.ediv_nonneg (by norm_num) (by omega)
    have hle : (1024 * 2 ^ 12 : Int) / div ≤ 4096 :=
      Int.ediv_le_of_le_mul (by omega) (by omega)
    rw [makeQa2, hquot, wrapInt16_of_in16 (by unfold In16; omega)]
    exact ⟨hnonneg, hle⟩
  obtain ⟨hlow, hhigh⟩ := hfactor (if food > 1024 then food else 1024) (by split <;> omega)
  generalize makeQa2 1024 (if food > 1024 then food else 1024) = factor at *
  have hmodified := @qaMul_of_small 256 factor (by omega) (by omega)
  have hupgrade : wrapInt 16 (up * 2 ^ 12) = up * 4096 := by
    rw [wrapInt16_of_in16 (by unfold In16; omega)]
    norm_num
  rw [hmodified, hupgrade, qaAdd]
  generalize hv : (if (256 * factor + 2048) / 4096 < 64 then 64 else (256 * factor + 2048) / 4096) = v
  have hv' : 64 ≤ v ∧ v ≤ 256 := by split at hv <;> omega
  obtain ⟨-, heq | ⟨hneg, -⟩ | ⟨hpos, -⟩⟩ := @qaWrapvalue_spec (v + up * 4096)
    (by unfold qaPi; omega) (by unfold qaPi; omega)
  · omega
  · unfold qaPi at hneg
    omega
  · unfold qaPi at hpos
    omega

/-! ## One step -/

/-- How far a head turns when its angle falls: the turn speed times the tick rate by
60. -/
def scaledTurn (turnSpeed : Int) (simTickRate : UInt8) : Int :=
  qaMul turnSpeed (makeQa2 simTickRate.toNat 60)

/-- The turn speeds that a snake can have. -/
def IsTurnSpeed (turnSpeed : Int) : Prop :=
  64 ≤ turnSpeed ∧ turnSpeed ≤ 4352

/-- Food keeps the turn speed in this range. -/
theorem isTurnSpeed_fedParam (upgradeTurn : Fin 2) (foodEaten : UInt32) :
    IsTurnSpeed (fedParam upgradeTurn foodEaten).cachedStats.turnSpeed := by
  obtain ⟨hlow, hhigh⟩ := turnSpeed_bounds upgradeTurn foodEaten
  have hup := upgradeTurn.isLt
  unfold IsTurnSpeed
  omega

section

variable {turnSpeed : Int} (hspeed : IsTurnSpeed turnSpeed) (simTickRate : UInt8)

include hspeed

/-- The turn of one tick is the turn speed scaled by the rate, rounded. -/
theorem scaledTurn_eq : scaledTurn turnSpeed simTickRate =
    (turnSpeed * ((simTickRate.toNat : Int) * 4096 / 60) + 2048) / 4096 := by
  obtain ⟨hlow, hhigh⟩ := hspeed
  have hrate := simTickRate.toNat_lt
  have hquot : ((simTickRate.toNat : Int) * 2 ^ 12).tdiv 60 = (simTickRate.toNat : Int) * 4096 / 60 :=
    Int.tdiv_eq_ediv_of_nonneg (by positivity)
  have hfactor : 0 ≤ (simTickRate.toNat : Int) * 4096 / 60 ∧
      (simTickRate.toNat : Int) * 4096 / 60 ≤ 17408 := by omega
  unfold scaledTurn
  rw [makeQa2, hquot, wrapInt16_of_in16 (by unfold In16; omega)]
  generalize (simTickRate.toNat : Int) * 4096 / 60 = factor at *
  obtain ⟨hfactor0, hfactor1⟩ := hfactor
  refine qaMul_of_small (by positivity) ?_
  nlinarith

/-- The turn is between zero and three quarters of a circle. -/
theorem scaledTurn_bounds : 0 ≤ scaledTurn turnSpeed simTickRate ∧
    scaledTurn turnSpeed simTickRate ≤ 18496 := by
  have hrate := simTickRate.toNat_lt
  rw [scaledTurn_eq hspeed]
  obtain ⟨hlow, hhigh⟩ := hspeed
  have hfactor : 0 ≤ (simTickRate.toNat : Int) * 4096 / 60 ∧
      (simTickRate.toNat : Int) * 4096 / 60 ≤ 17408 := by omega
  generalize (simTickRate.toNat : Int) * 4096 / 60 = factor at *
  obtain ⟨hfactor0, hfactor1⟩ := hfactor
  have hprod0 : 0 ≤ turnSpeed * factor := by positivity
  have hprod1 : turnSpeed * factor ≤ 4352 * 17408 := by nlinarith
  omega

/-- **The two directions agree at 60 Hz only.** -/
theorem scaledTurn_eq_self_iff : scaledTurn turnSpeed simTickRate = turnSpeed ↔ simTickRate = 60 := by
  have hrate := simTickRate.toNat_lt
  have hiff : simTickRate = 60 ↔ simTickRate.toNat = 60 := UInt8.toNat_inj.symm
  rw [scaledTurn_eq hspeed, hiff]
  obtain ⟨hlow, hhigh⟩ := hspeed
  constructor
  · intro heq
    rcases Nat.lt_trichotomy simTickRate.toNat 60 with hslow | hsame | hfast
    · have hfactor : (simTickRate.toNat : Int) * 4096 / 60 ≤ 4027 := by omega
      have hprod : turnSpeed * ((simTickRate.toNat : Int) * 4096 / 60) ≤ turnSpeed * 4027 :=
        Int.mul_le_mul_of_nonneg_left hfactor (by omega)
      omega
    · exact hsame
    · have hfactor : 4164 ≤ (simTickRate.toNat : Int) * 4096 / 60 := by omega
      have hprod : turnSpeed * 4164 ≤ turnSpeed * ((simTickRate.toNat : Int) * 4096 / 60) :=
        Int.mul_le_mul_of_nonneg_left hfactor (by omega)
      omega
  · intro hsame
    rw [hsame]
    norm_num
    omega

end

/-- A step keeps the angle within a turn. -/
theorem inTurn_stepAngle {turnSpeed angle target : Int} (hspeed : IsTurnSpeed turnSpeed)
    (hangle : InTurn angle) (htarget : InTurn target) (simTickRate : UInt8) :
    InTurn (stepAngle angle turnSpeed target simTickRate) := by
  obtain ⟨hturn0, hturn1⟩ := scaledTurn_bounds hspeed simTickRate
  obtain ⟨hlow, hhigh⟩ := hspeed
  unfold stepAngle
  rw [show qaMul turnSpeed (makeQa2 simTickRate.toNat 60) = scaledTurn turnSpeed simTickRate from rfl]
  generalize scaledTurn turnSpeed simTickRate = turn at *
  dsimp only
  unfold InTurn qaPi at hangle
  split
  · exact (@qaWrapvalue_spec (angle - turn) (by unfold qaPi; omega) (by unfold qaPi; omega)).1
  · split
    · exact (@qaWrapvalue_spec (angle + turnSpeed) (by unfold qaPi; omega)
        (by unfold qaPi; omega)).1
    · exact htarget

/-- A number that goes towards a target, by `rate` at most, and stops there. -/
structure Approaches (rate target before after : Int) : Prop where
  near : |after - before| ≤ rate
  between : min before target ≤ after ∧ after ≤ max before target
  arrives : after = target ∨ |after - before| = rate

/-- **The speed does not wrap**: as a natural number it approaches its target. -/
theorem stepSpeed_approaches (speed acceleration target : UInt8) :
    Approaches acceleration.toNat target.toNat speed.toNat
      (stepSpeed speed acceleration target).toNat := by
  have hspeed := speed.toNat_lt
  have htarget := target.toNat_lt
  unfold stepSpeed
  by_cases hfast : (speed.toNat : Int) - target.toNat > acceleration.toNat
  · have hsub : (speed - acceleration).toNat = speed.toNat - acceleration.toNat :=
      UInt8.toNat_sub_of_le _ _ (UInt8.le_iff_toNat_le.mpr (by omega))
    rw [if_pos hfast, hsub, Nat.cast_sub (by omega)]
    refine ⟨?_, ⟨?_, ?_⟩, Or.inr ?_⟩
    all_goals grind
  · rw [if_neg hfast]
    by_cases hslow : (speed.toNat : Int) - target.toNat < -acceleration.toNat
    · have hadd : (speed + acceleration).toNat = speed.toNat + acceleration.toNat := by
        rw [UInt8.toNat_add, Nat.mod_eq_of_lt (by omega)]
      rw [if_pos hslow, hadd, Nat.cast_add]
      refine ⟨?_, ⟨?_, ?_⟩, Or.inr ?_⟩
      all_goals grind
    · rw [if_neg hslow]
      refine ⟨?_, ⟨?_, ?_⟩, Or.inl rfl⟩
      all_goals grind

/-- The speed that a command asks for, as a number. -/
def commandedSpeed (stats : CachedStats) (command : Cmd) : Int :=
  if command.action = cmdActionBoost then 255
  else (stats.maxSpeed - stats.minSpeed) * command.speed.toNat / (stats.boostSpeed - stats.minSpeed)

/-- The speed that is aimed at is the one the command asks for. -/
theorem targetSpeed_eq (upgradeTurn : Fin 2) (foodEaten : UInt32) (command : Cmd) :
    ((targetSpeed (fedParam upgradeTurn foodEaten).cachedStats command).toNat : Int) =
      commandedSpeed (fedParam upgradeTurn foodEaten).cachedStats command := by
  have hspeed := command.speed.toNat_lt
  unfold targetSpeed commandedSpeed qwSub
  rw [fedParam_maxSpeed, fedParam_minSpeed, fedParam_boostSpeed]
  split
  · rfl
  · have hquot : ((341 - 170) * (command.speed.toNat : Int)).tdiv (1024 - 170) =
        (341 - 170) * (command.speed.toNat : Int) / (1024 - 170) :=
      Int.tdiv_eq_ediv_of_nonneg (by positivity)
    rw [hquot, UInt8.toNat_ofNat', Nat.mod_eq_of_lt (by omega)]
    omega

/-! ## Runs -/

/-- What a step of a head does, with the food that the snake has eaten until then. -/
structure MovesSafely (head : SnakeHead) (input : UInt32 × Cmd) (head' : SnakeHead) : Prop where
  angle : InTurn head'.angle
  speed : Approaches (fedParam 0 input.1).cachedStats.acceleration.toNat
    (commandedSpeed (fedParam 0 input.1).cachedStats input.2) head.speed.toNat head'.speed.toNat
  x : |head'.pos.x - head.pos.x| ≤ (fedParam 0 input.1).cachedStats.boostSpeed
  y : |head'.pos.y - head.pos.y| ≤ (fedParam 0 input.1).cachedStats.boostSpeed

/-- **Step lemma.** -/
theorem movesSafely_stepHead {num : Numerics} (htrig : TrigBounded num) (simTickRate : UInt8)
    {head : SnakeHead} (hangle : InTurn head.angle) (input : UInt32 × Cmd) :
    MovesSafely head input (snakeStepHead num (fedParam 0 input.1) simTickRate head input.2) := by
  obtain ⟨food, command⟩ := input
  have hdistance (speed : UInt8) {direction : Int} (h : -2 ^ 14 ≤ direction ∧ direction ≤ 2 ^ 14)
      (start : Int) :
      |qwAdd start (stepDistance (fedParam 0 food).cachedStats speed direction) - start| ≤
        (fedParam 0 food).cachedStats.boostSpeed := by
    rw [qwAdd, add_sub_cancel_left, abs_le, stepDistance_fedParam]
    exact stepDistance_bounds speed h
  have happroaches := stepSpeed_approaches head.speed (fedParam 0 food).cachedStats.acceleration
    (targetSpeed (fedParam 0 food).cachedStats command)
  rw [targetSpeed_eq] at happroaches
  exact
    { angle := inTurn_stepAngle (isTurnSpeed_fedParam 0 food) hangle (inTurn_u8ToQa _) simTickRate
      speed := happroaches
      x := hdistance _ (htrig.cos _) _
      y := hdistance _ (htrig.sin _) _ }

/-- One frame of a run: the food so far and the command, with the upgrades of a new snake. -/
def moveHead (num : Numerics) (simTickRate : UInt8) (head : SnakeHead) (input : UInt32 × Cmd) :
    Except Fault SnakeHead :=
  .ok (snakeStepHead num (fedParam snakeParamInit.upgradeTurn input.1) simTickRate head input.2)

/-- **Every step of every run moves the head safely.** -/
theorem heads_move_safely (num : Numerics) (htrig : TrigBounded num) (simTickRate : UInt8)
    (head : SnakeHead) (hangle : InTurn head.angle) (inputs : List (UInt32 × Cmd)) :
    Run.EveryStep (moveHead num simTickRate) MovesSafely head inputs := by
  have hkeeps (head : SnakeHead) (input : UInt32 × Cmd) (h : InTurn head.angle) (_ : True) :
      ∃ head', moveHead num simTickRate head input = .ok head' ∧ InTurn head'.angle ∧
        MovesSafely head input head' := by
    have hsafe := movesSafely_stepHead htrig simTickRate h input
    exact ⟨_, rfl, hsafe.angle, hsafe⟩
  exact Run.everyStep_of_meets hkeeps hangle
    (Run.meets_of_forall (fun _ _ => trivial) head inputs)

/-- A new snake that boosts, turns round and eats. -/
theorem heads_move_safely_sample :
    Run.EveryStep (moveHead straight 255) MovesSafely (snakeHeadInit ⟨0, 0⟩)
      [(40, cmdBoost), (40, ⟨0, 0, 0⟩), (5000, ⟨200, 255, 0⟩)] :=
  heads_move_safely straight trigBounded_straight 255 (snakeHeadInit ⟨0, 0⟩) (by decide)
    [(40, cmdBoost), (40, ⟨0, 0, 0⟩), (5000, ⟨200, 255, 0⟩)]

/-! ## The two directions -/

/-- The distance of two angles on the circle. -/
def angularDistance (a b : Int) : Int :=
  min ((a - b) % (2 * qaPi)) ((b - a) % (2 * qaPi))

/-- The angular distance is the size of the difference within half a turn. -/
theorem angularDistance_eq_abs {a b d : Int} (hd : -qaPi ≤ d ∧ d ≤ qaPi)
    (h : d = a - b ∨ d = a - b + 2 * qaPi ∨ d = a - b - 2 * qaPi) : angularDistance a b = |d| := by
  unfold angularDistance
  unfold qaPi at *
  norm_num only at *
  rcases lt_trichotomy d 0 with hneg | rfl | hpos
  · have hforth : (a - b) % 25734 = d + 25734 := by omega
    have hback : (b - a) % 25734 = -d := by omega
    rw [hforth, hback, abs_of_neg hneg]
    omega
  · have hforth : (a - b) % 25734 = 0 := by omega
    have hback : (b - a) % 25734 = 0 := by omega
    rw [hforth, hback]
    rfl
  · have hforth : (a - b) % 25734 = d := by omega
    have hback : (b - a) % 25734 = 25734 - d := by omega
    rw [hforth, hback, abs_of_pos hpos]
    omega

/-- The angular distance is the size of the difference of the angles. -/
theorem angularDistance_qaSub {a b : Int} (ha : InTurn a) (hb : InTurn b) :
    angularDistance a b = |qaSub a b| := by
  obtain ⟨hturn, hcases⟩ := qaSub_spec ha hb
  exact angularDistance_eq_abs ⟨hturn.1, hturn.2.le⟩ hcases

/-- The change of the angle in one frame, from `-QA_PI` up to `QA_PI`. -/
def angleChange (turnSpeed : Int) (simTickRate : UInt8) (angle target : Int) : Int :=
  qaSub (stepAngle angle turnSpeed target simTickRate) angle

/-- Angles around the one that is wrapped are told apart by their difference. -/
theorem qaSub_eq_of_turn {a b d : Int} (ha : InTurn a) (hb : InTurn b) (hd : InTurn d)
    (h : d = a - b ∨ d = a - b + 2 * qaPi ∨ d = a - b - 2 * qaPi) : qaSub a b = d := by
  obtain ⟨hturn, hcases⟩ := qaSub_spec ha hb
  unfold InTurn qaPi at *
  omega

section

variable {turnSpeed angle target : Int} (hspeed : IsTurnSpeed turnSpeed) (simTickRate : UInt8)
  (hangle : InTurn angle) (htarget : InTurn target)

include hspeed hangle htarget

/-- **A turn with falling angle.** -/
theorem turn_falling (hfar : turnSpeed < qaSub angle target) :
    (angularDistance (stepAngle angle turnSpeed target simTickRate) target ≤ qaSub angle target ↔
        scaledTurn turnSpeed simTickRate ≤ 2 * qaSub angle target) ∧
      (angleChange turnSpeed simTickRate angle target = -turnSpeed ↔
        scaledTurn turnSpeed simTickRate = turnSpeed) := by
  have hpi : qaPi = 12867 := rfl
  obtain ⟨hturn0, hturn1⟩ := scaledTurn_bounds hspeed simTickRate
  obtain ⟨hlow, hhigh⟩ := hspeed
  obtain ⟨⟨hdiff0, hdiff1⟩, hdiff⟩ := qaSub_spec hangle htarget
  have hstep : stepAngle angle turnSpeed target simTickRate =
      qaSub angle (scaledTurn turnSpeed simTickRate) := by
    unfold stepAngle
    dsimp only
    rw [if_pos hfar]
    rfl
  obtain ⟨hangle0, hangle1⟩ := hangle
  obtain ⟨htarget0, htarget1⟩ := htarget
  obtain ⟨hturn, hcases⟩ := @qaWrapvalue_spec (angle - scaledTurn turnSpeed simTickRate)
    (by omega) (by omega)
  have hnew0 := hturn.1
  have hnew1 := hturn.2
  rw [angleChange, hstep, qaSub]
  constructor
  · by_cases hround : qaSub angle target - scaledTurn turnSpeed simTickRate < -qaPi
    · rw [angularDistance_eq_abs (d := qaSub angle target - scaledTurn turnSpeed simTickRate + 2 * qaPi)]
      · rw [abs_of_nonneg (by omega)]
        unfold qaSub at *
        omega
      · omega
      · unfold qaSub at *
        omega
    · rw [angularDistance_eq_abs (d := qaSub angle target - scaledTurn turnSpeed simTickRate)]
      · rw [abs_le]
        unfold qaSub at *
        omega
      · omega
      · unfold qaSub at *
        omega
  · by_cases hround : scaledTurn turnSpeed simTickRate ≤ qaPi
    · rw [qaSub_eq_of_turn (d := -scaledTurn turnSpeed simTickRate) hturn ⟨hangle0, hangle1⟩]
      · omega
      · exact ⟨by omega, by omega⟩
      · omega
    · rw [qaSub_eq_of_turn (d := 2 * qaPi - scaledTurn turnSpeed simTickRate) hturn
        ⟨hangle0, hangle1⟩]
      · omega
      · exact ⟨by omega, by omega⟩
      · omega

/-- **A turn with rising angle.** -/
theorem turn_rising (hfar : qaSub angle target < -turnSpeed) :
    angularDistance (stepAngle angle turnSpeed target simTickRate) target ≤ |qaSub angle target| ∧
      angleChange turnSpeed simTickRate angle target = turnSpeed := by
  have hpi : qaPi = 12867 := rfl
  obtain ⟨hlow, hhigh⟩ := hspeed
  obtain ⟨⟨hdiff0, hdiff1⟩, hdiff⟩ := qaSub_spec hangle htarget
  have hstep : stepAngle angle turnSpeed target simTickRate = qaAdd angle turnSpeed := by
    unfold stepAngle
    dsimp only
    rw [if_neg (by omega), if_pos hfar]
  obtain ⟨hangle0, hangle1⟩ := hangle
  obtain ⟨htarget0, htarget1⟩ := htarget
  obtain ⟨hturn, hcases⟩ := @qaWrapvalue_spec (angle + turnSpeed) (by omega) (by omega)
  rw [angleChange, hstep, qaAdd]
  constructor
  · rw [angularDistance_eq_abs (d := qaSub angle target + turnSpeed)]
    · rw [abs_of_neg (by omega), abs_of_neg (by omega)]
      omega
    · omega
    · omega
  · refine qaSub_eq_of_turn hturn ⟨hangle0, hangle1⟩ ⟨by omega, by omega⟩ ?_
    omega

/-- **A target within reach** is taken over. -/
theorem turn_arriving (hnear : |qaSub angle target| ≤ turnSpeed) :
    angularDistance (stepAngle angle turnSpeed target simTickRate) target = 0 ∧
      angleChange turnSpeed simTickRate angle target = -qaSub angle target := by
  have hpi : qaPi = 12867 := rfl
  obtain ⟨hlow, hhigh⟩ := hspeed
  obtain ⟨hdiff, hcases⟩ := qaSub_spec hangle htarget
  rw [abs_le] at hnear
  have hstep : stepAngle angle turnSpeed target simTickRate = target := by
    unfold stepAngle
    dsimp only
    rw [if_neg (by omega), if_neg (by omega)]
  rw [angleChange, hstep]
  constructor
  · simp [angularDistance]
  · refine qaSub_eq_of_turn htarget hangle ⟨by omega, by omega⟩ ?_
    omega

end

/-- The signed difference of a head to the angle of its command. -/
def commandDiff (head : SnakeHead) (command : Cmd) : Int :=
  qaSub head.angle (u8ToQa command.angle)

/-- The signed change of the angle of a head in one frame. -/
def headTurn (num : Numerics) (param : SnakeParam) (simTickRate : UInt8) (head : SnakeHead)
    (command : Cmd) : Int :=
  qaSub (snakeStepHead num param simTickRate head command).angle head.angle

/-- A head does not turn away from its command, and turns as far as it does with the
opposite difference. -/
structure TurnsFairly (num : Numerics) (param : SnakeParam) (simTickRate : UInt8)
    (head : SnakeHead) (command : Cmd) : Prop where
  closer : angularDistance (snakeStepHead num param simTickRate head command).angle
      (u8ToQa command.angle) ≤ angularDistance head.angle (u8ToQa command.angle)
  mirrored : ∀ head' command', InTurn head'.angle →
    commandDiff head' command' = -commandDiff head command →
    headTurn num param simTickRate head' command' = -headTurn num param simTickRate head command

section

variable (num : Numerics) (upgradeTurn : Fin 2) (foodEaten : UInt32) (simTickRate : UInt8)

/-- Every difference but half a circle has a mirror image. -/
theorem exists_mirrored {head : SnakeHead} {command : Cmd} (hdiff : InTurn (commandDiff head command))
    (hhalf : commandDiff head command ≠ -qaPi) :
    ∃ head' command', InTurn head'.angle ∧ commandDiff head' command' = -commandDiff head command := by
  have hzero : u8ToQa 128 = 0 := by decide
  have hturn : InTurn (-commandDiff head command) := by
    obtain ⟨hlow, hhigh⟩ := hdiff
    exact ⟨by omega, by omega⟩
  refine ⟨{ head with angle := -commandDiff head command }, { command with angle := 128 }, hturn, ?_⟩
  show qaSub (-commandDiff head command) (u8ToQa 128) = _
  rw [hzero]
  exact qaSub_eq_of_turn hturn (by decide) hturn (Or.inl (sub_zero _).symm)

/-- **Turning is fair exactly at 60 Hz**, or where the command is within reach.  A head
that looks away from its command by half a circle has no mirror image, and turns with
rising angle. -/
theorem turning_fair_iff (head : SnakeHead) (hangle : InTurn head.angle) (command : Cmd) :
    TurnsFairly num (fedParam upgradeTurn foodEaten) simTickRate head command ↔
      commandDiff head command = -qaPi ∨
        |commandDiff head command| ≤ (fedParam upgradeTurn foodEaten).cachedStats.turnSpeed ∨
        simTickRate = 60 := by
  have hpi : qaPi = 12867 := rfl
  have hspeed := isTurnSpeed_fedParam upgradeTurn foodEaten
  have htarget := inTurn_u8ToQa command.angle
  have hdistance := angularDistance_qaSub hangle htarget
  have hdiff : InTurn (commandDiff head command) := (qaSub_spec hangle htarget).1
  rw [← scaledTurn_eq_self_iff hspeed simTickRate]
  obtain ⟨hpos, -⟩ := id hspeed
  generalize hturnSpeed : (fedParam upgradeTurn foodEaten).cachedStats.turnSpeed = turnSpeed at *
  have hfalling {head : SnakeHead} {command : Cmd} (hangle : InTurn head.angle)
      (hfar : turnSpeed < commandDiff head command) :
      headTurn num (fedParam upgradeTurn foodEaten) simTickRate head command = -turnSpeed ↔
        scaledTurn turnSpeed simTickRate = turnSpeed := by
    rw [← (turn_falling hspeed simTickRate hangle (inTurn_u8ToQa command.angle) hfar).2,
      ← hturnSpeed]
    rfl
  have hrising {head : SnakeHead} {command : Cmd} (hangle : InTurn head.angle)
      (hfar : commandDiff head command < -turnSpeed) :
      headTurn num (fedParam upgradeTurn foodEaten) simTickRate head command = turnSpeed := by
    rw [← (turn_rising hspeed simTickRate hangle (inTurn_u8ToQa command.angle) hfar).2, ← hturnSpeed]
    rfl
  have harriving {head : SnakeHead} {command : Cmd} (hangle : InTurn head.angle)
      (hnear : |commandDiff head command| ≤ turnSpeed) :
      headTurn num (fedParam upgradeTurn foodEaten) simTickRate head command =
        -commandDiff head command := by
    rw [commandDiff,
      ← (turn_arriving hspeed simTickRate hangle (inTurn_u8ToQa command.angle) hnear).2, ← hturnSpeed]
    rfl
  have hcloser : angularDistance (snakeStepHead num (fedParam upgradeTurn foodEaten) simTickRate head
        command).angle (u8ToQa command.angle) ≤ angularDistance head.angle (u8ToQa command.angle) ↔
      angularDistance (stepAngle head.angle turnSpeed (u8ToQa command.angle) simTickRate)
        (u8ToQa command.angle) ≤ |commandDiff head command| := by
    rw [hdistance, ← hturnSpeed]
    rfl
  rcases lt_or_ge turnSpeed (commandDiff head command) with hfar | hle
  · have hreach : ¬ |commandDiff head command| ≤ turnSpeed := by
      rw [abs_of_nonneg (by omega)]
      omega
    constructor
    · intro hfair
      obtain ⟨head', command', hangle', hmirror⟩ := exists_mirrored hdiff (by omega)
      have hturn := hfair.mirrored head' command' hangle' hmirror
      rw [hrising hangle' (by omega)] at hturn
      exact Or.inr (Or.inr ((hfalling hangle hfar).mp (by omega)))
    · rintro (hhalf | hnear | hsame)
      · omega
      · exact absurd hnear hreach
      · refine ⟨hcloser.mpr ?_, fun head' command' hangle' hmirror => ?_⟩
        · rw [abs_of_nonneg (by omega)]
          refine (turn_falling hspeed simTickRate hangle htarget hfar).1.mpr ?_
          rw [hsame]
          unfold commandDiff at hfar
          omega
        · rw [hrising hangle' (by omega), (hfalling hangle hfar).mpr hsame, neg_neg]
  · rcases lt_or_ge (commandDiff head command) (-turnSpeed) with hfar | hge
    · have hreach : ¬ |commandDiff head command| ≤ turnSpeed := by
        rw [abs_of_neg (by omega)]
        omega
      have hcloser' := hcloser.mpr (turn_rising hspeed simTickRate hangle htarget hfar).1
      constructor
      · intro hfair
        by_cases hhalf : commandDiff head command = -qaPi
        · exact Or.inl hhalf
        · obtain ⟨head', command', hangle', hmirror⟩ := exists_mirrored hdiff hhalf
          have hturn := hfair.mirrored head' command' hangle' hmirror
          rw [hrising hangle hfar] at hturn
          exact Or.inr (Or.inr ((hfalling hangle' (by omega)).mp hturn))
      · rintro (hhalf | hnear | hsame)
        · refine ⟨hcloser', fun head' command' hangle' hmirror => ?_⟩
          have hrange : InTurn (commandDiff head' command') :=
            (qaSub_spec hangle' (inTurn_u8ToQa command'.angle)).1
          have := hrange.2
          omega
        · exact absurd hnear hreach
        · refine ⟨hcloser', fun head' command' hangle' hmirror => ?_⟩
          rw [hrising hangle hfar]
          exact (hfalling hangle' (by omega)).mpr hsame
    · have hreach : |commandDiff head command| ≤ turnSpeed := abs_le.mpr ⟨hge, hle⟩
      refine iff_of_true ⟨hcloser.mpr ?_, fun head' command' hangle' hmirror => ?_⟩
        (Or.inr (Or.inl hreach))
      · rw [(turn_arriving hspeed simTickRate hangle htarget hreach).1]
        exact abs_nonneg _
      · rw [harriving hangle hreach, harriving hangle' (by rw [hmirror, abs_neg]; exact hreach),
          hmirror]

end

/-- At 60 Hz. -/
theorem turning_fair_sixty :
    TurnsFairly straight (fedParam 0 40) 60 { snakeHeadInit ⟨0, 0⟩ with angle := 257 } cmdDefault :=
  (turning_fair_iff straight 0 40 60 { snakeHeadInit ⟨0, 0⟩ with angle := 257 } (by decide)
    cmdDefault).mpr (Or.inr (Or.inr rfl))

/-- At 255 Hz a head that is one unit out of reach turns far past its command. -/
theorem not_turning_fair_fast : ¬ TurnsFairly straight (fedParam 0 40) 255
    { snakeHeadInit ⟨0, 0⟩ with angle := 257 } cmdDefault := by
  intro hfair
  have hfarther : ¬ angularDistance (snakeStepHead straight (fedParam 0 40) 255
      { snakeHeadInit ⟨0, 0⟩ with angle := 257 } cmdDefault).angle (u8ToQa cmdDefault.angle) ≤
      angularDistance 257 (u8ToQa cmdDefault.angle) := by decide
  exact hfarther hfair.closer

end Clither
