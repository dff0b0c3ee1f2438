import Clither.Mem

/-!
# Commands

A command is the input that steps a snake forward by one frame.  `cmd_make`
limits how far angle and speed may move from one frame to the next, so that the
difference fits into a few bits on the wire.
-/

namespace Clither

/-- `struct cmd`: the action is a bit field of width 3. -/
structure Cmd where
  angle : UInt8
  speed : UInt8
  action : BitVec 3
  deriving DecidableEq, Repr

/-- `CMD_ACTION_NONE`. -/
def cmdActionNone : BitVec 3 := 0#3

/-- `CMD_ACTION_BOOST`. -/
def cmdActionBoost : BitVec 3 := 1#3

def cmdDefault : Cmd where
  angle := 128
  speed := 0
  action := cmdActionNone

/-- The difference of two angles, on the shorter way round. -/
def angleDelta (newAngle angle : UInt8) : Int :=
  let da : Int := newAngle.toNat - angle.toNat
  if da > 128 then da - 256
  else if da < -128 then da + 256
  else da

/-- `cmd_make` from the two floats on, which it has converted to 8 bits. -/
def cmdMake (prev : Cmd) (newAngle newSpeed : UInt8) (action : BitVec 3) : Cmd where
  angle :=
    if angleDelta newAngle prev.angle > 3 then prev.angle + 3
    else if angleDelta newAngle prev.angle < -3 then prev.angle - 3
    else newAngle
  speed :=
    if (newSpeed.toNat : Int) - prev.speed.toNat > 15 then prev.speed + 15
    else if (newSpeed.toNat : Int) - prev.speed.toNat < -15 then prev.speed - 15
    else newSpeed
  action := action

/-- The command is one that `cmd_make` makes from the command before it. -/
def CmdStep (prev next : Cmd) : Prop :=
  ∃ newAngle newSpeed action, next = cmdMake prev newAngle newSpeed action

end Clither
