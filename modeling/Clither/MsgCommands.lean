import Clither.CmdQueue
import Clither.Lib.Bits
import Clither.Msg

/-!
# `MSG_COMMANDS`

The client sends all unconfirmed commands in every network update.  A message
holds the first frame number, the first command and, for each of the other
commands, one or four bits for the action and one byte for the differences of
angle and speed to the command before it.

`msgCommands` packs the queue in chunks of a hundred frames.  The commands of
every chunk are read from the front of the queue, so that only the first chunk
holds the commands of its frames; `commands_arrive_iff` says which queues arrive
unchanged all the same.
-/

namespace Clither

/-! ## Packing -/

/-- `cmd_queue_peek`. -/
def cmdQueuePeek (cmdq : CmdQueue) (idx : Nat) : Except Fault Cmd :=
  rbPeek cmdq.rb idx

/-- The bits of an action: none has changed, or the new action. -/
def actionBits (prev next : Cmd) : List Bool :=
  if next.action = prev.action then [false]
  else
    [true, decide (next.action &&& 1#3 ≠ 0#3), decide (next.action &&& 2#3 ≠ 0#3),
      decide (next.action &&& 4#3 ≠ 0#3)]

/-- The byte of the differences: three bits for the angle, five for the speed. -/
def deltaByte (prev next : Cmd) : UInt8 :=
  let da : Int := next.angle.toNat - prev.angle.toNat + 3
  let dv : Int := next.speed.toNat - prev.speed.toNat + 15
  let da := if da > 128 then da - 256 else da
  let da := if da < -128 then da + 256 else da
  ((UInt8.ofInt dv <<< 3) &&& 0xF8) ||| (UInt8.ofInt da &&& 0x07)

/-- The loop over the actions, from bit `pos` of the payload on. -/
def packActions (cmdq : CmdQueue) :
    Nat → Nat → List UInt8 → Nat → Except Fault (List UInt8 × Nat)
  | 0, _, payload, pos => .ok (payload, pos)
  | turns + 1, i, payload, pos => do
      let prev ← cmdQueuePeek cmdq (i - 1)
      let next ← cmdQueuePeek cmdq i
      let bits := actionBits prev next
      packActions cmdq turns (i + 1) (Bits.writeAll payload pos bits) (pos + bits.length)

/-- The loop over the differences, from byte `byte` of the payload on. -/
def packDeltas (cmdq : CmdQueue) :
    Nat → Nat → List UInt8 → Nat → Except Fault (List UInt8 × Nat)
  | 0, _, payload, byte => .ok (payload, byte)
  | turns + 1, i, payload, byte => do
      let prev ← cmdQueuePeek cmdq (i - 1)
      let next ← cmdQueuePeek cmdq i
      packDeltas cmdq turns (i + 1) (payload.set byte (deltaByte prev next)) (byte + 1)

/-- The first byte that holds no bit before `pos`. -/
def nextByte (pos : Nat) : Nat :=
  if pos % 8 ≠ 0 then pos / 8 + 1 else pos / 8

theorem nextByte_bounds (pos : Nat) : pos ≤ 8 * nextByte pos ∧ 8 * nextByte pos < pos + 8 := by
  unfold nextByte
  split <;> omega

/-- One message of `msg_commands`.  The 255 bytes of a payload are not
initialised. -/
def packChunk (uninit : Nat → UInt8) (cmdq : CmdQueue) (firstFrameNumber : UInt16)
    (sendCount : Nat) : Except Fault Msg := do
  let payloadLen := (2 + 3 + (12 * sendCount + 8) / 8) % 256
  let c ← cmdQueuePeek cmdq 0
  let payload := Bits.writeBytes ((List.range 255).map uninit) 0
    (bytes16 firstFrameNumber ++
      [UInt8.ofNat (sendCount - 1), c.angle, c.speed, UInt8.ofNat c.action.toNat])
  let (payload, pos) ← packActions cmdq (sendCount - 1) 1 payload (8 * 5 + 3)
  let (payload, byte) ← packDeltas cmdq (sendCount - 1) 1 payload (nextByte pos)
  if byte ≤ payloadLen then return msgAlloc .commands 0 (payload.take byte)
  else .error .overrun

/-- The loop of `msg_commands`.  There are fewer turns than commands. -/
def msgCommandsLoop (uninit : Nat → Nat → UInt8) (cmdq : CmdQueue) :
    Nat → Nat → UInt16 → List Msg → Except Fault (List Msg)
  | 0, _, _, msgs => .ok msgs
  | turns + 1, sendIdx, firstFrameNumber, msgs =>
      if sendIdx < cmdq.count then do
        let sendCount := cmdq.count - sendIdx
        let sendCount := if sendCount > 100 then 100 else sendCount
        let m ← packChunk (uninit sendIdx) cmdq firstFrameNumber sendCount
        msgCommandsLoop uninit cmdq turns (sendIdx + 100) (firstFrameNumber + 100) (msgs ++ [m])
      else .ok msgs

/-- `msg_commands`. -/
def msgCommands (uninit : Nat → Nat → UInt8) (msgs : List Msg) (cmdq : CmdQueue) :
    Except Fault (List Msg) :=
  msgCommandsLoop uninit cmdq cmdq.count 0 cmdq.frameBegin msgs

/-! ## Unpacking -/

/-- The first loop of `msg_commands_unpack_into`, which skips the actions. -/
def skipActions (payload : List UInt8) : Nat → Nat → Option Nat
  | 0, pos => some pos
  | turns + 1, pos =>
      if pos / 8 ≥ payload.length then none
      else skipActions payload turns (pos + if Bits.bitAt payload pos then 4 else 1)

/-- The action of the next command and the position behind its bits. -/
def unpackAction (payload : List UInt8) (pos : Nat) (action : BitVec 3) : BitVec 3 × Nat :=
  if Bits.bitAt payload pos then
    ((if Bits.bitAt payload (pos + 1) then 1#3 else 0#3) |||
      (if Bits.bitAt payload (pos + 2) then 2#3 else 0#3) |||
      (if Bits.bitAt payload (pos + 3) then 4#3 else 0#3), pos + 4)
  else (action, pos + 1)

/-- The command after `command`, with its action and the byte of its differences. -/
def applyDelta (command : Cmd) (action : BitVec 3) (delta : UInt8) : Cmd where
  angle := command.angle + ((delta &&& 0x07) - 3)
  speed := command.speed + (((delta >>> 3) &&& 0x1F) - 15)
  action := action

section

variable (mem : Alloc)

/-- A command is only put into the queue if its frame has not passed yet. -/
def putUnpassed (cmdq : CmdQueue) (command : Cmd) (frame frameNumber : UInt16) : CmdQueue :=
  if u16GeWrap frame frameNumber then cmdQueuePut mem cmdq command frame else cmdq

/-- The second loop of `msg_commands_unpack_into`. -/
def unpackDeltas (payload : List UInt8) (frameNumber firstFrameNumber : UInt16) (offset : Nat) :
    Nat → Nat → Nat → Cmd → CmdQueue → CmdQueue
  | 0, _, _, _, cmdq => cmdq
  | turns + 1, i, pos, command, cmdq =>
      let (action, pos) := unpackAction payload pos command.action
      let command := applyDelta command action (payloadAt payload (offset + i))
      let cmdq := putUnpassed mem cmdq command (frameAt firstFrameNumber (i + 1)) frameNumber
      unpackDeltas payload frameNumber firstFrameNumber offset turns (i + 1) pos command cmdq

/-- `msg_commands_unpack_into`: the queue, the returned status, and the first and
the last frame. -/
def msgCommandsUnpackInto (cmdq : CmdQueue) (payload : List UInt8) (frameNumber : UInt16) :
    CmdQueue × Int × UInt16 × UInt16 :=
  let firstFrameNumber := payload16 payload 0
  let commandCount := (payloadAt payload 2).toNat
  let lastFrame := frameAt firstFrameNumber commandCount
  let command : Cmd :=
    { angle := payloadAt payload 3
      speed := payloadAt payload 4
      action := BitVec.ofNat 3 (payloadAt payload 5 &&& 0x07).toNat }
  let cmdq := putUnpassed mem cmdq command firstFrameNumber frameNumber
  if commandCount = 0 then (cmdq, 0, firstFrameNumber, lastFrame)
  else
    match skipActions payload commandCount (8 * 5 + 3) with
    | none => (cmdq, -1, firstFrameNumber, lastFrame)
    | some pos =>
        let mouseDataOffset := nextByte pos
        if mouseDataOffset + commandCount > payload.length then
          (cmdq, -1, firstFrameNumber, lastFrame)
        else
          (unpackDeltas mem payload frameNumber firstFrameNumber mouseDataOffset commandCount 0
            (8 * 5 + 3) command cmdq, 0, firstFrameNumber, lastFrame)

end

end Clither
