import Clither.Cmd
import Clither.RbOps
import Clither.Wrap

/-!
# The command queue

The commands of consecutive frames, oldest first, with the frame number of the
oldest.  `cmdQueuePut` appends the command of the next frame and
`cmdQueueTakeOrPredict` removes the commands up to a frame.

The lemmas speak about the list of queued commands and about frames counted
from `firstFrame`, so that the wrapped frame numbers stay out of the proofs
that use the queue.
-/

namespace Clither

/-- The instance behind `cmd_rb`. -/
def cmdRb : RbInstance where
  bits := 16
  sizeofElem := 4
  fits := RbIndex.fits .int16
  sizeofElem_pos := ElemType.size_pos .cmd

structure CmdQueue where
  rb : Rb cmdRb Cmd
  lastCommandRead : Cmd
  firstFrame : UInt16
  deriving DecidableEq

/-- `cmd_queue_init`. -/
def cmdQueueInit : CmdQueue where
  rb := none
  lastCommandRead := cmdDefault
  firstFrame := 0

namespace CmdQueue

/-- The queued commands, oldest first. -/
def commands (cmdq : CmdQueue) : List Cmd :=
  rbToList cmdq.rb

/-- `cmd_queue_count`. -/
def count (cmdq : CmdQueue) : Nat :=
  rbCount cmdq.rb

/-- `cmd_queue_frame_begin`. -/
def frameBegin (cmdq : CmdQueue) : UInt16 :=
  cmdq.firstFrame

/-- `cmd_queue_frame_end`. -/
def frameEnd (cmdq : CmdQueue) : UInt16 :=
  frameAt cmdq.firstFrame cmdq.count

@[simp] theorem length_commands (cmdq : CmdQueue) : cmdq.commands.length = cmdq.count :=
  length_rbToList cmdq.rb

/-- The indices of the command buffer have 16 bits. -/
theorem count_lt (cmdq : CmdQueue) : cmdq.count < 2 ^ 14 := by
  unfold count rbCount
  cases cmdq.rb with
  | none => decide
  | some r =>
      have hfits : r.logCapacity + 1 < 16 := r.fits
      exact lt_of_lt_of_le r.count_lt (Nat.pow_le_pow_right (by decide) (by omega))

/-- How many frames a frame is behind the oldest one. -/
def distance (cmdq : CmdQueue) (frame : UInt16) : Nat :=
  (frame - cmdq.firstFrame).toNat

theorem distance_lt (cmdq : CmdQueue) (frame : UInt16) : cmdq.distance frame < 65536 :=
  (frame - cmdq.firstFrame).toNat_lt

theorem frameAt_distance (cmdq : CmdQueue) (frame : UInt16) :
    frameAt cmdq.firstFrame (cmdq.distance frame) = frame := by
  obtain ⟨n, hn, rfl⟩ := exists_frameAt_eq cmdq.firstFrame frame
  rw [distance, sub_frameAt _ hn]

/-- The command of the frame is in the queue: `begin <= frame < end` in the wrap
order. -/
def queued (cmdq : CmdQueue) (frame : UInt16) : Bool :=
  u16GeWrap frame cmdq.frameBegin && u16LtWrap frame cmdq.frameEnd

/-- The queue is so much shorter than half a turn that the wrap order agrees
with the distances. -/
theorem queued_iff (cmdq : CmdQueue) (frame : UInt16) :
    cmdq.queued frame = true ↔ cmdq.distance frame < cmdq.count := by
  have hwindow := u16Wrap_window cmdq.firstFrame (cmdq.distance_lt frame) cmdq.count_lt
  rw [cmdq.frameAt_distance] at hwindow
  rw [queued, Bool.and_eq_true]
  exact hwindow

/-- The guard of `snake_ack_frame` lets the frames of the queue pass, and the one
after them. -/
theorem outside_iff {cmdq : CmdQueue} (hpos : 0 < cmdq.count) (frame : UInt16) :
    (u16LtWrap frame cmdq.frameBegin = true ∨ u16GtWrap frame cmdq.frameEnd = true) ↔
      cmdq.count < cmdq.distance frame := by
  have houtside := u16Wrap_outside cmdq.firstFrame (cmdq.distance_lt frame) cmdq.count_lt hpos
  rw [cmdq.frameAt_distance] at houtside
  exact houtside

end CmdQueue

/-- `cmd_queue_put`. -/
def cmdQueuePut (mem : Alloc) (cmdq : CmdQueue) (command : Cmd) (frameNumber : UInt16) : CmdQueue :=
  if cmdq.count > 0 ∧ cmdq.frameEnd ≠ frameNumber then cmdq
  else
    let cmdq := if cmdq.count > 0 then cmdq else { cmdq with firstFrame := frameNumber }
    match rbPutRealloc mem cmdq.rb command with
    | some rb => { cmdq with rb := rb }
    | none => cmdq

/-- The loop of `cmd_queue_take_or_predict`.  Every turn removes a command, so
there are never more turns than queued commands. -/
def takeLoop (frameNumber : UInt16) : Nat → CmdQueue → Except Fault (CmdQueue × Cmd)
  | 0, cmdq => .ok (cmdq, cmdq.lastCommandRead)
  | fuel + 1, cmdq =>
      if cmdq.count > 0 then
        match rbTake cmdq.rb with
        | .error f => .error f
        | .ok (command, rb) =>
            let taken : CmdQueue :=
              { rb := rb, lastCommandRead := command, firstFrame := cmdq.firstFrame + 1 }
            if cmdq.frameBegin = frameNumber then .ok (taken, command)
            else takeLoop frameNumber fuel taken
      else .ok (cmdq, cmdq.lastCommandRead)

/-- `cmd_queue_take_or_predict`. -/
def cmdQueueTakeOrPredict (cmdq : CmdQueue) (frameNumber : UInt16) :
    Except Fault (CmdQueue × Cmd) :=
  if u16LtWrap frameNumber cmdq.frameBegin then .ok (cmdq, cmdq.lastCommandRead)
  else takeLoop frameNumber cmdq.count cmdq

/-! ## What the functions do to the list of commands -/

/-- A frame is not before itself. -/
theorem u16LtWrap_self (f : UInt16) : u16LtWrap f f = false := by
  have h := u16LtWrap_add (b := f) (i := 0) (j := 0) (by decide) (by decide)
  simpa using h

/-- Taking the oldest frame takes the oldest command. -/
theorem takeOrPredict_begin {cmdq : CmdQueue} {command : Cmd} {rest : List Cmd}
    (h : cmdq.commands = command :: rest) :
    ∃ cmdq', cmdQueueTakeOrPredict cmdq cmdq.frameBegin = .ok (cmdq', command) ∧
      cmdq'.commands = rest ∧ cmdq'.firstFrame = cmdq.firstFrame + 1 ∧
      cmdq'.lastCommandRead = command := by
  obtain ⟨rb', htake, hrest⟩ := rbTake_of_cons h
  have hcount : cmdq.count = rest.length + 1 := by
    rw [← cmdq.length_commands, h, List.length_cons]
  refine ⟨⟨rb', command, cmdq.firstFrame + 1⟩, ?_, hrest, rfl, rfl⟩
  rw [cmdQueueTakeOrPredict, u16LtWrap_self, hcount]
  simp [takeLoop, hcount, htake]

/-- With no command left the last one read is used again. -/
theorem takeOrPredict_empty {cmdq : CmdQueue} (h : cmdq.commands = []) (frameNumber : UInt16) :
    cmdQueueTakeOrPredict cmdq frameNumber = .ok (cmdq, cmdq.lastCommandRead) := by
  have hcount : cmdq.count = 0 := by
    rw [← cmdq.length_commands, h, List.length_nil]
  rw [cmdQueueTakeOrPredict, hcount]
  split <;> rfl

/-- The command of the next frame is appended if there is space. -/
theorem cmdQueuePut_next {mem : Alloc} {cmdq : CmdQueue} (command : Cmd) {frameNumber : UInt16}
    (hframe : 0 < cmdq.count → frameNumber = cmdq.frameEnd)
    (hspace : rbHasSpace mem cmdq.rb = true) :
    (cmdQueuePut mem cmdq command frameNumber).commands = cmdq.commands ++ [command] ∧
    (cmdQueuePut mem cmdq command frameNumber).lastCommandRead = cmdq.lastCommandRead ∧
    (cmdQueuePut mem cmdq command frameNumber).firstFrame =
      (if 0 < cmdq.count then cmdq.firstFrame else frameNumber) := by
  rcases rbPutRealloc_spec mem cmdq.rb command with ⟨hno, -⟩ | ⟨-, rb', hput, hlist⟩
  · exact absurd (hspace.symm.trans hno) (by decide)
  · have hnot : ¬ (cmdq.count > 0 ∧ cmdq.frameEnd ≠ frameNumber) :=
      fun h => h.2 (hframe h.1).symm
    rw [cmdQueuePut, if_neg hnot]
    by_cases hpos : cmdq.count > 0
    · simpa only [if_pos hpos, hput, CmdQueue.commands, and_self, and_true] using hlist
    · simpa only [if_neg hpos, hput, CmdQueue.commands, and_self, and_true] using hlist

/-- The queue then ends behind that frame. -/
theorem cmdQueuePut_frameEnd {mem : Alloc} {cmdq : CmdQueue} (command : Cmd) {frameNumber : UInt16}
    (hframe : 0 < cmdq.count → frameNumber = cmdq.frameEnd)
    (hspace : rbHasSpace mem cmdq.rb = true) :
    (cmdQueuePut mem cmdq command frameNumber).frameEnd = frameNumber + 1 := by
  obtain ⟨hcommands, -, hfirst⟩ := cmdQueuePut_next command hframe hspace
  have hcount := (cmdQueuePut mem cmdq command frameNumber).length_commands
  rw [hcommands, List.length_append, CmdQueue.length_commands, List.length_singleton] at hcount
  rw [CmdQueue.frameEnd, ← hcount, hfirst, frameAt_succ]
  by_cases hpos : 0 < cmdq.count
  · rw [if_pos hpos, hframe hpos]
    rfl
  · rw [if_neg hpos, Nat.eq_zero_of_not_pos hpos, frameAt_zero]

end Clither
