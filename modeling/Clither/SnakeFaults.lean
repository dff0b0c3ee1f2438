import Clither.Lib.Faults
import Clither.MsgCommands
import Clither.Snake

/-!
# What the snake functions stop with

The functions of a snake get a pointer to it from their caller.  They stop when a
buffer runs empty or cannot grow, and with no other fault: what goes wrong with
the pointer goes wrong in the caller.
-/

namespace Clither

open Faults

variable {mem : Alloc} {num : Numerics} {f : Fault}

/-! ## Containers -/

section

variable {c : RbInstance} {α : Type}

/-- Reading a slot of a ring buffer can only find it empty. -/
theorem avoids_rbPeek (hne : Fault.empty ≠ f) (rb : Rb c α) (idx : Nat) :
    Avoids f (rbPeek rb idx) := by
  unfold rbPeek
  cases rb with
  | none => exact avoids_error hne
  | some r =>
      refine avoids_ite (fun _ => ?_) fun _ => avoids_error hne
      cases r.peek idx with
      | none => exact avoids_error hne
      | some elem => exact avoids_ok elem

/-- Reading the newest slot can only find the buffer empty. -/
theorem avoids_rbPeekWrite (hne : Fault.empty ≠ f) (rb : Rb c α) : Avoids f (rbPeekWrite rb) :=
  avoids_rbPeek hne rb _

/-- Taking from the read end can only find the buffer empty. -/
theorem avoids_rbTake (hne : Fault.empty ≠ f) (rb : Rb c α) : Avoids f (rbTake rb) := by
  cases rb with
  | none => exact avoids_error hne
  | some r =>
      simp only [rbTake]
      split
      · split
        · exact avoids_ok _
        · exact avoids_error hne
      · exact avoids_error hne

/-- Taking from the write end can only find the buffer empty. -/
theorem avoids_rbTakew (hne : Fault.empty ≠ f) (rb : Rb c α) : Avoids f (rbTakew rb) := by
  cases rb with
  | none => exact avoids_error hne
  | some r =>
      simp only [rbTakew]
      split
      · split
        · exact avoids_ok _
        · exact avoids_error hne
      · exact avoids_error hne

end

/-- Popping a vector can only find it empty. -/
theorem avoids_vecPop {c : VecInstance} {α : Type} (hne : Fault.empty ≠ f) (v : Vec c α) :
    Avoids f (vecPop v) := by
  unfold vecPop
  split
  · exact avoids_error hne
  · exact avoids_ok _

/-- A slot that was not emplaced is the one NULL that is written through. -/
theorem avoids_emplaced {β : Type} (hne : Fault.nullSegment ≠ f) (x : Option β) :
    Avoids f (emplaced x) := by
  cases x with
  | none => exact avoids_error hne
  | some b => exact avoids_ok b

/-- Taking a command can only find the queue empty. -/
theorem avoids_cmdQueueTakeOrPredict (hne : Fault.empty ≠ f) (cmdq : CmdQueue) (frame : UInt16) :
    Avoids f (cmdQueueTakeOrPredict cmdq frame) := by
  have hloop (fuel : Nat) : ∀ cmdq, Avoids f (takeLoop frame fuel cmdq) := by
    induction fuel with
    | zero => exact fun cmdq => avoids_ok _
    | succ fuel ih =>
        intro cmdq
        rw [takeLoop]
        refine avoids_ite (fun _ => ?_) fun _ => avoids_ok _
        have htake := avoids_rbTake hne cmdq.rb
        cases hrb : rbTake cmdq.rb with
        | error e =>
            rw [hrb] at htake
            intro h
            cases h
            exact htake rfl
        | ok taken =>
            dsimp only
            exact avoids_ite (fun _ => avoids_ok _) fun _ => ih _
  unfold cmdQueueTakeOrPredict
  exact avoids_ite (fun _ => avoids_ok _) fun _ => hloop _ _

/-! ## The curve -/

/-- Opening a segment can only write through the slot that was not emplaced. -/
theorem avoids_snakeAddNewSegment (hsegment : Fault.nullSegment ≠ f) (data : SnakeData)
    (head : SnakeHead) : Avoids f (snakeAddNewSegment mem data head) := by
  refine (avoids_emplaced hsegment _).bind fun _ _ => ?_
  refine (avoids_emplaced hsegment _).bind fun _ _ => ?_
  exact (avoids_emplaced hsegment _).bind fun _ _ => avoids_pure _

section

variable (hempty : Fault.empty ≠ f) (hsegment : Fault.nullSegment ≠ f)

include hempty

/-- Joining the boxes of the segments can only find them missing. -/
theorem avoids_snakeUpdateAabb (data : SnakeData) : Avoids f (snakeUpdateAabb data) := by
  unfold snakeUpdateAabb
  split
  · exact avoids_error hempty
  · exact avoids_ok _

/-- The box of the newest trail can only find the trail missing. -/
theorem avoids_snakeUpdateHeadTrailAabb (data : SnakeData) :
    Avoids f (snakeUpdateHeadTrailAabb data) := by
  refine (avoids_rbPeekWrite hempty _).bind fun _ _ => ?_
  refine (avoids_rbPeekWrite hempty _).bind fun trail _ => ?_
  split
  · exact avoids_error hempty
  · exact avoids_ok _

/-- Growing the curve by one point faults only as its parts do. -/
theorem avoids_snakeUpdateCurveFromHead (data : SnakeData) (head : SnakeHead) :
    Avoids f (snakeUpdateCurveFromHead mem num data head) := by
  refine (avoids_rbPeekWrite hempty _).bind fun trail _ => ?_
  refine avoids_ite (fun _ => avoids_error hempty) fun _ => ?_
  refine (avoids_rbPeek hempty _ _).bind fun _ _ => ?_
  exact (avoids_rbPeek hempty _ _).bind fun _ _ => avoids_pure _

/-- Taking the oldest segment can only find it missing. -/
theorem avoids_takeSegment (data : SnakeData) : Avoids f (takeSegment data) := by
  refine (avoids_rbTake hempty _).bind fun _ _ => ?_
  refine (avoids_rbTake hempty _).bind fun _ _ => ?_
  exact (avoids_rbTake hempty _).bind fun _ _ => avoids_pure _

/-- Removing stale segments can only find them missing, by recursion over their number. -/
theorem avoids_removeStaleSegments (data : SnakeData) (stale : Nat) :
    Avoids f (snakeRemoveStaleSegments data stale) := by
  have hloop (n : Nat) : ∀ data, Avoids f (removeStaleLoop n data) := by
    induction n with
    | zero => exact fun data => avoids_ok data
    | succ n ih =>
        intro data
        exact (avoids_takeSegment hempty data).bind fun data _ => ih data
  unfold snakeRemoveStaleSegments
  refine avoids_ite (fun _ => ?_) fun _ => avoids_error hempty
  exact (hloop _ _).bind fun data _ => avoids_snakeUpdateAabb hempty data

/-- The rollback constraint drops fewer segments and adds no fault of its own. -/
theorem avoids_removeStale (data : SnakeData) (headAck : SnakeHead) (stale : Nat) :
    Avoids f (snakeRemoveStaleSegmentsWithRollbackConstraint data headAck stale) := by
  have hloop (n : Nat) : ∀ data, Avoids f (removeStaleConstrainedLoop headAck n data) := by
    induction n with
    | zero => exact fun data => avoids_ok data
    | succ n ih =>
        intro data
        refine (avoids_rbPeek hempty _ _).bind fun bb _ => ?_
        refine avoids_ite (fun _ => avoids_ok data) fun _ => ?_
        exact (avoids_takeSegment hempty data).bind fun data _ => ih data
  unfold snakeRemoveStaleSegmentsWithRollbackConstraint
  refine avoids_ite (fun _ => ?_) fun _ => avoids_error hempty
  exact (hloop _ _).bind fun data _ => avoids_snakeUpdateAabb hempty data

/-- Taking back a point can only find the trail empty. -/
theorem avoids_popPoint (data : SnakeData) : Avoids f (popPoint data) := by
  refine (avoids_rbPeekWrite hempty _).bind fun trail _ => ?_
  refine (avoids_vecPop hempty _).bind fun trail _ => ?_
  refine avoids_ite (fun _ => ?_) fun _ => avoids_pure _
  refine (avoids_rbTakew hempty _).bind fun _ _ => ?_
  refine (avoids_rbTakew hempty _).bind fun _ _ => ?_
  refine (avoids_rbTakew hempty _).bind fun _ _ => ?_
  refine (avoids_rbPeekWrite hempty _).bind fun _ _ => ?_
  exact (avoids_vecPop hempty _).bind fun _ _ => avoids_pure _

/-- Comparing the acknowledged frames can only find the command queue empty. -/
theorem avoids_ackLoop (param : SnakeParam) (simTickRate : UInt8) (frame : UInt16) (turns : Nat)
    (last : UInt16) (head : SnakeHead) (cmdq : CmdQueue) :
    Avoids f (ackLoop num param simTickRate frame turns last head cmdq) := by
  induction turns generalizing last head cmdq with
  | zero => exact avoids_ok _
  | succ turns ih =>
      rw [ackLoop]
      refine avoids_ite (fun _ => ?_) fun _ => avoids_ok _
      exact (avoids_cmdQueueTakeOrPredict hempty _ _).bind fun _ _ => ih _ _ _

/-- Taking back the points of a rollback can only find the trails empty. -/
theorem avoids_popLoop (frame : UInt16) (turns : Nat) (predicted : UInt16) (data : SnakeData) :
    Avoids f (popLoop frame turns predicted data) := by
  induction turns generalizing predicted data with
  | zero => exact avoids_ok _
  | succ turns ih =>
      rw [popLoop]
      refine avoids_ite (fun _ => ?_) fun _ => avoids_ok _
      exact (avoids_popPoint hempty data).bind fun data _ => ih _ data

include hsegment

/-- One simulation step faults only where the curve does. -/
theorem avoids_snakeStep (data : SnakeData) (head : SnakeHead) (param : SnakeParam) (command : Cmd)
    (simTickRate : UInt8) : Avoids f (snakeStep mem num data head param command simTickRate) := by
  refine (avoids_snakeUpdateCurveFromHead hempty _ _).bind fun r _ => ?_
  refine (avoids_snakeUpdateHeadTrailAabb hempty _).bind fun data _ => ?_
  refine (avoids_snakeUpdateAabb hempty _).bind fun data _ => ?_
  refine avoids_ite (fun _ => ?_) fun _ => avoids_pure _
  exact (avoids_snakeAddNewSegment hsegment _ _).bind fun _ _ => avoids_pure _

/-- A frame of the client. -/
theorem avoids_clientStep (snake : Snake) (command : Cmd) (frame : UInt16) (simTickRate : UInt8) :
    Avoids f (clientStep mem num snake command frame simTickRate) := by
  refine (avoids_snakeStep hempty hsegment _ _ _ _ _).bind fun r _ => ?_
  exact (avoids_removeStale hempty _ _ _).bind fun _ _ => avoids_pure _

/-- Extending the curve by the new head faults only where the curve does. -/
theorem avoids_extendCurve (data : SnakeData) (head : SnakeHead) :
    Avoids f (extendCurve mem num data head) := by
  refine (avoids_snakeUpdateCurveFromHead hempty _ _).bind fun r _ => ?_
  refine avoids_ite (fun _ => ?_) fun _ => avoids_pure _
  refine (avoids_snakeUpdateHeadTrailAabb hempty _).bind fun data _ => ?_
  exact avoids_snakeAddNewSegment hsegment _ _

/-- Replaying commands faults only where one step does, by induction on the commands. -/
theorem avoids_replayLoop (param : SnakeParam) (simTickRate : UInt8) (commands : List Cmd)
    (data : SnakeData) (head : SnakeHead) :
    Avoids f (replayLoop mem num param simTickRate commands data head) := by
  induction commands generalizing data head with
  | nil => exact avoids_ok _
  | cons command rest ih =>
      exact (avoids_extendCurve hempty hsegment _ _).bind fun data _ => ih data _

/-- An acknowledged frame. -/
theorem avoids_snakeAckFrame (snake : Snake) (authoritative : SnakeHead) (frame : UInt16)
    (simTickRate : UInt8) :
    Avoids f (snakeAckFrame mem num snake authoritative frame simTickRate) := by
  unfold snakeAckFrame
  refine avoids_ite (fun _ => avoids_ok _) fun _ => ?_
  refine avoids_ite (fun _ => avoids_ok _) fun _ => ?_
  refine (avoids_ackLoop hempty _ _ _ _ _ _ _).bind fun acked _ => ?_
  refine avoids_ite (fun _ => avoids_pure _) fun _ => ?_
  refine (avoids_rbPeekWrite hempty _).bind fun _ _ => ?_
  refine (avoids_popLoop hempty _ _ _ _).bind fun data _ => ?_
  refine (avoids_extendCurve hempty hsegment _ _).bind fun data _ => ?_
  refine (avoids_replayLoop hempty hsegment _ _ _ _ _).bind fun r _ => ?_
  refine (avoids_snakeUpdateHeadTrailAabb hempty _).bind fun data _ => ?_
  exact (avoids_snakeUpdateAabb hempty _).bind fun _ _ => avoids_pure _

end

/-! ## Messages with commands -/

section

variable (hempty : Fault.empty ≠ f) (hoverrun : Fault.overrun ≠ f)

include hempty

/-- Packing the actions can only run off the end of the commands, by induction on the loop. -/
theorem avoids_packActions (cmdq : CmdQueue) (turns i : Nat) (payload : List UInt8) (pos : Nat) :
    Avoids f (packActions cmdq turns i payload pos) := by
  induction turns generalizing i payload pos with
  | zero => exact avoids_ok _
  | succ turns ih =>
      refine (avoids_rbPeek hempty _ _).bind fun prev _ => ?_
      exact (avoids_rbPeek hempty _ _).bind fun next _ => ih _ _ _

/-- Packing the deltas can only run off the end of the commands, by induction on the loop. -/
theorem avoids_packDeltas (cmdq : CmdQueue) (turns i : Nat) (payload : List UInt8) (byte : Nat) :
    Avoids f (packDeltas cmdq turns i payload byte) := by
  induction turns generalizing i payload byte with
  | zero => exact avoids_ok _
  | succ turns ih =>
      refine (avoids_rbPeek hempty _ _).bind fun prev _ => ?_
      exact (avoids_rbPeek hempty _ _).bind fun next _ => ih _ _ _

include hoverrun

/-- The chain of command messages faults only as the two packing loops do. -/
theorem avoids_msgCommands (uninit : Nat → Nat → UInt8) (msgs : List Msg) (cmdq : CmdQueue) :
    Avoids f (msgCommands uninit msgs cmdq) := by
  have hchunk (uninit : Nat → UInt8) (frame : UInt16) (sendCount : Nat) :
      Avoids f (packChunk uninit cmdq frame sendCount) := by
    refine (avoids_rbPeek hempty _ _).bind fun c _ => ?_
    refine (avoids_packActions hempty _ _ _ _ _).bind fun r _ => ?_
    refine (avoids_packDeltas hempty _ _ _ _ _).bind fun r _ => ?_
    exact avoids_ite (fun _ => avoids_pure _) fun _ => avoids_error hoverrun
  have hloop (turns : Nat) : ∀ sendIdx frame msgs,
      Avoids f (msgCommandsLoop uninit cmdq turns sendIdx frame msgs) := by
    induction turns with
    | zero => exact fun _ _ msgs => avoids_ok msgs
    | succ turns ih =>
        intro sendIdx frame msgs
        rw [msgCommandsLoop]
        refine avoids_ite (fun _ => ?_) fun _ => avoids_ok _
        exact (hchunk _ _ _).bind fun m _ => ih _ _ _
  exact hloop _ _ _ _

end

end Clither
