import Clither.ClientSnake
import Clither.RollbackExact

/-!
# Whole runs of the client's snake

`rollback_data_kept` is about runs whose messages are for queued frames: in every
state the acknowledged head is on the curve, and the points behind it are as many
as a rollback to any queued frame takes back.

`acks_monotone` is about runs with messages for any frame, in any order and any
number of times.  Only the frame right behind the queue is not told apart from
the frames in it.
-/

namespace Clither

open Faults (bind_eq_ok)

variable {mem : Alloc} {num : Numerics} {simTickRate : UInt8}

/-! ## The first state -/

/-- Every buffer of a new snake has one element, or two of them. -/
theorem snakeInit_spec {spawnPos : QwPos} {snake : Snake}
    (h : snakeInit mem spawnPos = some snake) :
    snake.data.trails = [[spawnPos]] ∧ rbCount snake.data.bezierHandles = 2 ∧
      snake.data.boxes = [qwaabbPoint spawnPos] ∧ snake.cmdq = cmdQueueInit ∧
      snake.head = snake.headAck ∧ snake.headAck.pos = spawnPos := by
  obtain ⟨data, hdata, hsnake⟩ := Option.bind_eq_some_iff.mp h
  cases hsnake
  simp only [snakeDataInit] at hdata
  by_cases hroom : vecHasSpace mem (vecInit : Trail) = false
  · rw [if_pos hroom] at hdata
    cases hdata
  · rw [if_neg hroom] at hdata
    obtain ⟨trails, htrails, hdata⟩ := Option.bind_eq_some_iff.mp hdata
    obtain ⟨handles₁, hhandles₁, hdata⟩ := Option.bind_eq_some_iff.mp hdata
    obtain ⟨handles₂, hhandles₂, hdata⟩ := Option.bind_eq_some_iff.mp hdata
    obtain ⟨boxes, hboxes, hdata⟩ := Option.bind_eq_some_iff.mp hdata
    cases hdata
    refine ⟨?_, ?_, ?_, rfl, rfl, rfl⟩
    · show (rbToList trails).map Vec.items = _
      rw [rbToList_rbPutRealloc htrails, rbToList_none, List.nil_append, List.map_cons, List.map_nil,
        items_vecPush, if_pos (Bool.eq_true_of_not_eq_false hroom)]
      rfl
    · show rbCount handles₂ = 2
      rw [← length_rbToList, rbToList_rbPutRealloc hhandles₂, rbToList_rbPutRealloc hhandles₁]
      rfl
    · show rbToList boxes = _
      rw [rbToList_rbPutRealloc hboxes]
      rfl

/-- A new snake is tracked from any frame number on. -/
theorem tracked_init {spawnPos : QwPos} {snake : Snake} (h : snakeInit mem spawnPos = some snake)
    (frame : UInt16) : Tracked num simTickRate { snake := snake, frame := frame } := by
  obtain ⟨htrails, hhandles, hboxes, hcmdq, hhead, hpos⟩ := snakeInit_spec h
  have hcommands : snake.cmdq.commands = [] := by
    rw [hcmdq]
    rfl
  refine ⟨⟨?_, ?_, ?_⟩, ?_, ⟨[], ?_⟩, ?_, ?_⟩
  · show Chain.Segmented snake.data.trails
    rw [htrails]
    exact List.cons_ne_nil _ _
  · show rbCount snake.data.bezierHandles = snake.data.trails.length + 1
    rw [htrails, hhandles]
    rfl
  · show snake.data.boxes.length = snake.data.trails.length
    rw [htrails, hboxes]
    rfl
  · show List.Forall₂ _ snake.data.trails snake.data.boxes
    rw [htrails, hboxes]
    exact .cons (covers_point _) .nil
  · show Chain.joined snake.data.trails = [] ++ snake.headAck.pos ::
      (headsFrom num snake.param simTickRate snake.headAck snake.cmdq.commands).map SnakeHead.pos
    rw [htrails, hcommands, hpos]
    rfl
  · intro hpositive
    change 0 < snake.cmdq.count at hpositive
    rw [← CmdQueue.length_commands, hcommands] at hpositive
    exact absurd hpositive (lt_irrefl 0)
  · show snake.head = stepAll num snake.param simTickRate snake.headAck snake.cmdq.commands
    rw [hcommands, hhead]
    rfl

/-! ## Rollback data -/

/-- A rollback to the frame finds the room it needs, or none is necessary. -/
def ackRoom (mem : Alloc) (num : Numerics) (simTickRate : UInt8) (snake : Snake) (frame : UInt16)
    (authoritative : SnakeHead) : Bool :=
  decide (ackedHead num simTickRate snake (snake.cmdq.distance frame) = authoritative) ||
    rollbackRoom mem num simTickRate snake authoritative (snake.cmdq.distance frame)

/-- The containers have room for the event, fewer segments are removed than
there are, and messages are for queued frames. -/
def eventInRange (mem : Alloc) (num : Numerics) (simTickRate : UInt8) (s : ClientRun) :
    ClientEvent → Bool
  | .step command => stepRoom mem num simTickRate s command
  | .removeStale stale => decide (stale < s.snake.data.trails.length)
  | .ack frame authoritative =>
      s.snake.cmdq.queued frame && ackRoom mem num simTickRate s.snake frame authoritative

/-- What a rollback to any queued frame needs. -/
structure RollbackKept (mem : Alloc) (num : Numerics) (simTickRate : UInt8) (s : ClientRun) :
    Prop where
  /-- The acknowledged head is on the curve, and as many points follow it as
  commands are queued. -/
  ackd : ∃ older newer, s.snake.data.points = older ++ s.snake.headAck.pos :: newer ∧
    newer.length = (s.snake.cmdq.frameEnd - s.snake.cmdq.frameBegin).toNat
  /-- It is a point of a trail that has not been removed. -/
  retained : ∃ trail ∈ s.snake.data.trails, s.snake.headAck.pos ∈ trail
  /-- No trail is empty, and each has its handles and its box. -/
  filled : (∀ trail ∈ s.snake.data.trails, trail ≠ []) ∧
    rbCount s.snake.data.bezierHandles = s.snake.data.trails.length + 1 ∧
    s.snake.data.boxes.length = s.snake.data.trails.length ∧ s.snake.data.trails ≠ []
  /-- The points since a queued frame can be taken back. -/
  taken : ∀ k, k < s.snake.cmdq.count → ∃ data, takenBack s.snake.data
    (frameAt s.snake.cmdq.firstFrame k) (s.snake.cmdq.count - k) = .ok data ∧ data.WF
  /-- A message for a queued frame is handled to its end. -/
  handled : ∀ frame authoritative, s.snake.cmdq.queued frame = true →
    ackRoom mem num simTickRate s.snake frame authoritative = true →
    ∃ snake, snakeAckFrame mem num s.snake authoritative frame simTickRate = .ok snake

/-- A message for a queued frame, with the frame as it arrives. -/
theorem Tracked.ack_queued {s : ClientRun} (h : Tracked num simTickRate s) {frame : UInt16}
    {authoritative : SnakeHead} (hqueued : s.snake.cmdq.queued frame = true)
    (hroom : ackRoom mem num simTickRate s.snake frame authoritative = true) :
    ∃ s', clientEvent mem num simTickRate s (.ack frame authoritative) = .ok s' ∧
      Tracked num simTickRate s' ∧ Acked s.snake (s.snake.cmdq.distance frame) s'.snake ∧
      s'.snake.headAck = authoritative ∧ s'.frame = s.frame := by
  have hk := (s.snake.cmdq.queued_iff frame).mp hqueued
  have hrollback : ackedHead num simTickRate s.snake (s.snake.cmdq.distance frame) ≠ authoritative →
      rollbackRoom mem num simTickRate s.snake authoritative (s.snake.cmdq.distance frame) = true := by
    intro hdiff
    rw [ackRoom, decide_eq_false hdiff, Bool.false_or] at hroom
    exact hroom
  obtain ⟨s', hok, htracked, hacked, hhead⟩ := h.ack hk hrollback
  rw [s.snake.cmdq.frameAt_distance] at hok
  refine ⟨s', hok, htracked, hacked, hhead, ?_⟩
  obtain ⟨snake, -, hs'⟩ := bind_eq_ok.mp hok
  cases hs'
  rfl

/-- **One event in range** keeps the acknowledged head on the curve. -/
theorem Tracked.event {s : ClientRun} (h : Tracked num simTickRate s) (e : ClientEvent)
    (hrange : eventInRange mem num simTickRate s e = true) :
    ∃ s', clientEvent mem num simTickRate s e = .ok s' ∧ Tracked num simTickRate s' := by
  cases e with
  | step command =>
      obtain ⟨s', hok, htracked, -⟩ := h.step hrange
      exact ⟨s', hok, htracked⟩
  | removeStale stale =>
      obtain ⟨data, hok, htracked⟩ := h.removeStale mem (of_decide_eq_true hrange)
      exact ⟨_, hok, htracked⟩
  | ack frame authoritative =>
      obtain ⟨hqueued, hroom⟩ := Bool.and_eq_true _ _ ▸ hrange
      obtain ⟨s', hok, htracked, -⟩ := h.ack_queued hqueued hroom
      exact ⟨s', hok, htracked⟩

/-- The points since a queued frame can be taken back. -/
theorem Tracked.taken {s : ClientRun} (h : Tracked num simTickRate s) {k : Nat}
    (hk : k < s.snake.cmdq.count) :
    ∃ data, takenBack s.snake.data (frameAt s.snake.cmdq.firstFrame k) (s.snake.cmdq.count - k) =
        .ok data ∧ data.WF ∧
      data.trails = Chain.keep (s.snake.data.points.length - (s.snake.cmdq.count - k))
        s.snake.data.trails := by
  obtain ⟨older, hpoints⟩ := h.ackd
  have hcount := s.snake.cmdq.count_lt
  have hlong : s.snake.cmdq.count - k < s.snake.data.points.length := by
    rw [hpoints, List.length_append, List.length_cons, List.length_map, length_headsFrom,
      CmdQueue.length_commands]
    omega
  obtain ⟨data, htaken, hwf, htrails, -⟩ := popLoop_spec h.wf (frameAt s.snake.cmdq.firstFrame k)
    (show s.snake.cmdq.count - k < 2 ^ 15 by omega) hlong
  exact ⟨data, htaken, hwf, htrails⟩

theorem Tracked.rollbackKept {s : ClientRun} (h : Tracked num simTickRate s) :
    RollbackKept mem num simTickRate s := by
  obtain ⟨older, hpoints⟩ := h.ackd
  have hcount := s.snake.cmdq.count_lt
  refine ⟨⟨older, _, hpoints, ?_⟩, ?_, ⟨h.wf.segmented.forall_ne_nil, h.wf.handles_eq,
    h.wf.boxes_eq, h.wf.segmented.ne_nil⟩, ?_, ?_⟩
  · rw [List.length_map, length_headsFrom, CmdQueue.length_commands, CmdQueue.frameEnd,
      CmdQueue.frameBegin, sub_frameAt _ (by omega)]
  · refine Chain.exists_mem_of_mem_joined ?_
    show s.snake.headAck.pos ∈ s.snake.data.points
    rw [hpoints]
    exact List.mem_append_right _ List.mem_cons_self
  · intro k hk
    obtain ⟨data, htaken, hwf, -⟩ := h.taken hk
    exact ⟨data, htaken, hwf⟩
  · intro frame authoritative hqueued hroom
    obtain ⟨s', hok, -⟩ := h.ack_queued hqueued hroom
    obtain ⟨snake, hsnake, -⟩ := bind_eq_ok.mp hok
    exact ⟨snake, hsnake⟩

/-- **Rollback data is never discarded too early.**  Every state of a run from a
new snake, whose messages are for queued frames, has what a rollback needs. -/
theorem rollback_data_kept (mem : Alloc) (num : Numerics) (simTickRate : UInt8) (spawnPos : QwPos)
    (snake : Snake) (frame : UInt16) (events : List ClientEvent)
    (hinit : snakeInit mem spawnPos = some snake)
    (hrange : Run.Meets (clientEvent mem num simTickRate)
      (fun s e => eventInRange mem num simTickRate s e = true) ⟨snake, frame⟩ events) :
    Run.EveryState (clientEvent mem num simTickRate) (RollbackKept mem num simTickRate)
      ⟨snake, frame⟩ events :=
  Run.everyState_of_meets (fun _ e h => h.event e) (fun _ h => h.rollbackKept)
    (tracked_init hinit frame) hrange

/-- The new snake of the examples. -/
def freshSnake : Snake :=
  (snakeInit Alloc.unlimited ⟨0, 0⟩).get (by decide +kernel)

/-- Eight frames, which open two segments, and the rollback of the oldest one.  The first removal
finds both older segments needed, the second one, after five more frames are acknowledged, takes
one of them. -/
def removingRun : List ClientEvent :=
  List.replicate 8 (.step cmdDefault) ++
    [.ack 65535 (snakeHeadInit ⟨5, 5⟩), .removeStale 2, .ack 4 (snakeHeadInit ⟨6, 6⟩),
      .removeStale 2, .step cmdDefault]

theorem rollback_data_kept_removing :
    Run.EveryState (clientEvent Alloc.unlimited eastward 60)
      (RollbackKept Alloc.unlimited eastward 60) ⟨freshSnake, 65535⟩ removingRun :=
  rollback_data_kept Alloc.unlimited eastward 60 ⟨0, 0⟩ freshSnake 65535 removingRun
    (by decide +kernel) (by decide +kernel)

/-- With memory for every request a step has room as long as no counter is at
its end. -/
theorem stepRoom_unlimited {s : ClientRun} (hwf : s.snake.data.WF) (command : Cmd)
    (hqueue : s.snake.cmdq.count + 1 < 2 ^ 14) (hsegments : s.snake.data.trails.length < 63)
    (hnewest : newestLength s.snake.data.trails < 2 ^ 14) :
    stepRoom Alloc.unlimited num simTickRate s command = true := by
  obtain ⟨init, t, ht, -⟩ := hwf.exists_concat
  have hspace : rbHasSpace Alloc.unlimited s.snake.cmdq.rb = true := by
    rw [rbHasSpace_unlimited]
    exact decide_eq_true hqueue
  rw [ht, newestLength_concat] at hnewest
  rw [stepRoom, extendRoom, hspace, newestRoom_unlimited ht, segmentRoom_unlimited hwf,
    decide_eq_true hnewest, decide_eq_true hsegments, Bool.or_true]
  rfl

/-- With memory for every request a message for a queued frame has room if the
replayed points fit. -/
theorem ackRoom_unlimited {s : ClientRun} (h : Tracked num simTickRate s)
    (hshort : FitsShortTrails num.fitTrail) {frame : UInt16} (authoritative : SnakeHead)
    (hqueued : s.snake.cmdq.queued frame = true)
    (hfits : ReplayFits s.snake.data (s.snake.cmdq.count - s.snake.cmdq.distance frame)) :
    ackRoom Alloc.unlimited num simTickRate s.snake frame authoritative = true := by
  have hk := (s.snake.cmdq.queued_iff frame).mp hqueued
  obtain ⟨data, htaken, hwf, htrails⟩ := h.taken hk
  obtain ⟨init, t, ht, -⟩ := hwf.exists_concat
  rw [ReplayFits, ← htrails, ht, newestLength_concat, List.length_append, List.length_singleton]
    at hfits
  rw [ackRoom, rollbackRoom, htaken]
  refine Bool.or_eq_true _ _ ▸ Or.inr (extendAllRoom_of_fits hwf hshort ht ?_ ?_) <;>
    rw [length_replayedHeads _ _ _ _ hk]
  · exact hfits.1
  · exact hfits.2

/-! ## Messages in any order -/

/-- A run together with what it does not store: the frame number without wrap
and the messages that were for a queued frame, newest first. -/
structure Session where
  run : ClientRun
  clock : Nat
  accepted : List (Nat × SnakeHead)
  deriving DecidableEq

/-- The session that begins with a new snake. -/
def Session.begin (snake : Snake) (clock : Nat) : Session where
  run := { snake := snake, frame := UInt16.ofNat clock }
  clock := clock
  accepted := []

/-- The number, without wrap, of a queued frame. -/
def Session.frameNumber (s : Session) (frame : UInt16) : Nat :=
  s.clock - s.run.snake.cmdq.count + s.run.snake.cmdq.distance frame

def Session.event (mem : Alloc) (num : Numerics) (simTickRate : UInt8) (s : Session)
    (e : ClientEvent) : Except Fault Session := do
  let run ← clientEvent mem num simTickRate s.run e
  match e with
  | .step _ => return { s with run := run, clock := s.clock + 1 }
  | .removeStale _ => return { s with run := run }
  | .ack frame authoritative =>
      if s.run.snake.cmdq.queued frame then
        return { s with run := run, accepted := (s.frameNumber frame, authoritative) :: s.accepted }
      else return { s with run := run }

/-- The containers have room for the event, and no message is for the frame right
behind the queue, unless the queue is empty. -/
def eventToldApart (mem : Alloc) (num : Numerics) (simTickRate : UInt8) (s : ClientRun) :
    ClientEvent → Bool
  | .step command => stepRoom mem num simTickRate s command
  | .removeStale stale => decide (stale < s.snake.data.trails.length)
  | .ack frame authoritative =>
      (decide (s.snake.cmdq.count = 0) || decide (frame ≠ s.snake.cmdq.frameEnd)) &&
        (!s.snake.cmdq.queued frame || ackRoom mem num simTickRate s.snake frame authoritative)

/-- What a message does: one for a queued frame moves the queue behind it and
makes its head the acknowledged one, any other changes nothing. -/
def AckEffect (s : Session) : ClientEvent → Session → Prop
  | .ack frame authoritative, s' =>
      (s.run.snake.cmdq.queued frame = true →
        s'.run.snake.cmdq.frameBegin = frame + 1 ∧ s'.run.snake.headAck = authoritative) ∧
      (s.run.snake.cmdq.queued frame = false → s'.run.snake = s.run.snake)
  | _, _ => True

/-- What is known of the two heads. -/
structure HeadsKnown (num : Numerics) (simTickRate : UInt8) (s : Session) : Prop where
  /-- The acknowledged head is that of the newest accepted frame, which the queue
  begins behind. -/
  newest : ∀ n authoritative older, s.accepted = (n, authoritative) :: older →
    s.run.snake.headAck = authoritative ∧ s.run.snake.cmdq.frameBegin = UInt16.ofNat (n + 1)
  /-- The frames of accepted messages increase. -/
  increasing : s.accepted.Pairwise fun newer older => older.1 < newer.1
  /-- The predicted head is the acknowledged one after the queued commands. -/
  predicted : s.run.snake.head =
    stepAll num s.run.snake.param simTickRate s.run.snake.headAck s.run.snake.cmdq.commands

/-- The invariant of a session. -/
structure Session.Known (num : Numerics) (simTickRate : UInt8) (s : Session) : Prop where
  tracked : Tracked num simTickRate s.run
  frame_eq : s.run.frame = UInt16.ofNat s.clock
  count_le : s.run.snake.cmdq.count ≤ s.clock
  newest : ∀ n authoritative older, s.accepted = (n, authoritative) :: older →
    s.run.snake.headAck = authoritative ∧ n + 1 + s.run.snake.cmdq.count = s.clock ∧
      s.run.snake.cmdq.firstFrame = UInt16.ofNat (n + 1)
  increasing : s.accepted.Pairwise fun newer older => older.1 < newer.1

theorem Session.Known.headsKnown {s : Session} (h : s.Known num simTickRate) :
    HeadsKnown num simTickRate s where
  newest := by
    intro n authoritative older haccepted
    obtain ⟨hhead, -, hfirst⟩ := h.newest n authoritative older haccepted
    exact ⟨hhead, hfirst⟩
  increasing := h.increasing
  predicted := h.tracked.predicted

/-- Accepted frames are before those that are still queued. -/
theorem Session.Known.accepted_lt {s : Session} (h : s.Known num simTickRate) (frame : UInt16) :
    ∀ message ∈ s.accepted, message.1 < s.frameNumber frame := by
  have hincreasing := h.increasing
  cases haccepted : s.accepted with
  | nil => simp
  | cons newest older =>
      rw [haccepted] at hincreasing
      obtain ⟨-, hclock, -⟩ := h.newest newest.1 newest.2 older haccepted
      have hlt : newest.1 < s.frameNumber frame := by
        unfold Session.frameNumber
        omega
      intro message hmem
      rcases List.mem_cons.mp hmem with rfl | hold
      · exact hlt
      · exact lt_trans ((List.pairwise_cons.mp hincreasing).1 message hold) hlt

/-- A message that is not for a queued frame, nor for the one behind them. -/
theorem snakeAckFrame_outside (mem : Alloc) (num : Numerics) (simTickRate : UInt8)
    (snake : Snake) (authoritative : SnakeHead) {frame : UInt16} (hout : snake.cmdq.queued frame = false)
    (hend : snake.cmdq.count = 0 ∨ frame ≠ snake.cmdq.frameEnd) :
    snakeAckFrame mem num snake authoritative frame simTickRate = .ok snake := by
  rw [snakeAckFrame]
  by_cases hempty : snake.cmdq.count = 0
  · rw [if_pos hempty]
  · have hge : ¬ snake.cmdq.distance frame < snake.cmdq.count := by
      rw [← snake.cmdq.queued_iff frame, hout]
      decide
    have hne : snake.cmdq.distance frame ≠ snake.cmdq.count := by
      intro heq
      apply hend.resolve_left hempty
      rw [CmdQueue.frameEnd, ← heq, snake.cmdq.frameAt_distance]
    have houtside := snake.cmdq.outside_iff (Nat.pos_of_ne_zero hempty) frame
    rw [if_neg hempty, if_pos (houtside.mpr (by omega))]

theorem Session.Known.step {s : Session} (h : s.Known num simTickRate) {command : Cmd}
    (hroom : stepRoom mem num simTickRate s.run command = true) :
    ∃ s', s.event mem num simTickRate (.step command) = .ok s' ∧ s'.Known num simTickRate := by
  obtain ⟨run, hok, htracked, hhead, hcommands, hframe, hfirst⟩ := h.tracked.step hroom
  have hcount : run.snake.cmdq.count = s.run.snake.cmdq.count + 1 := by
    rw [← CmdQueue.length_commands, hcommands, List.length_append, CmdQueue.length_commands,
      List.length_singleton]
  have hclock := h.count_le
  refine ⟨{ s with run := run, clock := s.clock + 1 },
    by simp only [Session.event, hok, ok_bind, pure_eq_ok], htracked, ?_, ?_, ?_, h.increasing⟩
  · show run.frame = UInt16.ofNat (s.clock + 1)
    rw [hframe, h.frame_eq, UInt16.ofNat_add]
    rfl
  · show run.snake.cmdq.count ≤ s.clock + 1
    omega
  · intro n authoritative older haccepted
    obtain ⟨hack, hnext, hbegin⟩ := h.newest n authoritative older haccepted
    refine ⟨hhead.trans hack, ?_, ?_⟩
    · show n + 1 + run.snake.cmdq.count = s.clock + 1
      omega
    · show run.snake.cmdq.firstFrame = UInt16.ofNat (n + 1)
      rw [hfirst]
      by_cases hpos : 0 < s.run.snake.cmdq.count
      · rw [if_pos hpos, hbegin]
      · rw [if_neg hpos, h.frame_eq, show s.clock = n + 1 by omega]

theorem Session.Known.removeStale (mem : Alloc) {s : Session} (h : s.Known num simTickRate)
    {stale : Nat} (hstale : stale < s.run.snake.data.trails.length) :
    ∃ s', s.event mem num simTickRate (.removeStale stale) = .ok s' ∧ s'.Known num simTickRate := by
  obtain ⟨data, hok, htracked⟩ := h.tracked.removeStale mem hstale
  refine ⟨{ s with run := { s.run with snake := { s.run.snake with data := data } } },
    by simp only [Session.event, hok, ok_bind, pure_eq_ok], htracked, h.frame_eq, h.count_le,
    h.newest, h.increasing⟩

/-- An accepted message. -/
theorem Session.Known.accept {s : Session} (h : s.Known num simTickRate) {frame : UInt16}
    {authoritative : SnakeHead} (hqueued : s.run.snake.cmdq.queued frame = true)
    (hroom : ackRoom mem num simTickRate s.run.snake frame authoritative = true) :
    ∃ s', s.event mem num simTickRate (.ack frame authoritative) = .ok s' ∧
      s'.Known num simTickRate ∧ s'.run.snake.cmdq.frameBegin = frame + 1 ∧
      s'.run.snake.headAck = authoritative := by
  obtain ⟨run, hok, htracked, hacked, hhead, hframe⟩ := h.tracked.ack_queued hqueued hroom
  have hk := (s.run.snake.cmdq.queued_iff frame).mp hqueued
  have hclock := h.count_le
  have hcount : run.snake.cmdq.count =
      s.run.snake.cmdq.count - (s.run.snake.cmdq.distance frame + 1) := by
    rw [← CmdQueue.length_commands, hacked.commands, List.length_drop, CmdQueue.length_commands]
  have hbegin : run.snake.cmdq.firstFrame = frame + 1 := by
    rw [hacked.firstFrame, frameAt_succ, s.run.snake.cmdq.frameAt_distance]
  -- without wrap the queue holds the frames before the clock
  have hnumber : frame = UInt16.ofNat (s.frameNumber frame) := by
    have hnext := h.tracked.next (by omega)
    rw [h.frame_eq, CmdQueue.frameEnd, frameAt, ← Nat.sub_add_cancel hclock, UInt16.ofNat_add,
      UInt16.add_left_inj] at hnext
    rw [Session.frameNumber, UInt16.ofNat_add, hnext]
    exact (s.run.snake.cmdq.frameAt_distance frame).symm
  refine ⟨{ s with run := run, accepted := (s.frameNumber frame, authoritative) :: s.accepted },
    by simp only [Session.event, hok, ok_bind, hqueued, if_true, pure_eq_ok],
    ⟨htracked, hframe.trans h.frame_eq, ?_, ?_, ?_⟩, hbegin, hhead⟩
  · show run.snake.cmdq.count ≤ s.clock
    omega
  · intro n newest older haccepted
    cases haccepted
    refine ⟨hhead, ?_, ?_⟩
    · show s.frameNumber frame + 1 + run.snake.cmdq.count = s.clock
      unfold Session.frameNumber
      omega
    · show run.snake.cmdq.firstFrame = UInt16.ofNat (s.frameNumber frame + 1)
      rw [hbegin, UInt16.ofNat_add, ← hnumber]
      rfl
  · exact List.pairwise_cons.mpr ⟨h.accepted_lt frame, h.increasing⟩

/-- **One event**, with a message for any frame but the one behind the queue. -/
theorem Session.Known.event {s : Session} (h : s.Known num simTickRate) (e : ClientEvent)
    (hapart : eventToldApart mem num simTickRate s.run e = true) :
    ∃ s', s.event mem num simTickRate e = .ok s' ∧ s'.Known num simTickRate ∧ AckEffect s e s' := by
  cases e with
  | step command =>
      obtain ⟨s', hok, hknown⟩ := h.step hapart
      exact ⟨s', hok, hknown, trivial⟩
  | removeStale stale =>
      obtain ⟨s', hok, hknown⟩ := h.removeStale mem (of_decide_eq_true hapart)
      exact ⟨s', hok, hknown, trivial⟩
  | ack frame authoritative =>
      simp only [eventToldApart, Bool.and_eq_true, Bool.or_eq_true, decide_eq_true_eq,
        Bool.not_eq_true'] at hapart
      obtain ⟨hend, hroom⟩ := hapart
      by_cases hqueued : s.run.snake.cmdq.queued frame = true
      · have hroom := hroom.resolve_left (by rw [hqueued]; decide)
        obtain ⟨s', hok, hknown, hbegin, hhead⟩ := h.accept hqueued hroom
        refine ⟨s', hok, hknown, fun _ => ⟨hbegin, hhead⟩, fun hout => ?_⟩
        rw [hqueued] at hout
        cases hout
      · have hout := Bool.eq_false_of_not_eq_true hqueued
        have hsame := snakeAckFrame_outside mem num simTickRate s.run.snake authoritative hout hend
        refine ⟨s, ?_, h, fun hin => absurd hin hqueued, fun _ => rfl⟩
        simp only [Session.event, clientEvent, hsame, ok_bind, pure_eq_ok, if_neg hqueued]

theorem Session.known_begin {spawnPos : QwPos} {snake : Snake}
    (hinit : snakeInit mem spawnPos = some snake) (clock : Nat) :
    (Session.begin snake clock).Known num simTickRate := by
  obtain ⟨-, -, -, hcmdq, -, -⟩ := snakeInit_spec hinit
  refine ⟨tracked_init hinit _, rfl, ?_, ?_, List.Pairwise.nil⟩
  · show snake.cmdq.count ≤ clock
    rw [hcmdq]
    exact Nat.zero_le clock
  · intro n authoritative older haccepted
    cases haccepted

/-- **Acknowledgements are monotone**, under loss, duplication and reordering, as
long as no message is for the frame right behind the queue.  Messages for queued
frames take effect and all others change nothing; the acknowledged head is that
of the newest accepted frame, and the predicted head is this head stepped with
the queued commands. -/
theorem acks_monotone (mem : Alloc) (num : Numerics) (simTickRate : UInt8) (spawnPos : QwPos)
    (snake : Snake) (clock : Nat) (events : List ClientEvent)
    (hinit : snakeInit mem spawnPos = some snake)
    (hapart : Run.Meets (Session.event mem num simTickRate)
      (fun s e => eventToldApart mem num simTickRate s.run e = true)
      (Session.begin snake clock) events) :
    Run.EveryStep (Session.event mem num simTickRate) AckEffect (Session.begin snake clock)
      events ∧
    Run.EveryState (Session.event mem num simTickRate) (HeadsKnown num simTickRate)
      (Session.begin snake clock) events := by
  have hknown : (Session.begin snake clock).Known num simTickRate :=
    Session.known_begin hinit clock
  refine ⟨Run.everyStep_of_meets (fun _ e h => h.event e) hknown hapart,
    Run.everyState_of_meets ?_ (fun _ h => h.headsKnown) hknown hapart⟩
  intro s e h he
  obtain ⟨s', hok, hknown', -⟩ := h.event e he
  exact ⟨s', hok, hknown'⟩

/-- Messages for a queued frame, for it again, for an older and for a later one. -/
def lossyRun : List ClientEvent :=
  [.step cmdDefault, .step cmdDefault, .step cmdDefault, .ack 0 (snakeHeadInit ⟨5, 5⟩),
    .ack 0 (snakeHeadInit ⟨5, 5⟩), .ack 65535 (snakeHeadInit ⟨7, 7⟩), .ack 3 (snakeHeadInit ⟨9, 9⟩),
    .step cmdDefault]

theorem acks_monotone_lossy :
    Run.EveryStep (Session.event Alloc.unlimited eastward 60) AckEffect
      (Session.begin freshSnake 65535) lossyRun ∧
    Run.EveryState (Session.event Alloc.unlimited eastward 60) (HeadsKnown eastward 60)
      (Session.begin freshSnake 65535) lossyRun :=
  acks_monotone Alloc.unlimited eastward 60 ⟨0, 0⟩ freshSnake 65535 lossyRun (by decide +kernel)
    (by decide +kernel)

/-- After one frame, with the number 7, a message for the frame 8 is for no queued
frame, and yet it empties the queue and moves the snake. -/
theorem acks_run_ahead :
    (do
      let s ← Session.event Alloc.unlimited eastward 60 (Session.begin freshSnake 7)
        (.step cmdDefault)
      let s' ← Session.event Alloc.unlimited eastward 60 s (.ack 8 (snakeHeadInit ⟨5, 5⟩))
      return (s.run.snake.cmdq.queued 8, s'.run.snake.cmdq.count, decide (s'.run.snake = s.run.snake))) =
    Except.ok (false, 0, false) := by
  decide +kernel

end Clither
