import Clither.ClientRuns
import Clither.CommandsArrive
import Clither.Lib.Run
import Clither.Server

/-!
# How the server consumes commands

In each frame the server puts the commands that have arrived into the queue of
the snake and then takes the one of the frame.  If there is none the last one is
used again.  A snake is held until the first frame that there is a command for.

The frames are counted from the start of the server, and `frameAt` turns such a
count to a 16-bit frame number.  The client's commands are a function of the
frame, and a message holds those of consecutive frames.  `consumption_faithful`
says which command is used in which frame, however the messages are lost,
duplicated and reordered.
-/

namespace Clither

open Faults (bind_eq_ok)

/-- The commands of `n` frames from the frame `k` on. -/
def slice (c : Nat → Cmd) : Nat → Nat → List Cmd
  | _, 0 => []
  | k, n + 1 => c k :: slice c (k + 1) n

theorem length_slice (c : Nat → Cmd) (k n : Nat) : (slice c k n).length = n := by
  induction n generalizing k with
  | zero => rfl
  | succ n ih => rw [slice, List.length_cons, ih]

theorem slice_succ (c : Nat → Cmd) (k n : Nat) :
    slice c k (n + 1) = slice c k n ++ [c (k + n)] := by
  induction n generalizing k with
  | zero => rfl
  | succ n ih =>
      rw [slice, ih, slice, List.cons_append]
      congr 4
      omega

theorem isChain_slice {c : Nat → Cmd} (hc : ∀ f, CmdStep (c f) (c (f + 1))) (k n : Nat) :
    List.IsChain SmallDelta (slice c k n) := by
  induction n generalizing k with
  | zero => exact List.isChain_nil
  | succ n ih =>
      cases n with
      | zero => exact List.isChain_singleton _
      | succ n =>
          exact List.isChain_cons_cons.mpr ⟨smallDelta_of_cmdStep (hc k), ih (k + 1)⟩

/-! ## Messages -/

/-- A `MSG_COMMANDS` with the commands of up to a hundred consecutive frames, as
the client packs it from the front of its queue. -/
structure Delivery (b : UInt16) (c : Nat → Cmd) where
  first : Nat
  /-- The number of commands behind the first one. -/
  more : Nat
  msg : Msg
  short : more < 100
  packed : ∃ uninit cmdq rest, cmdq.commands = slice c first (more + 1) ++ rest ∧
    packChunk uninit cmdq (frameAt b first) (more + 1) = .ok msg

variable {b : UInt16} {c : Nat → Cmd} {mem : Alloc}

/-- **What the server makes of a message**: it puts the commands of the slice. -/
theorem Delivery.unpack (d : Delivery b c) (hc : ∀ f, CmdStep (c f) (c (f + 1))) (cmdq : CmdQueue)
    (frameNumber : UInt16) :
    (msgCommandsUnpackInto mem cmdq d.msg.payload frameNumber).1 =
      putFrames mem frameNumber cmdq (framesOf (frameAt b d.first) (slice c d.first (d.more + 1))) := by
  obtain ⟨uninit, queue, rest, hcommands, hpack⟩ := d.packed
  have hlength := length_slice c (d.first + 1) d.more
  obtain ⟨m, hpack', hpayload⟩ := @packChunk_spec uninit queue (frameAt b d.first) (c d.first)
    (slice c (d.first + 1) d.more) rest hcommands (by rw [hlength]; exact d.short)
  rw [hlength, hpack] at hpack'
  cases hpack'
  rw [unpack_chunk hpayload (by rw [hlength]; exact d.short) (isChain_slice hc d.first (d.more + 1))]
  rfl

/-! ## The queue -/

/-- The queue holds the commands of consecutive frames, none of them before the
frame `now`. -/
def QueuedFrom (b : UInt16) (c : Nat → Cmd) (now : Nat) (cmdq : CmdQueue) : Prop :=
  0 < cmdq.count → ∃ k, now ≤ k ∧ k + cmdq.count ≤ now + 2 ^ 15 ∧ cmdq.frameBegin = frameAt b k ∧
    cmdq.commands = slice c k cmdq.count

theorem lastCommandRead_put (cmdq : CmdQueue) (command : Cmd) (frame : UInt16) :
    (cmdQueuePut mem cmdq command frame).lastCommandRead = cmdq.lastCommandRead := by
  unfold cmdQueuePut
  split
  · rfl
  · dsimp only
    split <;> split <;> rfl

/-- A queue that has taken a command, or not. -/
theorem cmdQueuePut_cases (mem : Alloc) (cmdq : CmdQueue) (command : Cmd) (frame : UInt16) :
    (cmdQueuePut mem cmdq command frame).count = 0 ∨
    cmdQueuePut mem cmdq command frame = cmdq ∨
    ((0 < cmdq.count → cmdq.frameEnd = frame) ∧
      (cmdQueuePut mem cmdq command frame).commands = cmdq.commands ++ [command] ∧
      (cmdQueuePut mem cmdq command frame).frameBegin =
        if 0 < cmdq.count then cmdq.frameBegin else frame) := by
  by_cases hskip : cmdq.count > 0 ∧ cmdq.frameEnd ≠ frame
  · exact Or.inr (Or.inl (by rw [cmdQueuePut, if_pos hskip]))
  · have hframe : 0 < cmdq.count → cmdq.frameEnd = frame := by
      intro hpos
      by_contra hne
      exact hskip ⟨hpos, hne⟩
    cases hspace : rbHasSpace mem cmdq.rb with
    | true =>
        obtain ⟨hcommands, -, hfirst⟩ :=
          cmdQueuePut_next command (fun hpos => (hframe hpos).symm) hspace
        exact Or.inr (Or.inr ⟨hframe, hcommands, hfirst⟩)
    | false =>
        have hnone : rbPutRealloc mem cmdq.rb command = none := by
          rcases rbPutRealloc_spec mem cmdq.rb command with ⟨-, hnone⟩ | ⟨hyes, -⟩
          · exact hnone
          · exact absurd (hspace.symm.trans hyes) (by decide)
        by_cases hpos : cmdq.count > 0
        · refine Or.inr (Or.inl ?_)
          simp only [cmdQueuePut, if_neg hskip, if_pos hpos, hnone]
        · refine Or.inl ?_
          simp only [cmdQueuePut, if_neg hskip, if_neg hpos, hnone]
          exact Nat.eq_zero_of_not_pos hpos

/-- **A command that arrives** is queued behind those that are there, or not at all. -/
theorem QueuedFrom.put {now j : Nat} {cmdq : CmdQueue} (h : QueuedFrom b c now cmdq)
    (hpast : now < j + 2 ^ 15) (hfuture : j < now + 2 ^ 15) :
    QueuedFrom b c now (putUnpassed mem cmdq (c j) (frameAt b j) (frameAt b now)) := by
  rw [putUnpassed, u16GeWrap_add hfuture hpast]
  by_cases hunpassed : now ≤ j
  · rw [if_pos (decide_eq_true hunpassed)]
    rcases cmdQueuePut_cases mem cmdq (c j) (frameAt b j) with hempty | hsame | ⟨hframe, hcmds, hbegin⟩
    · intro hpos
      omega
    · rw [hsame]
      exact h
    · intro _
      have hcount : (cmdQueuePut mem cmdq (c j) (frameAt b j)).count = cmdq.count + 1 := by
        rw [← CmdQueue.length_commands, hcmds, List.length_append, CmdQueue.length_commands,
          List.length_singleton]
      by_cases hpos : 0 < cmdq.count
      · obtain ⟨k, hk, hkn, hfirst, hslice⟩ := h hpos
        have hend := hframe hpos
        rw [CmdQueue.frameEnd, show cmdq.firstFrame = frameAt b k from hfirst, frameAt_frameAt]
          at hend
        obtain rfl := frameAt_inj (by omega) (by omega) hend
        refine ⟨k, hk, by omega, by rw [hbegin, if_pos hpos]; exact hfirst, ?_⟩
        rw [hcmds, hcount, slice_succ, ← hslice]
      · have hzero : cmdq.count = 0 := Nat.eq_zero_of_not_pos hpos
        have hnil : cmdq.commands = [] := by
          rw [← List.length_eq_zero_iff, cmdq.length_commands, hzero]
        refine ⟨j, hunpassed, by omega, by rw [hbegin, if_neg hpos], ?_⟩
        rw [hcmds, hcount, hzero, hnil]
        rfl
  · rw [if_neg (by simpa using hunpassed)]
    exact h

theorem QueuedFrom.putFrames {now first n : Nat} {cmdq : CmdQueue} (h : QueuedFrom b c now cmdq)
    (hpast : now < first + 2 ^ 15) (hfuture : first + n ≤ now + 2 ^ 15) :
    QueuedFrom b c now
      (putFrames mem (frameAt b now) cmdq (framesOf (frameAt b first) (slice c first n))) := by
  induction n generalizing first cmdq with
  | zero => exact h
  | succ n ih =>
      rw [slice, framesOf, ← frameAt_succ]
      exact ih (h.put hpast (by omega)) (by omega) (by omega)

theorem lastCommandRead_putFrames (frameNumber : UInt16) (cmdq : CmdQueue)
    (frames : List (UInt16 × Cmd)) :
    (putFrames mem frameNumber cmdq frames).lastCommandRead = cmdq.lastCommandRead := by
  induction frames generalizing cmdq with
  | nil => rfl
  | cons e rest ih =>
      rw [putFrames, List.foldl_cons]
      refine (ih _).trans ?_
      rw [putUnpassed]
      split
      · exact lastCommandRead_put cmdq e.2 e.1
      · rfl

/-- The frame is queued exactly if the queue begins with it. -/
theorem QueuedFrom.queued_iff {now : Nat} {cmdq : CmdQueue} (h : QueuedFrom b c now cmdq) :
    cmdq.queued (frameAt b now) = true ↔ 0 < cmdq.count ∧ cmdq.frameBegin = frameAt b now := by
  have hlt := cmdq.count_lt
  rw [CmdQueue.queued_iff]
  constructor
  · intro hdistance
    have hpos : 0 < cmdq.count := by omega
    obtain ⟨k, hk, hkn, hfirst, -⟩ := h hpos
    have hnow := cmdq.frameAt_distance (frameAt b now)
    rw [show cmdq.firstFrame = frameAt b k from hfirst, frameAt_frameAt] at hnow
    have heq := frameAt_inj (by omega) (by omega) hnow
    exact ⟨hpos, by rw [hfirst]; congr 1; omega⟩
  · intro ⟨hpos, hfirst⟩
    have hzero : cmdq.distance (frameAt b now) = 0 := by
      rw [CmdQueue.distance, ← hfirst]
      simp [CmdQueue.frameBegin]
    omega

/-- A frame passes that the queue does not begin with. -/
theorem QueuedFrom.next {now : Nat} {cmdq : CmdQueue} (h : QueuedFrom b c now cmdq)
    (hbegin : ¬ (0 < cmdq.count ∧ cmdq.frameBegin = frameAt b now)) :
    QueuedFrom b c (now + 1) cmdq := by
  intro hpos
  obtain ⟨k, hk, hkn, hfirst, hslice⟩ := h hpos
  have hlater : now ≠ k := by
    rintro rfl
    exact hbegin ⟨hpos, hfirst⟩
  exact ⟨k, by omega, by omega, hfirst, hslice⟩

/-- **Taking** the command of the frame, or using the last one again. -/
theorem QueuedFrom.take {now : Nat} {cmdq : CmdQueue} (h : QueuedFrom b c now cmdq) :
    ∃ cmdq' command, cmdQueueTakeOrPredict cmdq (frameAt b now) = .ok (cmdq', command) ∧
      QueuedFrom b c (now + 1) cmdq' ∧ cmdq'.lastCommandRead = command ∧
      command = if cmdq.queued (frameAt b now) = true then c now else cmdq.lastCommandRead := by
  by_cases hpos : 0 < cmdq.count
  · obtain ⟨k, hk, hkn, hfirst, hslice⟩ := h hpos
    by_cases hbegin : cmdq.frameBegin = frameAt b now
    · rw [hbegin] at hfirst
      obtain rfl := frameAt_inj (by omega) (by omega) hfirst
      obtain ⟨n, hn⟩ : ∃ n, cmdq.count = n + 1 := ⟨cmdq.count - 1, by omega⟩
      rw [hn, slice] at hslice
      obtain ⟨cmdq', htake, hrest, hnext, hread⟩ := takeOrPredict_begin hslice
      have hcount : cmdq'.count = n := by
        rw [← cmdq'.length_commands, hrest, length_slice]
      rw [hbegin] at htake
      refine ⟨cmdq', c now, htake, fun _ => ⟨now + 1, Nat.le_refl _, by omega, ?_, ?_⟩, hread, ?_⟩
      · rw [CmdQueue.frameBegin, hnext, frameAt_succ]
        rw [CmdQueue.frameBegin] at hbegin
        rw [hbegin]
      · rw [hrest, hcount]
      · rw [if_pos (h.queued_iff.mpr ⟨hpos, hbegin⟩)]
    · have hlater : now ≠ k := by
        rintro rfl
        exact hbegin hfirst
      refine ⟨cmdq, cmdq.lastCommandRead, ?_, h.next fun hboth => hbegin hboth.2, rfl, ?_⟩
      · rw [cmdQueueTakeOrPredict, hfirst, u16LtWrap_add (by omega) (by omega),
          if_pos (decide_eq_true (by omega))]
      · rw [if_neg fun hqueued => hbegin (h.queued_iff.mp hqueued).2]
  · have hnil : cmdq.commands = [] := by
      rw [← List.length_eq_zero_iff, cmdq.length_commands]
      omega
    refine ⟨cmdq, cmdq.lastCommandRead, takeOrPredict_empty hnil _,
      fun hpos' => absurd hpos' hpos, rfl, ?_⟩
    rw [if_neg fun hqueued => hpos (h.queued_iff.mp hqueued).1]

/-! ## Runs -/

/-- The server's view of a snake: the snake, the number of the current frame, and
the command that the frame before used, unless the snake was held. -/
structure Consumer where
  snake : Snake
  now : Nat
  used : Option Cmd

inductive ConsumerEvent (b : UInt16) (c : Nat → Cmd) where
  | deliver (d : Delivery b c)
  | simulate

/-- A message is unpacked, or the snake is simulated and the frame is over. -/
def consume (mem : Alloc) (b : UInt16) (c : Nat → Cmd) (s : Consumer) :
    ConsumerEvent b c → Except Fault Consumer
  | .deliver d =>
      let cmdq := (msgCommandsUnpackInto mem s.snake.cmdq d.msg.payload (frameAt b s.now)).1
      .ok { s with snake := { s.snake with cmdq := cmdq } }
  | .simulate =>
      let (snake, moves) := snakeTryResetHold s.snake (frameAt b s.now)
      if moves then do
        let (cmdq, command) ← cmdQueueTakeOrPredict snake.cmdq (frameAt b s.now)
        return { snake := { snake with cmdq := cmdq }, now := s.now + 1, used := some command }
      else return { snake := snake, now := s.now + 1, used := none }

/-- This is what a simulation step does to queue and hold. -/
theorem consume_of_simUpdateSnake {settings : ServerSettings} {num : Numerics} {s : Consumer}
    {snake' : Snake}
    (h : simUpdateSnake mem settings num s.snake (frameAt b s.now) = .ok snake') :
    ∃ s', consume mem b c s .simulate = .ok s' ∧ s'.snake.cmdq = snake'.cmdq ∧
      s'.snake.hold = snake'.hold := by
  unfold simUpdateSnake at h
  unfold consume
  dsimp only at h ⊢
  split at h
  · next hmoves =>
      obtain ⟨⟨cmdq, command⟩, htake, h⟩ := bind_eq_ok.mp h
      obtain ⟨⟨data, head, stale⟩, -, h⟩ := bind_eq_ok.mp h
      obtain ⟨data', -, h⟩ := bind_eq_ok.mp h
      cases h
      rw [if_pos hmoves, htake]
      exact ⟨_, rfl, rfl, rfl⟩
  · next hmoves =>
      cases h
      rw [if_neg hmoves]
      exact ⟨_, rfl, rfl, rfl⟩

/-- The frames of a message that arrives are less than half a turn away. -/
def inReach (s : Consumer) : ConsumerEvent b c → Prop
  | .deliver d => s.now < d.first + 2 ^ 15 ∧ d.first + d.more < s.now + 2 ^ 15
  | .simulate => True

instance (s : Consumer) : (e : ConsumerEvent b c) → Decidable (inReach s e)
  | .deliver _ => inferInstanceAs (Decidable (_ ∧ _))
  | .simulate => isTrue trivial

/-- What is right about a step: the queue, the frame in which a held snake is
released, and the command that a snake uses once it moves. -/
structure Faithful (s : Consumer) (e : ConsumerEvent b c) (s' : Consumer) : Prop where
  queue : QueuedFrom b c s'.now s'.snake.cmdq
  deliver : e ≠ .simulate → s'.now = s.now ∧ s'.snake.hold = s.snake.hold ∧ s'.used = s.used
  frame : e = .simulate → s'.now = s.now + 1
  released : e = .simulate → s.snake.hold = true → (s'.snake.hold = false ↔
    0 < s.snake.cmdq.count ∧ s.snake.cmdq.frameBegin = frameAt b s.now)
  moving : s.snake.hold = false → s'.snake.hold = false
  queued : e = .simulate → s'.snake.hold = false →
    s.snake.cmdq.queued (frameAt b s.now) = true → s'.used = some (c s.now)
  predicted : e = .simulate → s'.snake.hold = false →
    s.snake.cmdq.queued (frameAt b s.now) = false → s'.used = s.used ∧ s.used.isSome

/-- A moving snake has used the command that was read last. -/
structure Consumer.Sound (b : UInt16) (c : Nat → Cmd) (s : Consumer) : Prop where
  queue : QueuedFrom b c s.now s.snake.cmdq
  used : s.snake.hold = false → s.used = some s.snake.cmdq.lastCommandRead

theorem Consumer.Sound.deliver {s : Consumer} (h : s.Sound b c)
    (hc : ∀ f, CmdStep (c f) (c (f + 1))) {d : Delivery b c} (hreach : inReach s (.deliver d)) :
    ∃ s', consume mem b c s (.deliver d) = .ok s' ∧ s'.Sound b c ∧ Faithful s (.deliver d) s' := by
  obtain ⟨hpast, hfuture⟩ := hreach
  unfold consume
  dsimp only
  rw [d.unpack hc]
  have hqueue : QueuedFrom b c s.now (putFrames mem (frameAt b s.now) s.snake.cmdq
      (framesOf (frameAt b d.first) (slice c d.first (d.more + 1)))) :=
    h.queue.putFrames hpast (by omega)
  refine ⟨_, rfl, ⟨hqueue, fun hmoves => ?_⟩, ?_⟩
  · exact (h.used hmoves).trans (congrArg some (lastCommandRead_putFrames _ _ _).symm)
  · exact {
      queue := hqueue
      deliver := fun _ => ⟨rfl, rfl, rfl⟩
      frame := nofun
      released := nofun
      moving := fun hmoves => hmoves
      queued := nofun
      predicted := nofun }

/-- A snake that moves in this frame, and may have been released in it. -/
theorem Consumer.Sound.move {s : Consumer} (h : s.Sound b c)
    (htry : snakeTryResetHold s.snake (frameAt b s.now) = ({ s.snake with hold := false }, true))
    (hhold : s.snake.hold = true →
      0 < s.snake.cmdq.count ∧ s.snake.cmdq.frameBegin = frameAt b s.now) :
    ∃ s', consume mem b c s .simulate = .ok s' ∧ s'.Sound b c ∧
      Faithful s (.simulate : ConsumerEvent b c) s' := by
  obtain ⟨cmdq', command, htake, hqueue, hread, hcommand⟩ := h.queue.take
  have hok : consume mem b c s .simulate =
      .ok { snake := { s.snake with hold := false, cmdq := cmdq' }
            now := s.now + 1
            used := some command } := by
    simp only [consume, htry, if_true, htake, ok_bind, pure_eq_ok]
  refine ⟨_, hok, ⟨hqueue, fun _ => congrArg some hread.symm⟩, ?_⟩
  exact {
    queue := hqueue
    deliver := fun hne => absurd rfl hne
    frame := fun _ => rfl
    released := fun _ hheld => iff_of_true rfl (hhold hheld)
    moving := fun _ => rfl
    queued := fun _ _ hqueued => by rw [hcommand, if_pos hqueued]
    predicted := by
      intro _ _ hnot
      rw [if_neg (Bool.eq_false_iff.mp hnot)] at hcommand
      cases hheld : s.snake.hold with
      | true =>
          rw [h.queue.queued_iff.mpr (hhold hheld)] at hnot
          cases hnot
      | false =>
          rw [hcommand, h.used hheld]
          exact ⟨rfl, rfl⟩ }

/-- **A frame of the simulation.** -/
theorem Consumer.Sound.simulate {s : Consumer} (h : s.Sound b c) :
    ∃ s', consume mem b c s .simulate = .ok s' ∧ s'.Sound b c ∧
      Faithful s (.simulate : ConsumerEvent b c) s' := by
  by_cases hbegin : s.snake.cmdq.count > 0 ∧ s.snake.cmdq.frameBegin = frameAt b s.now
  · exact h.move (by simp only [snakeTryResetHold, if_pos hbegin, Bool.not_false]) fun _ => hbegin
  · have htry : snakeTryResetHold s.snake (frameAt b s.now) = (s.snake, !s.snake.hold) := by
      simp only [snakeTryResetHold, if_neg hbegin]
    cases hhold : s.snake.hold with
    | false =>
        refine h.move ?_ fun hheld => absurd (hhold.symm.trans hheld) (by decide)
        rw [htry, hhold]
        obtain ⟨⟨cmdq, param, data, head, headAck, hold⟩, now, used⟩ := s
        obtain rfl : hold = false := hhold
        rfl
    | true =>
        have hok : consume mem b c s .simulate =
            .ok { snake := s.snake, now := s.now + 1, used := none } := by
          simp only [consume, htry, hhold, Bool.not_true, Bool.false_eq_true, if_false, pure_eq_ok]
        have hqueue := h.queue.next hbegin
        have hheld {p : Prop} (hmoves : s.snake.hold = false) : p :=
          absurd (hhold.symm.trans hmoves) (by decide)
        refine ⟨_, hok, ⟨hqueue, fun hmoves => hheld hmoves⟩, ?_⟩
        exact {
          queue := hqueue
          deliver := fun hne => absurd rfl hne
          frame := fun _ => rfl
          released := fun _ _ => iff_of_false (fun hmoves => hheld hmoves) hbegin
          moving := fun hmoves => hmoves
          queued := fun _ hmoves => hheld hmoves
          predicted := fun _ hmoves => hheld hmoves }

/-- A snake that has just been created: it is held, and has no commands. -/
def Consumer.begin (snake : Snake) (now : Nat) : Consumer where
  snake := { snakeSetHold snake with cmdq := cmdQueueInit }
  now := now
  used := none

/-- **Commands are consumed faithfully**, whichever messages arrive, how often and
in which order. -/
theorem consumption_faithful (mem : Alloc) (b : UInt16) (c : Nat → Cmd)
    (hc : ∀ f, CmdStep (c f) (c (f + 1))) (snake : Snake) (now : Nat)
    (events : List (ConsumerEvent b c))
    (hreach : Run.Meets (consume mem b c) inReach (Consumer.begin snake now) events) :
    Run.EveryStep (consume mem b c) Faithful (Consumer.begin snake now) events := by
  have hbegin : (Consumer.begin snake now).Sound b c :=
    ⟨fun hpos => absurd hpos (Nat.lt_irrefl 0), nofun⟩
  have hkeeps (s : Consumer) (e : ConsumerEvent b c) (hs : s.Sound b c) (hcond : inReach s e) :
      ∃ s', consume mem b c s e = .ok s' ∧ s'.Sound b c ∧ Faithful s e s' := by
    cases e with
    | deliver d => exact hs.deliver hc hcond
    | simulate => exact hs.simulate
  exact Run.everyStep_of_meets hkeeps hbegin hreach

/-- A client that turns and speeds up steadily. -/
def turning : Nat → Cmd
  | 0 => cmdDefault
  | f + 1 => cmdMake (turning f) ((turning f).angle + 2) 255 cmdActionNone

/-- A message with three of its commands, in a run that begins shortly before the
frame numbers wrap. -/
def turningMsg (first : Nat) : Msg :=
  match packChunk (fun _ => 0) (queueOf (frameAt 65534 first) (slice turning first 3))
    (frameAt 65534 first) 3 with
  | .ok m => m
  | .error _ => msgLeave

def turningFirst : Delivery 65534 turning where
  first := 1
  more := 2
  msg := turningMsg 1
  short := by decide
  packed := ⟨fun _ => 0, queueOf (frameAt 65534 1) (slice turning 1 3), [], by decide +kernel,
    by decide +kernel⟩

def turningSecond : Delivery 65534 turning where
  first := 2
  more := 2
  msg := turningMsg 2
  short := by decide
  packed := ⟨fun _ => 0, queueOf (frameAt 65534 2) (slice turning 2 3), [], by decide +kernel,
    by decide +kernel⟩

/-- The second message overtakes the first one, which then arrives twice. -/
def turningRun : List (ConsumerEvent 65534 turning) :=
  [.simulate, .deliver turningSecond, .deliver turningFirst, .simulate, .simulate,
    .deliver turningFirst, .simulate, .simulate, .simulate]

theorem consumption_faithful_wrap :
    Run.EveryStep (consume Alloc.unlimited 65534 turning) Faithful
      (Consumer.begin freshSnake 0) turningRun :=
  consumption_faithful Alloc.unlimited 65534 turning (fun _ => ⟨_, _, _, rfl⟩) freshSnake 0
    turningRun (by decide +kernel)

end Clither
