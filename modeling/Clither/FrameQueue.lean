import Clither.CommandCodec
import Clither.Lib.Run

/-!
# The command queue over whole runs

`FrameQueue` is what a command queue stands for: commands, each with the frame
it was put with, and the command that was read last.  Its operations are said
in terms of frames only.

`cmdQueueTakeOrPredict` removes commands in a loop and remembers the last one;
`cmdQueueFindOrPredict` scans the queue and leaves it alone.  `take_spec` and
`find_eq_predict` show that both give the command `FrameQueue.predict` names,
and `command_queue_predicts` carries this along every run of puts and takes.
-/

namespace Clither

/-! ## The source's scan -/

/-- The `rb_for_each` of `cmd_queue_find_or_predict`, over the commands from the
oldest. -/
def findLoop (frameNumber : UInt16) : UInt16 → List Cmd → Option Cmd
  | _, [] => none
  | frame, command :: rest =>
      if frame = frameNumber then some command
      else findLoop frameNumber (frame + 1) rest

/-- `cmd_queue_find_or_predict`. -/
def cmdQueueFindOrPredict (cmdq : CmdQueue) (frameNumber : UInt16) : Except Fault Cmd :=
  if u16LtWrap frameNumber cmdq.frameBegin then .ok cmdq.lastCommandRead
  else
    match findLoop frameNumber cmdq.frameBegin (rbToList cmdq.rb) with
    | some command => .ok command
    | none => if rbCount cmdq.rb = 0 then .ok cmdq.lastCommandRead else rbPeekWrite cmdq.rb

/-! ## What the queue stands for -/

/-- Commands with their frames, oldest first, and the command read last. -/
structure FrameQueue where
  entries : List (UInt16 × Cmd)
  last : Cmd
  deriving DecidableEq

namespace FrameQueue

def init : FrameQueue where
  entries := []
  last := cmdDefault

/-- Only the frame behind the newest entry is accepted, and any frame when there
is none. -/
def put (q : FrameQueue) (command : Cmd) (frame : UInt16) : FrameQueue :=
  match q.entries.getLast? with
  | none => { q with entries := [(frame, command)] }
  | some newest =>
      if frame = newest.1 + 1 then { q with entries := q.entries ++ [(frame, command)] } else q

/-- A frame before the oldest entry. -/
def before (q : FrameQueue) (frame : UInt16) : Bool :=
  match q.entries with
  | [] => false
  | oldest :: _ => u16LtWrap frame oldest.1

/-- The command of the frame if it has an entry.  Frames before the oldest entry
repeat the command read last, frames behind the newest entry repeat that entry. -/
def predict (q : FrameQueue) (frame : UInt16) : Cmd :=
  if q.before frame then q.last
  else
    match q.entries.find? fun e => e.1 = frame with
    | some e => e.2
    | none => (q.entries.getLast?.map (·.2)).getD q.last

/-- The entries of later frames stay. -/
def take (q : FrameQueue) (frame : UInt16) : FrameQueue :=
  if q.before frame then q
  else { entries := q.entries.filter fun e => u16GtWrap e.1 frame, last := q.predict frame }

end FrameQueue

/-- The meaning of a command queue. -/
def CmdQueue.meaning (cmdq : CmdQueue) : FrameQueue where
  entries := cmdq.frames
  last := cmdq.lastCommandRead

/-! ## Frames of a list of commands -/

/-- The frames of a queue follow each other. -/
theorem isChain_framesOf (first : UInt16) (cs : List Cmd) :
    (framesOf first cs).IsChain fun e e' => e'.1 = e.1 + 1 := by
  induction cs generalizing first with
  | nil => exact .nil
  | cons c cs ih =>
      cases cs with
      | nil => exact .singleton _
      | cons c' cs => exact .cons_cons rfl (ih (first + 1))

/-- The last command has the last frame. -/
theorem getLast?_framesOf (first : UInt16) (cs : List Cmd) :
    (framesOf first cs).getLast? =
      cs.getLast?.map fun c => (frameAt first (cs.length - 1), c) := by
  rcases List.eq_nil_or_concat cs with rfl | ⟨init, c, rfl⟩
  · rfl
  · rw [List.concat_eq_append, framesOf_append]
    simp [framesOf]

/-- A window of frames and a frame that is not before it: the later frames of the
window are those at a greater distance. -/
theorem u16Wrap_later (b : UInt16) {d j : Nat} (hd : d < 65536) (hj : j < 2 ^ 14)
    (hbefore : u16LtWrap (frameAt b d) b = false) :
    u16GtWrap (frameAt b j) (frameAt b d) = true ↔ d < j := by
  have hb := b.toNat_lt
  rw [u16LtWrap, Bool.not_eq_false', u16GeWrap_iff, toNat_frameAt] at hbefore
  rw [u16GtWrap_iff, toNat_frameAt, toNat_frameAt]
  omega

/-- The end of the window. -/
theorem u16Wrap_end (b : UInt16) {d n : Nat} (hd : d < 65536) (hn : n < 2 ^ 14)
    (hbefore : u16LtWrap (frameAt b d) b = false) :
    u16GeWrap (frameAt b d) (frameAt b n) = true ↔ n ≤ d := by
  have hb := b.toNat_lt
  rw [u16LtWrap, Bool.not_eq_false', u16GeWrap_iff, toNat_frameAt] at hbefore
  rw [u16GeWrap_iff, toNat_frameAt, toNat_frameAt]
  omega

/-- Dropping the commands up to a frame drops a start of the list. -/
theorem filter_framesOf (b : UInt16) {d k : Nat} (cs : List Cmd) (hd : d < 65536)
    (hk : k + cs.length < 2 ^ 14) (hbefore : u16LtWrap (frameAt b d) b = false) :
    (framesOf (frameAt b k) cs).filter (fun e => u16GtWrap e.1 (frameAt b d)) =
      framesOf (frameAt b (max k (d + 1))) (cs.drop (d + 1 - k)) := by
  induction cs generalizing k with
  | nil => rw [List.drop_nil]; rfl
  | cons c cs ih =>
      rw [List.length_cons] at hk
      have hlater := u16Wrap_later b hd (j := k) (by omega) hbefore
      rw [framesOf, ← frameAt_succ, List.filter_cons, ih (by omega)]
      by_cases hdk : d < k
      · rw [if_pos (hlater.mpr hdk), show d + 1 - k = 0 by omega, show d + 1 - (k + 1) = 0 by omega,
          List.drop_zero, List.drop_zero, show max k (d + 1) = k by omega,
          show max (k + 1) (d + 1) = k + 1 by omega, frameAt_succ]
        rfl
      · rw [if_neg (fun h => hdk (hlater.mp h)), show d + 1 - k = (d + 1 - (k + 1)) + 1 by omega,
          List.drop_succ_cons, show max (k + 1) (d + 1) = max k (d + 1) by omega]

/-- Looking for a frame finds the command at its distance. -/
theorem find?_framesOf (b : UInt16) {d k : Nat} (cs : List Cmd) (hd : d < 65536)
    (hk : k + cs.length < 2 ^ 14) (hkd : k ≤ d) :
    (framesOf (frameAt b k) cs).find? (fun e => e.1 = frameAt b d) =
      (cs[d - k]?).map fun c => (frameAt b d, c) := by
  induction cs generalizing k with
  | nil => rfl
  | cons c cs ih =>
      rw [List.length_cons] at hk
      rw [framesOf, ← frameAt_succ, List.find?_cons]
      by_cases heq : d = k
      · subst heq
        simp
      · have hne : frameAt b k ≠ frameAt b d := fun h =>
          heq (frameAt_inj (by omega) (by omega) h).symm
        rw [show decide (frameAt b k = frameAt b d) = false from decide_eq_false hne]
        show List.find? _ _ = _
        rw [ih (by omega) (by omega), show d - k = (d - (k + 1)) + 1 by omega,
          List.getElem?_cons_succ]

/-- The loop of the code is that search. -/
theorem findLoop_eq (frameNumber first : UInt16) (cs : List Cmd) :
    findLoop frameNumber first cs =
      ((framesOf first cs).find? fun e => e.1 = frameNumber).map (·.2) := by
  induction cs generalizing first with
  | nil => rfl
  | cons c cs ih =>
      rw [findLoop, framesOf, List.find?_cons]
      by_cases h : first = frameNumber
      · rw [if_pos h]
        simp [h]
      · rw [if_neg h, ih]
        simp [h]

/-! ## The two functions predict alike -/

namespace CmdQueue

variable (cmdq : CmdQueue)

/-- A frame lies before the queue when the code says so. -/
theorem before_meaning (frame : UInt16) :
    cmdq.meaning.before frame = (decide (0 < cmdq.count) && u16LtWrap frame cmdq.frameBegin) := by
  have hlen := cmdq.length_commands
  rw [FrameQueue.before, meaning, frames]
  cases hcs : cmdq.commands with
  | nil =>
      rw [hcs, List.length_nil] at hlen
      rw [← hlen]
      rfl
  | cons c cs =>
      rw [hcs, List.length_cons] at hlen
      rw [← hlen, decide_eq_true (Nat.succ_pos _)]
      rfl

/-- Not before the oldest command, the prediction is the newest command up to the
frame. -/
theorem predict_meaning {frame : UInt16} (hbefore : u16LtWrap frame cmdq.frameBegin = false) :
    cmdq.meaning.predict frame =
      (cmdq.commands.take (cmdq.distance frame + 1)).getLast?.getD cmdq.lastCommandRead := by
  have hlt := cmdq.count_lt
  have hfind := find?_framesOf cmdq.firstFrame (k := 0) cmdq.commands
    (cmdq.distance_lt frame) (by rw [length_commands]; omega) (Nat.zero_le _)
  rw [frameAt_zero, cmdq.frameAt_distance, Nat.sub_zero] at hfind
  rw [FrameQueue.predict, before_meaning, hbefore, Bool.and_false, if_neg (by decide)]
  simp only [meaning, frames, frameBegin, hfind, getLast?_framesOf]
  by_cases hin : cmdq.distance frame < cmdq.commands.length
  · rw [List.getElem?_eq_getElem hin, ← List.take_append_getElem hin, List.getLast?_concat]
    rfl
  · rw [List.getElem?_eq_none (Nat.le_of_not_lt hin), List.take_of_length_le (by omega)]
    cases cmdq.commands.getLast? <;> rfl

/-- With no command left the command read last is repeated. -/
theorem predict_empty (h : cmdq.commands = []) (frame : UInt16) :
    cmdq.meaning.predict frame = cmdq.lastCommandRead := by
  simp [FrameQueue.predict, FrameQueue.before, meaning, frames, h, framesOf]

/-- Taking from an empty queue predicts. -/
theorem take_empty (h : cmdq.commands = []) (frame : UInt16) :
    cmdq.meaning.take frame = cmdq.meaning := by
  have hpredict := cmdq.predict_empty h frame
  rw [FrameQueue.take, hpredict]
  simp [meaning, frames, h, framesOf]

end CmdQueue

/-- **The scan predicts** the command that the frame stands for. -/
theorem find_eq_predict (cmdq : CmdQueue) (frame : UInt16) :
    cmdQueueFindOrPredict cmdq frame = .ok (cmdq.meaning.predict frame) := by
  rw [cmdQueueFindOrPredict, findLoop_eq]
  by_cases hlt : u16LtWrap frame cmdq.frameBegin = true
  · rw [if_pos hlt]
    by_cases hpos : 0 < cmdq.count
    · rw [FrameQueue.predict, cmdq.before_meaning, hlt, decide_eq_true hpos]
      rfl
    · rw [cmdq.predict_empty (List.length_eq_zero_iff.mp (by rw [cmdq.length_commands]; omega))]
  · have hbefore : cmdq.meaning.before frame = false := by
      rw [cmdq.before_meaning, Bool.eq_false_of_not_eq_true hlt, Bool.and_false]
    have hpredict : cmdq.meaning.predict frame =
        match (framesOf cmdq.frameBegin (rbToList cmdq.rb)).find? fun e => e.1 = frame with
        | some e => e.2
        | none => (cmdq.frames.getLast?.map (·.2)).getD cmdq.lastCommandRead := by
      rw [FrameQueue.predict, hbefore]
      rfl
    rw [if_neg hlt, hpredict]
    cases (framesOf cmdq.frameBegin (rbToList cmdq.rb)).find? fun e => e.1 = frame with
    | some e => rfl
    | none =>
        have hlast := getLast?_framesOf cmdq.frameBegin cmdq.commands
        dsimp only [Option.map_none]
        rw [CmdQueue.frames, hlast]
        rcases List.eq_nil_or_concat cmdq.commands with hnil | ⟨init, c, hconcat⟩
        · have hzero : rbCount cmdq.rb = 0 := by
            rw [← length_rbToList, show rbToList cmdq.rb = [] from hnil, List.length_nil]
          rw [if_pos hzero, hnil]
          rfl
        · rw [List.concat_eq_append] at hconcat
          have hne : rbCount cmdq.rb ≠ 0 := by
            rw [← length_rbToList, show rbToList cmdq.rb = init ++ [c] from hconcat]
            simp
          rw [if_neg hne, rbPeekWrite_of_concat (show rbToList cmdq.rb = init ++ [c] from hconcat),
            hconcat]
          simp

/-- The loop removes the commands up to the frame and ends with the newest of
them. -/
theorem takeLoop_spec (cs : List Cmd) (cmdq : CmdQueue) {d : Nat} (hd : d < 65536)
    (hcs : cmdq.commands = cs) :
    ∃ cmdq', takeLoop (frameAt cmdq.firstFrame d) cs.length cmdq =
        .ok (cmdq', cmdq'.lastCommandRead) ∧
      cmdq'.commands = cs.drop (d + 1) ∧
      cmdq'.firstFrame = frameAt cmdq.firstFrame (min (d + 1) cs.length) ∧
      cmdq'.lastCommandRead = (cs.take (d + 1)).getLast?.getD cmdq.lastCommandRead := by
  induction cs generalizing cmdq d with
  | nil => exact ⟨cmdq, rfl, by rw [hcs, List.drop_nil], by simp, by simp⟩
  | cons c cs ih =>
      have hcount : cmdq.count = cs.length + 1 := by
        rw [← cmdq.length_commands, hcs, List.length_cons]
      obtain ⟨rb', htake, hrest⟩ := rbTake_of_cons (show rbToList cmdq.rb = c :: cs from hcs)
      rw [List.length_cons, takeLoop, if_pos (by omega), htake]
      dsimp only
      rw [CmdQueue.frameBegin]
      by_cases hzero : d = 0
      · subst hzero
        rw [frameAt_zero, if_pos rfl]
        refine ⟨_, rfl, hrest, ?_, by simp⟩
        rw [show min (0 + 1) (cs.length + 1) = 0 + 1 by omega, frameAt_succ, frameAt_zero]
      · obtain ⟨e, rfl⟩ : ∃ e, d = e + 1 := ⟨d - 1, by omega⟩
        have hne : cmdq.firstFrame ≠ frameAt cmdq.firstFrame (e + 1) := by
          intro h
          have := frameAt_inj (b := cmdq.firstFrame) (i := 0) (j := e + 1) (by omega) (by omega)
            (by rw [frameAt_zero]; exact h)
          omega
        have hshift (n : Nat) :
            frameAt (cmdq.firstFrame + 1) n = frameAt cmdq.firstFrame (n + 1) := by
          rw [Nat.add_comm, ← frameAt_frameAt]
          rfl
        obtain ⟨cmdq', hloop, hcommands, hfirst, hlast⟩ := ih
          ⟨rb', c, cmdq.firstFrame + 1⟩ (d := e) (by omega) hrest
        rw [if_neg hne, ← hshift]
        refine ⟨cmdq', hloop, hcommands, ?_, ?_⟩
        · rw [hfirst, hshift, Nat.add_min_add_right]
        · rw [hlast, List.take_succ_cons, List.getLast?_cons]
          rfl

/-- **Taking predicts** the same command, and leaves the entries of later
frames. -/
theorem take_spec (cmdq : CmdQueue) (frame : UInt16) :
    ∃ cmdq', cmdQueueTakeOrPredict cmdq frame = .ok (cmdq', cmdq.meaning.predict frame) ∧
      cmdq'.meaning = cmdq.meaning.take frame ∧ cmdq'.frameEnd = cmdq.frameEnd := by
  by_cases hempty : cmdq.commands = []
  · refine ⟨cmdq, ?_, (cmdq.take_empty hempty frame).symm, rfl⟩
    rw [takeOrPredict_empty hempty, cmdq.predict_empty hempty]
  · have hpos : 0 < cmdq.count := by
      rw [← cmdq.length_commands]
      exact List.length_pos_iff.mpr hempty
    by_cases hlt : u16LtWrap frame cmdq.frameBegin = true
    · have hbefore : cmdq.meaning.before frame = true := by
        rw [cmdq.before_meaning, hlt, decide_eq_true hpos]
        rfl
      refine ⟨cmdq, ?_, by rw [FrameQueue.take, if_pos hbefore], rfl⟩
      rw [cmdQueueTakeOrPredict, if_pos hlt, FrameQueue.predict, if_pos hbefore]
      rfl
    · rw [Bool.not_eq_true] at hlt
      have hcount := cmdq.count_lt
      have hbefore : cmdq.meaning.before frame = false := by
        rw [cmdq.before_meaning, hlt, Bool.and_false]
      obtain ⟨cmdq', hloop, hcommands, hfirst, hlast⟩ :=
        takeLoop_spec cmdq.commands cmdq (cmdq.distance_lt frame) rfl
      rw [cmdq.frameAt_distance, cmdq.length_commands] at hloop
      rw [← cmdq.predict_meaning hlt] at hlast
      refine ⟨cmdq', ?_, ?_, ?_⟩
      · rw [cmdQueueTakeOrPredict, if_neg (by rw [hlt]; decide), hloop, hlast]
      · have hfilter := filter_framesOf cmdq.firstFrame (k := 0) cmdq.commands
          (cmdq.distance_lt frame) (by rw [cmdq.length_commands]; omega)
          (by rw [cmdq.frameAt_distance]; exact hlt)
        rw [frameAt_zero, cmdq.frameAt_distance, Nat.zero_max, Nat.sub_zero] at hfilter
        rw [FrameQueue.take, if_neg (by rw [hbefore]; decide), CmdQueue.meaning, hlast]
        congr 1
        refine Eq.trans ?_ hfilter.symm
        rw [CmdQueue.frames, hcommands, CmdQueue.frameBegin, hfirst, cmdq.length_commands]
        by_cases hin : cmdq.distance frame + 1 ≤ cmdq.count
        · rw [Nat.min_eq_left hin]
        · rw [List.drop_of_length_le (by rw [cmdq.length_commands]; omega)]
          rfl
      · have hcount' := cmdq'.length_commands
        rw [hcommands, List.length_drop, cmdq.length_commands] at hcount'
        rw [CmdQueue.frameEnd, CmdQueue.frameEnd, hfirst, frameAt_frameAt, ← hcount',
          cmdq.length_commands]
        congr 1
        omega

/-- **Putting appends** the command with its frame, exactly when the queue is
empty or ends before that frame. -/
theorem put_spec {mem : Alloc} {cmdq : CmdQueue} (command : Cmd) {frame : UInt16}
    (hspace : cmdq.count = 0 ∨ frame = cmdq.frameEnd → rbHasSpace mem cmdq.rb = true) :
    if cmdq.count = 0 ∨ frame = cmdq.frameEnd then
      (cmdQueuePut mem cmdq command frame).frames = cmdq.frames ++ [(frame, command)] ∧
      (cmdQueuePut mem cmdq command frame).lastCommandRead = cmdq.lastCommandRead
    else cmdQueuePut mem cmdq command frame = cmdq := by
  by_cases hnext : cmdq.count = 0 ∨ frame = cmdq.frameEnd
  · have hframe : 0 < cmdq.count → frame = cmdq.frameEnd := fun hpos =>
      hnext.resolve_left (by omega)
    obtain ⟨hcommands, hlast, hfirst⟩ := cmdQueuePut_next command hframe (hspace hnext)
    rw [if_pos hnext]
    refine ⟨?_, hlast⟩
    rw [CmdQueue.frames, hcommands, framesOf_append, CmdQueue.frameBegin, hfirst,
      cmdq.length_commands]
    by_cases hpos : 0 < cmdq.count
    · rw [if_pos hpos, hframe hpos]
      rfl
    · have hnil : cmdq.commands = [] := List.length_eq_zero_iff.mp (by
        rw [cmdq.length_commands]
        omega)
      rw [if_neg hpos, CmdQueue.frames, hnil, show cmdq.count = 0 by omega, frameAt_zero]
      rfl
  · rw [if_neg hnext, cmdQueuePut, if_pos]
    exact ⟨Nat.pos_of_ne_zero fun h => hnext (Or.inl h), fun h => hnext (Or.inr h.symm)⟩

/-- A put with memory is the put of the frame queue. -/
theorem meaning_put {mem : Alloc} {cmdq : CmdQueue} (command : Cmd) {frame : UInt16}
    (hspace : cmdq.count = 0 ∨ frame = cmdq.frameEnd → rbHasSpace mem cmdq.rb = true) :
    (cmdQueuePut mem cmdq command frame).meaning = cmdq.meaning.put command frame := by
  have hput := put_spec command hspace
  have hlen := cmdq.length_commands
  rw [FrameQueue.put]
  rcases List.eq_nil_or_concat cmdq.commands with hnil | ⟨init, c, hconcat⟩
  · rw [hnil, List.length_nil] at hlen
    have hframes : cmdq.frames = [] := by rw [CmdQueue.frames, hnil]; rfl
    rw [if_pos (Or.inl hlen.symm), hframes] at hput
    simp only [CmdQueue.meaning, hframes, List.getLast?_nil, hput.1, hput.2, List.nil_append]
  · rw [List.concat_eq_append] at hconcat
    rw [hconcat, List.length_append, List.length_singleton] at hlen
    have hnewest : cmdq.frames.getLast? = some (frameAt cmdq.frameBegin init.length, c) := by
      rw [CmdQueue.frames, getLast?_framesOf, hconcat, List.getLast?_concat, List.length_append]
      rfl
    have hend : frameAt cmdq.frameBegin init.length + 1 = cmdq.frameEnd := by
      rw [← frameAt_succ, hlen]
      rfl
    rw [show cmdq.meaning.entries = cmdq.frames from rfl, hnewest]
    dsimp only
    rw [hend]
    by_cases heq : frame = cmdq.frameEnd
    · rw [if_pos (Or.inr heq)] at hput
      rw [if_pos heq, CmdQueue.meaning, hput.1, hput.2]
      rfl
    · rw [if_neg (fun h => h.elim (by omega) heq)] at hput
      rw [if_neg heq, hput]

/-! ## Runs -/

/-- The calls that change a command queue. -/
inductive CmdQueueOp where
  | put (command : Cmd) (frame : UInt16)
  | take (frame : UInt16)
  deriving DecidableEq

def cmdQueueStep (mem : Alloc) (cmdq : CmdQueue) : CmdQueueOp → Except Fault CmdQueue
  | .put command frame => .ok (cmdQueuePut mem cmdq command frame)
  | .take frame => do
      let (cmdq, _) ← cmdQueueTakeOrPredict cmdq frame
      return cmdq

def FrameQueue.step (q : FrameQueue) : CmdQueueOp → FrameQueue
  | .put command frame => q.put command frame
  | .take frame => q.take frame

/-- The allocation of a put that appends succeeds. -/
def PutHasSpace (mem : Alloc) (cmdq : CmdQueue) : CmdQueueOp → Prop
  | .put _ frame => cmdq.count = 0 ∨ frame = cmdq.frameEnd → rbHasSpace mem cmdq.rb = true
  | .take _ => True

instance (mem : Alloc) (cmdq : CmdQueue) (op : CmdQueueOp) :
    Decidable (PutHasSpace mem cmdq op) :=
  match op with
  | .put _ frame => inferInstanceAs
      (Decidable (cmdq.count = 0 ∨ frame = cmdq.frameEnd → rbHasSpace mem cmdq.rb = true))
  | .take _ => inferInstanceAs (Decidable True)

/-- One call of the queue is one operation of its meaning. -/
theorem cmdQueueStep_refines {mem : Alloc} {cmdq : CmdQueue} {op : CmdQueueOp}
    (hspace : PutHasSpace mem cmdq op) :
    ∃ cmdq', cmdQueueStep mem cmdq op = .ok cmdq' ∧ cmdq'.meaning = cmdq.meaning.step op := by
  cases op with
  | put command frame => exact ⟨_, rfl, meaning_put command hspace⟩
  | take frame =>
      obtain ⟨cmdq', htake, hmeaning, -⟩ := take_spec cmdq frame
      exact ⟨cmdq', by rw [cmdQueueStep, htake]; rfl, hmeaning⟩

/-- Every run of calls is the run of the frame queue, by induction on the calls. -/
theorem run_refines {mem : Alloc} {cmdq : CmdQueue} {ops : List CmdQueueOp}
    (hspace : Run.Meets (cmdQueueStep mem) (PutHasSpace mem) cmdq ops) :
    ∃ cmdq', Run.run (cmdQueueStep mem) cmdq ops = .ok cmdq' ∧
      cmdq'.meaning = ops.foldl FrameQueue.step cmdq.meaning := by
  induction ops generalizing cmdq with
  | nil => exact ⟨cmdq, rfl, rfl⟩
  | cons op ops ih =>
      obtain ⟨next, hstep, hmeaning⟩ := cmdQueueStep_refines hspace.1
      obtain ⟨cmdq', hrun, hfold⟩ := ih (hspace.2 next hstep)
      exact ⟨cmdq', by rw [Run.run, hstep]; exact hrun, by rw [hfold, hmeaning]; rfl⟩

/-- What a take leaves, in terms of the wrapped frame numbers. -/
theorem frames_take (cmdq : CmdQueue) (frame : UInt16) :
    (u16LtWrap frame cmdq.frameBegin = true →
      (cmdq.meaning.take frame).entries = cmdq.frames) ∧
    (u16LtWrap frame cmdq.frameBegin = false →
      (cmdq.meaning.take frame).entries = cmdq.frames.filter fun e => u16GtWrap e.1 frame) ∧
    (u16LtWrap frame cmdq.frameBegin = false → u16GeWrap frame cmdq.frameEnd = true →
      (cmdq.meaning.take frame).entries = []) := by
  have hlater (hlt : u16LtWrap frame cmdq.frameBegin = false) :
      (cmdq.meaning.take frame).entries = cmdq.frames.filter fun e => u16GtWrap e.1 frame := by
    rw [FrameQueue.take, cmdq.before_meaning, hlt, Bool.and_false]
    rfl
  refine ⟨fun hlt => ?_, hlater, fun hlt hend => ?_⟩
  · by_cases hempty : cmdq.commands = []
    · rw [cmdq.take_empty hempty]
      rfl
    · have hpos : 0 < cmdq.count := by
        rw [← cmdq.length_commands]
        exact List.length_pos_iff.mpr hempty
      rw [FrameQueue.take, cmdq.before_meaning, hlt, decide_eq_true hpos]
      rfl
  · have hcount := cmdq.count_lt
    have hpast : cmdq.count ≤ cmdq.distance frame := by
      apply (u16Wrap_end cmdq.firstFrame (cmdq.distance_lt frame) hcount ?_).mp
      · rw [cmdq.frameAt_distance]
        exact hend
      · rw [cmdq.frameAt_distance]
        exact hlt
    have hfilter := filter_framesOf cmdq.firstFrame (k := 0) cmdq.commands
      (cmdq.distance_lt frame) (by rw [cmdq.length_commands]; omega)
      (by rw [cmdq.frameAt_distance]; exact hlt)
    rw [frameAt_zero, cmdq.frameAt_distance, List.drop_of_length_le (by
      rw [cmdq.length_commands]
      omega)] at hfilter
    rw [hlater hlt]
    exact hfilter

/-- **The two functions of the command queue agree over every run.**  The queue
stands for the commands that were put, each under the frame it was put with, and
the frames follow each other. -/
theorem command_queue_predicts (mem : Alloc) (ops : List CmdQueueOp)
    (hspace : Run.Meets (cmdQueueStep mem) (PutHasSpace mem) cmdQueueInit ops) :
    ∃ cmdq, Run.run (cmdQueueStep mem) cmdQueueInit ops = .ok cmdq ∧
      cmdq.meaning = ops.foldl FrameQueue.step FrameQueue.init ∧
      cmdq.frames.IsChain (fun e e' => e'.1 = e.1 + 1) ∧
      (∀ frame, ∃ cmdq' command,
        cmdQueueTakeOrPredict cmdq frame = .ok (cmdq', command) ∧
        cmdQueueFindOrPredict cmdq frame = .ok command ∧
        cmdq'.frameEnd = cmdq.frameEnd ∧
        (u16LtWrap frame cmdq.frameBegin = true → cmdq'.frames = cmdq.frames) ∧
        (u16LtWrap frame cmdq.frameBegin = false →
          cmdq'.frames = cmdq.frames.filter fun e => u16GtWrap e.1 frame) ∧
        (u16LtWrap frame cmdq.frameBegin = false → u16GeWrap frame cmdq.frameEnd = true →
          cmdq'.frames = [])) ∧
      ∀ command frame, PutHasSpace mem cmdq (.put command frame) →
        if cmdq.count = 0 ∨ frame = cmdq.frameEnd then
          (cmdQueuePut mem cmdq command frame).frames = cmdq.frames ++ [(frame, command)] ∧
          (cmdQueuePut mem cmdq command frame).lastCommandRead = cmdq.lastCommandRead
        else cmdQueuePut mem cmdq command frame = cmdq := by
  obtain ⟨cmdq, hrun, hmeaning⟩ := run_refines hspace
  refine ⟨cmdq, hrun, hmeaning, isChain_framesOf _ _, fun frame => ?_, fun command frame h =>
    put_spec command h⟩
  obtain ⟨cmdq', htake, htaken, hend⟩ := take_spec cmdq frame
  have hframes : cmdq'.frames = (cmdq.meaning.take frame).entries :=
    congrArg FrameQueue.entries htaken
  refine ⟨cmdq', _, htake, find_eq_predict cmdq frame, hend, ?_⟩
  rw [hframes]
  exact frames_take cmdq frame

/-- Three puts over the wrap of the frame number, one of a frame that does not
follow, and a take from the middle. -/
def wrappedOps : List CmdQueueOp :=
  [.put { cmdDefault with angle := 1 } 65534, .put { cmdDefault with angle := 2 } 65535,
    .put { cmdDefault with angle := 9 } 7, .put { cmdDefault with angle := 3 } 0, .take 65535]

/-- Calls across the wrap of the frame counter. -/
theorem command_queue_predicts_wrapped :
    ∃ cmdq, Run.run (cmdQueueStep Alloc.unlimited) cmdQueueInit wrappedOps = .ok cmdq ∧
      cmdq.meaning = ⟨[(0, { cmdDefault with angle := 3 })], { cmdDefault with angle := 2 }⟩ := by
  obtain ⟨cmdq, hrun, hmeaning, -⟩ := command_queue_predicts Alloc.unlimited wrappedOps (by decide)
  exact ⟨cmdq, hrun, hmeaning.trans (by decide)⟩

end Clither
