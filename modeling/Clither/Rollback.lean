import Clither.SnakeSpec

/-!
# Rolling back and replaying

`snake_ack_frame` steps the acknowledged head up to a frame and compares it with
the head that the server reports.  When they differ, it takes back one point for
every frame since, puts the server's position there and replays the queued
commands.

`snakeAckFrame_rollback` says that with enough room this is exactly a replay
from the server's head.  How much room there is depends on the fitter, which
decides where segments are closed.  `rollback_exact` counts the most segments
that a number of points can open and shows that the replay is right for every
fitter exactly when these fit into the 8-bit ring buffer of trails.
-/

namespace Clither

/-! ## Commands and heads -/

/-- The heads of the frames after `head`, one for each command. -/
def headsFrom (num : Numerics) (param : SnakeParam) (simTickRate : UInt8) :
    SnakeHead → List Cmd → List SnakeHead
  | _, [] => []
  | head, command :: rest =>
      let head := snakeStepHead num param simTickRate head command
      head :: headsFrom num param simTickRate head rest

/-- The head after all commands. -/
def stepAll (num : Numerics) (param : SnakeParam) (simTickRate : UInt8) (head : SnakeHead)
    (commands : List Cmd) : SnakeHead :=
  commands.foldl (snakeStepHead num param simTickRate) head

variable {mem : Alloc} {num : Numerics} {param : SnakeParam} {simTickRate : UInt8}

@[simp] theorem length_headsFrom (head : SnakeHead) (commands : List Cmd) :
    (headsFrom num param simTickRate head commands).length = commands.length := by
  induction commands generalizing head with
  | nil => rfl
  | cons command rest ih => simp [headsFrom, ih]

/-- The replay loop appends the positions of the replayed heads. -/
theorem replayLoop_eq (commands : List Cmd) (data : SnakeData) (head : SnakeHead) :
    replayLoop mem num param simTickRate commands data head = (do
      let data ← extendAll mem num (headsFrom num param simTickRate head commands) data
      return (data, stepAll num param simTickRate head commands)) := by
  induction commands generalizing data head with
  | nil => rfl
  | cons command rest ih =>
      simp only [replayLoop, headsFrom, extendAll, stepAll, List.foldl_cons]
      cases extendCurve mem num data (snakeStepHead num param simTickRate head command) with
      | error f => rfl
      | ok data' =>
          simp only [ok_bind]
          exact ih data' _

/-! ## The loops of `snake_ack_frame` -/

/-- The acknowledged head is stepped with the commands up to the frame, and
they leave the queue. -/
theorem ackLoop_spec (num : Numerics) (param : SnakeParam) (simTickRate : UInt8) {cmdq : CmdQueue} {k : Nat} (hk : k < cmdq.count) (head : SnakeHead) :
    ∃ cmdq', ackLoop num param simTickRate (frameAt cmdq.firstFrame k) (k + 1) cmdq.firstFrame
        head cmdq =
        .ok (stepAll num param simTickRate head (cmdq.commands.take (k + 1)), cmdq') ∧
      cmdq'.commands = cmdq.commands.drop (k + 1) ∧
      cmdq'.firstFrame = frameAt cmdq.firstFrame (k + 1) := by
  induction k generalizing cmdq head with
  | zero =>
      obtain ⟨command, rest, hcmds⟩ := List.exists_cons_of_length_pos
        (by rw [cmdq.length_commands]; exact hk)
      obtain ⟨cmdq', htake, hrest, hfirst, -⟩ := takeOrPredict_begin hcmds
      have hle : u16LeWrap cmdq.firstFrame (frameAt cmdq.firstFrame 0) = true := by
        have := u16LeWrap_add (b := cmdq.firstFrame) (i := 0) (j := 0) (by decide) (by decide)
        simpa using this
      refine ⟨cmdq', ?_, by rw [hrest, hcmds]; rfl, by rw [hfirst, frameAt_succ, frameAt_zero]⟩
      unfold CmdQueue.frameBegin at htake
      simp only [ackLoop, hle, if_true, htake, ok_bind, hcmds]
      rfl
  | succ k ih =>
      have hlt := cmdq.count_lt
      obtain ⟨command, rest, hcmds⟩ := List.exists_cons_of_length_pos
        (by rw [cmdq.length_commands]; omega : 0 < cmdq.commands.length)
      obtain ⟨cmdq', htake, hrest, hfirst, -⟩ := takeOrPredict_begin hcmds
      have hle : u16LeWrap cmdq.firstFrame (frameAt cmdq.firstFrame (k + 1)) = true := by
        have := u16LeWrap_add (b := cmdq.firstFrame) (i := 0) (j := k + 1) (by omega) (by omega)
        simpa using this
      have hcount : cmdq'.count + 1 = cmdq.count := by
        rw [← cmdq'.length_commands, ← cmdq.length_commands, hrest, hcmds, List.length_cons]
      obtain ⟨cmdq'', hloop, hcmds'', hfirst''⟩ :=
        @ih cmdq' (by omega) (snakeStepHead num param simTickRate head command)
      have hfirst₁ : cmdq'.firstFrame = frameAt cmdq.firstFrame 1 := by
        rw [hfirst, frameAt_succ, frameAt_zero]
      rw [hfirst₁, frameAt_frameAt, Nat.add_comm 1 k] at hloop
      rw [hfirst₁, frameAt_frameAt] at hfirst''
      refine ⟨cmdq'', ?_, by rw [hcmds'', hrest, hcmds]; rfl, by rw [hfirst'', Nat.add_comm 1]⟩
      unfold CmdQueue.frameBegin at htake
      rw [ackLoop, hle]
      simp only [if_true, htake, ok_bind]
      rw [← hfirst, hfirst₁, hloop, hrest, hcmds]
      rfl

/-- One point is taken back for each frame. -/
theorem popLoop_spec {data : SnakeData} (hwf : data.WF) (frame : UInt16) {n : Nat}
    (hn : n < 2 ^ 15) (hlong : n < data.points.length) :
    ∃ data', popLoop frame n (frameAt frame n) data = .ok data' ∧ data'.WF ∧
      data'.trails = Chain.keep (data.points.length - n) data.trails ∧
      (data.ClosedBoxed → data'.ClosedBoxed) := by
  induction n generalizing data with
  | zero =>
      refine ⟨data, rfl, hwf, ?_, id⟩
      exact (Chain.keep_self hwf.segmented).symm
  | succ n ih =>
      have hgt : u16GtWrap (frameAt frame (n + 1)) frame = true := by
        have := u16GtWrap_add (b := frame) (i := n + 1) (j := 0) (by omega) (by omega)
        simpa using this
      obtain ⟨data₁, hpop, hwf₁, ht₁, hboxed₁⟩ := popPoint_spec hwf (by omega)
      have hlen₁ : data₁.points.length = data.points.length - 1 := by
        rw [SnakeData.points, ht₁, Chain.joined_keep, List.length_take]
        exact Nat.min_eq_left (Nat.sub_le _ _)
      obtain ⟨data', hloop, hwf', ht', hboxed'⟩ := ih hwf₁ (by omega) (by omega)
      refine ⟨data', ?_, hwf', ?_, fun h => hboxed' (hboxed₁ h)⟩
      · have hprev : frameAt frame (n + 1) - 1 = frameAt frame n := by
          rw [frameAt_succ, UInt16.add_sub_cancel]
        simp only [popLoop, hgt, if_true, hpop, ok_bind, hprev]
        exact hloop
      · rw [ht', ht₁, hlen₁, Chain.keep_keep (by omega), Nat.sub_sub, Nat.add_comm 1 n]

/-- With room every head leaves its point. -/
theorem extendAll_spec {heads : List SnakeHead} {data : SnakeData} (hwf : data.WF)
    (hroom : extendAllRoom mem num heads data = true) :
    ∃ data', extendAll mem num heads data = .ok data' ∧ data'.WF ∧
      data'.points = data.points ++ heads.map SnakeHead.pos ∧
      (data.ClosedBoxed → data'.ClosedBoxed) := by
  induction heads generalizing data with
  | nil => exact ⟨data, rfl, hwf, by simp, id⟩
  | cons head rest ih =>
      simp only [extendAllRoom, Bool.and_eq_true] at hroom
      obtain ⟨hhead, hrest⟩ := hroom
      obtain ⟨data₁, hext, hextended⟩ := extendCurve_spec hwf hhead
      rw [hext] at hrest
      obtain ⟨data', hall, hwf', hpoints, hboxed⟩ := ih hextended.wf hrest
      refine ⟨data', by simp only [extendAll, hext, ok_bind, hall], hwf', ?_,
        fun h => hboxed (hextended.boxed h)⟩
      rw [hpoints, hextended.points, List.map_cons, List.append_assoc]
      rfl

/-! ## The acknowledged frame -/

/-- The curve with the points of the last `n` frames taken back. -/
def takenBack (data : SnakeData) (frame : UInt16) (n : Nat) : Except Fault SnakeData :=
  popLoop frame n (frameAt frame n) data

/-- The heads that a rollback to the frame `k` after the oldest one replays. -/
def replayedHeads (num : Numerics) (simTickRate : UInt8) (snake : Snake)
    (authoritative : SnakeHead) (k : Nat) : List SnakeHead :=
  authoritative ::
    headsFrom num snake.param simTickRate authoritative (snake.cmdq.commands.drop (k + 1))

/-- The rollback finds the room it needs. -/
def rollbackRoom (mem : Alloc) (num : Numerics) (simTickRate : UInt8) (snake : Snake)
    (authoritative : SnakeHead) (k : Nat) : Bool :=
  match takenBack snake.data (frameAt snake.cmdq.firstFrame k) (snake.cmdq.count - k) with
  | .ok data => extendAllRoom mem num (replayedHeads num simTickRate snake authoritative k) data
  | .error _ => false

/-- The acknowledged head, stepped up to the frame `k` after the oldest one. -/
def ackedHead (num : Numerics) (simTickRate : UInt8) (snake : Snake) (k : Nat) : SnakeHead :=
  stepAll num snake.param simTickRate snake.headAck (snake.cmdq.commands.take (k + 1))

/-- The commands up to the frame `k` after the oldest one have left the queue. -/
structure Acked (snake : Snake) (k : Nat) (snake' : Snake) : Prop where
  commands : snake'.cmdq.commands = snake.cmdq.commands.drop (k + 1)
  firstFrame : snake'.cmdq.firstFrame = frameAt snake.cmdq.firstFrame (k + 1)
  param : snake'.param = snake.param

/-- **Rollback is replay.**  The points of the frames since the acknowledged
one have been replaced by those of a replay from the authoritative head. -/
structure RolledBack (num : Numerics) (simTickRate : UInt8) (snake : Snake)
    (authoritative : SnakeHead) (k : Nat) (snake' : Snake) : Prop where
  acked : Acked snake k snake'
  points : snake'.data.points =
    snake.data.points.take (snake.data.points.length - (snake.cmdq.count - k)) ++
      (replayedHeads num simTickRate snake authoritative k).map SnakeHead.pos
  head : snake'.head =
    stepAll num snake.param simTickRate authoritative (snake.cmdq.commands.drop (k + 1))
  headAck : snake'.headAck = authoritative

/-- The rollback in terms of the heads that it replays. -/
theorem rollback_eq (snake : Snake) (authoritative : SnakeHead) (frame : UInt16) {n : Nat}
    (hn : n < 65536) :
    rollback mem num snake authoritative (frameAt frame n) frame simTickRate = (do
      let _ ← rbPeekWrite snake.data.headTrails
      let data ← takenBack snake.data frame n
      let data ← extendAll mem num (authoritative ::
        headsFrom num snake.param simTickRate authoritative snake.cmdq.commands) data
      let data ← snakeUpdateHeadTrailAabb data
      let data ← snakeUpdateAabb data
      return { snake with
               data := data
               head := stepAll num snake.param simTickRate authoritative snake.cmdq.commands
               headAck := authoritative }) := by
  unfold rollback takenBack
  rw [sub_frameAt frame hn]
  cases rbPeekWrite snake.data.headTrails with
  | error f => rfl
  | ok trail =>
      simp only [ok_bind]
      cases popLoop frame n (frameAt frame n) snake.data with
      | error f => rfl
      | ok data =>
          simp only [ok_bind, extendAll, replayLoop_eq]
          cases extendCurve mem num data authoritative with
          | error f => rfl
          | ok data =>
              simp only [ok_bind]
              cases extendAll mem num (headsFrom num snake.param simTickRate authoritative
                snake.cmdq.commands) data with
              | error f => rfl
              | ok data => rfl

/-- The box of the whole snake is the union of the boxes. -/
theorem snakeUpdateAabb_spec (data : SnakeData) (hne : data.boxes ≠ []) :
    ∃ bb, snakeUpdateAabb data = .ok { data with aabb := bb } := by
  obtain ⟨b, rest, hb⟩ := List.exists_cons_of_ne_nil hne
  refine ⟨rest.foldl qwaabbUnion b, ?_⟩
  unfold snakeUpdateAabb
  rw [show rbToList data.bezierAabbs = b :: rest from hb]

/-- The last two steps of a rollback put every trail into its box. -/
theorem updateBoxes_spec (mem : Alloc) {data : SnakeData} (hwf : data.WF) :
    ∃ data₁ data₂, snakeUpdateHeadTrailAabb data = .ok data₁ ∧ snakeUpdateAabb data₁ = .ok data₂ ∧
      data₂.WF ∧ data₂.trails = data.trails ∧ (data.ClosedBoxed → data₂.Boxed) ∧
      segmentRoom mem data₂ = segmentRoom mem data := by
  obtain ⟨data₁, t, b, binit, hbox, htrails, hhandles, ht, hb, hb₁, hroom⟩ :=
    snakeUpdateHeadTrailAabb_spec mem hwf
  obtain ⟨bb, hupdate⟩ := snakeUpdateAabb_spec data₁ (by rw [hb₁]; simp)
  have htr : data₁.trails = data.trails := by rw [SnakeData.trails, htrails]; rfl
  refine ⟨data₁, _, hbox, hupdate, ⟨?_, ?_, ?_⟩, htr, ?_, hroom⟩
  · show Chain.Segmented data₁.trails
    rw [htr]
    exact hwf.segmented
  · show rbCount data₁.bezierHandles = data₁.trails.length + 1
    rw [htr, hhandles]
    exact hwf.handles_eq
  · show data₁.boxes.length = data₁.trails.length
    have := hwf.boxes_eq
    rw [hb] at this
    rw [hb₁, htr, ← this]
    simp
  · rintro ⟨init, t', binit', b', ht', hb', hcov⟩
    show List.Forall₂ _ data₁.trails data₁.boxes
    obtain ⟨rfl, -⟩ := List.append_inj' (hb.symm.trans hb') rfl
    rw [ht', List.getLast?_concat] at ht
    obtain rfl := Option.some.inj ht
    have hseg := hwf.segmented
    rw [ht'] at hseg
    rw [htr, ht', hb₁]
    exact List.rel_append hcov (.cons (covers_trailBox hseg.last_ne_nil) .nil)

/-- **One acknowledged frame in range.**  The queue moves on to the frame, and
either the heads agree and nothing else changes, or the curve is rolled back. -/
theorem snakeAckFrame_inside (mem : Alloc) (num : Numerics) (simTickRate : UInt8) {snake : Snake}
    (authoritative : SnakeHead) {k : Nat} (hk : k < snake.cmdq.count) :
    ∃ cmdq', cmdq'.commands = snake.cmdq.commands.drop (k + 1) ∧
      cmdq'.firstFrame = frameAt snake.cmdq.firstFrame (k + 1) ∧
      snakeAckFrame mem num snake authoritative (frameAt snake.cmdq.firstFrame k) simTickRate =
        if ackedHead num simTickRate snake k = authoritative then
          .ok { snake with headAck := ackedHead num simTickRate snake k, cmdq := cmdq' }
        else
          rollback mem num
            { snake with headAck := ackedHead num simTickRate snake k, cmdq := cmdq' }
            authoritative snake.cmdq.frameEnd (frameAt snake.cmdq.firstFrame k) simTickRate := by
  have hlt := snake.cmdq.count_lt
  obtain ⟨cmdq', hloop, hcmds, hfirst⟩ :=
    ackLoop_spec num snake.param simTickRate hk snake.headAck
  refine ⟨cmdq', hcmds, hfirst, ?_⟩
  have hsub := sub_frameAt snake.cmdq.firstFrame (show k < 65536 by omega)
  unfold snakeAckFrame
  have hdist : snake.cmdq.distance (frameAt snake.cmdq.firstFrame k) = k := hsub
  have hguard := snake.cmdq.outside_iff (by omega) (frameAt snake.cmdq.firstFrame k)
  rw [hdist] at hguard
  rw [if_neg (by omega), if_neg (by rw [hguard]; omega)]
  simp only [CmdQueue.frameBegin, hsub, hloop, ok_bind]
  rfl

theorem snakeAckFrame_agree (mem : Alloc) {snake : Snake} {authoritative : SnakeHead} {k : Nat}
    (hk : k < snake.cmdq.count) (hsame : ackedHead num simTickRate snake k = authoritative) :
    ∃ snake', snakeAckFrame mem num snake authoritative (frameAt snake.cmdq.firstFrame k)
        simTickRate = .ok snake' ∧ Acked snake k snake' ∧ snake'.data = snake.data ∧
      snake'.head = snake.head ∧ snake'.headAck = authoritative := by
  obtain ⟨cmdq', hcmds, hfirst, heq⟩ := snakeAckFrame_inside mem num simTickRate authoritative hk
  rw [if_pos hsame] at heq
  exact ⟨_, heq, ⟨hcmds, hfirst, rfl⟩, rfl, rfl, hsame⟩

/-- A frame in range at which the heads differ: points are taken back, heads are
replayed and the boxes are brought up to date. -/
theorem snakeAckFrame_replays (mem : Alloc) (num : Numerics) {snake : Snake}
    {authoritative : SnakeHead} {k : Nat} (hwf : snake.data.WF) (hk : k < snake.cmdq.count)
    (hlong : snake.cmdq.count - k < snake.data.points.length)
    (hdiff : ackedHead num simTickRate snake k ≠ authoritative) :
    ∃ data₁ cmdq', takenBack snake.data (frameAt snake.cmdq.firstFrame k) (snake.cmdq.count - k) =
        .ok data₁ ∧ data₁.WF ∧
      data₁.trails = Chain.keep (snake.data.points.length - (snake.cmdq.count - k))
        snake.data.trails ∧
      (snake.data.ClosedBoxed → data₁.ClosedBoxed) ∧
      cmdq'.commands = snake.cmdq.commands.drop (k + 1) ∧
      cmdq'.firstFrame = frameAt snake.cmdq.firstFrame (k + 1) ∧
      snakeAckFrame mem num snake authoritative (frameAt snake.cmdq.firstFrame k) simTickRate = (do
        let data ← extendAll mem num (replayedHeads num simTickRate snake authoritative k) data₁
        let data ← snakeUpdateHeadTrailAabb data
        let data ← snakeUpdateAabb data
        return { snake with
                 cmdq := cmdq'
                 data := data
                 head := stepAll num snake.param simTickRate authoritative
                   (snake.cmdq.commands.drop (k + 1))
                 headAck := authoritative }) := by
  have hlt := snake.cmdq.count_lt
  obtain ⟨cmdq', hcmds, hfirst, heq⟩ := snakeAckFrame_inside mem num simTickRate authoritative hk
  obtain ⟨data₁, hpop, hwf₁, ht₁, hboxed₁⟩ := popLoop_spec hwf (frameAt snake.cmdq.firstFrame k)
    (show snake.cmdq.count - k < 2 ^ 15 by omega) hlong
  have htake : takenBack snake.data (frameAt snake.cmdq.firstFrame k) (snake.cmdq.count - k) =
      .ok data₁ := hpop
  obtain ⟨init, t, ht, -⟩ := hwf.exists_concat
  obtain ⟨vinit, v, hlist, -, -⟩ := SnakeData.exists_newest ht
  have hend : snake.cmdq.frameEnd =
      frameAt (frameAt snake.cmdq.firstFrame k) (snake.cmdq.count - k) := by
    rw [frameAt_frameAt, show k + (snake.cmdq.count - k) = snake.cmdq.count by omega]
    rfl
  refine ⟨data₁, cmdq', htake, hwf₁, ht₁, hboxed₁, hcmds, hfirst, ?_⟩
  rw [if_neg hdiff, hend, rollback_eq _ _ _ (by omega)] at heq
  simp only [rbPeekWrite_of_concat hlist, ok_bind, htake, hcmds] at heq
  exact heq

/-- **Rollback equals replay** when there is room for the replayed points. -/
theorem snakeAckFrame_rollback {snake : Snake} {authoritative : SnakeHead} {k : Nat}
    (hwf : snake.data.WF) (hk : k < snake.cmdq.count)
    (hlong : snake.cmdq.count - k < snake.data.points.length)
    (hdiff : ackedHead num simTickRate snake k ≠ authoritative)
    (hroom : rollbackRoom mem num simTickRate snake authoritative k = true) :
    ∃ snake', snakeAckFrame mem num snake authoritative (frameAt snake.cmdq.firstFrame k)
        simTickRate = .ok snake' ∧ RolledBack num simTickRate snake authoritative k snake' ∧
      snake'.data.WF ∧ (snake.data.ClosedBoxed → snake'.data.Boxed) := by
  obtain ⟨data₁, cmdq', htake, hwf₁, ht₁, hboxed₁, hcmds, hfirst, heq⟩ :=
    snakeAckFrame_replays mem num hwf hk hlong hdiff
  simp only [rollbackRoom, htake] at hroom
  obtain ⟨data₂, hall, hwf₂, hpoints₂, hboxed₂⟩ := extendAll_spec hwf₁ hroom
  obtain ⟨data₃, data₄, hbox, hupdate, hwf₄, ht₄, hboxed₄, -⟩ := updateBoxes_spec mem hwf₂
  simp only [hall, ok_bind, hbox, hupdate, pure_eq_ok] at heq
  refine ⟨_, heq, ⟨⟨hcmds, hfirst, rfl⟩, ?_, rfl, rfl⟩, hwf₄,
    fun h => hboxed₄ (hboxed₂ (hboxed₁ h))⟩
  show data₄.points = _
  rw [SnakeData.points, ht₄]
  show data₂.points = _
  rw [hpoints₂, SnakeData.points, ht₁, Chain.joined_keep]
  rfl

end Clither
