import Clither.Lib.Run
import Clither.Rollback

/-!
# The client's snake over a whole run

A run interleaves three kinds of events: the client steps its snake by the
command of the next frame, removes segments that are no longer drawn, and
receives the server's head for some frame.

`Tracked` is the invariant of such runs.  It says where the acknowledged head is
on the curve: the points behind it are those of the queued commands, so that a
rollback to any queued frame finds the points it takes back.  Removing segments
keeps them, because the box of a segment contains all of its points.

`rollback_data_kept` is the safety of every run whose messages are for queued
frames, and `acks_monotone` says what the messages do to the two heads.
-/

namespace Clither

/-- A client's snake and the frame number of its next step. -/
structure ClientRun where
  snake : Snake
  frame : UInt16
  deriving DecidableEq

inductive ClientEvent where
  /-- The command of the next frame is queued and the snake is stepped. -/
  | step (command : Cmd)
  /-- Superfluous segments are removed. -/
  | removeStale (stale : Nat)
  /-- A `MSG_SNAKE_HEAD` arrives. -/
  | ack (frame : UInt16) (authoritative : SnakeHead)

def clientEvent (mem : Alloc) (num : Numerics) (simTickRate : UInt8) (s : ClientRun) :
    ClientEvent → Except Fault ClientRun
  | .step command => do
      let cmdq := cmdQueuePut mem s.snake.cmdq command s.frame
      let (data, head, _) ← snakeStep mem num s.snake.data s.snake.head s.snake.param command
        simTickRate
      return { snake := { s.snake with cmdq := cmdq, data := data, head := head }
               frame := s.frame + 1 }
  | .removeStale stale => do
      let data ← snakeRemoveStaleSegmentsWithRollbackConstraint s.snake.data s.snake.headAck stale
      return { s with snake := { s.snake with data := data } }
  | .ack frame authoritative => do
      let snake ← snakeAckFrame mem num s.snake authoritative frame simTickRate
      return { s with snake := snake }

variable {mem : Alloc} {num : Numerics} {simTickRate : UInt8}

/-- A frame of the client is a step and the removal of as many segments as the
step reported. -/
theorem clientStep_eq_run (s : ClientRun) (command : Cmd) :
    clientStep mem num s.snake command s.frame simTickRate = (do
      let s' ← clientEvent mem num simTickRate s (.step command)
      let (_, _, stale) ← snakeStep mem num s.snake.data s.snake.head s.snake.param command
        simTickRate
      let s'' ← clientEvent mem num simTickRate s' (.removeStale stale)
      return s''.snake) := by
  unfold clientStep
  simp only [clientEvent]
  cases snakeStep mem num s.snake.data s.snake.head s.snake.param command simTickRate with
  | error f => rfl
  | ok r =>
      obtain ⟨data, head, stale⟩ := r
      simp only [ok_bind, pure_eq_ok]
      cases snakeRemoveStaleSegmentsWithRollbackConstraint data s.snake.headAck stale with
      | error f => rfl
      | ok data => rfl

/-! ## Where the acknowledged head is -/

/-- The acknowledged head is on the curve, followed by the positions of the
queued commands, and the predicted head is the last of them. -/
structure Tracked (num : Numerics) (simTickRate : UInt8) (s : ClientRun) : Prop where
  wf : s.snake.data.WF
  boxed : s.snake.data.Boxed
  ackd : ∃ older, s.snake.data.points = older ++ s.snake.headAck.pos ::
    (headsFrom num s.snake.param simTickRate s.snake.headAck s.snake.cmdq.commands).map
      SnakeHead.pos
  next : 0 < s.snake.cmdq.count → s.frame = s.snake.cmdq.frameEnd
  predicted : s.snake.head =
    stepAll num s.snake.param simTickRate s.snake.headAck s.snake.cmdq.commands

theorem headsFrom_append (param : SnakeParam) (head : SnakeHead) (xs ys : List Cmd) :
    headsFrom num param simTickRate head (xs ++ ys) =
      headsFrom num param simTickRate head xs ++
        headsFrom num param simTickRate (stepAll num param simTickRate head xs) ys := by
  induction xs generalizing head with
  | nil => rfl
  | cons x xs ih =>
      simp only [List.cons_append, headsFrom, ih]
      rfl

theorem stepAll_append (param : SnakeParam) (head : SnakeHead) (xs ys : List Cmd) :
    stepAll num param simTickRate head (xs ++ ys) =
      stepAll num param simTickRate (stepAll num param simTickRate head xs) ys :=
  List.foldl_append

/-- The last of the heads is the one after all commands. -/
theorem headsFrom_concat (param : SnakeParam) (head : SnakeHead) (xs : List Cmd) (x : Cmd) :
    headsFrom num param simTickRate head (xs ++ [x]) =
      headsFrom num param simTickRate head xs ++
        [stepAll num param simTickRate head (xs ++ [x])] := by
  rw [headsFrom_append, stepAll_append]
  rfl

/-! ## A step -/

/-- The containers have room for a step. -/
def stepRoom (mem : Alloc) (num : Numerics) (simTickRate : UInt8) (s : ClientRun)
    (command : Cmd) : Bool :=
  rbHasSpace mem s.snake.cmdq.rb && extendRoom mem num s.snake.data
    (snakeStepHead num s.snake.param simTickRate s.snake.head command)

theorem SnakeData.Boxed.closed {data : SnakeData} (hwf : data.WF) (h : data.Boxed) :
    data.ClosedBoxed := by
  obtain ⟨init, t, ht, -⟩ := hwf.exists_concat
  unfold SnakeData.Boxed at h
  rw [ht] at h
  obtain ⟨binit, b, hb, hcov, -⟩ := forall₂_concat h
  exact ⟨init, t, binit, b, ht, hb, hcov⟩

theorem snakeStep_spec {data : SnakeData} {head : SnakeHead} {param : SnakeParam} {command : Cmd}
    (hwf : data.WF) (hboxed : data.Boxed)
    (hroom : extendRoom mem num data (snakeStepHead num param simTickRate head command) = true) :
    ∃ data' stale, snakeStep mem num data head param command simTickRate =
        .ok (data', snakeStepHead num param simTickRate head command, stale) ∧
      data'.WF ∧ data'.Boxed ∧
      data'.points = data.points ++ [(snakeStepHead num param simTickRate head command).pos] := by
  simp only [extendRoom, Bool.and_eq_true] at hroom
  obtain ⟨hnewest, hsegment⟩ := hroom
  unfold snakeStep
  generalize snakeStepHead num param simTickRate head command = head' at hnewest hsegment ⊢
  obtain ⟨data₁, _, t₀, h₁, h₂, -, hupdate, happ⟩ :=
    snakeUpdateCurveFromHead_spec num hwf hnewest head'
  generalize decide ((num.fitTrail h₁ h₂ (t₀ ++ [head'.pos])).2.2 > fitThreshold) = need at hupdate
  have hneed : needsSegment mem num data head' = need := by rw [needsSegment, hupdate]
  obtain ⟨init, t, ht, ht₁⟩ := happ.trails
  have hwf₁ := happ.wf hwf
  have htne : t ≠ [] := by
    have hseg := hwf.segmented
    rw [ht] at hseg
    exact hseg.last_ne_nil
  have hclosed₁ : data₁.ClosedBoxed := by
    obtain ⟨init', t', binit, b, ht', hb, hcov⟩ := hboxed.closed hwf
    obtain ⟨rfl, -⟩ := List.append_inj' (ht.symm.trans ht') rfl
    exact ⟨init, _, binit, b, ht₁, by rw [SnakeData.boxes, happ.aabbs_eq]; exact hb, hcov⟩
  obtain ⟨data₂, data₃, hbox, haabb, hwf₃, ht₃, hboxed₃, hroom₃⟩ := updateBoxes_spec mem hwf₁
  have hpoints₃ : data₃.points = data.points ++ [head'.pos] := by
    rw [SnakeData.points, ht₃]
    exact happ.points hwf
  rw [hneed] at hsegment
  cases need with
  | false =>
      refine ⟨data₃, _, by simp only [hupdate, ok_bind, hbox, haabb]; rfl, hwf₃, hboxed₃ hclosed₁,
        hpoints₃⟩
  | true =>
      have hroom : segmentRoom mem data₃ = true := by
        rw [hroom₃, happ.room_eq]
        simpa using hsegment
      obtain ⟨data₄, hopen, hopened⟩ := snakeAddNewSegment_spec hroom head'
      refine ⟨data₄, _, by simp only [hupdate, ok_bind, hbox, haabb, if_true, hopen]; rfl,
        hopened.wf hwf₃ (ht₃.trans ht₁) htne, ?_, by rw [hopened.points hwf₃, hpoints₃]⟩
      unfold SnakeData.Boxed
      rw [hopened.trails, hopened.boxes]
      exact List.rel_append (hboxed₃ hclosed₁) (.cons (covers_point _) .nil)

/-- **A step keeps the acknowledged head on the curve.** -/
theorem Tracked.step {s : ClientRun} (h : Tracked num simTickRate s) {command : Cmd}
    (hroom : stepRoom mem num simTickRate s command = true) :
    ∃ s', clientEvent mem num simTickRate s (.step command) = .ok s' ∧
      Tracked num simTickRate s' ∧ s'.snake.headAck = s.snake.headAck ∧
      s'.snake.cmdq.commands = s.snake.cmdq.commands ++ [command] ∧ s'.frame = s.frame + 1 ∧
      s'.snake.cmdq.firstFrame =
        (if 0 < s.snake.cmdq.count then s.snake.cmdq.firstFrame else s.frame) := by
  simp only [stepRoom, Bool.and_eq_true] at hroom
  obtain ⟨hspace, hcurve⟩ := hroom
  obtain ⟨data', stale, hstep, hwf', hboxed', hpoints'⟩ := snakeStep_spec h.wf h.boxed hcurve
  obtain ⟨hcmds, -, hfirst⟩ := cmdQueuePut_next command h.next hspace
  obtain ⟨older, hpoints⟩ := h.ackd
  have hhead : snakeStepHead num s.snake.param simTickRate s.snake.head command =
      stepAll num s.snake.param simTickRate s.snake.headAck
        (s.snake.cmdq.commands ++ [command]) := by
    rw [stepAll_append, ← h.predicted]
    rfl
  let head' := snakeStepHead num s.snake.param simTickRate s.snake.head command
  let cmdq' := cmdQueuePut mem s.snake.cmdq command s.frame
  refine ⟨{ snake := { s.snake with cmdq := cmdq', data := data', head := head' },
            frame := s.frame + 1 }, by simp only [clientEvent, hstep, ok_bind, pure_eq_ok]; rfl,
    ⟨hwf', hboxed', ⟨older, ?_⟩, ?_, ?_⟩, rfl, hcmds, rfl, hfirst⟩
  · show data'.points = older ++ s.snake.headAck.pos :: (headsFrom num s.snake.param simTickRate
      s.snake.headAck cmdq'.commands).map SnakeHead.pos
    rw [hpoints', hpoints, hhead, show cmdq'.commands = _ from hcmds]
    simp only [headsFrom_concat, List.map_append, List.map_cons, List.map_nil,
      List.append_assoc, List.cons_append]
  · intro _
    exact (cmdQueuePut_frameEnd command h.next hspace).symm
  · show snakeStepHead num s.snake.param simTickRate s.snake.head command = _
    rw [hhead]
    exact congrArg _ hcmds.symm

/-! ## Removing segments -/

/-- The oldest segment goes. -/
theorem takeSegment_spec {data : SnakeData} (hwf : data.WF) (hboxed : data.Boxed)
    {s t : List QwPos} {rest : List (List QwPos)} (ht : data.trails = s :: t :: rest) :
    ∃ data' bb, rbPeekRead data.bezierAabbs = .ok bb ∧ Covers bb s ∧
      takeSegment data = .ok data' ∧ data'.WF ∧ data'.Boxed ∧ data'.trails = t :: rest ∧
      rbToList data'.bezierHandles = (rbToList data.bezierHandles).tail ∧
      data'.boxes = data.boxes.tail := by
  have hhandles := hwf.handles_eq
  have hseg := hwf.segmented
  rw [SnakeData.Boxed, ht] at hboxed
  obtain ⟨bb, boxes, hcov, hrest, hboxes⟩ := List.forall₂_cons_left_iff.mp hboxed
  obtain ⟨v, vrest, hlist, hv, hvrest⟩ := List.map_eq_cons_iff.mp ht
  obtain ⟨h, hrest', hhlist⟩ : ∃ h hrest', rbToList data.bezierHandles = h :: hrest' := by
    refine List.exists_cons_of_length_pos ?_
    rw [length_rbToList, hhandles]
    omega
  obtain ⟨trails, htake, htrails⟩ := rbTake_of_cons hlist
  obtain ⟨handles, htakeh, hhandles'⟩ := rbTake_of_cons hhlist
  obtain ⟨aabbs, htakeb, haabbs⟩ := rbTake_of_cons (show rbToList data.bezierAabbs = _ from hboxes)
  have ht' : (rbToList trails).map Vec.items = t :: rest := by rw [htrails, hvrest]
  refine ⟨{ data with headTrails := trails, bezierHandles := handles, bezierAabbs := aabbs }, bb,
    rbPeek_of_getElem? ?_, hcov, ?_, ⟨?_, ?_, ?_⟩, ?_, ht', ?_, ?_⟩
  · rw [show rbToList data.bezierAabbs = _ from hboxes]
    rfl
  · simp only [takeSegment, htake, ok_bind, htakeh, htakeb, pure_eq_ok]
  · show Chain.Segmented ((rbToList trails).map Vec.items)
    rw [ht']
    rw [ht] at hseg
    exact hseg.tail
  · show rbCount handles = ((rbToList trails).map Vec.items).length + 1
    have hcount := length_rbToList data.bezierHandles
    rw [hhlist, hhandles, ht] at hcount
    rw [← length_rbToList, hhandles', ht']
    simpa using hcount
  · show (rbToList aabbs).length = ((rbToList trails).map Vec.items).length
    rw [haabbs, ht']
    exact hrest.length_eq.symm
  · show List.Forall₂ _ ((rbToList trails).map Vec.items) (rbToList aabbs)
    rw [haabbs, ht']
    exact hrest
  · rw [hhlist, hhandles']
    rfl
  · rw [hboxes, SnakeData.boxes, haabbs]
    rfl

/-- **The constraint keeps the acknowledged head on the curve.**  A segment is
only removed when the acknowledged head is outside its box, and then none of
its points is the acknowledged one. -/
theorem removeStaleConstrainedLoop_spec {headAck : SnakeHead} {stale : Nat} {data : SnakeData}
    (hwf : data.WF) (hboxed : data.Boxed) (hstale : stale < data.trails.length)
    {older newer : List QwPos} (hpoints : data.points = older ++ headAck.pos :: newer) :
    ∃ data' older', removeStaleConstrainedLoop headAck stale data = .ok data' ∧ data'.WF ∧
      data'.Boxed ∧ data'.points = older' ++ headAck.pos :: newer := by
  induction stale generalizing data older with
  | zero => exact ⟨data, older, rfl, hwf, hboxed, hpoints⟩
  | succ n ih =>
      obtain ⟨s, rest', ht⟩ := List.exists_cons_of_length_pos (show 0 < data.trails.length by omega)
      obtain ⟨t, rest, rfl⟩ : ∃ t rest, rest' = t :: rest := by
        refine List.exists_cons_of_length_pos ?_
        rw [ht, List.length_cons] at hstale
        omega
      obtain ⟨data₁, bb, hpeek, hcov, htake, hwf₁, hboxed₁, ht₁, -⟩ :=
        takeSegment_spec hwf hboxed ht
      rw [removeStaleConstrainedLoop, hpeek, ok_bind]
      by_cases hin : qwaabbTestQwpos bb headAck.pos = true
      · exact ⟨data, older, by rw [if_pos hin], hwf, hboxed, hpoints⟩
      · have hseg := hwf.segmented
        rw [ht] at hseg
        have hjoined : data.points = s ++ (Chain.joined (t :: rest)).tail := by
          rw [SnakeData.points, ht]
          rfl
        -- the acknowledged point lies behind the first trail
        have hbehind : s.length ≤ older.length := by
          by_contra hlt
          apply hin
          apply hcov
          have hget : data.points[older.length]? = some headAck.pos := by
            rw [hpoints, List.getElem?_append_right (Nat.le_refl _), Nat.sub_self]
            rfl
          rw [hjoined, List.getElem?_append_left (by omega)] at hget
          exact List.mem_of_getElem? hget
        have hpoints₁ : data₁.points =
            older.drop (s.length - 1) ++ headAck.pos :: newer := by
          rw [SnakeData.points, ht₁, Chain.joined_tail hseg, ← ht, ← SnakeData.points, hpoints,
            List.drop_append_of_le_length (by omega)]
        have hlen : data.trails.length = data₁.trails.length + 1 := by
          rw [ht, ht₁]
          rfl
        obtain ⟨data', older', hloop, hrest⟩ := ih hwf₁ hboxed₁ (by omega) hpoints₁
        exact ⟨data', older', by rw [if_neg hin, htake, ok_bind, hloop], hrest⟩

theorem Tracked.removeStale (mem : Alloc) {s : ClientRun} (h : Tracked num simTickRate s) {stale : Nat}
    (hstale : stale < s.snake.data.trails.length) :
    ∃ data', clientEvent mem num simTickRate s (.removeStale stale) =
        .ok { s with snake := { s.snake with data := data' } } ∧
      Tracked num simTickRate { s with snake := { s.snake with data := data' } } := by
  obtain ⟨older, hpoints⟩ := h.ackd
  obtain ⟨data₁, older₁, hloop, hwf₁, hboxed₁, hpoints₁⟩ :=
    removeStaleConstrainedLoop_spec h.wf h.boxed hstale hpoints
  obtain ⟨binit, b, hb⟩ := hwf₁.exists_box
  obtain ⟨bb, hupdate⟩ := snakeUpdateAabb_spec data₁ (by rw [hb]; simp)
  refine ⟨{ data₁ with aabb := bb }, ?_, ⟨hwf₁.1, hwf₁.2, hwf₁.3⟩, hboxed₁, ⟨older₁, hpoints₁⟩,
    h.next, h.predicted⟩
  rw [SnakeData.length_trails] at hstale
  simp only [clientEvent, snakeRemoveStaleSegmentsWithRollbackConstraint, if_pos hstale, hloop,
    ok_bind, hupdate, pure_eq_ok]

/-! ## Messages for queued frames -/

/-- Acknowledging frames does not move the end of the queue. -/
theorem Acked.frameEnd {snake snake' : Snake} {k : Nat} (h : Acked snake k snake')
    (hk : k < snake.cmdq.count) : snake'.cmdq.frameEnd = snake.cmdq.frameEnd := by
  have hcount := snake'.cmdq.length_commands
  rw [h.commands, List.length_drop, CmdQueue.length_commands] at hcount
  rw [CmdQueue.frameEnd, ← hcount, h.firstFrame, frameAt_frameAt, CmdQueue.frameEnd]
  congr 1
  omega

theorem Acked.next {snake snake' : Snake} {k : Nat} (h : Acked snake k snake')
    (hk : k < snake.cmdq.count) {frame : UInt16}
    (hnext : 0 < snake.cmdq.count → frame = snake.cmdq.frameEnd) :
    0 < snake'.cmdq.count → frame = snake'.cmdq.frameEnd := by
  intro _
  rw [h.frameEnd hk]
  exact hnext (by omega)

/-- The head acknowledged by agreement is on the curve already. -/
theorem points_ackedHead {snake : Snake} {k : Nat} (hk : k < snake.cmdq.count) :
    headsFrom num snake.param simTickRate snake.headAck snake.cmdq.commands =
      headsFrom num snake.param simTickRate snake.headAck (snake.cmdq.commands.take k) ++
        ackedHead num simTickRate snake k :: headsFrom num snake.param simTickRate
          (ackedHead num simTickRate snake k) (snake.cmdq.commands.drop (k + 1)) := by
  have hlt : k < snake.cmdq.commands.length := by rwa [CmdQueue.length_commands]
  have htake : snake.cmdq.commands.take (k + 1) =
      snake.cmdq.commands.take k ++ [snake.cmdq.commands[k]] := List.take_succ_eq_append_getElem hlt
  conv_lhs => rw [← List.take_append_drop (k + 1) snake.cmdq.commands]
  rw [headsFrom_append, ackedHead, htake, headsFrom_concat, List.append_assoc]
  rfl

/-- **A message for a queued frame** makes the server's head the acknowledged
one and keeps it on the curve. -/
theorem Tracked.ack {s : ClientRun} (h : Tracked num simTickRate s) {authoritative : SnakeHead}
    {k : Nat} (hk : k < s.snake.cmdq.count)
    (hroom : ackedHead num simTickRate s.snake k ≠ authoritative →
      rollbackRoom mem num simTickRate s.snake authoritative k = true) :
    ∃ s', clientEvent mem num simTickRate s
        (.ack (frameAt s.snake.cmdq.firstFrame k) authoritative) = .ok s' ∧
      Tracked num simTickRate s' ∧ Acked s.snake k s'.snake ∧
      s'.snake.headAck = authoritative := by
  obtain ⟨older, hpoints⟩ := h.ackd
  by_cases hsame : ackedHead num simTickRate s.snake k = authoritative
  · obtain ⟨snake', hok, hacked, hdata, hhead, hack⟩ := snakeAckFrame_agree mem hk hsame
    refine ⟨{ s with snake := snake' }, by simp only [clientEvent, hok, ok_bind, pure_eq_ok],
      ⟨?_, ?_, ?_, hacked.next hk h.next, ?_⟩, hacked, hack⟩
    · rw [show SnakeData.WF _ ↔ SnakeData.WF s.snake.data by rw [← hdata]]
      exact h.wf
    · rw [show SnakeData.Boxed _ ↔ SnakeData.Boxed s.snake.data by rw [← hdata]]
      exact h.boxed
    · refine ⟨older ++ s.snake.headAck.pos :: (headsFrom num s.snake.param simTickRate
        s.snake.headAck (s.snake.cmdq.commands.take k)).map SnakeHead.pos, ?_⟩
      show snake'.data.points = _ ++ snake'.headAck.pos :: (headsFrom num snake'.param simTickRate
        snake'.headAck snake'.cmdq.commands).map SnakeHead.pos
      rw [hdata, hpoints, points_ackedHead hk, hack, hacked.param, hacked.commands, hsame,
        List.map_append, List.map_cons, List.append_assoc, List.cons_append]
    · show snake'.head = stepAll num snake'.param simTickRate snake'.headAck snake'.cmdq.commands
      rw [hhead, h.predicted, hack, ← hsame, hacked.param, hacked.commands, ackedHead,
        ← stepAll_append, List.take_append_drop]
  · have hlen : s.snake.cmdq.count - k < s.snake.data.points.length := by
      rw [hpoints]
      simp only [List.length_append, List.length_cons, List.length_map, length_headsFrom,
        CmdQueue.length_commands]
      omega
    obtain ⟨snake', hok, hrolled, hwf', hboxed'⟩ :=
      snakeAckFrame_rollback h.wf hk hlen hsame (hroom hsame)
    refine ⟨{ s with snake := snake' }, by simp only [clientEvent, hok, ok_bind, pure_eq_ok],
      ⟨hwf', hboxed' (h.boxed.closed h.wf), ⟨s.snake.data.points.take
        (s.snake.data.points.length - (s.snake.cmdq.count - k)), ?_⟩,
        hrolled.acked.next hk h.next, ?_⟩,
      hrolled.acked, hrolled.headAck⟩
    · show snake'.data.points = _ ++ snake'.headAck.pos :: (headsFrom num snake'.param simTickRate
        snake'.headAck snake'.cmdq.commands).map SnakeHead.pos
      rw [hrolled.points, hrolled.headAck, hrolled.acked.param, hrolled.acked.commands]
      rfl
    · show snake'.head = stepAll num snake'.param simTickRate snake'.headAck snake'.cmdq.commands
      rw [hrolled.head, hrolled.headAck, hrolled.acked.param, hrolled.acked.commands]

end Clither
