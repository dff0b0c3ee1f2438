import Clither.CurveShape
import Clither.MsgRoundTrip
import Clither.SoleClient

/-!
# Positions on the wire

A message holds 24 bits of each coordinate, and the receiver extends the sign.
What keeps the coordinates in that range is nothing in the code: a head moves by
up to 1024 in each frame, and it can move on for ever.

`positions_in_range` says how far the snakes may go: as long as each snake that
is simulated is at least one step away from the end of the range, its messages
can be read back.  `positions_leave_range` is a run in which a snake moves
straight ahead until it leaves the range.
-/

namespace Clither

open Faults (bind_eq_ok)

/-! ## One step -/

/-- A turned angle is wrapped into 16 bits. -/
theorem in16_stepAngle (angle turnSpeed target : Int) (htarget : In16 target)
    (simTickRate : UInt8) : In16 (stepAngle angle turnSpeed target simTickRate) := by
  unfold stepAngle
  dsimp only
  split
  · exact in16_wrapInt _
  · split
    · exact in16_wrapInt _
    · exact htarget

/-- Sine and cosine are at most one. -/
structure TrigBounded (num : Numerics) : Prop where
  cos : ∀ angle, -2 ^ 14 ≤ num.qaCos angle ∧ num.qaCos angle ≤ 2 ^ 14
  sin : ∀ angle, -2 ^ 14 ≤ num.qaSin angle ∧ num.qaSin angle ≤ 2 ^ 14

/-- A new snake moves by at least 170 and at most 1024, times the direction. -/
theorem stepLength_bounds (speed : UInt8) :
    170 ≤ (854 * (speed.toNat : Int)).tdiv 255 + 170 ∧
      (854 * (speed.toNat : Int)).tdiv 255 + 170 ≤ 1024 := by
  have hspeed := speed.toNat_lt
  rw [Int.tdiv_eq_ediv_of_nonneg (by positivity)]
  omega

/-- The distance of a step for a new snake, in terms of the speed. -/
theorem stepDistance_eq (speed : UInt8) (direction : Int) :
    stepDistance snakeParamInit.cachedStats speed direction =
      qwMul direction ((854 * (speed.toNat : Int)).tdiv 255 + 170) := rfl

/-- A step is no longer than the 1024 units of a boost. -/
theorem stepDistance_bounds (speed : UInt8) {direction : Int}
    (h : -2 ^ 14 ≤ direction ∧ direction ≤ 2 ^ 14) :
    -1024 ≤ stepDistance snakeParamInit.cachedStats speed direction ∧
      stepDistance snakeParamInit.cachedStats speed direction ≤ 1024 := by
  obtain ⟨hlow, hhigh⟩ := stepLength_bounds speed
  rw [stepDistance_eq, qwMul, qwSat24, Int.shiftRight_eq_div_pow]
  generalize (854 * (speed.toNat : Int)).tdiv 255 + 170 = d at *
  have hmax : direction * d ≤ 2 ^ 14 * 1024 := by nlinarith
  have hmin : -(2 ^ 14 * 1024) ≤ direction * d := by nlinarith
  generalize direction * d = x at *
  split
  · omega
  · split <;> omega

/-- The snake is at least one step at full speed away from the end of the range. -/
def QwPos.HasRoom (p : QwPos) : Prop :=
  (-2 ^ 23 + 1024 ≤ p.x ∧ p.x + 1024 < 2 ^ 23) ∧ (-2 ^ 23 + 1024 ≤ p.y ∧ p.y + 1024 < 2 ^ 23)

instance (p : QwPos) : Decidable p.HasRoom :=
  inferInstanceAs (Decidable (_ ∧ _))

/-- A head with room to move stays in range, and so does its angle. -/
theorem inRange_stepHead {num : Numerics} (htrig : TrigBounded num) (simTickRate : UInt8)
    {head : SnakeHead} (hroom : head.pos.HasRoom) (command : Cmd) :
    (snakeStepHead num snakeParamInit simTickRate head command).pos.InRange ∧
      In16 (snakeStepHead num snakeParamInit simTickRate head command).angle := by
  obtain ⟨⟨hx1, hx2⟩, hy1, hy2⟩ := hroom
  refine ⟨⟨?_, ?_⟩, in16_stepAngle _ _ _ (in16_wrapInt _) simTickRate⟩
  · have hd := stepDistance_bounds (stepSpeed head.speed snakeParamInit.cachedStats.acceleration
      (targetSpeed snakeParamInit.cachedStats command)) (htrig.cos (stepAngle head.angle
        snakeParamInit.cachedStats.turnSpeed (u8ToQa command.angle) simTickRate))
    simp only [snakeStepHead, qwAdd, In24]
    omega
  · have hd := stepDistance_bounds (stepSpeed head.speed snakeParamInit.cachedStats.acceleration
      (targetSpeed snakeParamInit.cachedStats command)) (htrig.sin (stepAngle head.angle
        snakeParamInit.cachedStats.turnSpeed (u8ToQa command.angle) simTickRate))
    simp only [snakeStepHead, qwAdd, In24]
    omega

/-! ## The curve -/

def BezierHandle.InRange (handle : BezierHandle) : Prop :=
  handle.pos.InRange ∧ In16 handle.angle

/-- All recorded positions are in range, and so are the knots of the curve. -/
structure SnakeData.InRange (data : SnakeData) : Prop where
  trails : ∀ t ∈ rbToList data.headTrails, ∀ p ∈ t.items, p.InRange
  handles : ∀ h ∈ rbToList data.bezierHandles, h.InRange

/-- The fitter leaves knots on the trail, and its angles are 16-bit numbers. -/
structure FitInRange (num : Numerics) : Prop where
  places : FitPlaces num
  angles : ∀ head tail trail, In16 head.angle → In16 tail.angle →
    In16 (num.fitTrail head tail trail).1.angle ∧ In16 (num.fitTrail head tail trail).2.1.angle

section

variable {mem : Alloc} {num : Numerics}

/-- The trail and the curve that it is fitted with stay in range. -/
theorem inRange_updateCurve (hfit : FitInRange num) {data data' : SnakeData} {head : SnakeHead}
    {need : Bool} (h : data.InRange) (hpos : head.pos.InRange)
    (hok : snakeUpdateCurveFromHead mem num data head = .ok (data', need)) : data'.InRange := by
  unfold snakeUpdateCurveFromHead at hok
  obtain ⟨trail, htrail, hok⟩ := bind_eq_ok.mp hok
  obtain ⟨hlast, hmem⟩ := mem_of_rbPeek htrail
  have hpoints : ∀ p ∈ (vecPush mem trail head.pos).items, p.InRange := by
    intro p hp
    rcases mem_vecPush hp with hold | rfl
    · exact h.trails trail hmem p hold
    · exact hpos
  dsimp only at hok
  split at hok
  · cases hok
  · next hcount =>
      obtain ⟨hcount, hne⟩ := not_or.mp hcount
      obtain ⟨headHandle, hhead, hok⟩ := bind_eq_ok.mp hok
      obtain ⟨tailHandle, htail, hok⟩ := bind_eq_ok.mp hok
      obtain ⟨hheadIdx, hheadMem⟩ := mem_of_rbPeek hhead
      obtain ⟨htailIdx, htailMem⟩ := mem_of_rbPeek htail
      obtain ⟨p, hp⟩ : ∃ p, (vecPush mem trail head.pos).items.getLast? = some p :=
        Option.ne_none_iff_exists'.mp (by simpa using hne)
      obtain ⟨hplace, hstay⟩ := hfit.places headHandle tailHandle _ p hp
      obtain ⟨hangle, hangle'⟩ := hfit.angles headHandle tailHandle
        (vecPush mem trail head.pos).items (h.handles _ hheadMem).2 (h.handles _ htailMem).2
      cases hok
      constructor
      · intro t ht p hp
        rcases mem_rbSet hlast ht with hold | rfl
        · exact h.trails t hold p hp
        · exact hpoints p hp
      · intro found hfound
        rcases mem_rbSet (by rw [rbCount_set]; exact htailIdx) hfound with
          hfound | rfl
        · rcases mem_rbSet hheadIdx hfound with hold | rfl
          · exact h.handles found hold
          · refine ⟨?_, hangle⟩
            rw [hplace]
            exact hpoints p (List.mem_of_getLast? hp)
        · refine ⟨?_, hangle'⟩
          rw [hstay]
          exact (h.handles _ htailMem).1

/-- A new segment starts at the head, which is in range. -/
theorem inRange_addSegment {data data' : SnakeData} {head : SnakeHead} (h : data.InRange)
    (hpos : head.pos.InRange) (hok : snakeAddNewSegment mem data head = .ok data') :
    data'.InRange := by
  unfold snakeAddNewSegment at hok
  obtain ⟨trails, htrails, hok⟩ := bind_eq_ok.mp hok
  obtain ⟨handles, hhandles, hok⟩ := bind_eq_ok.mp hok
  obtain ⟨aabbs, -, hok⟩ := bind_eq_ok.mp hok
  cases hok
  have hput {c : RbInstance} {β : Type} {rb rb' : Rb c β} {elem : β}
      (hemplaced : emplaced (rbPutRealloc mem rb elem) = .ok rb') :
      rbToList rb' = rbToList rb ++ [elem] := by
    cases hrb : rbPutRealloc mem rb elem with
    | none =>
        rw [hrb] at hemplaced
        cases hemplaced
    | some rb₂ =>
        rw [hrb] at hemplaced
        cases hemplaced
        exact rbToList_rbPutRealloc hrb
  constructor
  · intro t ht p hp
    rw [hput htrails] at ht
    rcases List.mem_append.mp ht with hold | hnew
    · exact h.trails t hold p hp
    · rw [List.mem_singleton.mp hnew] at hp
      rcases mem_vecPush hp with hnil | rfl
      · cases hnil
      · exact hpos
  · intro found hfound
    rw [hput hhandles] at hfound
    rcases List.mem_append.mp hfound with hold | hnew
    · exact h.handles found hold
    · rw [List.mem_singleton.mp hnew]
      exact ⟨hpos, in16_wrapInt _⟩

/-- The bounding boxes are not part of the range. -/
theorem inRange_updateTrailAabb {data data' : SnakeData} (h : data.InRange)
    (hok : snakeUpdateHeadTrailAabb data = .ok data') : data'.InRange := by
  unfold snakeUpdateHeadTrailAabb at hok
  obtain ⟨_, -, hok⟩ := bind_eq_ok.mp hok
  obtain ⟨trail, -, hok⟩ := bind_eq_ok.mp hok
  split at hok
  · cases hok
  · cases hok
    exact ⟨h.trails, h.handles⟩

/-- The boxes are made of points in range. -/
theorem inRange_updateAabb {data data' : SnakeData} (h : data.InRange)
    (hok : snakeUpdateAabb data = .ok data') : data'.InRange := by
  unfold snakeUpdateAabb at hok
  split at hok
  · cases hok
  · cases hok
    exact ⟨h.trails, h.handles⟩

/-- Taking a segment leaves the others. -/
theorem inRange_takeSegment {data data' : SnakeData} (h : data.InRange)
    (hok : takeSegment data = .ok data') : data'.InRange := by
  unfold takeSegment at hok
  obtain ⟨⟨_, trails⟩, htrails, hok⟩ := bind_eq_ok.mp hok
  obtain ⟨⟨_, handles⟩, hhandles, hok⟩ := bind_eq_ok.mp hok
  obtain ⟨⟨_, aabbs⟩, -, hok⟩ := bind_eq_ok.mp hok
  cases hok
  exact ⟨fun t ht => h.trails t (mem_of_rbTake htrails ht),
    fun found hfound => h.handles found (mem_of_rbTake hhandles hfound)⟩

/-- Removing stale segments leaves the others. -/
theorem inRange_removeStale {data data' : SnakeData} {stale : Nat} (h : data.InRange)
    (hok : snakeRemoveStaleSegments data stale = .ok data') : data'.InRange := by
  have hloop (n : Nat) : ∀ data data' : SnakeData, data.InRange →
      removeStaleLoop n data = .ok data' → data'.InRange := by
    induction n with
    | zero =>
        intro data data' h hok
        cases hok
        exact h
    | succ n ih =>
        intro data data' h hok
        obtain ⟨taken, htake, hok⟩ := bind_eq_ok.mp hok
        exact ih taken data' (inRange_takeSegment h htake) hok
  unfold snakeRemoveStaleSegments at hok
  split at hok
  · obtain ⟨removed, hremoved, hok⟩ := bind_eq_ok.mp hok
    exact inRange_updateAabb (hloop stale data removed h hremoved) hok
  · cases hok

/-- **One step of a snake** stays in range if its head does. -/
theorem inRange_snakeStep (hfit : FitInRange num) {data data' : SnakeData} {head head' : SnakeHead}
    {param : SnakeParam} {command : Cmd} {simTickRate : UInt8} {stale : Nat} (h : data.InRange)
    (hpos : (snakeStepHead num param simTickRate head command).pos.InRange)
    (hok : snakeStep mem num data head param command simTickRate = .ok (data', head', stale)) :
    data'.InRange ∧ head' = snakeStepHead num param simTickRate head command := by
  unfold snakeStep at hok
  dsimp only at hok
  obtain ⟨⟨data₁, need⟩, hcurve, hok⟩ := bind_eq_ok.mp hok
  obtain ⟨data₂, htrailBox, hok⟩ := bind_eq_ok.mp hok
  obtain ⟨data₃, hbox, hok⟩ := bind_eq_ok.mp hok
  have h₃ := inRange_updateAabb
    (inRange_updateTrailAabb (inRange_updateCurve hfit h hpos hcurve) htrailBox) hbox
  split at hok
  · obtain ⟨data₄, hsegment, hok⟩ := bind_eq_ok.mp hok
    cases hok
    exact ⟨inRange_addSegment h₃ hpos hsegment, rfl⟩
  · cases hok
    exact ⟨h₃, rfl⟩

/-! ## The run -/

/-- The head and the curve of the snake are in range. -/
structure Snake.InRange (snake : Snake) : Prop where
  param : snake.param = snakeParamInit
  pos : snake.head.pos.InRange
  angle : In16 snake.head.angle
  data : snake.data.InRange

/-- A new snake is in range. -/
theorem inRange_snakeInit {snake : Snake} (h : snakeInit mem { x := 0, y := 0 } = some snake) :
    snake.InRange := by
  have horigin : QwPos.InRange { x := 0, y := 0 } := by
    simp [QwPos.InRange, In24]
  have hzero : In16 0 := by simp [In16]
  obtain ⟨data, hdata, h⟩ := Option.bind_eq_some_iff.mp h
  cases h
  refine ⟨rfl, horigin, hzero, ?_⟩
  unfold snakeDataInit at hdata
  dsimp only at hdata
  split at hdata
  · cases hdata
  · obtain ⟨trails, htrails, hdata⟩ := Option.bind_eq_some_iff.mp hdata
    obtain ⟨handles₁, hhandles₁, hdata⟩ := Option.bind_eq_some_iff.mp hdata
    obtain ⟨handles, hhandles, hdata⟩ := Option.bind_eq_some_iff.mp hdata
    obtain ⟨aabbs, -, hdata⟩ := Option.bind_eq_some_iff.mp hdata
    cases hdata
    constructor
    · intro t ht p hp
      rw [rbToList_rbPutRealloc htrails] at ht
      rw [List.mem_singleton.mp ht] at hp
      rcases mem_vecPush hp with hnil | rfl
      · cases hnil
      · exact horigin
    · intro found hfound
      rw [rbToList_rbPutRealloc hhandles, rbToList_rbPutRealloc hhandles₁] at hfound
      have hboth : found = bezierHandleInit { x := 0, y := 0 } 0 := by
        simpa using hfound
      rw [hboth]
      exact ⟨horigin, hzero⟩

variable {settings : ServerSettings}

/-- A snake on hold does not move, and one that moves has room. -/
theorem inRange_simUpdateSnake (htrig : TrigBounded num) (hfit : FitInRange num)
    {snake snake' : Snake} {frame : UInt16} (h : snake.InRange)
    (hroom : (snakeTryResetHold snake frame).2 = true → snake.head.pos.HasRoom)
    (hok : simUpdateSnake mem settings num snake frame = .ok snake') : snake'.InRange := by
  unfold simUpdateSnake at hok
  dsimp only at hok
  split at hok
  · next hmoves =>
      obtain ⟨⟨cmdq, command⟩, -, hok⟩ := bind_eq_ok.mp hok
      obtain ⟨⟨data, head, stale⟩, hstep, hok⟩ := bind_eq_ok.mp hok
      obtain ⟨data', hstale, hok⟩ := bind_eq_ok.mp hok
      cases hok
      have hstep' : snakeStep mem num snake.data snake.head snakeParamInit command
          settings.simTickRate = .ok (data, head, stale) := by
        rw [← h.param]
        exact hstep
      obtain ⟨hpos, hangle⟩ :=
        inRange_stepHead htrig settings.simTickRate (hroom hmoves) command
      obtain ⟨hdata, rfl⟩ := inRange_snakeStep hfit h.data hpos hstep'
      exact ⟨h.param, hpos, hangle, inRange_removeStale hdata hstale⟩
  · cases hok
    exact ⟨h.param, h.pos, h.angle, h.data⟩

/-- Each snake that moves is one step away from the end of the range. -/
def roomToMove (r : ServerRun) : ServerEvent → Prop
  | .simulate => ∀ snakeId snake, findSnake r.server.world snakeId = .ok snake →
      (snakeTryResetHold snake r.frame).2 = true → snake.head.pos.HasRoom
  | _ => True

/-- It is enough to look at the keys. -/
theorem roomToMove_simulate {r : ServerRun} : roomToMove r .simulate ↔
    ∀ snakeId ∈ bmapKeys r.server.world, ∀ snake ∈ bmapFind r.server.world snakeId,
      (snakeTryResetHold snake r.frame).2 = true → snake.head.pos.HasRoom := by
  constructor
  · intro h snakeId _ snake hsnake
    exact h snakeId snake (findSnake_eq_ok.mpr hsnake)
  · intro h snakeId snake hsnake
    have hfind := findSnake_eq_ok.mp hsnake
    exact h snakeId (mem_bmapKeys.mpr ⟨snake, hfind⟩) snake hfind

instance (r : ServerRun) : (event : ServerEvent) → Decidable (roomToMove r event)
  | .simulate =>
      haveI : Decidable (∀ snakeId ∈ bmapKeys r.server.world,
          ∀ snake ∈ bmapFind r.server.world snakeId,
            (snakeTryResetHold snake r.frame).2 = true → snake.head.pos.HasRoom) :=
        List.decidableBAll _ _
      decidable_of_iff _ roomToMove_simulate.symm
  | .timeouts | .malicious | .packet _ _ | .snakesInRange _ | .queueData | .sendPending
  | .nextFrame => isTrue trivial

/-- The messages about a snake say where it is. -/
structure Snake.Readable (snake : Snake) : Prop where
  pos : snake.head.pos.InRange
  head : ∀ frame, msgParsePayload (msgSnakeHead snake.head frame).type.toByte
    (msgSnakeHead snake.head frame).payload = .ok (.snakeHead snake.head frame)
  bezier : ∀ snakeId handleId handle, (handleId, handle) ∈ rbIndexed snake.data.bezierHandles →
    msgParsePayload (msgSnakeBezier snakeId (UInt16.ofNat handleId) handle).type.toByte
      (msgSnakeBezier snakeId (UInt16.ofNat handleId) handle).payload =
        .ok (.snakeBezier snakeId handleId handle.pos handle.angle handle.lenBackwards
          handle.lenForwards)

/-- The indices of a ring buffer are those of its array. -/
theorem mem_rbIndexed {c : RbInstance} {β : Type} {rb : Rb c β} {i : Nat} {elem : β}
    (h : (i, elem) ∈ rbIndexed rb) : i < 2 ^ (c.bits - 1) ∧ elem ∈ rbToList rb := by
  cases rb with
  | none => cases h
  | some r =>
      obtain ⟨k, hk, hfound⟩ := List.mem_filterMap.mp h
      obtain ⟨x, hx, heq⟩ := Option.map_eq_some_iff.mp hfound
      cases heq
      have hcapacity : r.capacity ≤ 2 ^ (c.bits - 1) :=
        Nat.pow_le_pow_right (by decide) (by have := r.fits; omega)
      have hpos : 0 < r.capacity := Nat.two_pow_pos _
      refine ⟨?_, List.mem_filterMap.mpr ⟨k, hk, hx⟩⟩
      have hmask : (r.read + k) &&& (r.capacity - 1) ≤ r.capacity - 1 := Nat.and_le_right
      omega

/-- A snake in range can be sent. -/
theorem Snake.InRange.readable {snake : Snake} (h : snake.InRange) : snake.Readable where
  pos := h.pos
  head := fun frame => parse_msgSnakeHead h.pos h.angle frame
  bezier := by
    intro snakeId handleId handle hmem
    obtain ⟨hid, hhandle⟩ := mem_rbIndexed hmem
    obtain ⟨hpos, hangle⟩ := h.data.handles handle hhandle
    exact parse_msgSnakeBezier hpos hangle snakeId hid

/-- **One event** keeps the snakes in range if they have room to move. -/
theorem inRange_serverEvent (htrig : TrigBounded num) (hfit : FitInRange num) {r r' : ServerRun}
    {event : ServerEvent} (h : AllSnakes Snake.InRange r.server.world)
    (hroom : roomToMove r event) (hok : serverEvent mem settings num r event = .ok r') :
    AllSnakes Snake.InRange r'.server.world := by
  refine @serverEvent_invariant mem settings num (fun s => AllSnakes Snake.InRange s.world) r r'
    event (fun s s' hs hstep => hstep.allSnakes ?_ ?_ ?_ ?_ hs) h hok
  · exact fun snake => inRange_snakeInit
  · exact fun snake hsnake => ⟨hsnake.param, hsnake.pos, hsnake.angle, hsnake.data⟩
  · exact fun snake cmdq hsnake => ⟨hsnake.param, hsnake.pos, hsnake.angle, hsnake.data⟩
  · intro hevent snakeId snake snake' hstart hsnake hupdate
    subst hevent
    exact inRange_simUpdateSnake htrig hfit hsnake (hroom snakeId snake hstart) hupdate

end

/-! ## A snake that moves straight ahead -/

/-- The cosine is one and the sine zero, and the curve fits perfectly. -/
def straight : Numerics where
  qaCos := fun _ => 2 ^ 14
  qaSin := fun _ => 0
  fitTrail := fun head tail trail =>
    ({ head with pos := trail.getLast?.getD head.pos }, tail, 0)
  equidistantPoints := fun _ _ _ => 0

/-- A curve of a single segment. -/
structure SnakeData.Single (data : SnakeData) : Prop where
  trail : ∃ t, rbToList data.headTrails = [t] ∧ t.items ≠ []
  handles : ∃ h₁ h₂, rbToList data.bezierHandles = [h₁, h₂]
  box : ∃ b, rbToList data.bezierAabbs = [b]

/-- The snake has moved for `n` frames, and no commands are left. -/
structure Drifting (n : Nat) (snake : Snake) : Prop where
  moves : snake.hold = false
  param : snake.param = snakeParamInit
  queue : snake.cmdq.commands = []
  far : 170 * (n : Int) ≤ snake.head.pos.x
  data : snake.data.Single

/-- Each frame takes the drifting head 170 units on. -/
theorem far_stepHead {n : Nat} {head : SnakeHead} (h : 170 * (n : Int) ≤ head.pos.x)
    (simTickRate : UInt8) (command : Cmd) :
    170 * ((n + 1 : Nat) : Int) ≤
      (snakeStepHead straight snakeParamInit simTickRate head command).pos.x := by
  have hlength := stepLength_bounds (stepSpeed head.speed snakeParamInit.cachedStats.acceleration
    (targetSpeed snakeParamInit.cachedStats command))
  simp only [snakeStepHead, qwAdd, stepDistance_eq, qwMul, qwSat24, Int.shiftRight_eq_div_pow,
    straight]
  push_cast
  split
  · omega
  · split <;> omega

section

variable {mem : Alloc} {settings : ServerSettings}

/-- Pushing leaves a trail that is not empty. -/
theorem ne_nil_vecPush {v : Trail} (h : v.items ≠ []) (elem : QwPos) :
    (vecPush mem v elem).items ≠ [] := by
  rw [items_vecPush]
  split
  · simp
  · exact h

/-- The drifting snake keeps its only segment: a straight trail never needs another. -/
theorem single_updateCurve {data : SnakeData} (h : data.Single) (head : SnakeHead) :
    ∃ data', snakeUpdateCurveFromHead mem straight data head = .ok (data', false) ∧
      data'.Single := by
  obtain ⟨t, htrails, ht⟩ := h.trail
  obtain ⟨h₁, h₂, hhandles⟩ := h.handles
  have hpeek : rbPeekWrite data.headTrails = .ok t := @rbPeekWrite_of_concat _ _ _ [] t htrails
  have hcount : rbCount data.bezierHandles = 2 := by
    rw [← length_rbToList, hhandles]
    rfl
  have hhead : rbPeek data.bezierHandles 1 = .ok h₂ :=
    rbPeek_of_getElem? (by rw [hhandles]; rfl)
  have htail : rbPeek data.bezierHandles 0 = .ok h₁ :=
    rbPeek_of_getElem? (by rw [hhandles]; rfl)
  have hpush := @ne_nil_vecPush mem t ht head.pos
  simp only [snakeUpdateCurveFromHead, hpeek, ok_bind, hcount, hpush, Nat.lt_irrefl, or_false,
    if_false, Nat.add_one_sub_one, Nat.sub_self, hhead, htail, pure_eq_ok]
  have hset (a b : BezierHandle) : rbToList (rbSet (rbSet data.bezierHandles 1 a) 0 b) = [b, a] := by
    rw [rbToList_set (by rw [rbCount_set]; omega),
      rbToList_set (by omega), hhandles]
    rfl
  exact ⟨_, rfl, ⟨_, @rbToList_setWrite _ _ _ [] t htrails _, hpush⟩, ⟨_, _, hset _ _⟩, h.box⟩

/-- The box of its trail can be computed. -/
theorem single_updateTrailAabb {data : SnakeData} (h : data.Single) :
    ∃ data', snakeUpdateHeadTrailAabb data = .ok data' ∧ data'.Single := by
  obtain ⟨t, htrails, ht⟩ := h.trail
  obtain ⟨b, hboxes⟩ := h.box
  have hpeek : rbPeekWrite data.headTrails = .ok t := @rbPeekWrite_of_concat _ _ _ [] t htrails
  have hbox : rbPeekWrite data.bezierAabbs = .ok b := @rbPeekWrite_of_concat _ _ _ [] b hboxes
  obtain ⟨p, ps, hitems⟩ := List.exists_cons_of_ne_nil ht
  simp only [snakeUpdateHeadTrailAabb, hpeek, hbox, ok_bind, hitems]
  exact ⟨_, rfl, h.trail, h.handles, _, @rbToList_setWrite _ _ _ [] b hboxes _⟩

/-- And so can its own. -/
theorem single_updateAabb {data : SnakeData} (h : data.Single) :
    ∃ data', snakeUpdateAabb data = .ok data' ∧ data'.Single := by
  obtain ⟨b, hboxes⟩ := h.box
  simp only [snakeUpdateAabb, hboxes]
  exact ⟨_, rfl, h.trail, h.handles, h.box⟩

/-- **One frame of the drift.** -/
theorem drifting_step {n : Nat} {snake : Snake} (h : Drifting n snake) (frame : UInt16) :
    ∃ snake', simUpdateSnake mem settings straight snake frame = .ok snake' ∧
      Drifting (n + 1) snake' := by
  have hcount : snake.cmdq.count = 0 := by
    rw [← snake.cmdq.length_commands, h.queue, List.length_nil]
  have htry : snakeTryResetHold snake frame = (snake, true) := by
    obtain ⟨cmdq, param, data, head, headAck, hold⟩ := snake
    obtain rfl : hold = false := h.moves
    simp only [snakeTryResetHold, hcount, Nat.lt_irrefl, false_and, if_false, Bool.not_false,
      gt_iff_lt]
  generalize hhead : snakeStepHead straight snakeParamInit settings.simTickRate snake.head
    snake.cmdq.lastCommandRead = head
  have hfar := far_stepHead h.far settings.simTickRate snake.cmdq.lastCommandRead
  rw [hhead] at hfar
  obtain ⟨data₁, hcurve, h₁⟩ := @single_updateCurve mem _ h.data head
  obtain ⟨data₂, htrailBox, h₂⟩ := single_updateTrailAabb h₁
  obtain ⟨data₃, hbox, h₃⟩ := single_updateAabb h₂
  have hstep : snakeStep mem straight snake.data snake.head snake.param
      snake.cmdq.lastCommandRead settings.simTickRate = .ok (data₃, head, 0) := by
    rw [h.param]
    simp only [snakeStep, hhead, hcurve, htrailBox, hbox, ok_bind, pure_eq_ok]
    rfl
  obtain ⟨t, htrails, -⟩ := h₃.trail
  obtain ⟨data₄, hbox₄, h₄⟩ := single_updateAabb h₃
  have hstale : snakeRemoveStaleSegments data₃ 0 = .ok data₄ := by
    rw [snakeRemoveStaleSegments, if_pos (by rw [← length_rbToList, htrails]; exact Nat.one_pos)]
    simp only [removeStaleLoop, ok_bind, hbox₄]
  refine ⟨{ snake with data := data₄, head := head }, ?_,
    ⟨h.moves, h.param, h.queue, hfar, h₄⟩⟩
  simp only [simUpdateSnake, htry, if_true, takeOrPredict_empty h.queue frame, ok_bind, hstep,
    hstale, pure_eq_ok]

end

/-- The default settings with a network update in each frame. -/
def driftSettings : ServerSettings :=
  { serverSettingsDefaults with
    netTickRate := 60
    netTickRate_pos := serverSettingsDefaults.simTickRate_pos }

/-- A client joins and sends one command, to boost straight ahead. -/
def driftBegin : List ServerEvent :=
  [.timeouts, .malicious, .packet (loopback 40000) (joinPacket (cString "a")),
    .packet (loopback 40000) [6, 6, 0, 0, 0, 128, 0, 1]]

/-- The server after `driftBegin` and the first iteration. -/
def driftStart : ServerRun :=
  match Run.run (serverEvent .unlimited driftSettings straight) serverRunInit
    (driftBegin ++ iterationOf (loopback 40000)) with
  | .ok r => r
  | .error _ => serverRunInit

def driftRun (n : Nat) : List ServerEvent :=
  driftBegin ++ iterationOf (loopback 40000) ++
    (List.replicate n (iterationOf (loopback 40000))).flatten

/-- The record of the client whose snake drifts. -/
theorem driftStart_cell : ∃ record, driftStart.server.clients.cell 13 =
    some (loopback 40000, record) ∧ Quiet 0 record ∧ record.snakeId = 1 := by
  have h : (driftStart.server.clients.cell 13).any (fun e =>
      decide (e.1 = loopback 40000 ∧ e.2.snakesInProximity = none ∧ e.2.timeoutCounter ≤ 0 ∧
        (∀ m ∈ e.2.pendingMsgs.items, m.isReliable = false) ∧ e.2.snakeId = 1)) = true := by
    decide +kernel
  cases hcell : driftStart.server.clients.cell 13 with
  | none =>
      rw [hcell] at h
      cases h
  | some e =>
      rw [hcell] at h
      obtain ⟨haddr, hprox, hcounter, hpending, hid⟩ := of_decide_eq_true h
      exact ⟨e.2, by rw [← haddr], ⟨hprox, hcounter, hpending⟩, hid⟩

/-- The snake that drifts. -/
theorem driftStart_snake : ∃ snake, findSnake driftStart.server.world 1 = .ok snake ∧
    Drifting 0 snake := by
  have h : (findSnake driftStart.server.world 1).toOption.any (fun snake =>
      decide (snake.hold = false ∧ snake.param = snakeParamInit ∧ snake.cmdq.commands = [] ∧
        0 ≤ snake.head.pos.x ∧
        (rbToList snake.data.headTrails).map (fun t => t.items.length) = [2] ∧
        (rbToList snake.data.bezierHandles).length = 2 ∧
        (rbToList snake.data.bezierAabbs).length = 1)) = true := by
    decide +kernel
  cases hfind : findSnake driftStart.server.world 1 with
  | error f =>
      rw [hfind] at h
      cases h
  | ok snake =>
      rw [hfind] at h
      obtain ⟨hhold, hparam, hqueue, hpos, htrail, hhandles, hbox⟩ := of_decide_eq_true h
      obtain ⟨t, ht, hlen⟩ := List.map_eq_singleton_iff.mp htrail
      refine ⟨snake, rfl, hhold, hparam, hqueue, by simpa using hpos, ⟨t, ht, ?_⟩,
        List.length_eq_two.mp hhandles, List.length_eq_one_iff.mp hbox⟩
      intro hnil
      rw [hnil] at hlen
      cases hlen

/-- It is the only one. -/
theorem driftStart_alone : Alone (loopback 40000) (Drifting 0) 0 driftStart.server := by
  obtain ⟨record, hcell, hquiet, hid⟩ := driftStart_cell
  obtain ⟨snake, hsnake, hdrifting⟩ := driftStart_snake
  have hkeys : bmapKeys driftStart.server.world = [1] := by decide +kernel
  refine ⟨by decide +kernel, by decide +kernel, by decide +kernel,
    ⟨13, record, hcell, hquiet, by rw [hid, hkeys]⟩, fun id found hfound => ?_⟩
  have hmem : id ∈ bmapKeys driftStart.server.world :=
    mem_bmapKeys.mpr ⟨found, findSnake_eq_ok.mp hfound⟩
  rw [hkeys] at hmem
  rw [List.mem_singleton.mp hmem, hsnake] at hfound
  cases hfound
  exact hdrifting

/-- It has joined in a run of the server. -/
theorem driftStart_run : Run.run (serverEvent .unlimited driftSettings straight) serverRunInit
    (driftBegin ++ iterationOf (loopback 40000)) = .ok driftStart := by
  decide +kernel

/-- **A snake moves on for ever.** -/
theorem drift (n : Nat) : ∃ r, Run.run (serverEvent .unlimited driftSettings straight)
    serverRunInit (driftRun n) = .ok r ∧ Alone (loopback 40000) (Drifting n) 0 r.server := by
  rw [driftRun, Run.run_append, driftStart_run]
  have hloop (n : Nat) : ∀ (k : Nat) (r : ServerRun),
      Alone (loopback 40000) (Drifting k) 0 r.server →
      ∃ r', Run.run (serverEvent .unlimited driftSettings straight) r
        (List.replicate n (iterationOf (loopback 40000))).flatten = .ok r' ∧
        Alone (loopback 40000) (Drifting (k + n)) 0 r'.server := by
    induction n with
    | zero => exact fun k r hr => ⟨r, rfl, hr⟩
    | succ n ih =>
        intro k r hr
        obtain ⟨r₁, hrun₁, hr₁⟩ := @alone_iteration .unlimited driftSettings straight _ _ _ r
          (fun snake hsnake => drifting_step hsnake r.frame) (by decide) hr
        obtain ⟨r₂, hrun₂, hr₂⟩ := ih (k + 1) r₁ hr₁
        refine ⟨r₂, ?_, by rwa [Nat.add_assoc, Nat.add_comm 1 n] at hr₂⟩
        rw [List.replicate_succ, List.flatten_cons, Run.run_append, hrun₁]
        exact hrun₂
  obtain ⟨r, hrun, hr⟩ := hloop n 0 driftStart driftStart_alone
  rw [Nat.zero_add] at hr
  exact ⟨r, hrun, hr⟩

/-- What can be read back is in range. -/
theorem in24_of_parse {head : SnakeHead} {frame : UInt16} {byte : UInt8} {payload : List UInt8}
    (hbyte : byte = MsgType.snakeHead.toByte)
    (h : msgParsePayload byte payload = .ok (.snakeHead head frame)) : In24 head.pos.x := by
  rw [hbyte, msgParsePayload, MsgType.ofByte_toByte] at h
  cases of_ite_error h
  exact in24_read24 _ _ _

/-- The numerics of the drift are bounded. -/
theorem trigBounded_straight : TrigBounded straight where
  cos := by simp [straight]
  sin := by simp [straight]

/-- And so are its fits. -/
theorem fitInRange_straight : FitInRange straight where
  places := by
    intro head tail trail p hlast
    exact ⟨by simp only [straight, hlast, Option.getD_some], rfl⟩
  angles := fun head tail trail hhead htail => ⟨hhead, htail⟩

/-- **Positions stay in range** as long as every snake that moves has room for one
step. -/
theorem positions_in_range (mem : Alloc) (settings : ServerSettings) (num : Numerics)
    (htrig : TrigBounded num) (hfit : FitInRange num) (events : List ServerEvent)
    (hroom : Run.Meets (serverEvent mem settings num) roomToMove serverRunInit events)
    (r : ServerRun) (hrun : Run.run (serverEvent mem settings num) serverRunInit events = .ok r)
    (snakeId : UInt16) (snake : Snake) (hsnake : findSnake r.server.world snakeId = .ok snake) :
    snake.Readable := by
  have hinit : AllSnakes Snake.InRange serverRunInit.server.world := by
    intro id found hfound
    cases hfound
  have hkeeps (r : ServerRun) (event : ServerEvent) (r' : ServerRun)
      (hr : AllSnakes Snake.InRange r.server.world) (hcond : roomToMove r event)
      (hstep : serverEvent mem settings num r event = .ok r') :
      AllSnakes Snake.InRange r'.server.world := inRange_serverEvent htrig hfit hr hcond hstep
  exact (Run.run_invariant hkeeps hinit hroom hrun snakeId snake hsnake).readable

/-- The first iteration. -/
theorem positions_in_range_first : ∃ snake,
    findSnake driftStart.server.world 1 = .ok snake ∧ snake.Readable := by
  obtain ⟨snake, hsnake, -⟩ := driftStart_snake
  exact ⟨snake, hsnake, positions_in_range .unlimited driftSettings straight trigBounded_straight
    fitInRange_straight (driftBegin ++ iterationOf (loopback 40000)) (by decide +kernel)
    driftStart driftStart_run 1 snake hsnake⟩

/-- After 49345 iterations the snake has left the range, and its position can no
longer be read back. -/
theorem positions_leave_range : TrigBounded straight ∧ FitInRange straight ∧
    ∃ r snakeId snake, Run.run (serverEvent .unlimited driftSettings straight) serverRunInit
        (driftRun 49345) = .ok r ∧
      findSnake r.server.world snakeId = .ok snake ∧ ¬ snake.head.pos.InRange ∧
      ∀ frame, msgParsePayload (msgSnakeHead snake.head frame).type.toByte
        (msgSnakeHead snake.head frame).payload ≠ .ok (.snakeHead snake.head frame) := by
  refine ⟨trigBounded_straight, fitInRange_straight, ?_⟩
  obtain ⟨r, hrun, hr⟩ := drift 49345
  obtain ⟨slot, record, -, -, hkeys⟩ := hr.cell
  obtain ⟨snake, hsnake⟩ := @findSnake_of_mem r.server.world record.snakeId
    (by rw [hkeys]; exact List.mem_singleton_self _)
  have hfar := (hr.snakes _ snake hsnake).far
  have hout : ¬ In24 snake.head.pos.x := by
    intro hin
    have hlt := hin.2
    omega
  exact ⟨r, record.snakeId, snake, hrun, hsnake, fun hin => hout hin.1,
    fun frame hparse => hout (in24_of_parse rfl hparse)⟩

end Clither
