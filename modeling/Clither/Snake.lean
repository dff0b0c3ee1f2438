import Clither.CmdQueue
import Clither.SnakeHead
import Clither.Vec

/-!
# The snake

A snake is a curve of bezier segments.  For each segment it keeps the trail of
head positions the segment was fitted to and a bounding box of that trail.  The
first point of a trail repeats the last point of the trail before it.

`snakeStep` moves the head, appends its position to the newest trail, refits
the newest segment and opens a new one when the fit has become too coarse.
`snakeAckFrame` is the client's rollback: when the server's head differs from
the predicted one, it takes back the points of all frames since the
acknowledged one and replays the queued commands.

The squeezing functions called in between have empty bodies, and the points
that `bezier_calc_equidistant_points` caches are only used for drawing.
-/

namespace Clither

/-- The instance behind `qwpos_vec`. -/
def qwposVec : VecInstance where
  header := 4
  sizeofElem := 8
  header_lt := ElemType.vecHeader_lt .qwpos
  sizeofElem_pos := ElemType.size_pos .qwpos

/-- The instance behind `qwpos_vec_rb`. -/
def qwposVecRb : RbInstance where
  bits := 8
  sizeofElem := 8
  fits := RbIndex.fits .int8
  sizeofElem_pos := ElemType.size_pos .pointer

/-- The instance behind `bezier_handle_rb`. -/
def bezierHandleRb : RbInstance where
  bits := 16
  sizeofElem := 12
  fits := RbIndex.fits .int16
  sizeofElem_pos := ElemType.size_pos .bezierHandle

/-- The instance behind `qwaabb_rb`. -/
def qwaabbRb : RbInstance where
  bits := 16
  sizeofElem := 16
  fits := RbIndex.fits .int16
  sizeofElem_pos := ElemType.size_pos .qwaabb

abbrev Trail := Vec qwposVec QwPos

structure SnakeData where
  headTrails : Rb qwposVecRb Trail
  bezierHandles : Rb bezierHandleRb BezierHandle
  bezierAabbs : Rb qwaabbRb QwAabb
  aabb : QwAabb
  deriving DecidableEq

structure Snake where
  cmdq : CmdQueue
  param : SnakeParam
  data : SnakeData
  head : SnakeHead
  headAck : SnakeHead
  hold : Bool
  deriving DecidableEq

/-- The pointer that `emplace_realloc` returned is written to at once. -/
def emplaced {β : Type} : Option β → Except Fault β
  | some b => .ok b
  | none => .error .nullSegment

/-- `snake_data_init`; `none` when an allocation fails. -/
def snakeDataInit (mem : Alloc) (spawnPos : QwPos) : Option SnakeData := do
  let trail : Trail := vecPush mem vecInit spawnPos
  if vecHasSpace mem (vecInit : Trail) = false then none
  let headTrails ← rbPutRealloc mem none trail
  let handles ← rbPutRealloc mem none (bezierHandleInit spawnPos 0)
  let handles ← rbPutRealloc mem handles (bezierHandleInit spawnPos 0)
  let aabbs ← rbPutRealloc mem none (qwaabbPoint spawnPos)
  return { headTrails := headTrails, bezierHandles := handles, bezierAabbs := aabbs,
           aabb := qwaabbPoint spawnPos }

/-- `snake_init`. -/
def snakeInit (mem : Alloc) (spawnPos : QwPos) : Option Snake := do
  let data ← snakeDataInit mem spawnPos
  return { cmdq := cmdQueueInit, param := snakeParamInit, data := data,
           head := snakeHeadInit spawnPos, headAck := snakeHeadInit spawnPos, hold := false }

/-- `snake_update_aabb`. -/
def snakeUpdateAabb (data : SnakeData) : Except Fault SnakeData :=
  match rbToList data.bezierAabbs with
  | [] => .error .empty
  | first :: rest => .ok { data with aabb := rest.foldl qwaabbUnion first }

/-- The body of the loop of `snake_update_head_trail_aabb`. -/
def qwaabbExtend (bb : QwAabb) (p : QwPos) : QwAabb where
  x1 := if bb.x1 > p.x then p.x else bb.x1
  x2 := if bb.x2 < p.x then p.x else bb.x2
  y1 := if bb.y1 > p.y then p.y else bb.y1
  y2 := if bb.y2 < p.y then p.y else bb.y2

/-- `snake_update_head_trail_aabb`. -/
def snakeUpdateHeadTrailAabb (data : SnakeData) : Except Fault SnakeData := do
  let _ ← rbPeekWrite data.bezierAabbs
  let trail ← rbPeekWrite data.headTrails
  match trail.items with
  | [] => .error .empty
  | p :: ps =>
      .ok { data with
            bezierAabbs := rbSetWrite data.bezierAabbs (ps.foldl qwaabbExtend (qwaabbPoint p)) }

/-- `make_q16_16_2(1, 16)`. -/
def fitThreshold : Int := 4096

variable (mem : Alloc) (num : Numerics)

/-- `snake_update_curve_from_head`, with the answer whether a new segment is
needed. -/
def snakeUpdateCurveFromHead (data : SnakeData) (head : SnakeHead) :
    Except Fault (SnakeData × Bool) := do
  let trail ← rbPeekWrite data.headTrails
  let trail := vecPush mem trail head.pos
  let count := rbCount data.bezierHandles
  if count < 2 ∨ trail.items = [] then .error .empty
  else do
    let headHandle ← rbPeek data.bezierHandles (count - 1)
    let tailHandle ← rbPeek data.bezierHandles (count - 2)
    let (headHandle, tailHandle, error) := num.fitTrail headHandle tailHandle trail.items
    let handles := rbSet (rbSet data.bezierHandles (count - 1) headHandle) (count - 2) tailHandle
    return ({ data with headTrails := rbSetWrite data.headTrails trail, bezierHandles := handles },
      decide (error > fitThreshold))

/-- `snake_add_new_segment`. -/
def snakeAddNewSegment (data : SnakeData) (head : SnakeHead) : Except Fault SnakeData := do
  let trails ← emplaced (rbPutRealloc mem data.headTrails (vecPush mem vecInit head.pos))
  let handles ← emplaced (rbPutRealloc mem data.bezierHandles
    (bezierHandleInit head.pos (qaAdd head.angle qaPi)))
  let aabbs ← emplaced (rbPutRealloc mem data.bezierAabbs (qwaabbPoint head.pos))
  return { data with headTrails := trails, bezierHandles := handles, bezierAabbs := aabbs }

/-- `SNAKE_PART_SPACING`. -/
def snakePartSpacing : Int := makeQw2 1 6

/-- `snake_step`, with the number of segments that are superfluous. -/
def snakeStep (data : SnakeData) (head : SnakeHead) (param : SnakeParam) (command : Cmd)
    (simTickRate : UInt8) : Except Fault (SnakeData × SnakeHead × Nat) := do
  let head := snakeStepHead num param simTickRate head command
  let (data, needNewSegment) ← snakeUpdateCurveFromHead mem num data head
  let data ← snakeUpdateHeadTrailAabb data
  let data ← snakeUpdateAabb data
  let data ← if needNewSegment then snakeAddNewSegment mem data head else .ok data
  let stale := num.equidistantPoints (rbToList data.bezierHandles)
    (qwMul snakePartSpacing param.cachedStats.scale) param.cachedStats.length
  return (data, head, stale)

/-! ## Stale segments -/

/-- The three takes that drop the oldest segment. -/
def takeSegment (data : SnakeData) : Except Fault SnakeData := do
  let (_, trails) ← rbTake data.headTrails
  let (_, handles) ← rbTake data.bezierHandles
  let (_, aabbs) ← rbTake data.bezierAabbs
  return { data with headTrails := trails, bezierHandles := handles, bezierAabbs := aabbs }

/-- The loop of `snake_remove_stale_segments`. -/
def removeStaleLoop : Nat → SnakeData → Except Fault SnakeData
  | 0, data => .ok data
  | n + 1, data => do
      let data ← takeSegment data
      removeStaleLoop n data

/-- `snake_remove_stale_segments`, with its assertion. -/
def snakeRemoveStaleSegments (data : SnakeData) (stale : Nat) : Except Fault SnakeData :=
  if stale < rbCount data.headTrails then do
    let data ← removeStaleLoop stale data
    snakeUpdateAabb data
  else .error .empty

/-- The loop of `snake_remove_stale_segments_with_rollback_constraint`: it stops
at a segment that the acknowledged head may be on. -/
def removeStaleConstrainedLoop (headAck : SnakeHead) : Nat → SnakeData → Except Fault SnakeData
  | 0, data => .ok data
  | n + 1, data => do
      let bb ← rbPeekRead data.bezierAabbs
      if qwaabbTestQwpos bb headAck.pos then .ok data
      else do
        let data ← takeSegment data
        removeStaleConstrainedLoop headAck n data

/-- `snake_remove_stale_segments_with_rollback_constraint`, with its assertion. -/
def snakeRemoveStaleSegmentsWithRollbackConstraint (data : SnakeData) (headAck : SnakeHead)
    (stale : Nat) : Except Fault SnakeData :=
  if stale < rbCount data.headTrails then do
    let data ← removeStaleConstrainedLoop headAck stale data
    snakeUpdateAabb data
  else .error .empty

/-! ## Acknowledged frames -/

/-- The first loop of `snake_ack_frame`: step the acknowledged head up to the
frame.  One turn for each frame from `lastAckdFrame` to `frameNumber`. -/
def ackLoop (param : SnakeParam) (simTickRate : UInt8) (frameNumber : UInt16) :
    Nat → UInt16 → SnakeHead → CmdQueue → Except Fault (SnakeHead × CmdQueue)
  | 0, _, head, cmdq => .ok (head, cmdq)
  | turns + 1, lastAckdFrame, head, cmdq =>
      if u16LeWrap lastAckdFrame frameNumber then do
        let (cmdq, command) ← cmdQueueTakeOrPredict cmdq lastAckdFrame
        ackLoop param simTickRate frameNumber turns (lastAckdFrame + 1)
          (snakeStepHead num param simTickRate head command) cmdq
      else .ok (head, cmdq)

/-- Take back the newest point; when a trail runs empty, its segment goes too,
and so does the point that it shared with the trail before it. -/
def popPoint (data : SnakeData) : Except Fault SnakeData := do
  let trail ← rbPeekWrite data.headTrails
  let trail ← vecPop trail
  let trails := rbSetWrite data.headTrails trail
  if trail.items = [] then do
    let (_, trails) ← rbTakew trails
    let (_, handles) ← rbTakew data.bezierHandles
    let (_, aabbs) ← rbTakew data.bezierAabbs
    let trail ← rbPeekWrite trails
    let trail ← vecPop trail
    return { data with headTrails := rbSetWrite trails trail, bezierHandles := handles,
                       bezierAabbs := aabbs }
  else return { data with headTrails := trails }

/-- The second loop of `snake_ack_frame`.  One turn for each frame from
`frameNumber` to `predictedFrame`. -/
def popLoop (frameNumber : UInt16) : Nat → UInt16 → SnakeData → Except Fault SnakeData
  | 0, _, data => .ok data
  | turns + 1, predictedFrame, data =>
      if u16GtWrap predictedFrame frameNumber then do
        let data ← popPoint data
        popLoop frameNumber turns (predictedFrame - 1) data
      else .ok data

/-- Append a position to the curve during a rollback. -/
def extendCurve (data : SnakeData) (head : SnakeHead) : Except Fault SnakeData := do
  let (data, needNewSegment) ← snakeUpdateCurveFromHead mem num data head
  if needNewSegment then do
    let data ← snakeUpdateHeadTrailAabb data
    snakeAddNewSegment mem data head
  else return data

/-- The third loop of `snake_ack_frame`: simulate the head forwards again. -/
def replayLoop (param : SnakeParam) (simTickRate : UInt8) :
    List Cmd → SnakeData → SnakeHead → Except Fault (SnakeData × SnakeHead)
  | [], data, head => .ok (data, head)
  | command :: rest, data, head => do
      let head := snakeStepHead num param simTickRate head command
      let data ← extendCurve mem num data head
      replayLoop param simTickRate rest data head

/-- The part of `snake_ack_frame` behind the comparison of the two heads. -/
def rollback (snake : Snake) (authoritative : SnakeHead) (predictedFrame frameNumber : UInt16)
    (simTickRate : UInt8) : Except Fault Snake := do
  let _ ← rbPeekWrite snake.data.headTrails
  let data ← popLoop frameNumber (predictedFrame - frameNumber).toNat predictedFrame snake.data
  let data ← extendCurve mem num data authoritative
  let (data, head) ← replayLoop mem num snake.param simTickRate snake.cmdq.commands data
    authoritative
  let data ← snakeUpdateHeadTrailAabb data
  let data ← snakeUpdateAabb data
  return { snake with data := data, head := head, headAck := authoritative }

/-- `snake_ack_frame`, on the snake that its arguments are parts of. -/
def snakeAckFrame (snake : Snake) (authoritative : SnakeHead) (frameNumber : UInt16)
    (simTickRate : UInt8) : Except Fault Snake :=
  if snake.cmdq.count = 0 then .ok snake
  else
    let lastAckdFrame := snake.cmdq.frameBegin
    let predictedFrame := snake.cmdq.frameEnd
    if u16LtWrap frameNumber lastAckdFrame ∨ u16GtWrap frameNumber predictedFrame then .ok snake
    else do
      let (headAck, cmdq) ← ackLoop num snake.param simTickRate frameNumber
        ((frameNumber - lastAckdFrame).toNat + 1) lastAckdFrame snake.headAck snake.cmdq
      let snake := { snake with headAck := headAck, cmdq := cmdq }
      if headAck = authoritative then return snake
      else rollback mem num snake authoritative predictedFrame frameNumber simTickRate

/-! ## Holding -/

/-- `snake_set_hold`. -/
def snakeSetHold (snake : Snake) : Snake :=
  { snake with hold := true }

/-- `snake_is_held`. -/
def snakeIsHeld (snake : Snake) : Bool :=
  snake.hold

/-- `snake_try_reset_hold`, with the answer whether the snake moves. -/
def snakeTryResetHold (snake : Snake) (frameNumber : UInt16) : Snake × Bool :=
  let hold := if snake.cmdq.count > 0 ∧ snake.cmdq.frameBegin = frameNumber then false else snake.hold
  ({ snake with hold := hold }, !hold)

/-- One frame of the client's own snake: the command is queued, the snake is
stepped and the segments that are no longer needed are removed. -/
def clientStep (snake : Snake) (command : Cmd) (frameNumber : UInt16) (simTickRate : UInt8) :
    Except Fault Snake := do
  let cmdq := cmdQueuePut mem snake.cmdq command frameNumber
  let (data, head, stale) ← snakeStep mem num snake.data snake.head snake.param command simTickRate
  let data ← snakeRemoveStaleSegmentsWithRollbackConstraint data snake.headAck stale
  return { snake with cmdq := cmdq, data := data, head := head }

end Clither
