import Clither.SegmentGrowth
import Clither.StraightCurve

/-!
# The assertion on stale segments

`snake_step` answers how many segments are stale, and the caller removes so many of the
oldest ones.  `snake_remove_stale_segments` asserts that there are more than that.  The
number comes from `bezier_calc_equidistant_points`, which returns only if the vector of the
points has space for them.

A step that returns has found a trail to append to, and the handles are one more than
the trails in every state that a snake can get into.  So the search over the handles has
two of them at least, and leaves out the newest segment.
-/

namespace Clither

open Faults (bind_eq_ok)

variable {mem : Alloc} {num : Numerics} {data data' : SnakeData} {head head' : SnakeHead}
  {param : SnakeParam} {command : Cmd} {simTickRate : UInt8} {stale : Nat}

/-- A step appends to a trail, which is still there when it returns. -/
theorem trails_pos_of_snakeStep
    (h : snakeStep mem num data head param command simTickRate = .ok (data', head', stale)) :
    0 < rbCount data'.headTrails := by
  obtain ⟨⟨data₁, need⟩, hupdate, h⟩ := bind_eq_ok.mp h
  obtain ⟨data₂, hbox, h⟩ := bind_eq_ok.mp h
  obtain ⟨data₃, haabb, h⟩ := bind_eq_ok.mp h
  obtain ⟨-, init, v, hnewest, -⟩ := update_sizes hupdate
  have hsizes := (aabb_sizes haabb).trans (box_sizes hbox)
  simp only [SnakeData.sizes, Prod.mk.injEq] at hsizes
  have hcount : rbCount data₃.headTrails = init.length + 1 := by
    rw [hsizes.1.2, ← length_rbToList, hnewest, List.length_append, List.length_singleton]
  dsimp only at h
  split_ifs at h
  · obtain ⟨data₄, hadd, h⟩ := bind_eq_ok.mp h
    obtain ⟨trails, htrails, hadd⟩ := bind_eq_ok.mp hadd
    obtain ⟨handles, hhandles, hadd⟩ := bind_eq_ok.mp hadd
    obtain ⟨aabbs, haabbs, hadd⟩ := bind_eq_ok.mp hadd
    cases hadd
    cases h
    rw [rbCount_concat (rbToList_rbPutRealloc (emplaced_eq_ok.mp htrails))]
    omega
  · cases h
    omega

/-- `snake_step` with the vector of the points: its steps, and then the search for the points with
what it answers. -/
def snakeStepPoints (mem : Alloc) (sqrt : Int → Int) (num : Numerics)
    (points : Vec bezierPointVec BezierPoint) (data : SnakeData) (head : SnakeHead)
    (param : SnakeParam) (command : Cmd) (simTickRate : UInt8) :
    Option (Except Fault (SnakeData × Vec bezierPointVec BezierPoint × SnakeHead × Nat)) :=
  match snakeStep mem num data head param command simTickRate with
  | .error fault => some (.error fault)
  | .ok (data, head, _) =>
      match bezierCalcEquidistantPoints mem sqrt num points (rbToList data.bezierHandles)
          (qwMul snakePartSpacing param.cachedStats.scale) param.cachedStats.length with
      | none => none
      | some (.error fault) => some (.error fault)
      | some (.ok (stale, points)) => some (.ok (data, points, head, stale))

section

variable {sqrt : Int → Int} {points points' : Vec bezierPointVec BezierPoint}

theorem snakeStepPoints_eq_ok
    (h : snakeStepPoints mem sqrt num points data head param command simTickRate =
      some (.ok (data', points', head', stale))) :
    (∃ ignored, snakeStep mem num data head param command simTickRate =
      .ok (data', head', ignored)) ∧
      bezierCalcEquidistantPoints mem sqrt num points (rbToList data'.bezierHandles)
        (qwMul snakePartSpacing param.cachedStats.scale) param.cachedStats.length =
          some (.ok (stale, points')) := by
  unfold snakeStepPoints at h
  split at h
  · cases h
  · next data₁ head₁ ignored hstep =>
      split at h
      · cases h
      · cases h
      · next stale₁ points₁ hpoints =>
          cases h
          exact ⟨⟨ignored, hstep⟩, hpoints⟩

/-- **The stale segments are fewer than the trails.** -/
theorem stale_lt_trails (hnonneg : ∀ q, 0 ≤ sqrt q) (hpos : ∀ q, 0 < q → 1 ≤ sqrt q)
    (hinStep : data.InStep)
    (h : snakeStepPoints mem sqrt num points data head param command simTickRate =
      some (.ok (data', points', head', stale))) :
    stale < rbCount data'.headTrails := by
  obtain ⟨⟨ignored, hstep⟩, hpoints⟩ := snakeStepPoints_eq_ok h
  have htrails := trails_pos_of_snakeStep hstep
  have hhandles := ((grown_snakeStep hstep).inStep hinStep).handles
  have htwo : 2 ≤ (rbToList data'.bezierHandles).length := by
    rw [length_rbToList]
    omega
  obtain ⟨sampled, i, -, hlt, -, hspec⟩ := bezierCalcEquidistantPoints_spec hnonneg hpos num htwo
    (qwMul snakePartSpacing param.cachedStats.scale) param.cachedStats.length
  rw [hspec] at hpoints
  split at hpoints
  · cases hpoints
    rw [length_rbToList] at hlt
    omega
  · cases hpoints

/-- What `snake_remove_stale_segments` does when its assertion holds. -/
theorem removeStaleSegments_of_lt (hstale : stale < rbCount data.headTrails) :
    snakeRemoveStaleSegments data stale = removeStaleLoop stale data >>= snakeUpdateAabb := by
  rw [snakeRemoveStaleSegments, if_pos hstale]

end

/-- The function returns, with an index from 0 to `count - 2`. -/
def ReturnsIndex (mem : Alloc) (sqrt : Int → Int) (num : Numerics)
    (points : Vec bezierPointVec BezierPoint) (handles : List BezierHandle)
    (spacing snakeLength : Int) : Prop :=
  ∃ i points', bezierCalcEquidistantPoints mem sqrt num points handles spacing snakeLength =
    some (.ok (i, points')) ∧ i ≤ handles.length - 2

/-- The function returns exactly if the vector takes the points of the curve. -/
theorem returnsIndex_iff {sqrt : Int → Int} (hnonneg : ∀ q, 0 ≤ sqrt q)
    (hpos : ∀ q, 0 < q → 1 ≤ sqrt q) (num : Numerics) (mem : Alloc)
    (points : Vec bezierPointVec BezierPoint) {handles : List BezierHandle}
    (htwo : 2 ≤ handles.length) {spacing snakeLength : Int} {sampled : List BezierPoint}
    (hsamples : Samples sqrt spacing snakeLength num handles sampled) :
    ReturnsIndex mem sqrt num points handles spacing snakeLength ↔
      vecTakesAll mem points.clear sampled = true := by
  obtain ⟨sampled', stale, hsamples', hlt, -, hspec⟩ :=
    bezierCalcEquidistantPoints_spec hnonneg hpos num htwo spacing snakeLength
  obtain rfl := hsamples.unique hsamples'
  unfold ReturnsIndex
  rw [hspec]
  constructor
  · intro h
    obtain ⟨i, points', hok, -⟩ := h
    by_contra hfull
    rw [if_neg hfull] at hok
    cases hok
  · intro htakes
    rw [if_pos htakes]
    exact ⟨stale, _, rfl, by omega⟩

/-- With more points than the largest capacity, the first that has no space is written to a null
pointer. -/
theorem not_returnsIndex_of_many {sqrt : Int → Int} (hnonneg : ∀ q, 0 ≤ sqrt q)
    (hpos : ∀ q, 0 < q → 1 ≤ sqrt q) {num : Numerics}
    {points : Vec bezierPointVec BezierPoint} {handles : List BezierHandle}
    (htwo : 2 ≤ handles.length) {spacing snakeLength : Int}
    (hmany : 2 ^ 14 < (sampleCurve sqrt num handles spacing snakeLength).length) :
    bezierCalcEquidistantPoints Alloc.unlimited sqrt num points handles spacing snakeLength =
      some (.error .nullSegment) ∧
    ¬ ReturnsIndex Alloc.unlimited sqrt num points handles spacing snakeLength := by
  obtain ⟨sampled, stale, hsamples, -, -, hspec⟩ :=
    bezierCalcEquidistantPoints_spec hnonneg hpos num htwo spacing snakeLength
  have hfull : ¬ vecTakesAll Alloc.unlimited points.clear sampled = true := by
    rw [vecTakesAll_unlimited_iff, (samples_iff hnonneg hpos num htwo _ _).mp hsamples]
    omega
  refine ⟨?_, ?_⟩
  · rw [hspec, if_neg hfull]
  · rw [returnsIndex_iff hnonneg hpos num Alloc.unlimited points htwo hsamples]
    exact hfull

/-- **The search for equidistant points returns, with an index that leaves out the newest segment,
exactly if the vector takes the points of the curve.**  With enough memory it takes `2 ^ 14` of them.
The assertion holds after every step that returns, in every run. -/
theorem stale_segments_few (sqrt : Int → Int) (hnonneg : ∀ q, 0 ≤ sqrt q)
    (hpos : ∀ q, 0 < q → 1 ≤ sqrt q) (num : Numerics) :
    (∀ (handles : List BezierHandle) (points : Vec bezierPointVec BezierPoint),
      2 ≤ handles.length → ∀ spacing snakeLength : Int,
        ∃ sampled, Samples sqrt spacing snakeLength num handles sampled ∧
          (∀ mem : Alloc, ReturnsIndex mem sqrt num points handles spacing snakeLength ↔
            vecTakesAll mem points.clear sampled = true) ∧
          (ReturnsIndex Alloc.unlimited sqrt num points handles spacing snakeLength ↔
            sampled.length ≤ 2 ^ 14)) ∧
    ∀ spawnPos snake, snakeInit Alloc.unlimited spawnPos = some snake → ∀ events s,
      Run.run (segmentEvent num) snake events = .ok s →
      ∀ mem points command simTickRate data' points' head' stale,
        snakeStepPoints mem sqrt num points s.data s.head s.param command simTickRate =
            some (.ok (data', points', head', stale)) →
          stale < rbCount data'.headTrails ∧
          snakeRemoveStaleSegments data' stale = removeStaleLoop stale data' >>= snakeUpdateAabb := by
  constructor
  · intro handles points htwo spacing snakeLength
    obtain ⟨sampled, -, hsamples, -⟩ :=
      bezierCalcEquidistantPoints_spec hnonneg hpos num htwo spacing snakeLength
    have hiff (mem : Alloc) := returnsIndex_iff hnonneg hpos num mem points htwo hsamples
    refine ⟨sampled, hsamples, hiff,
      (hiff Alloc.unlimited).trans ((vecTakesAll_unlimited_iff _ _).trans ?_)⟩
    show 0 + _ ≤ 2 ^ 14 ↔ _
    rw [Nat.zero_add]
  · intro spawnPos snake hinit events s hrun mem points command simTickRate data' points' head'
      stale hstep
    have hkeeps (s : Snake) (e : SegmentEvent) (s' : Snake) (hs : s.data.InStep) (_ : True)
        (hevent : segmentEvent num s e = .ok s') : s'.data.InStep :=
      (grown_segmentEvent hevent).inStep hs
    have hinStep : s.data.InStep :=
      Run.run_invariant hkeeps (inStep_init hinit)
        (Run.meets_of_forall (fun _ _ => trivial) snake events) hrun
    have hlt := stale_lt_trails hnonneg hpos hinStep hstep
    exact ⟨hlt, removeStaleSegments_of_lt hlt⟩

/-- The points of three handles of a straight snake, and a step behind a run that opens segments. -/
theorem stale_segments_few_straight :
    ReturnsIndex Alloc.unlimited qwSqrt eagerNum vecInit
      [bezierHandleInit ⟨0, 0⟩ 0, bezierHandleInit ⟨196, 0⟩ 0, bezierHandleInit ⟨419, 0⟩ 0]
      (2 ^ 11) (2 ^ 14) ∧
    ∃ s data points head stale, Run.run (segmentEvent eagerNum) freshSnake fewFrames = .ok s ∧
      snakeStepPoints Alloc.unlimited qwSqrt eagerNum vecInit s.data s.head s.param cmdDefault 60 =
        some (.ok (data, points, head, stale)) ∧ stale < rbCount data.headTrails := by
  obtain ⟨hreturns, hruns⟩ := stale_segments_few qwSqrt qwSqrt_nonneg one_le_qwSqrt eagerNum
  constructor
  · have htwo : 2 ≤ [bezierHandleInit ⟨0, 0⟩ 0, bezierHandleInit ⟨196, 0⟩ 0,
        bezierHandleInit ⟨419, 0⟩ 0].length := by decide
    obtain ⟨sampled, hsamples, -, hfew⟩ := hreturns _ vecInit htwo (2 ^ 11) (2 ^ 14)
    refine hfew.mpr ?_
    rw [(samples_iff qwSqrt_nonneg one_le_qwSqrt eagerNum htwo _ _).mp hsamples]
    decide +kernel
  · have h : (do
        let s ← Run.run (segmentEvent eagerNum) freshSnake fewFrames
        (snakeStepPoints Alloc.unlimited qwSqrt eagerNum vecInit s.data s.head s.param cmdDefault
          60).elim (.error .probeLoop) fun result => result.map fun r => r.2.2.2) =
          Except.ok 0 := by
      decide +kernel
    obtain ⟨s, hrun, h⟩ := bind_eq_ok.mp h
    cases hstep : snakeStepPoints Alloc.unlimited qwSqrt eagerNum vecInit s.data s.head s.param
        cmdDefault 60 with
    | none =>
        rw [hstep] at h
        cases h
    | some result =>
        rw [hstep] at h
        cases result with
        | error f => cases h
        | ok r =>
            have hinit : snakeInit Alloc.unlimited ⟨0, 0⟩ = some freshSnake := by decide +kernel
            exact ⟨s, r.1, r.2.1, r.2.2.1, r.2.2.2, hrun, hstep,
              (hruns _ _ hinit _ _ hrun _ _ _ _ _ _ _ _ hstep).1⟩

/-- Directions to the east, with the cosine of 1. -/
def eastNum : Numerics :=
  { eagerNum with qaCos := fun _ => 2 ^ 14 }

/-- **A straight snake of 33 segments** has more points than that: the 16385th is written to a null
pointer. -/
theorem not_returnsIndex_straight :
    bezierCalcEquidistantPoints Alloc.unlimited qwSqrt eastNum vecInit eastHandles 0 (2 ^ 23) =
      some (.error .nullSegment) ∧
    ¬ ReturnsIndex Alloc.unlimited qwSqrt eastNum vecInit eastHandles 0 (2 ^ 23) :=
  not_returnsIndex_of_many qwSqrt_nonneg one_le_qwSqrt (by decide)
    (length_sampleCurve_east rfl rfl)

end Clither
