import Clither.RbRefines
import Clither.ClientRuns
import Clither.SnakeFaults

/-!
# How many segments a snake can open

A segment is a trail, a handle and a box, in three ring buffers that grow by
doubling.  The index type of the trails has 8 bits, so that their capacity stops at
64, and one cell of it stays free: the 64th trail is written through a null pointer.

`Grown` is what every function of the snake keeps when it returns: the capacities are
the same or have doubled, and the three counts still belong together.  With this the
fault of a step is known from the number of segments before each one it opens.
-/

namespace Clither

open Faults

/-! ## Capacities -/

section

variable {c : RbInstance} {α : Type}

/-- The capacity is the same, or a power of two that is at least twice as large. -/
def Doubles (rb rb' : Rb c α) : Prop :=
  rbCapacity rb' = rbCapacity rb ∨
    (2 * rbCapacity rb ≤ rbCapacity rb' ∧ 0 < rbCapacity rb' ∧ ∃ j, rbCapacity rb' = 2 ^ j)

theorem Doubles.trans {rb rb' rb'' : Rb c α} (h : Doubles rb rb') (h' : Doubles rb' rb'') :
    Doubles rb rb'' := by
  rcases h' with hsame | ⟨hdouble, hpos, hpow⟩
  · rw [Doubles, hsame]
    exact h
  · rcases h with hsame | ⟨hdouble', -, -⟩
    · exact .inr ⟨hsame ▸ hdouble, hpos, hpow⟩
    · exact .inr ⟨by omega, hpos, hpow⟩

/-- A put doubles the capacity of a full buffer and leaves it otherwise. -/
theorem doubles_rbPutRealloc {mem : Alloc} {rb rb' : Rb c α} {elem : α}
    (h : rbPutRealloc mem rb elem = some rb') : Doubles rb rb' := by
  have hpow (r : Ring c α) : 0 < rbCapacity (some r) ∧ ∃ j, rbCapacity (some r) = 2 ^ j :=
    ⟨Nat.two_pow_pos _, r.logCapacity, rfl⟩
  cases rb with
  | none =>
      rw [rbPutRealloc] at h
      split_ifs at h
      cases h
      exact .inr ⟨Nat.zero_le _, hpow _⟩
  | some r =>
      rw [rbPutRealloc] at h
      split_ifs at h with hfull hgranted
      · cases h
        refine .inr ⟨?_, hpow _⟩
        show 2 * 2 ^ r.logCapacity ≤ 2 ^ (r.logCapacity + 1)
        rw [pow_succ']
      · cases h
        exact .inl rfl

/-- Writing an element does not resize. -/
@[simp] theorem rbCapacity_rbSet (rb : Rb c α) (idx : Nat) (elem : α) :
    rbCapacity (rbSet rb idx elem) = rbCapacity rb := by
  cases rb <;> rfl

/-- Nor does writing the newest. -/
@[simp] theorem rbCapacity_rbSetWrite (rb : Rb c α) (elem : α) :
    rbCapacity (rbSetWrite rb elem) = rbCapacity rb :=
  rbCapacity_rbSet rb _ elem

/-- And it keeps their number. -/
@[simp] theorem rbCount_rbSetWrite (rb : Rb c α) (elem : α) :
    rbCount (rbSetWrite rb elem) = rbCount rb :=
  rbCount_set rb _ elem

/-- A take leaves one element less. -/
theorem rbCount_rbTake {rb rb' : Rb c α} {elem : α} (h : rbTake rb = .ok (elem, rb')) :
    rbCount rb = rbCount rb' + 1 := by
  cases hlist : rbToList rb with
  | nil => cases (rbTake_of_nil hlist).symm.trans h
  | cons first rest =>
      obtain ⟨rb₂, htake, hrest⟩ := rbTake_of_cons hlist
      cases htake.symm.trans h
      rw [← length_rbToList, hlist, ← length_rbToList, hrest, List.length_cons]

/-- So does a take at the other end. -/
theorem rbCount_rbTakew {rb rb' : Rb c α} {elem : α} (h : rbTakew rb = .ok (elem, rb')) :
    rbCount rb = rbCount rb' + 1 := by
  rcases List.eq_nil_or_concat' (rbToList rb) with hlist | ⟨init, last, hlist⟩
  · cases (rbTakew_of_nil hlist).symm.trans h
  · obtain ⟨rb₂, htake, hinit⟩ := rbTakew_of_concat hlist
    cases htake.symm.trans h
    rw [← length_rbToList, hlist, ← length_rbToList, hinit, List.length_append,
      List.length_singleton]

end

/-! ## What the functions keep -/

namespace SnakeData

/-- The capacities and the counts of the three ring buffers. -/
def sizes (data : SnakeData) : (Nat × Nat) × (Nat × Nat) × (Nat × Nat) :=
  ((rbCapacity data.headTrails, rbCount data.headTrails),
    (rbCapacity data.bezierHandles, rbCount data.bezierHandles),
    (rbCapacity data.bezierAabbs, rbCount data.bezierAabbs))

/-- A handle more than trails, and as many boxes. -/
structure InStep (data : SnakeData) : Prop where
  handles : rbCount data.bezierHandles = rbCount data.headTrails + 1
  boxes : rbCount data.bezierAabbs = rbCount data.headTrails

end SnakeData

/-- The capacities of the three ring buffers are the same or have doubled. -/
structure GrowsByDoubling (data data' : SnakeData) : Prop where
  trails : Doubles data.headTrails data'.headTrails
  handles : Doubles data.bezierHandles data'.bezierHandles
  boxes : Doubles data.bezierAabbs data'.bezierAabbs

structure Grown (data data' : SnakeData) : Prop where
  grows : GrowsByDoubling data data'
  inStep : data.InStep → data'.InStep

theorem Grown.trans {data data' data'' : SnakeData} (h : Grown data data') (h' : Grown data' data'') :
    Grown data data'' where
  grows :=
    { trails := h.grows.trails.trans h'.grows.trails
      handles := h.grows.handles.trans h'.grows.handles
      boxes := h.grows.boxes.trans h'.grows.boxes }
  inStep := fun hinStep => h'.inStep (h.inStep hinStep)

/-- A function that only writes to elements. -/
theorem grown_of_sizes {data data' : SnakeData} (h : data'.sizes = data.sizes) : Grown data data' := by
  simp only [SnakeData.sizes, Prod.mk.injEq] at h
  obtain ⟨⟨htrails, hntrails⟩, ⟨hhandles, hnhandles⟩, ⟨hboxes, hnboxes⟩⟩ := h
  exact
    { grows := ⟨.inl htrails, .inl hhandles, .inl hboxes⟩
      inStep := fun hinStep =>
        ⟨by rw [hnhandles, hntrails, hinStep.handles], by rw [hnboxes, hntrails, hinStep.boxes]⟩ }

theorem Grown.refl (data : SnakeData) : Grown data data :=
  grown_of_sizes rfl

variable {mem : Alloc} {num : Numerics}

/-- The newest trail has got a point, and the sizes are the same. -/
theorem update_sizes {data data' : SnakeData} {head : SnakeHead} {need : Bool}
    (h : snakeUpdateCurveFromHead mem num data head = .ok (data', need)) :
    data'.sizes = data.sizes ∧
      ∃ init v, rbToList data'.headTrails = init ++ [v] ∧ v.items ≠ [] := by
  obtain ⟨trail, hpeek, h⟩ := bind_eq_ok.mp h
  dsimp only at h
  split_ifs at h with hshort
  obtain ⟨headHandle, -, h⟩ := bind_eq_ok.mp h
  obtain ⟨tailHandle, -, h⟩ := bind_eq_ok.mp h
  push Not at hshort
  cases h
  refine ⟨by simp [SnakeData.sizes], ?_⟩
  rcases List.eq_nil_or_concat' (rbToList data.headTrails) with hnil | ⟨init, last, hlist⟩
  · rw [rbPeekWrite_of_nil hnil] at hpeek
    cases hpeek
  · exact ⟨init, _, rbToList_setWrite hlist _, hshort.2⟩

/-- The box of the newest trail is all that is written. -/
theorem box_written {data data' : SnakeData} (h : snakeUpdateHeadTrailAabb data = .ok data') :
    ∃ box, data' = { data with bezierAabbs := rbSetWrite data.bezierAabbs box } := by
  obtain ⟨box, -, h⟩ := bind_eq_ok.mp h
  obtain ⟨trail, -, h⟩ := bind_eq_ok.mp h
  split at h
  · cases h
  · cases h
    exact ⟨_, rfl⟩

/-- The box of the snake is computed from the others and written to its place. -/
theorem aabb_written {data data' : SnakeData} (h : snakeUpdateAabb data = .ok data') :
    ∃ box, data' = { data with aabb := box } := by
  rw [snakeUpdateAabb] at h
  split at h
  · cases h
  · cases h
    exact ⟨_, rfl⟩

/-- The boxes of the trail are written in place. -/
theorem box_sizes {data data' : SnakeData} (h : snakeUpdateHeadTrailAabb data = .ok data') :
    data'.sizes = data.sizes := by
  obtain ⟨box, rfl⟩ := box_written h
  simp [SnakeData.sizes]

/-- So is the box of the snake. -/
theorem aabb_sizes {data data' : SnakeData} (h : snakeUpdateAabb data = .ok data') :
    data'.sizes = data.sizes := by
  obtain ⟨box, rfl⟩ := aabb_written h
  rfl

/-- An `emplace` that succeeds is what it returns. -/
theorem emplaced_eq_ok {β : Type} {x : Option β} {b : β} : emplaced x = .ok b ↔ x = some b := by
  cases x <;> simp [emplaced]

/-- A new segment doubles the buffers that are full. -/
theorem grown_addNewSegment {data data' : SnakeData} {head : SnakeHead}
    (h : snakeAddNewSegment mem data head = .ok data') : Grown data data' := by
  obtain ⟨trails, htrails, h⟩ := bind_eq_ok.mp h
  obtain ⟨handles, hhandles, h⟩ := bind_eq_ok.mp h
  obtain ⟨aabbs, haabbs, h⟩ := bind_eq_ok.mp h
  rw [emplaced_eq_ok] at htrails hhandles haabbs
  cases h
  refine ⟨⟨doubles_rbPutRealloc htrails, doubles_rbPutRealloc hhandles,
    doubles_rbPutRealloc haabbs⟩, fun hinStep => ⟨?_, ?_⟩⟩
  · rw [rbCount_concat (rbToList_rbPutRealloc hhandles),
      rbCount_concat (rbToList_rbPutRealloc htrails), hinStep.handles]
  · rw [rbCount_concat (rbToList_rbPutRealloc haabbs),
      rbCount_concat (rbToList_rbPutRealloc htrails), hinStep.boxes]

/-- A frame grows them by one segment at most. -/
theorem grown_extendCurve {data data' : SnakeData} {head : SnakeHead}
    (h : extendCurve mem num data head = .ok data') : Grown data data' := by
  obtain ⟨⟨data₁, need⟩, hupdate, h⟩ := bind_eq_ok.mp h
  have hgrown := grown_of_sizes (update_sizes hupdate).1
  cases need with
  | false =>
      cases h
      exact hgrown
  | true =>
      obtain ⟨data₂, hbox, h⟩ := bind_eq_ok.mp h
      exact (hgrown.trans (grown_of_sizes (box_sizes hbox))).trans (grown_addNewSegment h)

/-- So do the frames of a replay. -/
theorem grown_extendAll {heads : List SnakeHead} {data data' : SnakeData}
    (h : extendAll mem num heads data = .ok data') : Grown data data' := by
  induction heads generalizing data with
  | nil =>
      cases h
      exact Grown.refl _
  | cons head rest ih =>
      obtain ⟨data₁, hext, h⟩ := bind_eq_ok.mp h
      exact (grown_extendCurve hext).trans (ih h)

/-- Taking a segment does not resize. -/
theorem grown_takeSegment {data data' : SnakeData} (h : takeSegment data = .ok data') :
    Grown data data' := by
  obtain ⟨⟨_, trails⟩, htrails, h⟩ := bind_eq_ok.mp h
  obtain ⟨⟨_, handles⟩, hhandles, h⟩ := bind_eq_ok.mp h
  obtain ⟨⟨_, aabbs⟩, haabbs, h⟩ := bind_eq_ok.mp h
  cases h
  have hntrails := rbCount_rbTake htrails
  have hnhandles := rbCount_rbTake hhandles
  have hnaabbs := rbCount_rbTake haabbs
  refine ⟨⟨.inl (rbCapacity_rbTake htrails), .inl (rbCapacity_rbTake hhandles),
    .inl (rbCapacity_rbTake haabbs)⟩, fun hinStep => ⟨?_, ?_⟩⟩
  · have := hinStep.handles
    show rbCount handles = rbCount trails + 1
    omega
  · have := hinStep.boxes
    show rbCount aabbs = rbCount trails
    omega

/-- Removing stale segments does not resize. -/
theorem grown_removeStale {data data' : SnakeData} {stale : Nat}
    (h : snakeRemoveStaleSegments data stale = .ok data') : Grown data data' := by
  have hloop (n : Nat) : ∀ {data data'}, removeStaleLoop n data = .ok data' → Grown data data' := by
    induction n with
    | zero =>
        intro data data' h
        cases h
        exact Grown.refl _
    | succ n ih =>
        intro data data' h
        obtain ⟨data₁, htake, h⟩ := bind_eq_ok.mp h
        exact (grown_takeSegment htake).trans (ih h)
  rw [snakeRemoveStaleSegments] at h
  split_ifs at h
  obtain ⟨data₁, hremove, h⟩ := bind_eq_ok.mp h
  exact (hloop stale hremove).trans (grown_of_sizes (aabb_sizes h))

/-- Nor does removing those that a rollback cannot need. -/
theorem grown_removeStaleConstrained {data data' : SnakeData} {headAck : SnakeHead} {stale : Nat}
    (h : snakeRemoveStaleSegmentsWithRollbackConstraint data headAck stale = .ok data') :
    Grown data data' := by
  have hloop (n : Nat) : ∀ {data data'}, removeStaleConstrainedLoop headAck n data = .ok data' →
      Grown data data' := by
    induction n with
    | zero =>
        intro data data' h
        cases h
        exact Grown.refl _
    | succ n ih =>
        intro data data' h
        obtain ⟨box, -, h⟩ := bind_eq_ok.mp h
        split_ifs at h
        · cases h
          exact Grown.refl _
        · obtain ⟨data₁, htake, h⟩ := bind_eq_ok.mp h
          exact (grown_takeSegment htake).trans (ih h)
  rw [snakeRemoveStaleSegmentsWithRollbackConstraint] at h
  split_ifs at h
  obtain ⟨data₁, hremove, h⟩ := bind_eq_ok.mp h
  exact (hloop stale hremove).trans (grown_of_sizes (aabb_sizes h))

/-- Taking back a point does not resize. -/
theorem grown_popPoint {data data' : SnakeData} (h : popPoint data = .ok data') : Grown data data' := by
  obtain ⟨trail, -, h⟩ := bind_eq_ok.mp h
  obtain ⟨popped, -, h⟩ := bind_eq_ok.mp h
  dsimp only at h
  split_ifs at h with hempty
  · obtain ⟨⟨_, trails⟩, htrails, h⟩ := bind_eq_ok.mp h
    obtain ⟨⟨_, handles⟩, hhandles, h⟩ := bind_eq_ok.mp h
    obtain ⟨⟨_, aabbs⟩, haabbs, h⟩ := bind_eq_ok.mp h
    obtain ⟨trail, -, h⟩ := bind_eq_ok.mp h
    obtain ⟨popped, -, h⟩ := bind_eq_ok.mp h
    cases h
    have hntrails := rbCount_rbTakew htrails
    have hnhandles := rbCount_rbTakew hhandles
    have hnaabbs := rbCount_rbTakew haabbs
    rw [rbCount_rbSetWrite] at hntrails
    refine ⟨⟨.inl ?_, .inl (rbCapacity_rbTakew hhandles), .inl (rbCapacity_rbTakew haabbs)⟩,
      fun hinStep => ⟨?_, ?_⟩⟩
    · rw [rbCapacity_rbSetWrite, rbCapacity_rbTakew htrails, rbCapacity_rbSetWrite]
    · have := hinStep.handles
      rw [rbCount_rbSetWrite]
      show rbCount handles = rbCount trails + 1
      omega
    · have := hinStep.boxes
      rw [rbCount_rbSetWrite]
      show rbCount aabbs = rbCount trails
      omega
  · cases h
    exact grown_of_sizes (by simp [SnakeData.sizes])

/-- Nor does taking back the points of several frames. -/
theorem grown_popLoop {frame : UInt16} {turns : Nat} {predicted : UInt16} {data data' : SnakeData}
    (h : popLoop frame turns predicted data = .ok data') : Grown data data' := by
  induction turns generalizing predicted data with
  | zero =>
      cases h
      exact Grown.refl _
  | succ turns ih =>
      rw [popLoop] at h
      split_ifs at h
      · obtain ⟨data₁, hpop, h⟩ := bind_eq_ok.mp h
        exact (grown_popPoint hpop).trans (ih h)
      · cases h
        exact Grown.refl _

/-! ## The fault of a segment that is opened -/

/-- The fit asks for a segment only when there are fewer than 63. -/
def OpensShort (num : Numerics) (data : SnakeData) (head : SnakeHead) : Prop :=
  needsSegment Alloc.unlimited num data head = true → rbCount data.headTrails < 63

/-- A segment is opened as long as there are fewer than 63 trails: the 64th does not fit the
`int8_t` capacity. -/
theorem avoids_addNewSegment_iff {data : SnakeData} (h : data.InStep) (head : SnakeHead) :
    Avoids .nullSegment (snakeAddNewSegment Alloc.unlimited data head) ↔
      rbCount data.headTrails < 63 := by
  by_cases hfew : rbCount data.headTrails < 63
  · have hroom : segmentRoom Alloc.unlimited data = true := by
      rw [segmentRoom_of_counts h.handles h.boxes]
      exact decide_eq_true hfew
    obtain ⟨data', hadd, -⟩ := snakeAddNewSegment_spec hroom head
    rw [hadd]
    exact iff_of_true (avoids_ok data') hfew
  · have hfull : rbHasSpace Alloc.unlimited data.headTrails = false := by
      rw [rbHasSpace_unlimited]
      exact decide_eq_false (by show ¬ rbCount data.headTrails + 1 < 2 ^ 6; omega)
    rw [snakeAddNewSegment_full hfull]
    exact iff_of_false (fun havoids => havoids rfl) hfew

/-- Behind the fit there is a trail with a point in it, and a box. -/
theorem boxes_of_update {data data₁ : SnakeData} {head : SnakeHead} {need : Bool}
    (h : data.InStep) (hupdate : snakeUpdateCurveFromHead mem num data head = .ok (data₁, need)) :
    ∃ data₂ data₃, snakeUpdateHeadTrailAabb data₁ = .ok data₂ ∧ snakeUpdateAabb data₂ = .ok data₃ := by
  obtain ⟨hsizes, init, v, hlist, hitems⟩ := update_sizes hupdate
  have hboxes := ((grown_of_sizes hsizes).inStep h).boxes
  have hcount : rbCount data₁.headTrails = init.length + 1 := by
    rw [← length_rbToList, hlist, List.length_append, List.length_singleton]
  rcases List.eq_nil_or_concat' (rbToList data₁.bezierAabbs) with hnil | ⟨binit, box, hbox⟩
  · rw [← length_rbToList, hnil, hcount] at hboxes
    cases hboxes
  · obtain ⟨p, ps, hv⟩ := List.exists_cons_of_ne_nil hitems
    refine ⟨{ data₁ with
      bezierAabbs := rbSetWrite data₁.bezierAabbs (ps.foldl qwaabbExtend (qwaabbPoint p)) }, ?_⟩
    have hwritten : snakeUpdateHeadTrailAabb data₁ = .ok { data₁ with
        bezierAabbs := rbSetWrite data₁.bezierAabbs (ps.foldl qwaabbExtend (qwaabbPoint p)) } := by
      rw [snakeUpdateHeadTrailAabb, rbPeekWrite_of_concat hbox, rbPeekWrite_of_concat hlist]
      simp only [ok_bind, hv]
    have hset := rbToList_setWrite hbox (ps.foldl qwaabbExtend (qwaabbPoint p))
    rw [snakeUpdateAabb]
    dsimp only
    rw [hset]
    cases binit with
    | nil => exact ⟨_, hwritten, rfl⟩
    | cons first rest => exact ⟨_, hwritten, rfl⟩

/-- The fault of a curve that a position is appended to. -/
theorem avoids_extendCurve_iff {data : SnakeData} (h : data.InStep) (head : SnakeHead) :
    Avoids .nullSegment (extendCurve Alloc.unlimited num data head) ↔ OpensShort num data head := by
  rw [OpensShort, needsSegment, extendCurve,
    avoids_bind_iff, and_iff_right (avoids_snakeUpdateCurveFromHead (by decide) data head)]
  cases hupdate : snakeUpdateCurveFromHead Alloc.unlimited num data head with
  | error f => exact iff_of_true (fun _ hr => by cases hr) (fun hneed => by cases hneed)
  | ok r =>
      obtain ⟨data₁, need⟩ := r
      obtain ⟨data₂, -, hbox, -⟩ := boxes_of_update h hupdate
      have hsizes : data₂.sizes = data.sizes := (box_sizes hbox).trans (update_sizes hupdate).1
      have hcount : rbCount data₂.headTrails = rbCount data.headTrails :=
        congrArg (fun sizes => sizes.1.2) hsizes
      have hadd := avoids_addNewSegment_iff ((grown_of_sizes hsizes).inStep h) head
      rw [hcount] at hadd
      cases need with
      | false =>
          refine iff_of_true (fun r hr => ?_) (fun hneed => by cases hneed)
          cases hr
          exact avoids_ok data₁
      | true =>
          constructor
          · intro havoids _
            have hopened := havoids _ rfl
            simp only [if_true] at hopened
            rwa [avoids_bind_ok hbox, hadd] at hopened
          · intro hfew r hr
            cases hr
            simp only [if_true]
            rw [avoids_bind_ok hbox, hadd]
            exact hfew rfl

/-- The fault of a step. -/
theorem avoids_snakeStep_iff {data : SnakeData} (h : data.InStep) (head : SnakeHead)
    (param : SnakeParam) (command : Cmd) (simTickRate : UInt8) :
    Avoids .nullSegment (snakeStep Alloc.unlimited num data head param command simTickRate) ↔
      OpensShort num data (snakeStepHead num param simTickRate head command) := by
  rw [OpensShort, needsSegment, snakeStep]
  dsimp only
  rw [avoids_bind_iff, and_iff_right (avoids_snakeUpdateCurveFromHead (by decide) data _)]
  cases hupdate : snakeUpdateCurveFromHead Alloc.unlimited num data
      (snakeStepHead num param simTickRate head command) with
  | error f => exact iff_of_true (fun _ hr => by cases hr) (fun hneed => by cases hneed)
  | ok r =>
      obtain ⟨data₁, need⟩ := r
      obtain ⟨data₂, data₃, hbox, haabb⟩ := boxes_of_update h hupdate
      have hsizes : data₃.sizes = data.sizes :=
        (aabb_sizes haabb).trans ((box_sizes hbox).trans (update_sizes hupdate).1)
      have hcount : rbCount data₃.headTrails = rbCount data.headTrails :=
        congrArg (fun sizes => sizes.1.2) hsizes
      have hadd := avoids_addNewSegment_iff ((grown_of_sizes hsizes).inStep h)
        (snakeStepHead num param simTickRate head command)
      rw [hcount] at hadd
      cases need with
      | false =>
          refine iff_of_true (fun r hr => ?_) (fun hneed => by cases hneed)
          cases hr
          dsimp only
          rw [avoids_bind_ok hbox, avoids_bind_ok haabb]
          exact avoids_ok _
      | true =>
          constructor
          · intro havoids _
            have hopened := havoids _ rfl
            dsimp only at hopened
            rw [avoids_bind_ok hbox, avoids_bind_ok haabb] at hopened
            simp only [if_true] at hopened
            refine hadd.mp fun hfault => hopened ?_
            rw [hfault]
            rfl
          · intro hfew r hr
            cases hr
            dsimp only
            rw [avoids_bind_ok hbox, avoids_bind_ok haabb]
            simp only [if_true]
            exact (hadd.mpr (hfew rfl)).bind fun _ _ => avoids_pure _

/-! ## The fault of a rollback -/

/-- So it is for the frames of a replay, one after the other. -/
theorem avoids_extendAll_iff {heads : List SnakeHead} {data : SnakeData} (h : data.InStep) :
    Avoids .nullSegment (extendAll Alloc.unlimited num heads data) ↔
      Run.Meets (extendCurve Alloc.unlimited num) (OpensShort num) data heads := by
  induction heads generalizing data with
  | nil => exact iff_of_true (avoids_ok data) trivial
  | cons head rest ih =>
      rw [extendAll, avoids_bind_iff, avoids_extendCurve_iff h]
      constructor
      · rintro ⟨hopens, hrest⟩
        exact ⟨hopens, fun data' hext => (ih ((grown_extendCurve hext).inStep h)).mp (hrest data' hext)⟩
      · rintro ⟨hopens, hrest⟩
        exact ⟨hopens, fun data' hext =>
          (ih ((grown_extendCurve hext).inStep h)).mpr (hrest data' hext)⟩

/-- The curve of a rollback when the points since the frame have been taken back. -/
def poppedBack (snake : Snake) (predictedFrame frameNumber : UInt16) : Except Fault SnakeData := do
  let _ ← rbPeekWrite snake.data.headTrails
  popLoop frameNumber (predictedFrame - frameNumber).toNat predictedFrame snake.data

/-- Each position that the rollback appends opens a segment only when there are fewer
than 63. -/
def RollbackShort (num : Numerics) (snake : Snake) (authoritative : SnakeHead)
    (predictedFrame frameNumber : UInt16) (simTickRate : UInt8) : Prop :=
  ∀ data, poppedBack snake predictedFrame frameNumber = .ok data →
    Run.Meets (extendCurve Alloc.unlimited num) (OpensShort num) data
      (authoritative ::
        headsFrom num snake.param simTickRate authoritative snake.cmdq.commands)

instance (snake : Snake) (authoritative : SnakeHead) (predictedFrame frameNumber : UInt16)
    (simTickRate : UInt8) :
    Decidable (RollbackShort num snake authoritative predictedFrame frameNumber simTickRate) :=
  haveI (data : SnakeData) (head : SnakeHead) : Decidable (OpensShort num data head) :=
    inferInstanceAs (Decidable (_ = true → _ < 63))
  decidableForallOk _

/-- And for a rollback. -/
theorem avoids_rollback_iff {snake : Snake} (h : snake.data.InStep) (authoritative : SnakeHead)
    (predictedFrame frameNumber : UInt16) (simTickRate : UInt8) :
    Avoids .nullSegment (rollback Alloc.unlimited num snake authoritative predictedFrame frameNumber
        simTickRate) ↔
      RollbackShort num snake authoritative predictedFrame frameNumber simTickRate := by
  have hreplay {data : SnakeData} (hdata : data.InStep) :
      Avoids .nullSegment (do
        let data ← extendCurve Alloc.unlimited num data authoritative
        let replayed ← replayLoop Alloc.unlimited num snake.param simTickRate snake.cmdq.commands
          data authoritative
        let data ← snakeUpdateHeadTrailAabb replayed.1
        let data ← snakeUpdateAabb data
        return { snake with data := data, head := replayed.2, headAck := authoritative }) ↔
      Run.Meets (extendCurve Alloc.unlimited num) (OpensShort num) data
        (authoritative ::
          headsFrom num snake.param simTickRate authoritative snake.cmdq.commands) := by
    rw [← avoids_extendAll_iff hdata, extendAll, avoids_bind_iff, avoids_bind_iff]
    refine and_congr_right fun _ => forall_congr' fun data₁ => forall_congr' fun hext => ?_
    rw [avoids_bind_iff, replayLoop_eq, avoids_bind_iff]
    constructor
    · intro hall
      exact hall.1.1
    · intro hall
      refine ⟨⟨hall, fun _ _ => avoids_pure _⟩, fun r _ => ?_⟩
      refine (avoids_snakeUpdateHeadTrailAabb (by decide) _).bind fun data _ => ?_
      exact (avoids_snakeUpdateAabb (by decide) _).bind fun _ _ => avoids_pure _
  rw [rollback, avoids_bind_iff, and_iff_right (avoids_rbPeekWrite (by decide) _)]
  constructor
  · intro hall data hpopped
    obtain ⟨trail, hpeek, hpop⟩ := bind_eq_ok.mp hpopped
    have hrest := (avoids_bind_iff.mp (hall trail hpeek)).2 data hpop
    exact (hreplay ((grown_popLoop hpop).inStep h)).mp hrest
  · intro hshort trail hpeek
    rw [avoids_bind_iff]
    refine ⟨avoids_popLoop (by decide) _ _ _ _, fun data hpop => ?_⟩
    exact (hreplay ((grown_popLoop hpop).inStep h)).mpr
      (hshort data (bind_eq_ok.mpr ⟨trail, hpeek, hpop⟩))

/-- A message that the snake rolls back for finds room. -/
def AckShort (num : Numerics) (snake : Snake) (authoritative : SnakeHead) (frameNumber : UInt16)
    (simTickRate : UInt8) : Prop :=
  snake.cmdq.count ≠ 0 →
  ¬ (u16LtWrap frameNumber snake.cmdq.frameBegin ∨ u16GtWrap frameNumber snake.cmdq.frameEnd) →
  ∀ headAck cmdq,
    ackLoop num snake.param simTickRate frameNumber
        ((frameNumber - snake.cmdq.frameBegin).toNat + 1) snake.cmdq.frameBegin snake.headAck
        snake.cmdq = .ok (headAck, cmdq) →
      headAck ≠ authoritative →
        RollbackShort num { snake with headAck := headAck, cmdq := cmdq } authoritative
          snake.cmdq.frameEnd frameNumber simTickRate

/-- And for an acknowledged frame, which rolls back if the heads differ. -/
theorem avoids_snakeAckFrame_iff {snake : Snake} (h : snake.data.InStep) (authoritative : SnakeHead)
    (frameNumber : UInt16) (simTickRate : UInt8) :
    Avoids .nullSegment
        (snakeAckFrame Alloc.unlimited num snake authoritative frameNumber simTickRate) ↔
      AckShort num snake authoritative frameNumber simTickRate := by
  rw [snakeAckFrame, AckShort]
  by_cases hcount : snake.cmdq.count = 0
  · rw [if_pos hcount]
    exact iff_of_true (avoids_ok snake) fun hne => absurd hcount hne
  rw [if_neg hcount]
  dsimp only
  by_cases hrange :
      u16LtWrap frameNumber snake.cmdq.frameBegin ∨ u16GtWrap frameNumber snake.cmdq.frameEnd
  · rw [if_pos hrange]
    exact iff_of_true (avoids_ok snake) fun _ hin => absurd hrange hin
  rw [if_neg hrange, avoids_bind_iff, and_iff_right (avoids_ackLoop (by decide) _ _ _ _ _ _ _)]
  constructor
  · intro hall _ _ headAck cmdq hloop hdiff
    have hrest := hall (headAck, cmdq) hloop
    dsimp only at hrest
    rw [if_neg hdiff, avoids_rollback_iff (by exact h)] at hrest
    exact hrest
  · rintro hshort ⟨headAck, cmdq⟩ hloop
    dsimp only
    by_cases hdiff : headAck = authoritative
    · rw [if_pos hdiff]
      exact avoids_pure _
    · rw [if_neg hdiff, avoids_rollback_iff (by exact h)]
      exact hshort hcount hrange headAck cmdq hloop hdiff

/-- A rollback takes points back and replays: it grows the buffers by doubling. -/
theorem grown_rollback {snake snake' : Snake} {authoritative : SnakeHead}
    {predictedFrame frameNumber : UInt16} {simTickRate : UInt8}
    (h : rollback mem num snake authoritative predictedFrame frameNumber simTickRate = .ok snake') :
    Grown snake.data snake'.data := by
  obtain ⟨trail, -, h⟩ := bind_eq_ok.mp h
  obtain ⟨data₁, hpop, h⟩ := bind_eq_ok.mp h
  obtain ⟨data₂, hext, h⟩ := bind_eq_ok.mp h
  obtain ⟨⟨data₃, head⟩, hreplay, h⟩ := bind_eq_ok.mp h
  obtain ⟨data₄, hbox, h⟩ := bind_eq_ok.mp h
  obtain ⟨data₅, haabb, h⟩ := bind_eq_ok.mp h
  rw [replayLoop_eq] at hreplay
  obtain ⟨data₃', hall, hr⟩ := bind_eq_ok.mp hreplay
  cases hr
  cases h
  exact ((grown_popLoop hpop).trans (grown_extendCurve hext)).trans ((grown_extendAll hall).trans
    (grown_of_sizes ((aabb_sizes haabb).trans (box_sizes hbox))))

/-- So does an acknowledged frame. -/
theorem grown_snakeAckFrame {snake snake' : Snake} {authoritative : SnakeHead} {frameNumber : UInt16}
    {simTickRate : UInt8}
    (h : snakeAckFrame mem num snake authoritative frameNumber simTickRate = .ok snake') :
    Grown snake.data snake'.data := by
  rw [snakeAckFrame] at h
  dsimp only at h
  split_ifs at h
  · cases h
    exact Grown.refl _
  · cases h
    exact Grown.refl _
  · obtain ⟨⟨headAck, cmdq⟩, -, h⟩ := bind_eq_ok.mp h
    dsimp only at h
    split_ifs at h
    · cases h
      exact Grown.refl _
    · have hgrown := grown_rollback h
      exact hgrown

/-- So does a simulated frame. -/
theorem grown_snakeStep {data data' : SnakeData} {head head' : SnakeHead} {param : SnakeParam}
    {command : Cmd} {simTickRate : UInt8} {stale : Nat}
    (h : snakeStep mem num data head param command simTickRate = .ok (data', head', stale)) :
    Grown data data' := by
  obtain ⟨⟨data₁, need⟩, hupdate, h⟩ := bind_eq_ok.mp h
  obtain ⟨data₂, hbox, h⟩ := bind_eq_ok.mp h
  obtain ⟨data₃, haabb, h⟩ := bind_eq_ok.mp h
  have hgrown : Grown data data₃ :=
    grown_of_sizes ((aabb_sizes haabb).trans ((box_sizes hbox).trans (update_sizes hupdate).1))
  dsimp only at h
  split_ifs at h
  · obtain ⟨data₄, hadd, h⟩ := bind_eq_ok.mp h
    cases h
    exact hgrown.trans (grown_addNewSegment hadd)
  · cases h
    exact hgrown

/-! ## Runs -/

/-- What happens to a snake. -/
inductive SegmentEvent where
  | queue (command : Cmd) (frameNumber : UInt16)
  | step (command : Cmd) (simTickRate : UInt8)
  | removeStale (stale : Nat)
  | removeStaleConstrained (stale : Nat)
  | ack (authoritative : SnakeHead) (frameNumber : UInt16) (simTickRate : UInt8)

def segmentEvent (num : Numerics) (snake : Snake) : SegmentEvent → Except Fault Snake
  | .queue command frameNumber =>
      .ok { snake with cmdq := cmdQueuePut Alloc.unlimited snake.cmdq command frameNumber }
  | .step command simTickRate => do
      let (data, head, _) ←
        snakeStep Alloc.unlimited num snake.data snake.head snake.param command simTickRate
      return { snake with data := data, head := head }
  | .removeStale stale => do
      let data ← snakeRemoveStaleSegments snake.data stale
      return { snake with data := data }
  | .removeStaleConstrained stale => do
      let data ← snakeRemoveStaleSegmentsWithRollbackConstraint snake.data snake.headAck stale
      return { snake with data := data }
  | .ack authoritative frameNumber simTickRate =>
      snakeAckFrame Alloc.unlimited num snake authoritative frameNumber simTickRate

/-- Wherever the event opens a segment, there are fewer than 63. -/
def FewSegments (num : Numerics) (snake : Snake) : SegmentEvent → Prop
  | .step command simTickRate =>
      OpensShort num snake.data (snakeStepHead num snake.param simTickRate snake.head command)
  | .ack authoritative frameNumber simTickRate =>
      AckShort num snake authoritative frameNumber simTickRate
  | .queue _ _ => True
  | .removeStale _ => True
  | .removeStaleConstrained _ => True

instance (snake : Snake) : (e : SegmentEvent) → Decidable (FewSegments num snake e)
  | .queue _ _ => isTrue trivial
  | .step _ _ => inferInstanceAs (Decidable (_ = true → _ < 63))
  | .removeStale _ => isTrue trivial
  | .removeStaleConstrained _ => isTrue trivial
  | .ack authoritative frameNumber simTickRate =>
      decidable_of_iff
        (snake.cmdq.count ≠ 0 →
          ¬ (u16LtWrap frameNumber snake.cmdq.frameBegin ∨
            u16GtWrap frameNumber snake.cmdq.frameEnd) →
          ∀ r, ackLoop num snake.param simTickRate frameNumber
              ((frameNumber - snake.cmdq.frameBegin).toNat + 1) snake.cmdq.frameBegin snake.headAck
              snake.cmdq = .ok r →
            r.1 ≠ authoritative →
              RollbackShort num { snake with headAck := r.1, cmdq := r.2 } authoritative
                snake.cmdq.frameEnd frameNumber simTickRate)
        (by simp only [FewSegments, AckShort, Prod.forall])

/-- **Step lemma.** -/
theorem grown_segmentEvent {snake snake' : Snake} {e : SegmentEvent}
    (h : segmentEvent num snake e = .ok snake') : Grown snake.data snake'.data := by
  cases e with
  | queue command frameNumber =>
      cases h
      exact Grown.refl _
  | step command simTickRate =>
      obtain ⟨⟨data, head, stale⟩, hstep, h⟩ := bind_eq_ok.mp h
      cases h
      exact grown_snakeStep hstep
  | removeStale stale =>
      obtain ⟨data, hremove, h⟩ := bind_eq_ok.mp h
      cases h
      exact grown_removeStale hremove
  | removeStaleConstrained stale =>
      obtain ⟨data, hremove, h⟩ := bind_eq_ok.mp h
      cases h
      exact grown_removeStaleConstrained hremove
  | ack authoritative frameNumber simTickRate => exact grown_snakeAckFrame h

/-- **One event** opens its segments exactly while there are few. -/
theorem avoids_segmentEvent_iff {snake : Snake} (h : snake.data.InStep) (e : SegmentEvent) :
    Avoids .nullSegment (segmentEvent num snake e) ↔ FewSegments num snake e := by
  cases e with
  | queue command frameNumber => exact iff_of_true (avoids_ok _) trivial
  | step command simTickRate =>
      rw [segmentEvent, avoids_bind_iff, avoids_snakeStep_iff h]
      exact and_iff_left fun _ _ => avoids_pure _
  | removeStale stale =>
      refine iff_of_true ?_ trivial
      exact (avoids_removeStaleSegments (by decide) _ _).bind fun _ _ => avoids_pure _
  | removeStaleConstrained stale =>
      refine iff_of_true ?_ trivial
      exact (avoids_removeStale (by decide) _ _ _).bind fun _ _ => avoids_pure _
  | ack authoritative frameNumber simTickRate => exact avoids_snakeAckFrame_iff h _ _ _

/-- The buffers of a new snake are in step. -/
theorem inStep_init {spawnPos : QwPos} {snake : Snake}
    (h : snakeInit Alloc.unlimited spawnPos = some snake) : snake.data.InStep := by
  obtain ⟨htrails, hhandles, hboxes, -⟩ := snakeInit_spec h
  have hcount : rbCount snake.data.headTrails = 1 := by
    rw [← SnakeData.length_trails, htrails]
    rfl
  refine ⟨by rw [hhandles, hcount], ?_⟩
  rw [← length_rbToList, show rbToList snake.data.bezierAabbs = _ from hboxes, hcount]
  rfl

/-- **Segments are opened safely exactly as long as there are fewer than 63.** -/
theorem segments_open_iff (num : Numerics) {spawnPos : QwPos} {snake : Snake}
    (hinit : snakeInit Alloc.unlimited spawnPos = some snake) (events : List SegmentEvent) :
    Run.EverySafe (segmentEvent num) (fun s _ s' => GrowsByDoubling s.data s'.data)
        (fun f => f ≠ .nullSegment) snake events ↔
      Run.Meets (segmentEvent num) (FewSegments num) snake events := by
  refine Run.everySafe_iff_meets (fun s e s' hs hstep => (grown_segmentEvent hstep).inStep hs)
    (fun s e hs => ?_) (inStep_init hinit)
  rw [← avoids_segmentEvent_iff hs e]
  constructor
  · rintro ⟨hfault, -⟩ hsegment
    exact hfault _ hsegment rfl
  · intro havoids
    refine ⟨fun f hf heq => havoids (heq ▸ hf), fun s' hstep => (grown_segmentEvent hstep).grows⟩

/-! ### A trail that opens at every fifth position -/

/-- Fits that ask for a segment at five points, and directions to the east. -/
def eagerNum : Numerics where
  qaCos := fun _ => 4096
  qaSin := fun _ => 0
  fitTrail := eagerFit
  equidistantPoints := fun _ _ _ => 0

/-- 252 frames, with no segment removed. -/
def longFrames : List SegmentEvent := List.replicate 252 (.step cmdDefault 60)

/-- A snake that never loses a segment gets to the 64th. -/
theorem run_longFrames :
    Run.run (segmentEvent eagerNum) freshSnake longFrames = .error .nullSegment := by
  decide +kernel

/-- The 64th trail is written through a null pointer. -/
theorem not_segments_open_long :
    ¬Run.EverySafe (segmentEvent eagerNum) (fun s _ s' => GrowsByDoubling s.data s'.data)
      (fun f => f ≠ .nullSegment) freshSnake longFrames :=
  fun h => Run.allowed_of_everySafe h run_longFrames rfl

/-- A message that the snake rolls back for, frames that open segments, and the removal of two. -/
def fewFrames : List SegmentEvent :=
  [.queue cmdDefault 0, .step cmdDefault 60, .queue cmdDefault 1, .step cmdDefault 60,
    .ack (snakeHeadInit ⟨5, 5⟩) 0 60] ++ List.replicate 14 (.step cmdDefault 60) ++
    [.removeStale 2, .step cmdDefault 60, .removeStaleConstrained 1, .step cmdDefault 60]

/-- Frames that open segments, and a removal among them. -/
theorem segments_open_few :
    Run.EverySafe (segmentEvent eagerNum) (fun s _ s' => GrowsByDoubling s.data s'.data)
      (fun f => f ≠ .nullSegment) freshSnake fewFrames :=
  (segments_open_iff eagerNum (show snakeInit Alloc.unlimited ⟨0, 0⟩ = some freshSnake by
    decide +kernel) fewFrames).mpr (by decide +kernel)

end Clither
