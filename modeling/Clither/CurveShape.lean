import Clither.ClientRuns
import Clither.Equidistant

/-!
# The four buffers of a curve

A curve is kept in four parallel ring buffers, and in a box for the whole snake.
All of them can be told from the trails: a handle sits at each end of a trail,
the box of a segment is that of its trail, and the box of the snake is the union
of these.

`Shaped` says that the buffers agree with the trails, and `Settled` that they do
so except for the newest handle and the newest box, as in the middle of a
rollback.  `curve_in_shape` is about whole runs of a snake, with everything that
server and client do to it.
-/

namespace Clither

open Faults (bind_eq_ok)

variable {mem : Alloc} {num : Numerics} {simTickRate : UInt8}

/-! ## Boxes -/

/-- The smallest box around the points. -/
structure ExactBox (bb : QwAabb) (points : List QwPos) : Prop where
  covers : Covers bb points
  left : ∃ p ∈ points, p.x = bb.x1
  right : ∃ p ∈ points, p.x = bb.x2
  bottom : ∃ p ∈ points, p.y = bb.y1
  top : ∃ p ∈ points, p.y = bb.y2

/-- Extending an exact box by a point gives the exact box of the longer list. -/
theorem exactBox_extend {bb : QwAabb} {points : List QwPos} (h : ExactBox bb points) (p : QwPos) :
    ExactBox (qwaabbExtend bb p) (points ++ [p]) := by
  have hold {f : QwPos → Int} {v : Int} (hv : ∃ q ∈ points, f q = v) : ∃ q ∈ points ++ [p], f q = v := by
    obtain ⟨q, hq, hfq⟩ := hv
    exact ⟨q, List.mem_append_left _ hq, hfq⟩
  have hnew (f : QwPos → Int) : ∃ q ∈ points ++ [p], f q = f p :=
    ⟨p, List.mem_append_right _ List.mem_cons_self, rfl⟩
  refine ⟨covers_extend h.covers p, ?_, ?_, ?_, ?_⟩
  · simp only [qwaabbExtend]
    split
    · exact hnew QwPos.x
    · exact hold h.left
  · simp only [qwaabbExtend]
    split
    · exact hnew QwPos.x
    · exact hold h.right
  · simp only [qwaabbExtend]
    split
    · exact hnew QwPos.y
    · exact hold h.bottom
  · simp only [qwaabbExtend]
    split
    · exact hnew QwPos.y
    · exact hold h.top

/-- **The box of a trail is exact.** -/
theorem exactBox_trailBox {trail : List QwPos} (hne : trail ≠ []) :
    ExactBox (trailBox trail) trail := by
  obtain ⟨p, ps, rfl⟩ := List.exists_cons_of_ne_nil hne
  have hpoint : ExactBox (qwaabbPoint p) [p] :=
    ⟨covers_point p, ⟨p, List.mem_cons_self, rfl⟩, ⟨p, List.mem_cons_self, rfl⟩,
      ⟨p, List.mem_cons_self, rfl⟩, ⟨p, List.mem_cons_self, rfl⟩⟩
  have hfold (qs : List QwPos) : ∀ bb seen, ExactBox bb seen →
      ExactBox (qs.foldl qwaabbExtend bb) (seen ++ qs) := by
    induction qs with
    | nil =>
        intro bb seen h
        rwa [List.append_nil]
    | cons q qs ih =>
        intro bb seen h
        have := ih _ _ (exactBox_extend h q)
        rwa [List.append_assoc] at this
  exact hfold ps _ [p] hpoint

/-- The union that `snake_update_aabb` computes. -/
def unionOf : List QwAabb → QwAabb
  | [] => ⟨0, 0, 0, 0⟩
  | first :: rest => rest.foldl qwaabbUnion first

/-- The union of one more box is the union with it. -/
theorem unionOf_concat {boxes : List QwAabb} (hne : boxes ≠ []) (bb : QwAabb) :
    unionOf (boxes ++ [bb]) = qwaabbUnion (unionOf boxes) bb := by
  obtain ⟨first, rest, rfl⟩ := List.exists_cons_of_ne_nil hne
  exact List.foldl_append

/-- The union contains what one of the boxes contains. -/
theorem test_unionOf {boxes : List QwAabb} {bb : QwAabb} {p : QwPos} (hmem : bb ∈ boxes)
    (hp : qwaabbTestQwpos bb p = true) : qwaabbTestQwpos (unionOf boxes) p = true := by
  have hgrow {u b : QwAabb} (h : qwaabbTestQwpos u p = true ∨ qwaabbTestQwpos b p = true) :
      qwaabbTestQwpos (qwaabbUnion u b) p = true := by
    rw [qwaabbTestQwpos_iff, qwaabbTestQwpos_iff] at h
    rw [qwaabbTestQwpos_iff]
    simp only [qwaabbUnion]
    refine ⟨?_, ?_, ?_, ?_⟩ <;> split <;> omega
  have hfold (rest : List QwAabb) : ∀ first, qwaabbTestQwpos first p = true ∨ bb ∈ rest →
      qwaabbTestQwpos (rest.foldl qwaabbUnion first) p = true := by
    induction rest with
    | nil =>
        intro first h
        exact h.resolve_right List.not_mem_nil
    | cons b rest ih =>
        intro first h
        refine ih _ ?_
        rcases h with hfirst | hmem
        · exact Or.inl (hgrow (Or.inl hfirst))
        · rcases List.mem_cons.mp hmem with rfl | hrest
          · exact Or.inl (hgrow (Or.inr hp))
          · exact Or.inr hrest
  cases boxes with
  | nil => cases hmem
  | cons first rest =>
      refine hfold rest first ?_
      rcases List.mem_cons.mp hmem with rfl | hrest
      · exact Or.inl hp
      · exact Or.inr hrest

/-- A point inside of one of the boxes adds nothing to their union. -/
theorem unionOf_point {boxes : List QwAabb} {bb : QwAabb} {p : QwPos} (hmem : bb ∈ boxes)
    (hp : qwaabbTestQwpos bb p = true) : unionOf (boxes ++ [qwaabbPoint p]) = unionOf boxes := by
  have hin := (qwaabbTestQwpos_iff _ _).mp (test_unionOf hmem hp)
  rw [unionOf_concat (List.ne_nil_of_mem hmem)]
  generalize unionOf boxes = u at hin ⊢
  obtain ⟨x1, y1, x2, y2⟩ := u
  exact QwAabb.mk.injEq .. ▸ ⟨if_neg (by simpa [qwaabbPoint] using hin.1),
    if_neg (by simpa [qwaabbPoint] using hin.2.2.1), if_neg (by simpa [qwaabbPoint] using hin.2.1),
    if_neg (by simpa [qwaabbPoint] using hin.2.2.2)⟩

/-! ## Buffers that agree with the trails -/

/-- Where the handles are. -/
def SnakeData.knots (data : SnakeData) : List QwPos :=
  (rbToList data.bezierHandles).map BezierHandle.pos

/-- All handles but the newest are at the first points of the trails, and all
boxes but the newest are those of the trails. -/
structure SnakeData.Settled (data : SnakeData) : Prop where
  wf : data.WF
  knots : data.knots.dropLast.map some = data.trails.map List.head?
  boxes : data.boxes.dropLast = data.trails.dropLast.map trailBox

/-- The newest handle is at the last point of the newest trail. -/
def SnakeData.Ended (data : SnakeData) : Prop :=
  data.knots.getLast? = data.trails.getLast?.bind List.getLast?

/-- The three buffers agree with the trails. -/
structure SnakeData.Aligned (data : SnakeData) : Prop where
  settled : data.Settled
  ended : data.Ended
  boxes : data.boxes = data.trails.map trailBox

/-- And so does the box of the snake. -/
structure SnakeData.Shaped (data : SnakeData) : Prop where
  aligned : data.Aligned
  aabb : data.aabb = unionOf data.boxes

/-- The fitter moves the newest handle to the last point of the trail and leaves
the other one where it is. -/
def FitPlaces (num : Numerics) : Prop :=
  ∀ head tail trail p, trail.getLast? = some p →
    (num.fitTrail head tail trail).1.pos = p ∧ (num.fitTrail head tail trail).2.1.pos = tail.pos

/-- There is one knot more than there are trails. -/
theorem SnakeData.WF.length_knots {data : SnakeData} (h : data.WF) :
    data.knots.length = data.trails.length + 1 := by
  rw [knots, List.length_map, length_rbToList, h.handles_eq]

/-- A snake always has the two knots of its newest segment. -/
theorem SnakeData.WF.exists_knots {data : SnakeData} (h : data.WF) :
    ∃ init tail head, rbToList data.bezierHandles = init ++ [tail, head] := by
  have hlen := length_rbToList data.bezierHandles
  have htwo := count_two_le h
  obtain ⟨most, head, hmost⟩ := (List.eq_nil_or_concat' (rbToList data.bezierHandles)).resolve_left
    fun hnil => by rw [hnil] at hlen; simp at hlen; omega
  obtain ⟨init, tail, hinit⟩ := (List.eq_nil_or_concat' most).resolve_left
    fun hnil => by rw [hmost, hnil] at hlen; simp at hlen; omega
  exact ⟨init, tail, head, by rw [hmost, hinit, List.append_assoc]; rfl⟩

/-- **The fit moves the newest handle to the new point** and no other. -/
theorem snakeUpdateCurveFromHead_knots (hfit : FitPlaces num) {data data' : SnakeData}
    (hwf : data.WF) {head : SnakeHead} {need : Bool} (hroom : newestRoom mem data = true)
    (h : snakeUpdateCurveFromHead mem num data head = .ok (data', need)) :
    data'.knots = data.knots.dropLast ++ [head.pos] ∧ data'.aabb = data.aabb := by
  obtain ⟨init, t, ht, -⟩ := hwf.exists_concat
  obtain ⟨vinit, v, hlist, -, hv⟩ := SnakeData.exists_newest ht
  have hpeek := rbPeekWrite_of_concat hlist
  have hspace : vecHasSpace mem v = true := by simpa only [newestRoom, hpeek] using hroom
  have hitems : (vecPush mem v head.pos).items = t ++ [head.pos] := by
    rw [items_vecPush, if_pos hspace, hv]
  obtain ⟨hinit, tailHandle, headHandle, hhandles⟩ := hwf.exists_knots
  have hcount : rbCount data.bezierHandles = hinit.length + 2 := by
    rw [← length_rbToList, hhandles]
    simp
  have hhead : rbPeek data.bezierHandles (rbCount data.bezierHandles - 1) = .ok headHandle := by
    apply rbPeek_of_getElem?
    rw [hhandles, hcount]
    simp
  have htail : rbPeek data.bezierHandles (rbCount data.bezierHandles - 2) = .ok tailHandle := by
    apply rbPeek_of_getElem?
    rw [hhandles, hcount]
    simp
  obtain ⟨hfit₁, hfit₂⟩ := hfit headHandle tailHandle (t ++ [head.pos]) head.pos
    List.getLast?_concat
  have hgo : ¬ (rbCount data.bezierHandles < 2 ∨ t ++ [head.pos] = []) := by
    simp
    omega
  unfold snakeUpdateCurveFromHead at h
  simp only [hpeek, ok_bind, hitems, if_neg hgo, hhead, htail, pure_eq_ok] at h
  cases h
  refine ⟨?_, rfl⟩
  simp only [SnakeData.knots]
  rw [rbToList_set (by rw [rbCount_set]; omega), rbToList_set (by omega), hhandles, hcount]
  have hset : ((hinit ++ [tailHandle, headHandle]).set (hinit.length + 2 - 1)
      (num.fitTrail headHandle tailHandle (t ++ [head.pos])).1).set (hinit.length + 2 - 2)
      (num.fitTrail headHandle tailHandle (t ++ [head.pos])).2.1 =
        hinit ++ [(num.fitTrail headHandle tailHandle (t ++ [head.pos])).2.1,
          (num.fitTrail headHandle tailHandle (t ++ [head.pos])).1] := by
    rw [List.set_append_right _ _ (by omega), List.set_append_right _ _ (by omega)]
    simp
  rw [hset]
  simp [hfit₁, hfit₂, List.dropLast_append_of_ne_nil]

/-- `snake_update_aabb` stores the union of the boxes and leaves the rest alone. -/
theorem snakeUpdateAabb_union {data data' : SnakeData} (h : snakeUpdateAabb data = .ok data') :
    data' = { data with aabb := unionOf data.boxes } := by
  rw [snakeUpdateAabb] at h
  cases hboxes : rbToList data.bezierAabbs with
  | nil =>
      rw [hboxes] at h
      cases h
  | cons first rest =>
      rw [hboxes] at h
      cases h
      exact congrArg (fun boxes => { data with aabb := unionOf boxes }) hboxes.symm

/-! ## Appending -/

/-- **Appending a point** leaves only the newest box behind. -/
theorem SnakeData.Settled.update {data : SnakeData} (h : data.Settled) (hfit : FitPlaces num)
    (hroom : newestRoom mem data = true) (head : SnakeHead) :
    ∃ data' need init t, snakeUpdateCurveFromHead mem num data head = .ok (data', need) ∧
      data'.Settled ∧ data'.Ended ∧ t ≠ [] ∧ data'.trails = init ++ [t ++ [head.pos]] ∧
      needsSegment mem num data head = need ∧ segmentRoom mem data' = segmentRoom mem data := by
  obtain ⟨data', _, t₀, h₁, h₂, -, hupdate, happ⟩ :=
    snakeUpdateCurveFromHead_spec num h.wf hroom head
  obtain ⟨hknots, -⟩ := snakeUpdateCurveFromHead_knots hfit h.wf hroom hupdate
  obtain ⟨init, t, ht, ht'⟩ := happ.trails
  have htne : t ≠ [] := by
    have hseg := h.wf.segmented
    rw [ht] at hseg
    exact hseg.last_ne_nil
  refine ⟨data', _, init, t, hupdate, ⟨happ.wf h.wf, ?_, ?_⟩, ?_, htne, ht',
    by rw [needsSegment, hupdate], happ.room_eq⟩
  · rw [hknots, List.dropLast_concat, h.knots, ht, ht']
    simp [List.head?_append_of_ne_nil _ htne]
  · have hboxes := h.boxes
    rw [ht, List.dropLast_concat] at hboxes
    rw [SnakeData.boxes, happ.aabbs_eq, ht', List.dropLast_concat]
    exact hboxes
  · rw [SnakeData.Ended, hknots, ht', List.getLast?_concat, List.getLast?_concat, Option.bind_some,
      List.getLast?_concat]

/-- **The newest box** is brought up to date. -/
theorem SnakeData.Settled.updateBox (mem : Alloc) {data : SnakeData} (h : data.Settled) (hended : data.Ended) :
    ∃ data', snakeUpdateHeadTrailAabb data = .ok data' ∧ data'.Aligned ∧
      data'.trails = data.trails ∧ segmentRoom mem data' = segmentRoom mem data := by
  obtain ⟨data', t, b, binit, hok, htrails, hhandles, ht, hb, hb', hroom⟩ :=
    snakeUpdateHeadTrailAabb_spec mem h.wf
  have htr : data'.trails = data.trails := by rw [SnakeData.trails, htrails]; rfl
  have hknots : data'.knots = data.knots := by rw [SnakeData.knots, hhandles]; rfl
  obtain ⟨init, hinit⟩ : ∃ init, data.trails = init ++ [t] := ⟨_, (List.dropLast_append_getLast? t ht).symm⟩
  have hboxes := h.boxes
  rw [hb, hinit, List.dropLast_concat, List.dropLast_concat] at hboxes
  have hexact : data'.boxes = data'.trails.map trailBox := by
    rw [hb', htr, hinit, hboxes, List.map_append]
    rfl
  refine ⟨data', hok, ⟨⟨⟨?_, ?_, ?_⟩, ?_, ?_⟩, ?_, hexact⟩, htr, hroom⟩
  · rw [htr]
    exact h.wf.segmented
  · rw [hhandles, htr]
    exact h.wf.handles_eq
  · rw [hexact, List.length_map]
  · rw [hknots, htr]
    exact h.knots
  · rw [hexact, List.map_dropLast]
  · rw [SnakeData.Ended, hknots, htr]
    exact hended

/-- **A segment is opened** at the last point of the newest trail. -/
theorem SnakeData.Aligned.add {data : SnakeData} (h : data.Aligned)
    (hroom : segmentRoom mem data = true) {head : SnakeHead} {init : List (List QwPos)} {t : List QwPos}
    (ht : data.trails = init ++ [t ++ [head.pos]]) (htne : t ≠ []) :
    ∃ data', snakeAddNewSegment mem data head = .ok data' ∧ data'.Aligned ∧
      data'.boxes = data.boxes ++ [qwaabbPoint head.pos] ∧ data'.aabb = data.aabb := by
  obtain ⟨data', hok, hopened⟩ := snakeAddNewSegment_spec hroom head
  have hadd : data'.knots = data.knots ++ [head.pos] ∧ data'.aabb = data.aabb := by
    have hok' := hok
    simp only [snakeAddNewSegment] at hok'
    obtain ⟨trails, -, hok'⟩ := bind_eq_ok.mp hok'
    obtain ⟨handles, hhandles, hok'⟩ := bind_eq_ok.mp hok'
    obtain ⟨aabbs, -, hok'⟩ := bind_eq_ok.mp hok'
    cases hok'
    cases hput : rbPutRealloc mem data.bezierHandles
        (bezierHandleInit head.pos (qaAdd head.angle qaPi)) with
    | none =>
        rw [hput] at hhandles
        cases hhandles
    | some rb =>
        rw [hput] at hhandles
        cases hhandles
        refine ⟨?_, rfl⟩
        simp only [SnakeData.knots]
        rw [rbToList_rbPutRealloc hput, List.map_append]
        rfl
  obtain ⟨hknots, haabb⟩ := hadd
  -- the newest handle so far is at the position of the head
  have hlast : data.knots.getLast? = some head.pos := by
    rw [h.ended, ht, List.getLast?_concat, Option.bind_some, List.getLast?_concat]
  have hall : data.knots.map some = data.trails.map List.head? ++ [some head.pos] := by
    rw [← h.settled.knots, ← List.dropLast_append_getLast? _ hlast, List.map_append, List.dropLast_concat]
    rfl
  have hexact : data'.boxes = data'.trails.map trailBox := by
    rw [hopened.boxes, hopened.trails, h.boxes, List.map_append]
    rfl
  refine ⟨data', hok, ⟨⟨hopened.wf h.settled.wf ht htne, ?_, ?_⟩, ?_, hexact⟩, hopened.boxes, haabb⟩
  · rw [hknots, List.dropLast_concat, hall, hopened.trails, List.map_append]
    rfl
  · rw [hexact, List.map_dropLast]
  · rw [SnakeData.Ended, hknots, hopened.trails, List.getLast?_concat, List.getLast?_concat]
    rfl

/-- **A step of the replay.** -/
theorem SnakeData.Settled.extend {data : SnakeData} (h : data.Settled) (hfit : FitPlaces num)
    {head : SnakeHead} (hroom : extendRoom mem num data head = true) :
    ∃ data', extendCurve mem num data head = .ok data' ∧ data'.Settled ∧ data'.Ended := by
  simp only [extendRoom, Bool.and_eq_true] at hroom
  obtain ⟨data₁, need, init, t, hupdate, h₁, hended₁, htne, ht₁, hneed, hroom₁⟩ :=
    h.update hfit hroom.1 head
  rw [hneed] at hroom
  rw [extendCurve, hupdate, ok_bind]
  dsimp only
  cases need with
  | false => exact ⟨data₁, rfl, h₁, hended₁⟩
  | true =>
      obtain ⟨data₂, hbox, h₂, ht₂, hroom₂⟩ := h₁.updateBox mem hended₁
      obtain ⟨data₃, hadd, h₃, -⟩ := h₂.add (by rw [hroom₂, hroom₁]; simpa using hroom.2)
        (ht₂.trans ht₁) htne
      exact ⟨data₃, by rw [if_pos rfl, hbox, ok_bind, hadd], h₃.settled, h₃.ended⟩

/-- Extending by a list of heads settles the curve at each of them, by induction on the heads. -/
theorem SnakeData.Settled.extendAll {heads : List SnakeHead} {data : SnakeData} (h : data.Settled)
    (hfit : FitPlaces num) (hended : heads = [] → data.Ended)
    (hroom : extendAllRoom mem num heads data = true) :
    ∃ data', Clither.extendAll mem num heads data = .ok data' ∧ data'.Settled ∧ data'.Ended := by
  induction heads generalizing data with
  | nil => exact ⟨data, rfl, h, hended rfl⟩
  | cons head rest ih =>
      simp only [extendAllRoom, Bool.and_eq_true] at hroom
      obtain ⟨data₁, hext, h₁, hended₁⟩ := h.extend hfit hroom.1
      rw [hext] at hroom
      obtain ⟨data', hall, h'⟩ := ih h₁ (fun _ => hended₁) hroom.2
      exact ⟨data', by rw [Clither.extendAll, hext, ok_bind, hall], h'⟩

/-- The box of the snake is brought up to date. -/
theorem SnakeData.Aligned.updateAabb (mem : Alloc) {data : SnakeData} (h : data.Aligned) :
    ∃ data', snakeUpdateAabb data = .ok data' ∧ data'.Shaped ∧ data'.trails = data.trails ∧
      data'.boxes = data.boxes ∧ segmentRoom mem data' = segmentRoom mem data := by
  obtain ⟨binit, b, hb⟩ := h.settled.wf.exists_box
  obtain ⟨bb, hok⟩ := snakeUpdateAabb_spec data (by rw [hb]; simp)
  have hunion := snakeUpdateAabb_union hok
  refine ⟨_, hok, ?_, rfl, rfl, rfl⟩
  rw [hunion]
  have hwf := h.settled.wf
  exact ⟨⟨⟨⟨hwf.1, hwf.2, hwf.3⟩, h.settled.knots, h.settled.boxes⟩, h.ended, h.boxes⟩, rfl⟩

/-- A shaped snake has its buffers of one length. -/
theorem SnakeData.Shaped.wf {data : SnakeData} (h : data.Shaped) : data.WF :=
  h.aligned.settled.wf

/-- **A step keeps the shape**, and the segments that it reports as superfluous
are fewer than there are. -/
theorem SnakeData.Shaped.step {data : SnakeData} (h : data.Shaped) (hfit : FitPlaces num)
    {head : SnakeHead} {param : SnakeParam} {command : Cmd}
    (hroom : extendRoom mem num.counting data
      (snakeStepHead num.counting param simTickRate head command) = true) :
    ∃ data' stale, snakeStep mem num.counting data head param command simTickRate =
        .ok (data', snakeStepHead num.counting param simTickRate head command, stale) ∧
      data'.Shaped ∧ stale < data'.trails.length := by
  have hcounted {data' : SnakeData} (h' : data'.Shaped) (spacing snakeLength : Int) :
      num.counting.equidistantPoints (rbToList data'.bezierHandles) spacing snakeLength <
        data'.trails.length := by
    have hlen : (rbToList data'.bezierHandles).length = data'.trails.length + 1 := by
      rw [length_rbToList, h'.wf.handles_eq]
    obtain ⟨-, stale, -, hlt, hstale, -⟩ := bezierCalcEquidistantPoints_spec qwSqrt_nonneg one_le_qwSqrt
      num (by rw [length_rbToList]; exact count_two_le h'.wf) spacing snakeLength
    rw [Numerics.counting, Numerics.countingBy_equidistantPoints, hstale, Option.getD_some]
    omega
  simp only [extendRoom, Bool.and_eq_true] at hroom
  have hfit' : FitPlaces num.counting := hfit
  unfold snakeStep
  generalize snakeStepHead num.counting param simTickRate head command = head' at hroom ⊢
  obtain ⟨data₁, need, init, t, hupdate, h₁, hended₁, htne, ht₁, hneed, hroom₁⟩ :=
    h.aligned.settled.update hfit' hroom.1 head'
  obtain ⟨data₂, hbox, h₂, ht₂, hroom₂⟩ := h₁.updateBox mem hended₁
  obtain ⟨data₃, haabb, h₃, ht₃, hb₃, hroom₃⟩ := h₂.updateAabb mem
  simp only [hupdate, ok_bind, hbox, haabb]
  rw [hneed] at hroom
  cases need with
  | false => exact ⟨data₃, _, rfl, h₃, hcounted h₃ _ _⟩
  | true =>
      have hspace : segmentRoom mem data₃ = true := by
        rw [hroom₃, hroom₂, hroom₁]
        simpa using hroom.2
      have ht₃' := (ht₃.trans ht₂).trans ht₁
      obtain ⟨data₄, hadd, h₄, hb₄, haabb₄⟩ := h₃.aligned.add hspace ht₃' htne
      -- the new box is inside of the one before it
      have hshaped : data₄.Shaped := by
        refine ⟨h₄, ?_⟩
        have hmem : trailBox (t ++ [head'.pos]) ∈ data₃.boxes := by
          rw [h₃.aligned.boxes, ht₃']
          simp
        have hin := @covers_trailBox (t ++ [head'.pos]) (by simp) head'.pos (by simp)
        rw [haabb₄, hb₄, unionOf_point hmem hin, h₃.aabb]
      refine ⟨data₄, _, by simp only [if_true, hadd, ok_bind]; rfl, hshaped, hcounted hshaped _ _⟩

/-! ## Removing segments -/

/-- Aligned boxes are boxes of their trails. -/
theorem SnakeData.Aligned.boxed {data : SnakeData} (h : data.Aligned) : data.Boxed := by
  rw [SnakeData.Boxed, h.boxes]
  refine List.forall₂_map_right_iff.mpr (List.forall₂_same.mpr ?_)
  intro trail hmem
  exact covers_trailBox (h.settled.wf.segmented.forall_ne_nil trail hmem)

/-- The oldest segment goes. -/
theorem SnakeData.Aligned.take {data : SnakeData} (h : data.Aligned) (htwo : 2 ≤ data.trails.length) :
    ∃ data' bb, rbPeekRead data.bezierAabbs = .ok bb ∧ takeSegment data = .ok data' ∧
      data'.Aligned ∧ data'.trails.length + 1 = data.trails.length := by
  obtain ⟨s, rest', ht⟩ := List.exists_cons_of_length_pos (show 0 < data.trails.length by omega)
  obtain ⟨t, rest, rfl⟩ : ∃ t rest, rest' = t :: rest := by
    refine List.exists_cons_of_length_pos ?_
    rw [ht, List.length_cons] at htwo
    omega
  obtain ⟨data', bb, hpeek, -, htake, hwf', -, ht', hhandles, hboxes⟩ :=
    takeSegment_spec h.settled.wf h.boxed ht
  have hknots : data'.knots = data.knots.tail := by
    rw [SnakeData.knots, hhandles, List.map_tail]
    rfl
  have hexact : data'.boxes = data'.trails.map trailBox := by
    rw [hboxes, h.boxes, ht, ht']
    rfl
  refine ⟨data', bb, hpeek, htake, ⟨⟨hwf', ?_, by rw [hexact, List.map_dropLast]⟩, ?_, hexact⟩, ?_⟩
  · rw [hknots, ← List.tail_dropLast, List.map_tail, h.settled.knots, ht, ht']
    rfl
  · have hlong : 1 < data.knots.length := by
      rw [h.settled.wf.length_knots]
      omega
    have hended := h.ended
    rw [SnakeData.Ended, ht, List.getLast?_cons_cons] at hended
    rw [SnakeData.Ended, hknots, List.getLast?_tail, if_neg (by omega), hended, ht']
  · rw [ht, ht']
    rfl

/-- Removing fewer segments than there are keeps the shape. -/
theorem SnakeData.Shaped.removeStale {data : SnakeData} (h : data.Shaped) {stale : Nat}
    (hstale : stale < data.trails.length) :
    ∃ data', snakeRemoveStaleSegments data stale = .ok data' ∧ data'.Shaped := by
  have hloop (n : Nat) : ∀ data : SnakeData, data.Aligned → n < data.trails.length →
      ∃ data', removeStaleLoop n data = .ok data' ∧ data'.Aligned := by
    induction n with
    | zero => exact fun data h _ => ⟨data, rfl, h⟩
    | succ n ih =>
        intro data h hn
        obtain ⟨data₁, bb, -, htake, h₁, hlen⟩ := h.take (by omega)
        obtain ⟨data', hrest, h'⟩ := ih data₁ h₁ (by omega)
        exact ⟨data', by rw [removeStaleLoop, htake, ok_bind, hrest], h'⟩
  obtain ⟨data₁, hremove, h₁⟩ := hloop stale data h.aligned hstale
  obtain ⟨data', haabb, h', -⟩ := h₁.updateAabb Alloc.unlimited
  rw [SnakeData.length_trails] at hstale
  exact ⟨data', by rw [snakeRemoveStaleSegments, if_pos hstale, hremove, ok_bind, haabb], h'⟩

/-- The rollback constraint only lowers the number removed, so the shape stays. -/
theorem SnakeData.Shaped.removeStaleConstrained {data : SnakeData} (h : data.Shaped)
    (headAck : SnakeHead) {stale : Nat} (hstale : stale < data.trails.length) :
    ∃ data', snakeRemoveStaleSegmentsWithRollbackConstraint data headAck stale = .ok data' ∧
      data'.Shaped := by
  have hloop (n : Nat) : ∀ data : SnakeData, data.Aligned → n < data.trails.length →
      ∃ data', removeStaleConstrainedLoop headAck n data = .ok data' ∧ data'.Aligned := by
    induction n with
    | zero => exact fun data h _ => ⟨data, rfl, h⟩
    | succ n ih =>
        intro data h hn
        obtain ⟨data₁, bb, hpeek, htake, h₁, hlen⟩ := h.take (by omega)
        rw [removeStaleConstrainedLoop, hpeek, ok_bind]
        by_cases hin : qwaabbTestQwpos bb headAck.pos = true
        · exact ⟨data, by rw [if_pos hin], h⟩
        · obtain ⟨data', hrest, h'⟩ := ih data₁ h₁ (by omega)
          exact ⟨data', by rw [if_neg hin, htake, ok_bind, hrest], h'⟩
  obtain ⟨data₁, hremove, h₁⟩ := hloop stale data h.aligned hstale
  obtain ⟨data', haabb, h', -⟩ := h₁.updateAabb Alloc.unlimited
  rw [SnakeData.length_trails] at hstale
  exact ⟨data', by rw [snakeRemoveStaleSegmentsWithRollbackConstraint, if_pos hstale, hremove,
    ok_bind, haabb], h'⟩

/-! ## Rolling back -/

/-- **A point taken back** leaves the buffers settled. -/
theorem SnakeData.Settled.popPoint {data : SnakeData} (h : data.Settled)
    (htwo : 2 ≤ data.points.length) :
    ∃ data', Clither.popPoint data = .ok data' ∧ data'.Settled ∧
      data'.points.length + 1 = data.points.length := by
  obtain ⟨data', hpop, hwf', ht', -⟩ := popPoint_spec h.wf htwo
  have hlen : data'.points.length + 1 = data.points.length := by
    rw [SnakeData.points, ht', Chain.joined_keep, ← SnakeData.points, List.length_take]
    omega
  refine ⟨data', hpop, ⟨hwf', ?_, ?_⟩, hlen⟩
  all_goals
    have hknots := h.knots
    have hboxes := h.boxes
    rcases h.wf.segmented.newest htwo with ⟨init, t, p, ht, hne⟩ | ⟨init, t, p, ht, hne⟩
  · obtain ⟨data₂, hpop₂, ht₂, hh₂, -⟩ := popPoint_inside ht hne
    obtain rfl : data' = data₂ := Except.ok.inj (hpop.symm.trans hpop₂)
    rw [SnakeData.knots, hh₂, ← SnakeData.knots, hknots, ht, ht₂]
    simp [List.head?_append_of_ne_nil _ hne]
  · obtain ⟨data₂, hpop₂, ht₂, ⟨handle, hh₂⟩, -⟩ := popPoint_boundary h.wf ht
    obtain rfl : data' = data₂ := Except.ok.inj (hpop.symm.trans hpop₂)
    have hdrop : data.knots.dropLast = data'.knots := by
      rw [SnakeData.knots, hh₂, List.map_append, List.map_singleton, List.dropLast_concat]
      rfl
    rw [hdrop, ht] at hknots
    rw [List.map_dropLast, hknots, ht₂]
    simp [List.head?_append_of_ne_nil _ hne, List.dropLast_append_of_ne_nil]
  · obtain ⟨data₂, hpop₂, ht₂, -, hb₂⟩ := popPoint_inside ht hne
    obtain rfl : data' = data₂ := Except.ok.inj (hpop.symm.trans hpop₂)
    rw [hb₂, hboxes, ht, ht₂, List.dropLast_concat, List.dropLast_concat]
  · obtain ⟨data₂, hpop₂, ht₂, -, bb, hb₂⟩ := popPoint_boundary h.wf ht
    obtain rfl : data' = data₂ := Except.ok.inj (hpop.symm.trans hpop₂)
    rw [hb₂, List.dropLast_concat, ht] at hboxes
    rw [hboxes, ht₂, List.dropLast_concat]
    simp [List.dropLast_append_of_ne_nil]

/-- Taking back fewer points than there are leaves a settled curve. -/
theorem SnakeData.Settled.popLoop {data : SnakeData} (h : data.Settled) (frame : UInt16) {n : Nat}
    (hn : n < 2 ^ 15) (hlong : n < data.points.length) :
    ∃ data', Clither.popLoop frame n (frameAt frame n) data = .ok data' ∧ data'.Settled := by
  induction n generalizing data with
  | zero => exact ⟨data, rfl, h⟩
  | succ n ih =>
      have hgt : u16GtWrap (frameAt frame (n + 1)) frame = true := by
        have := u16GtWrap_add (b := frame) (i := n + 1) (j := 0) (by omega) (by omega)
        simpa using this
      obtain ⟨data₁, hpop, h₁, hlen⟩ := h.popPoint (by omega)
      obtain ⟨data', hloop, h'⟩ := ih h₁ (by omega) (by omega)
      refine ⟨data', ?_, h'⟩
      have hprev : frameAt frame (n + 1) - 1 = frameAt frame n := by
        rw [frameAt_succ, UInt16.add_sub_cancel]
      simp only [Clither.popLoop, hgt, if_true, hpop, ok_bind, hprev]
      exact hloop

/-- **An acknowledged frame keeps the shape**, if the points of the frames since
are on the curve. -/
theorem SnakeData.Shaped.ack {snake : Snake} (h : snake.data.Shaped) (hfit : FitPlaces num)
    {authoritative : SnakeHead} {k : Nat} (hk : k < snake.cmdq.count)
    (hlong : snake.cmdq.count - k < snake.data.points.length)
    (hroom : ackedHead num simTickRate snake k ≠ authoritative →
      rollbackRoom mem num simTickRate snake authoritative k = true) :
    ∃ snake', snakeAckFrame mem num snake authoritative (frameAt snake.cmdq.firstFrame k)
        simTickRate = .ok snake' ∧ snake'.data.Shaped := by
  by_cases hsame : ackedHead num simTickRate snake k = authoritative
  · obtain ⟨snake', hok, -, hdata, -⟩ := snakeAckFrame_agree mem hk hsame
    exact ⟨snake', hok, hdata ▸ h⟩
  · obtain ⟨data₁, cmdq', htaken, -, -, -, -, -, heq⟩ :=
      snakeAckFrame_replays mem num h.wf hk hlong hsame
    have hcount := snake.cmdq.count_lt
    obtain ⟨data₂, hpop, h₂⟩ := h.aligned.settled.popLoop (frameAt snake.cmdq.firstFrame k)
      (show snake.cmdq.count - k < 2 ^ 15 by omega) hlong
    obtain rfl : data₁ = data₂ := Except.ok.inj (htaken.symm.trans hpop)
    have hroom := hroom hsame
    simp only [rollbackRoom, htaken] at hroom
    have hne : replayedHeads num simTickRate snake authoritative k ≠ [] := List.cons_ne_nil _ _
    obtain ⟨data₃, hall, h₃, hended₃⟩ := h₂.extendAll hfit (fun hnil => absurd hnil hne) hroom
    obtain ⟨data₄, hbox, h₄, -⟩ := h₃.updateBox mem hended₃
    obtain ⟨data₅, haabb, h₅, -⟩ := h₄.updateAabb mem
    simp only [hall, ok_bind, hbox, haabb, pure_eq_ok] at heq
    exact ⟨_, heq, h₅⟩

/-! ## Whole runs -/

/-- A snake with the frame number of its next command, the superfluous segments
that the last step reported, and whether only the client has worked on it. -/
structure SnakeRun where
  snake : Snake
  frame : UInt16
  stale : Option Nat
  client : Bool
  deriving DecidableEq

/-- The run that begins with a new snake. -/
def SnakeRun.begin (snake : Snake) (frame : UInt16) : SnakeRun where
  snake := snake
  frame := frame
  stale := none
  client := true

inductive SnakeEvent where
  /-- The snake is stepped, on the client with a command that is queued first. -/
  | step (queue : Bool) (command : Cmd)
  /-- The superfluous segments of the step before are removed, on the client with
  the rollback constraint. -/
  | removeStale (constraint : Bool)
  /-- A `MSG_SNAKE_HEAD` arrives. -/
  | ack (frame : UInt16) (authoritative : SnakeHead)

def snakeEvent (mem : Alloc) (num : Numerics) (simTickRate : UInt8) (s : SnakeRun) :
    SnakeEvent → Except Fault SnakeRun
  | .step queue command => do
      let cmdq := if queue then cmdQueuePut mem s.snake.cmdq command s.frame else s.snake.cmdq
      let (data, head, stale) ← snakeStep mem num s.snake.data s.snake.head s.snake.param command
        simTickRate
      return { snake := { s.snake with cmdq := cmdq, data := data, head := head }
               frame := s.frame + 1
               stale := some stale
               client := s.client && queue }
  | .removeStale constraint =>
      match s.stale with
      | none => .ok s
      | some stale => do
          let data ←
            if constraint then
              snakeRemoveStaleSegmentsWithRollbackConstraint s.snake.data s.snake.headAck stale
            else snakeRemoveStaleSegments s.snake.data stale
          return { s with
                   snake := { s.snake with data := data }
                   stale := none
                   client := s.client && constraint }
  | .ack frame authoritative => do
      let snake ← snakeAckFrame mem num s.snake authoritative frame simTickRate
      return { s with snake := snake, stale := none }

/-- The containers have room for the event, and a message is for a queued frame.
Unless only the client has worked on the snake, the points of the frames since
have to be on the curve still. -/
def snakeEventInRange (mem : Alloc) (num : Numerics) (simTickRate : UInt8) (s : SnakeRun) :
    SnakeEvent → Bool
  | .step queue command =>
      (!queue || rbHasSpace mem s.snake.cmdq.rb) && extendRoom mem num s.snake.data
        (snakeStepHead num s.snake.param simTickRate s.snake.head command)
  | .removeStale _ => true
  | .ack frame authoritative =>
      s.snake.cmdq.queued frame && ackRoom mem num simTickRate s.snake frame authoritative &&
        (s.client ||
          decide (s.snake.cmdq.count - s.snake.cmdq.distance frame < s.snake.data.points.length))

/-- The four buffers and the box of the snake fit together. -/
structure CurveShape (s : SnakeRun) : Prop where
  /-- One handle more than trails. -/
  handles_count : rbCount s.snake.data.bezierHandles = rbCount s.snake.data.headTrails + 1
  boxes_count : rbCount s.snake.data.bezierAabbs = rbCount s.snake.data.headTrails
  filled : ∀ trail ∈ s.snake.data.trails, trail ≠ []
  /-- A trail ends where the next one begins. -/
  linked : ∀ (k : Nat) older newer, s.snake.data.trails[k]? = some older →
    s.snake.data.trails[k + 1]? = some newer → older.getLast? = newer.head?
  /-- There is a handle at each end of a trail. -/
  handles : ∀ (k : Nat) trail, s.snake.data.trails[k]? = some trail →
    s.snake.data.knots[k]? = trail.head? ∧ s.snake.data.knots[k + 1]? = trail.getLast?
  /-- A box is the smallest one around its trail. -/
  boxes : ∀ (k : Nat) trail, s.snake.data.trails[k]? = some trail →
    ∃ bb, s.snake.data.boxes[k]? = some bb ∧ ExactBox bb trail
  aabb : s.snake.data.aabb = unionOf s.snake.data.boxes
  /-- A step never reports all segments as superfluous. -/
  stale : ∀ n, s.stale = some n → n < rbCount s.snake.data.headTrails

/-- Neighbouring trails share the point where they meet. -/
theorem segmented_linked {ts : List (List QwPos)} (h : Chain.Segmented ts) {k : Nat}
    {older newer : List QwPos} (holder : ts[k]? = some older) (hnewer : ts[k + 1]? = some newer) :
    older.getLast? = newer.head? := by
  induction ts generalizing k with
  | nil => cases holder
  | cons s rest ih =>
      cases rest with
      | nil => cases hnewer
      | cons t rest =>
          cases k with
          | zero =>
              cases holder
              cases hnewer
              exact h.2.1
          | succ k => exact ih h.tail holder hnewer

/-- The first point of each trail and the last one of the newest, one after the
other, are where the handles are. -/
theorem SnakeData.Aligned.knots_eq {data : SnakeData} (h : data.Aligned) :
    data.knots.map some = data.trails.map List.head? ++ [data.trails.getLast?.bind List.getLast?] := by
  obtain ⟨init, t, ht, hne⟩ := h.settled.wf.exists_concat
  have hlast : data.knots.getLast? = some (t.getLast hne) := by
    rw [h.ended, ht, List.getLast?_concat, Option.bind_some, List.getLast?_eq_some_getLast hne]
  rw [← h.ended, hlast, ← h.settled.knots, ← List.map_singleton, ← List.map_append,
    List.dropLast_append_getLast? _ hlast]

/-- What the snake promises about its curve follows from its shape. -/
theorem SnakeData.Shaped.curveShape {s : SnakeRun} (h : s.snake.data.Shaped)
    (hstale : ∀ n, s.stale = some n → n < s.snake.data.trails.length) : CurveShape s := by
  have hwf := h.wf
  have hknots := h.aligned.knots_eq
  have hget {k : Nat} {pos : Option QwPos} (hpos : (s.snake.data.trails.map List.head? ++
      [s.snake.data.trails.getLast?.bind List.getLast?])[k]? = some pos) :
      s.snake.data.knots[k]? = pos := by
    rw [← hknots, List.getElem?_map] at hpos
    obtain ⟨p, hp, rfl⟩ := Option.map_eq_some_iff.mp hpos
    exact hp
  refine ⟨?_, ?_, hwf.segmented.forall_ne_nil, fun k _ _ => segmented_linked hwf.segmented, ?_, ?_,
    h.aabb, ?_⟩
  · rw [hwf.handles_eq, SnakeData.length_trails]
  · rw [← SnakeData.length_trails, ← hwf.boxes_eq, SnakeData.boxes, length_rbToList]
  · intro k trail htrail
    obtain ⟨hk, -⟩ := List.getElem?_eq_some_iff.mp htrail
    refine ⟨hget ?_, hget ?_⟩
    · rw [List.getElem?_append_left (by rwa [List.length_map]), List.getElem?_map, htrail]
      rfl
    · by_cases hlast : k + 1 < s.snake.data.trails.length
      · have hnewer := List.getElem?_eq_getElem hlast
        rw [List.getElem?_append_left (by rwa [List.length_map]), List.getElem?_map, hnewer,
          segmented_linked hwf.segmented htrail hnewer]
        rfl
      · have hend : k + 1 = s.snake.data.trails.length := by omega
        have hnewest : s.snake.data.trails.getLast? = some trail := by
          rw [List.getLast?_eq_getElem?, ← hend, Nat.add_sub_cancel, htrail]
        rw [List.getElem?_append_right (by rw [List.length_map]; omega), List.length_map, ← hend,
          Nat.sub_self, hnewest]
        rfl
  · intro k trail htrail
    refine ⟨trailBox trail, ?_, exactBox_trailBox ?_⟩
    · rw [h.aligned.boxes, List.getElem?_map, htrail]
      rfl
    · exact hwf.segmented.forall_ne_nil trail (List.mem_of_getElem? htrail)
  · intro n hn
    rw [← SnakeData.length_trails]
    exact hstale n hn

/-- A new snake's two knots and its box are the spawn point. -/
theorem snakeInit_knots {spawnPos : QwPos} {snake : Snake}
    (h : snakeInit mem spawnPos = some snake) :
    snake.data.knots = [spawnPos, spawnPos] ∧ snake.data.aabb = qwaabbPoint spawnPos := by
  obtain ⟨data, hdata, hsnake⟩ := Option.bind_eq_some_iff.mp h
  cases hsnake
  simp only [snakeDataInit] at hdata
  by_cases hroom : vecHasSpace mem (vecInit : Trail) = false
  · rw [if_pos hroom] at hdata
    cases hdata
  · rw [if_neg hroom] at hdata
    obtain ⟨trails, htrails, hdata⟩ := Option.bind_eq_some_iff.mp hdata
    obtain ⟨handles₁, hhandles₁, hdata⟩ := Option.bind_eq_some_iff.mp hdata
    obtain ⟨handles₂, hhandles₂, hdata⟩ := Option.bind_eq_some_iff.mp hdata
    obtain ⟨boxes, hboxes, hdata⟩ := Option.bind_eq_some_iff.mp hdata
    cases hdata
    refine ⟨?_, rfl⟩
    show (rbToList handles₂).map BezierHandle.pos = _
    rw [rbToList_rbPutRealloc hhandles₂, rbToList_rbPutRealloc hhandles₁]
    rfl

/-- The invariant of a run. -/
structure SnakeRun.Sound (num : Numerics) (simTickRate : UInt8) (s : SnakeRun) : Prop where
  shaped : s.snake.data.Shaped
  stale : ∀ n, s.stale = some n → n < s.snake.data.trails.length
  tracked : s.client = true → Tracked num simTickRate { snake := s.snake, frame := s.frame }

/-- A run starts sound. -/
theorem SnakeRun.sound_begin {spawnPos : QwPos} {snake : Snake}
    (hinit : snakeInit mem spawnPos = some snake) (frame : UInt16) :
    (SnakeRun.begin snake frame).Sound num simTickRate := by
  obtain ⟨ht, -, hb, -⟩ := snakeInit_spec hinit
  have htracked : Tracked num simTickRate ⟨snake, frame⟩ := tracked_init hinit frame
  refine ⟨?_, (fun n hn => by cases hn), fun _ => htracked⟩
  obtain ⟨hknots, haabb⟩ := snakeInit_knots hinit
  have hboxes : snake.data.boxes = snake.data.trails.map trailBox := by
    rw [hb, ht]
    rfl
  refine ⟨⟨⟨htracked.wf, ?_, ?_⟩, ?_, hboxes⟩, ?_⟩
  · show snake.data.knots.dropLast.map some = snake.data.trails.map List.head?
    rw [hknots, ht]
    rfl
  · show snake.data.boxes.dropLast = snake.data.trails.dropLast.map trailBox
    rw [hboxes, List.map_dropLast]
  · show snake.data.knots.getLast? = snake.data.trails.getLast?.bind List.getLast?
    rw [hknots, ht]
    rfl
  · show snake.data.aabb = unionOf snake.data.boxes
    rw [hb, haabb]
    rfl

/-- A step of the simulation keeps a run sound, segment boundary or not. -/
theorem SnakeRun.Sound.step {s : SnakeRun} (h : s.Sound num.counting simTickRate)
    (hfit : FitPlaces num) {queue : Bool} {command : Cmd}
    (hroom : snakeEventInRange mem num.counting simTickRate s (.step queue command) = true) :
    ∃ s', snakeEvent mem num.counting simTickRate s (.step queue command) = .ok s' ∧
      s'.Sound num.counting simTickRate := by
  simp only [snakeEventInRange, Bool.and_eq_true] at hroom
  obtain ⟨data', stale, hstep, hshaped, hstale⟩ := h.shaped.step hfit hroom.2
  refine ⟨_, by simp only [snakeEvent, hstep, ok_bind, pure_eq_ok]; rfl, hshaped, ?_, ?_⟩
  · intro n hn
    cases hn
    exact hstale
  · intro hclient
    obtain ⟨hmine, hqueue⟩ := Eq.mp (Bool.and_eq_true s.client queue) hclient
    subst hqueue
    have hspace : rbHasSpace mem s.snake.cmdq.rb = true := by simpa using hroom.1
    have hall : stepRoom mem num.counting simTickRate ⟨s.snake, s.frame⟩ command = true := by
      rw [stepRoom, Bool.and_eq_true]
      exact ⟨hspace, hroom.2⟩
    obtain ⟨run, hrun, htracked, -⟩ := (h.tracked hmine).step hall
    simp only [clientEvent, hstep, ok_bind, pure_eq_ok] at hrun
    cases hrun
    exact htracked

/-- Removing what `stale` allows keeps a run sound. -/
theorem SnakeRun.Sound.removeStale {s : SnakeRun} (h : s.Sound num simTickRate) (constraint : Bool) :
    ∃ s', snakeEvent mem num simTickRate s (.removeStale constraint) = .ok s' ∧
      s'.Sound num simTickRate := by
  cases hcount : s.stale with
  | none => exact ⟨s, by simp only [snakeEvent, hcount], h⟩
  | some stale =>
      have hstale := h.stale stale hcount
      cases constraint with
      | false =>
          obtain ⟨data', hremove, hshaped⟩ := h.shaped.removeStale hstale
          refine ⟨_, by simp only [snakeEvent, hcount]; rw [if_neg (by decide), hremove]; rfl,
            hshaped, (fun n hn => by cases hn), fun hclient => ?_⟩
          simp at hclient
      | true =>
          obtain ⟨data', hremove, hshaped⟩ := h.shaped.removeStaleConstrained s.snake.headAck hstale
          refine ⟨_, by simp only [snakeEvent, hcount]; rw [if_pos trivial, hremove]; rfl,
            hshaped, (fun n hn => by cases hn), fun hclient => ?_⟩
          have hclient : s.client = true := by simpa using hclient
          obtain ⟨data₂, hrun, htracked⟩ := (h.tracked hclient).removeStale mem hstale
          simp only [clientEvent, hremove, ok_bind, pure_eq_ok] at hrun
          cases hrun
          exact htracked

/-- A snake of the client has the points of the queued frames. -/
theorem Tracked.long {s : ClientRun} (h : Tracked num simTickRate s) (k : Nat) :
    s.snake.cmdq.count - k < s.snake.data.points.length := by
  obtain ⟨older, hpoints⟩ := h.ackd
  rw [hpoints, List.length_append, List.length_cons, List.length_map, length_headsFrom,
    CmdQueue.length_commands]
  omega

/-- An acknowledgement keeps a run sound, whether it rolls back or not. -/
theorem SnakeRun.Sound.ack {s : SnakeRun} (h : s.Sound num simTickRate) (hfit : FitPlaces num)
    {frame : UInt16} {authoritative : SnakeHead}
    (hrange : snakeEventInRange mem num simTickRate s (.ack frame authoritative) = true) :
    ∃ s', snakeEvent mem num simTickRate s (.ack frame authoritative) = .ok s' ∧
      s'.Sound num simTickRate := by
  simp only [snakeEventInRange, Bool.and_eq_true, Bool.or_eq_true, decide_eq_true_eq] at hrange
  obtain ⟨⟨hqueued, hroom⟩, hlong⟩ := hrange
  have hk := (s.snake.cmdq.queued_iff frame).mp hqueued
  have hlong : s.snake.cmdq.count - s.snake.cmdq.distance frame < s.snake.data.points.length := by
    rcases hlong with hclient | hlong
    · exact (h.tracked hclient).long _
    · exact hlong
  have hrollback : ackedHead num simTickRate s.snake (s.snake.cmdq.distance frame) ≠ authoritative →
      rollbackRoom mem num simTickRate s.snake authoritative (s.snake.cmdq.distance frame) = true := by
    intro hdiff
    rwa [ackRoom, decide_eq_false hdiff, Bool.false_or] at hroom
  obtain ⟨snake', hok, hshaped⟩ := h.shaped.ack hfit hk hlong hrollback
  rw [s.snake.cmdq.frameAt_distance] at hok
  refine ⟨_, by simp only [snakeEvent, hok, ok_bind, pure_eq_ok]; rfl, hshaped,
    (fun n hn => by cases hn), fun hclient => ?_⟩
  obtain ⟨run, hrun, htracked, -⟩ := (h.tracked hclient).ack_queued hqueued hroom
  simp only [clientEvent, hok, ok_bind, pure_eq_ok] at hrun
  cases hrun
  exact htracked

/-- **Handles, boxes and trails stay aligned.**  In every state of a run from a
new snake, of steps with any commands, removals of superfluous segments and
messages in range, the four buffers and the box of the snake fit together. -/
theorem curve_in_shape (mem : Alloc) (num : Numerics) (simTickRate : UInt8) (spawnPos : QwPos)
    (snake : Snake) (frame : UInt16) (events : List SnakeEvent) (hfit : FitPlaces num)
    (hinit : snakeInit mem spawnPos = some snake)
    (hrange : Run.Meets (snakeEvent mem num.counting simTickRate)
      (fun s e => snakeEventInRange mem num.counting simTickRate s e = true)
      (SnakeRun.begin snake frame) events) :
    Run.EveryState (snakeEvent mem num.counting simTickRate) CurveShape
      (SnakeRun.begin snake frame) events := by
  have hfit' : FitPlaces num.counting := hfit
  have hsound : (SnakeRun.begin snake frame).Sound num.counting simTickRate :=
    SnakeRun.sound_begin hinit frame
  refine Run.everyState_of_meets ?_ (fun s h => h.shaped.curveShape h.stale) hsound hrange
  intro s e h he
  cases e with
  | step queue command => exact h.step hfit he
  | removeStale constraint => exact h.removeStale constraint
  | ack frame authoritative => exact h.ack hfit' he

/-- A fitter that closes every trail with its second point. -/
def closing : Numerics where
  qaCos := fun _ => 2 ^ 14
  qaSin := fun _ => 0
  fitTrail := fun head tail trail =>
    ({ head with pos := trail.getLast?.getD head.pos }, tail, if 2 ≤ trail.length then 8192 else 0)
  equidistantPoints := fun _ _ _ => 0

theorem fitPlaces_closing : FitPlaces closing := by
  intro head tail trail p hlast
  exact ⟨by simp only [closing, hlast, Option.getD_some], rfl⟩

def cmdBoost : Cmd :=
  { cmdDefault with action := cmdActionBoost }

/-- Removals of both kinds, and messages with and without the client's constraint. -/
def mixedRun : List SnakeEvent :=
  [.step true cmdBoost, .step true cmdBoost, .removeStale true, .step true cmdBoost,
    .ack 65531 (snakeHeadInit ⟨5, 5⟩), .step false cmdBoost, .removeStale false,
    .ack 65532 (snakeHeadInit ⟨7, 7⟩)]

/-- Every state of a run that steps, removes and rolls back is in shape. -/
theorem curve_in_shape_mixed :
    Run.EveryState (snakeEvent Alloc.unlimited closing.counting 60) CurveShape
      (SnakeRun.begin freshSnake 65530) mixedRun :=
  curve_in_shape Alloc.unlimited closing 60 ⟨0, 0⟩ freshSnake 65530 mixedRun fitPlaces_closing
    (by decide +kernel) (by decide +kernel)

/-! ## A rollback behind the end of the curve -/

/-- A step reports what the count says of the handles it leaves. -/
theorem stale_of_step {s s' : SnakeRun} {queue : Bool} {command : Cmd}
    (h : snakeEvent mem num simTickRate s (.step queue command) = .ok s') :
    s'.stale = some (num.equidistantPoints (rbToList s'.snake.data.bezierHandles)
      (qwMul snakePartSpacing s'.snake.param.cachedStats.scale)
      s'.snake.param.cachedStats.length) := by
  simp only [snakeEvent] at h
  obtain ⟨⟨data, head, stale⟩, hstep, h⟩ := bind_eq_ok.mp h
  cases h
  simp only [snakeStep] at hstep
  obtain ⟨⟨data₁, need⟩, -, hstep⟩ := bind_eq_ok.mp hstep
  obtain ⟨data₂, -, hstep⟩ := bind_eq_ok.mp hstep
  obtain ⟨data₃, -, hstep⟩ := bind_eq_ok.mp hstep
  by_cases hneed : need = true
  · rw [if_pos hneed] at hstep
    obtain ⟨data₄, -, hstep⟩ := bind_eq_ok.mp hstep
    cases hstep
    rfl
  · rw [if_neg hneed] at hstep
    cases hstep
    rfl

/-- Eighteen boosted steps, without a message in between. -/
def boostedRun : List SnakeEvent :=
  List.replicate 18 (.step true cmdBoost)

/-- Where the handles are then. -/
def boostedHandles : List BezierHandle :=
  [bezierHandleInit ⟨0, 0⟩ 0, bezierHandleInit ⟨196, 0⟩ 0] ++
    [419, 669, 946, 1249, 1579, 1936, 2320, 2731, 3168, 3632, 4123, 4641, 5186, 5757, 6355, 6980,
      7632, 7632].map fun x => bezierHandleInit ⟨x, 0⟩ (-qaPi)

/-- The boosted run ends with seven segments to remove. -/
theorem boostedRun_stale {s : SnakeRun}
    (h : Run.run (snakeEvent Alloc.unlimited closing.counting 60) (SnakeRun.begin freshSnake 0)
      boostedRun = .ok s) : s.stale = some 7 := by
  have hsplit : boostedRun = List.replicate 17 (.step true cmdBoost) ++ [.step true cmdBoost] := rfl
  have hhandles : (do
      let s ← Run.run (snakeEvent Alloc.unlimited closing.counting 60)
        (SnakeRun.begin freshSnake 0) boostedRun
      return (rbToList s.snake.data.bezierHandles, s.snake.param)) =
        Except.ok (boostedHandles, snakeParamInit) := by
    decide +kernel
  have hcount : staleIndex qwSqrt closing boostedHandles
      (qwMul snakePartSpacing snakeParamInit.cachedStats.scale)
      snakeParamInit.cachedStats.length = some 7 := by
    decide +kernel
  rw [h] at hhandles
  obtain ⟨hhandles, hparam⟩ := Prod.mk.inj (Except.ok.inj hhandles)
  rw [hsplit, Run.run_append] at h
  cases hrun : Run.run (snakeEvent Alloc.unlimited closing.counting 60)
      (SnakeRun.begin freshSnake 0) (List.replicate 17 (.step true cmdBoost)) with
  | error f =>
      rw [hrun] at h
      cases h
  | ok s₁ =>
      rw [hrun] at h
      dsimp only [Run.run] at h
      cases hlast : snakeEvent Alloc.unlimited closing.counting 60 s₁ (.step true cmdBoost) with
      | error f =>
          rw [hlast] at h
          cases h
      | ok s₂ =>
          rw [hlast] at h
          cases h
          rw [stale_of_step hlast, hhandles, hparam, Numerics.counting, Numerics.countingBy_equidistantPoints, hcount,
            Option.getD_some]

/-- The removal without constraint takes points that the rollback to the oldest
queued frame has to take back: the frame is queued, there are few segments, and
the message for it pops a point from an empty trail. -/
theorem curve_cut_off :
    ∃ s s', Run.run (snakeEvent Alloc.unlimited closing.counting 60) (SnakeRun.begin freshSnake 0)
        boostedRun = .ok s ∧
      snakeEvent Alloc.unlimited closing.counting 60 s (.removeStale false) = .ok s' ∧
      s'.snake.cmdq.queued 0 = true ∧ rbCount s'.snake.data.headTrails = 12 ∧
      snakeEvent Alloc.unlimited closing.counting 60 s' (.ack 0 (snakeHeadInit ⟨5, 5⟩)) =
        .error .empty := by
  cases hrun : Run.run (snakeEvent Alloc.unlimited closing.counting 60)
      (SnakeRun.begin freshSnake 0) boostedRun with
  | error f =>
      have hok : (Run.run (snakeEvent Alloc.unlimited closing.counting 60)
        (SnakeRun.begin freshSnake 0) boostedRun).isOk = true := by decide +kernel
      rw [hrun] at hok
      cases hok
  | ok s =>
      have hafter : (do
          let s ← Run.run (snakeEvent Alloc.unlimited closing.counting 60)
            (SnakeRun.begin freshSnake 0) boostedRun
          let data ← snakeRemoveStaleSegments s.snake.data 7
          let snake := { s.snake with data := data }
          return (snake.cmdq.queued 0, rbCount snake.data.headTrails,
            decide (snakeAckFrame Alloc.unlimited closing.counting snake (snakeHeadInit ⟨5, 5⟩) 0 60 =
              Except.error Fault.empty))) = Except.ok (true, 12, true) := by
        decide +kernel
      rw [hrun, ok_bind] at hafter
      obtain ⟨data, hremove, hafter⟩ := bind_eq_ok.mp hafter
      obtain ⟨hqueued, hafter⟩ := Prod.mk.inj (Except.ok.inj hafter)
      obtain ⟨hcount, hfault⟩ := Prod.mk.inj hafter
      have hevent : snakeEvent Alloc.unlimited closing.counting 60 s (.removeStale false) =
          .ok { s with snake := { s.snake with data := data }, stale := none, client := false } := by
        simp only [snakeEvent, boostedRun_stale hrun, Bool.and_false]
        rw [if_neg (by decide), hremove]
        rfl
      refine ⟨s, _, rfl, hevent, hqueued, hcount, ?_⟩
      simp only [snakeEvent, of_decide_eq_true hfault]
      rfl

end Clither
