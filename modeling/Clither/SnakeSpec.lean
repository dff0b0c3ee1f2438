import Clither.Lib.Chain
import Clither.Snake
import Mathlib.Data.List.Forall2

/-!
# What the snake functions do to the trails

The trails of a snake are a segmented sequence in the sense of `Chain`, and
`SnakeData.points` is the sequence of head positions behind them.  Each
function of the snake gets one lemma about these two views: appending a
position, opening a segment, taking a position back and dropping the oldest
segment.

The room predicates say when the containers can take what a function appends to
them.  A function whose room is missing leaves the trail short of a point or
writes through a null pointer.
-/

namespace Clither

namespace SnakeData

/-- The points of each trail, oldest trail first. -/
def trails (data : SnakeData) : List (List QwPos) :=
  (rbToList data.headTrails).map Vec.items

/-- The head positions that the trails record. -/
def points (data : SnakeData) : List QwPos :=
  Chain.joined data.trails

def boxes (data : SnakeData) : List QwAabb :=
  rbToList data.bezierAabbs

/-- The shape of a snake's curve: `n` trails, `n + 1` handles and `n` boxes. -/
structure WF (data : SnakeData) : Prop where
  segmented : Chain.Segmented data.trails
  handles_eq : rbCount data.bezierHandles = data.trails.length + 1
  boxes_eq : data.boxes.length = data.trails.length

/-- There are as many trails as the buffer counts. -/
@[simp] theorem length_trails (data : SnakeData) :
    data.trails.length = rbCount data.headTrails := by
  rw [trails, List.length_map, length_rbToList]

/-- The newest trail, as the vector that `rb_peek_write` points to. -/
theorem exists_newest {data : SnakeData} {init : List (List QwPos)} {t : List QwPos}
    (h : data.trails = init ++ [t]) :
    ∃ vinit v, rbToList data.headTrails = vinit ++ [v] ∧ vinit.map Vec.items = init ∧
      v.items = t := by
  obtain ⟨vinit, vlast, hlist, hinit, hlast⟩ := List.map_eq_append_iff.mp h
  obtain ⟨v, hv, rfl⟩ := List.map_eq_singleton_iff.mp hlast
  exact ⟨vinit, v, by rw [hlist, hv], hinit, rfl⟩

/-- There is a newest trail, and it is not empty. -/
theorem WF.exists_concat {data : SnakeData} (h : data.WF) :
    ∃ init t, data.trails = init ++ [t] ∧ t ≠ [] := by
  obtain ⟨init, t, heq⟩ := (List.eq_nil_or_concat' data.trails).resolve_left h.segmented.ne_nil
  have hseg := h.segmented
  rw [heq] at hseg
  exact ⟨init, t, heq, hseg.last_ne_nil⟩

/-- There is a newest box. -/
theorem WF.exists_box {data : SnakeData} (h : data.WF) : ∃ init b, data.boxes = init ++ [b] := by
  refine (List.eq_nil_or_concat' data.boxes).resolve_left ?_
  intro hnil
  have hlen := h.boxes_eq
  rw [hnil] at hlen
  exact h.segmented.ne_nil (List.length_eq_zero_iff.mp hlen.symm)

end SnakeData

/-! ## Room in the containers -/

section

variable (mem : Alloc) (num : Numerics)

/-- The newest trail can take a point. -/
def newestRoom (data : SnakeData) : Bool :=
  match rbPeekWrite data.headTrails with
  | .ok trail => vecHasSpace mem trail
  | .error _ => false

/-- The three ring buffers can take a segment. -/
def segmentRoom (data : SnakeData) : Bool :=
  rbHasSpace mem data.headTrails && rbHasSpace mem data.bezierHandles &&
    rbHasSpace mem data.bezierAabbs && vecHasSpace mem (vecInit : Trail)

/-- The fit of the newest segment becomes too coarse with this position. -/
def needsSegment (data : SnakeData) (head : SnakeHead) : Bool :=
  match snakeUpdateCurveFromHead mem num data head with
  | .ok (_, need) => need
  | .error _ => false

/-- `extendCurve` finds the room it needs. -/
def extendRoom (data : SnakeData) (head : SnakeHead) : Bool :=
  newestRoom mem data && (!needsSegment mem num data head || segmentRoom mem data)

/-- Append the positions of several heads to the curve. -/
def extendAll : List SnakeHead → SnakeData → Except Fault SnakeData
  | [], data => .ok data
  | head :: rest, data => do
      let data ← extendCurve mem num data head
      extendAll rest data

/-- `extendAll` finds the room it needs. -/
def extendAllRoom : List SnakeHead → SnakeData → Bool
  | [], _ => true
  | head :: rest, data =>
      extendRoom mem num data head &&
        match extendCurve mem num data head with
        | .ok data => extendAllRoom rest data
        | .error _ => false

end

variable {mem : Alloc} {num : Numerics}

/-! ## Bounding boxes -/

/-- The box of a trail as `snake_update_head_trail_aabb` computes it. -/
def trailBox : List QwPos → QwAabb
  | [] => ⟨0, 0, 0, 0⟩
  | p :: ps => ps.foldl qwaabbExtend (qwaabbPoint p)

/-- The test is the four comparisons. -/
theorem qwaabbTestQwpos_iff (bb : QwAabb) (p : QwPos) :
    qwaabbTestQwpos bb p = true ↔ bb.x1 ≤ p.x ∧ p.x ≤ bb.x2 ∧ bb.y1 ≤ p.y ∧ p.y ≤ bb.y2 := by
  simp [qwaabbTestQwpos]

def Covers (bb : QwAabb) (trail : List QwPos) : Prop :=
  ∀ p, p ∈ trail → qwaabbTestQwpos bb p = true

/-- The box of a point covers it. -/
theorem covers_point (p : QwPos) : Covers (qwaabbPoint p) [p] := by
  intro q hq
  rw [List.mem_singleton.mp hq, qwaabbTestQwpos_iff]
  exact ⟨le_refl _, le_refl _, le_refl _, le_refl _⟩

/-- The extended box covers the extended trail. -/
theorem covers_extend {bb : QwAabb} {trail : List QwPos} (h : Covers bb trail) (p : QwPos) :
    Covers (qwaabbExtend bb p) (trail ++ [p]) := by
  intro q hq
  rw [qwaabbTestQwpos_iff]
  simp only [qwaabbExtend]
  rcases List.mem_append.mp hq with hold | hnew
  · have := (qwaabbTestQwpos_iff bb q).mp (h q hold)
    refine ⟨?_, ?_, ?_, ?_⟩ <;> split <;> omega
  · rw [List.mem_singleton.mp hnew]
    refine ⟨?_, ?_, ?_, ?_⟩ <;> split <;> omega

/-- **The box of a trail contains its points.** -/
theorem covers_trailBox {trail : List QwPos} (hne : trail ≠ []) :
    Covers (trailBox trail) trail := by
  obtain ⟨p, ps, rfl⟩ := List.exists_cons_of_ne_nil hne
  have hfold : ∀ (qs : List QwPos) (bb : QwAabb) (seen : List QwPos), Covers bb seen →
      Covers (qs.foldl qwaabbExtend bb) (seen ++ qs) := by
    intro qs
    induction qs with
    | nil =>
        intro bb seen h
        rwa [List.append_nil]
    | cons q qs ih =>
        intro bb seen h
        have := ih _ _ (covers_extend h q)
        rwa [List.append_assoc] at this
  exact hfold ps _ [p] (covers_point p)

/-- A box that covers a list covers its sublists. -/
theorem Covers.mono {bb : QwAabb} {s t : List QwPos} (h : Covers bb t) (hsub : s ⊆ t) :
    Covers bb s :=
  fun p hp => h p (hsub hp)

/-- Every trail but the newest lies in its box. -/
def SnakeData.ClosedBoxed (data : SnakeData) : Prop :=
  ∃ init t binit b, data.trails = init ++ [t] ∧ data.boxes = binit ++ [b] ∧
    List.Forall₂ (fun trail bb => Covers bb trail) init binit

/-- Every trail lies in its box. -/
def SnakeData.Boxed (data : SnakeData) : Prop :=
  List.Forall₂ (fun trail bb => Covers bb trail) data.trails data.boxes

/-! ## Appending a point -/

/-- A snake has at least two handles. -/
theorem count_two_le {data : SnakeData} (h : data.WF) : 2 ≤ rbCount data.bezierHandles := by
  have := List.length_pos_iff.mpr h.segmented.ne_nil
  have := h.handles_eq
  omega

/-- Overwriting a slot takes no space. -/
@[simp] theorem rbHasSpace_set {c : RbInstance} {β : Type} (mem : Alloc) (rb : Rb c β) (i : Nat)
    (b : β) : rbHasSpace mem (rbSet rb i b) = rbHasSpace mem rb := by
  cases rb <;> rfl

/-- Overwriting a slot keeps the count. -/
@[simp] theorem rbCount_set {c : RbInstance} {β : Type} (rb : Rb c β) (i : Nat) (b : β) :
    rbCount (rbSet rb i b) = rbCount rb := by
  cases rb <;> rfl

/-- The result of appending a point to the newest trail. -/
structure Appended (mem : Alloc) (data : SnakeData) (pos : QwPos) (data' : SnakeData) : Prop where
  trails : ∃ init t, data.trails = init ++ [t] ∧ data'.trails = init ++ [t ++ [pos]]
  handles_eq : rbCount data'.bezierHandles = rbCount data.bezierHandles
  aabbs_eq : data'.bezierAabbs = data.bezierAabbs
  space_eq : rbHasSpace mem data'.headTrails = rbHasSpace mem data.headTrails
  room_eq : segmentRoom mem data' = segmentRoom mem data

/-- Appending a point keeps the buffers of one length. -/
theorem Appended.wf {data data' : SnakeData} {pos : QwPos} (h : Appended mem data pos data')
    (hwf : data.WF) : data'.WF := by
  obtain ⟨init, t, ht, ht'⟩ := h.trails
  have hseg := hwf.segmented
  rw [ht] at hseg
  refine ⟨by rw [ht']; exact hseg.push pos, ?_, ?_⟩
  · rw [h.handles_eq, hwf.handles_eq, ht, ht']
    simp
  · rw [SnakeData.boxes, h.aabbs_eq]
    exact hwf.boxes_eq.trans (by rw [ht, ht']; simp)

/-- Appending a point adds it at the end of the points. -/
theorem Appended.points {data data' : SnakeData} {pos : QwPos} (h : Appended mem data pos data')
    (hwf : data.WF) : data'.points = data.points ++ [pos] := by
  obtain ⟨init, t, ht, ht'⟩ := h.trails
  have hseg := hwf.segmented
  rw [ht] at hseg
  rw [SnakeData.points, SnakeData.points, ht, ht', Chain.joined_push hseg]

/-- **`snake_update_curve_from_head` appends the head's position.**  It asks
for a new segment when the error of the fit exceeds the threshold. -/
theorem snakeUpdateCurveFromHead_spec (num : Numerics) {data : SnakeData} (hwf : data.WF)
    (hroom : newestRoom mem data = true) (head : SnakeHead) :
    ∃ data' init t h₁ h₂, data.trails = init ++ [t] ∧
      snakeUpdateCurveFromHead mem num data head =
        .ok (data', decide ((num.fitTrail h₁ h₂ (t ++ [head.pos])).2.2 > fitThreshold)) ∧
      Appended mem data head.pos data' := by
  obtain ⟨init, t, ht, -⟩ := hwf.exists_concat
  obtain ⟨vinit, v, hlist, hinit, hv⟩ := SnakeData.exists_newest ht
  have hpeek := rbPeekWrite_of_concat hlist
  have hspace : vecHasSpace mem v = true := by simpa only [newestRoom, hpeek] using hroom
  have hitems : (vecPush mem v head.pos).items = t ++ [head.pos] := by
    rw [items_vecPush, if_pos hspace, hv]
  have htwo := count_two_le hwf
  have hlen := length_rbToList data.bezierHandles
  obtain ⟨h₁, hh₁⟩ : ∃ h₁, (rbToList data.bezierHandles)[rbCount data.bezierHandles - 1]? = some h₁ :=
    ⟨_, List.getElem?_eq_getElem (by omega)⟩
  obtain ⟨h₂, hh₂⟩ : ∃ h₂, (rbToList data.bezierHandles)[rbCount data.bezierHandles - 2]? = some h₂ :=
    ⟨_, List.getElem?_eq_getElem (by omega)⟩
  have hgo : ¬ (rbCount data.bezierHandles < 2 ∨ t ++ [head.pos] = []) := by
    simp
    omega
  have htrails : rbToList (rbSetWrite data.headTrails (vecPush mem v head.pos)) =
      vinit ++ [vecPush mem v head.pos] := rbToList_setWrite hlist _
  let fit := num.fitTrail h₁ h₂ (t ++ [head.pos])
  let handles := rbSet (rbSet data.bezierHandles (rbCount data.bezierHandles - 1) fit.1)
    (rbCount data.bezierHandles - 2) fit.2.1
  refine ⟨{ data with headTrails := rbSetWrite data.headTrails (vecPush mem v head.pos),
                      bezierHandles := handles }, init, t, h₁, h₂, ht, ?_, ?_⟩
  · unfold snakeUpdateCurveFromHead
    simp only [hpeek, ok_bind, hitems, if_neg hgo, rbPeek_of_getElem? hh₁,
      rbPeek_of_getElem? hh₂, pure_eq_ok]
    rfl
  · refine ⟨⟨init, t, ht, ?_⟩, by simp [handles], rfl, by simp [rbSetWrite],
      by simp [segmentRoom, rbSetWrite, handles]⟩
    rw [SnakeData.trails, htrails, List.map_append, hinit, List.map_singleton, hitems]

/-! ## The box of the newest trail -/

/-- **`snake_update_head_trail_aabb`** makes the newest box the box of the
newest trail. -/
theorem snakeUpdateHeadTrailAabb_spec (mem : Alloc) {data : SnakeData} (hwf : data.WF) :
    ∃ data' t b binit, snakeUpdateHeadTrailAabb data = .ok data' ∧
      data'.headTrails = data.headTrails ∧ data'.bezierHandles = data.bezierHandles ∧
      data.trails.getLast? = some t ∧ data.boxes = binit ++ [b] ∧
      data'.boxes = binit ++ [trailBox t] ∧ segmentRoom mem data' = segmentRoom mem data := by
  obtain ⟨init, t, ht, hne⟩ := hwf.exists_concat
  obtain ⟨vinit, v, hlist, -, hv⟩ := SnakeData.exists_newest ht
  obtain ⟨binit, b, hbox⟩ := hwf.exists_box
  obtain ⟨p, ps, hps⟩ := List.exists_cons_of_ne_nil hne
  refine ⟨{ data with bezierAabbs := rbSetWrite data.bezierAabbs (trailBox t) }, t, b, binit,
    ?_, rfl, rfl, by rw [ht, List.getLast?_concat], hbox, rbToList_setWrite hbox _,
    by simp [segmentRoom, rbSetWrite]⟩
  unfold snakeUpdateHeadTrailAabb
  simp only [rbPeekWrite_of_concat hbox, rbPeekWrite_of_concat hlist, ok_bind, hv, hps]
  rfl

/-! ## Opening a segment -/

/-- The result of opening a segment at a position. -/
structure Opened (data : SnakeData) (pos : QwPos) (data' : SnakeData) : Prop where
  trails : data'.trails = data.trails ++ [[pos]]
  handles_eq : rbCount data'.bezierHandles = rbCount data.bezierHandles + 1
  boxes : data'.boxes = data.boxes ++ [qwaabbPoint pos]

/-- A segment is opened at the last point of a trail that has others. -/
theorem Opened.wf {data data' : SnakeData} {pos : QwPos} (h : Opened data pos data')
    (hwf : data.WF) {init : List (List QwPos)} {t : List QwPos}
    (ht : data.trails = init ++ [t ++ [pos]]) (hne : t ≠ []) : data'.WF := by
  have hseg := hwf.segmented
  rw [ht] at hseg
  have htwo : 2 ≤ (t ++ [pos]).length := by
    have := List.length_pos_iff.mpr hne
    rw [List.length_append, List.length_singleton]
    omega
  refine ⟨?_, ?_, ?_⟩
  · rw [h.trails, ht]
    exact hseg.open htwo (List.getLast?_concat ..)
  · rw [h.handles_eq, hwf.handles_eq, h.trails, List.length_append, List.length_singleton]
  · rw [h.boxes, h.trails, List.length_append, List.length_append, hwf.boxes_eq]
    rfl

/-- Opening a segment adds no point: the new trail starts where the last one ended. -/
theorem Opened.points {data data' : SnakeData} {pos : QwPos} (h : Opened data pos data')
    (hwf : data.WF) : data'.points = data.points := by
  rw [SnakeData.points, h.trails, Chain.joined_open hwf.segmented.ne_nil, SnakeData.points]

/-- One more element is counted. -/
theorem rbCount_concat {c : RbInstance} {β : Type} {rb rb' : Rb c β} {b : β}
    (h : rbToList rb' = rbToList rb ++ [b]) : rbCount rb' = rbCount rb + 1 := by
  rw [← length_rbToList, h, List.length_append, length_rbToList, List.length_singleton]

/-- With room, a segment is opened at the head. -/
theorem snakeAddNewSegment_spec {data : SnakeData} (hroom : segmentRoom mem data = true)
    (head : SnakeHead) :
    ∃ data', snakeAddNewSegment mem data head = .ok data' ∧ Opened data head.pos data' := by
  simp only [segmentRoom, Bool.and_eq_true] at hroom
  obtain ⟨⟨⟨htrails, hhandles⟩, haabbs⟩, hvec⟩ := hroom
  have hput {c : RbInstance} {β : Type} {rb : Rb c β} (h : rbHasSpace mem rb = true) (b : β) :
      ∃ rb', rbPutRealloc mem rb b = some rb' ∧ rbToList rb' = rbToList rb ++ [b] := by
    rcases rbPutRealloc_spec mem rb b with ⟨hno, -⟩ | ⟨-, hyes⟩
    · rw [h] at hno
      cases hno
    · exact hyes
  obtain ⟨trails, ht, htlist⟩ := hput htrails (vecPush mem vecInit head.pos)
  obtain ⟨handles, hh, hhlist⟩ := hput hhandles (bezierHandleInit head.pos (qaAdd head.angle qaPi))
  obtain ⟨aabbs, hb, hblist⟩ := hput haabbs (qwaabbPoint head.pos)
  refine ⟨{ data with headTrails := trails, bezierHandles := handles, bezierAabbs := aabbs },
    by simp only [snakeAddNewSegment, ht, hh, hb, emplaced, ok_bind, pure_eq_ok], ?_, ?_, hblist⟩
  · have hitems : (vecPush mem (vecInit : Trail) head.pos).items = [head.pos] := by
      rw [items_vecPush, if_pos hvec]
      rfl
    rw [SnakeData.trails, htlist, List.map_append, List.map_singleton, hitems]
    rfl
  · exact rbCount_concat hhlist

/-- Without space for a trail the code writes through a null pointer. -/
theorem snakeAddNewSegment_full {data : SnakeData} (h : rbHasSpace mem data.headTrails = false)
    (head : SnakeHead) : snakeAddNewSegment mem data head = .error .nullSegment := by
  rcases rbPutRealloc_spec mem data.headTrails (vecPush mem vecInit head.pos) with
    ⟨-, hnone⟩ | ⟨hyes, -⟩
  · simp only [snakeAddNewSegment, hnone, emplaced, error_bind]
  · rw [h] at hyes
    cases hyes

/-! ## A step of the replay -/

/-- The result of `extendCurve`: the position is appended, and a segment is
opened at it if the fit asked for one. -/
structure Extended (data : SnakeData) (pos : QwPos) (need : Bool) (data' : SnakeData) : Prop where
  wf : data'.WF
  points : data'.points = data.points ++ [pos]
  trails : ∃ init t, data.trails = init ++ [t] ∧
    data'.trails = if need then init ++ [t ++ [pos], [pos]] else init ++ [t ++ [pos]]
  boxed : data.ClosedBoxed → data'.ClosedBoxed

/-- A segment is opened exactly when the fit of the longer trail is too far off. -/
theorem needsSegment_eq (num : Numerics) {data : SnakeData} (hwf : data.WF) (hroom : newestRoom mem data = true)
    (head : SnakeHead) :
    ∃ init t h₁ h₂, data.trails = init ++ [t] ∧ needsSegment mem num data head =
      decide ((num.fitTrail h₁ h₂ (t ++ [head.pos])).2.2 > fitThreshold) := by
  obtain ⟨data', init, t, h₁, h₂, ht, hupdate, -⟩ :=
    snakeUpdateCurveFromHead_spec num hwf hroom head
  exact ⟨init, t, h₁, h₂, ht, by rw [needsSegment, hupdate]⟩

/-- With room, the curve is extended by the head, into a new segment where the fit asks for one. -/
theorem extendCurve_spec {data : SnakeData} (hwf : data.WF) {head : SnakeHead}
    (hroom : extendRoom mem num data head = true) :
    ∃ data', extendCurve mem num data head = .ok data' ∧
      Extended data head.pos (needsSegment mem num data head) data' := by
  simp only [extendRoom, Bool.and_eq_true] at hroom
  obtain ⟨hnewest, hsegment⟩ := hroom
  obtain ⟨data₁, _, t₀, h₁, h₂, -, hupdate, happ⟩ :=
    snakeUpdateCurveFromHead_spec num hwf hnewest head
  generalize decide ((num.fitTrail h₁ h₂ (t₀ ++ [head.pos])).2.2 > fitThreshold) = need at hupdate
  obtain ⟨init, t, ht, ht₁⟩ := happ.trails
  have hwf₁ := happ.wf hwf
  have hpoints₁ := happ.points hwf
  have hboxes₁ : data₁.boxes = data.boxes := by rw [SnakeData.boxes, happ.aabbs_eq]; rfl
  have htne : t ≠ [] := by
    have hseg := hwf.segmented
    rw [ht] at hseg
    exact hseg.last_ne_nil
  have hneed : needsSegment mem num data head = need := by rw [needsSegment, hupdate]
  unfold extendCurve
  rw [hupdate, hneed]
  rw [hneed] at hsegment
  cases need with
  | false =>
      refine ⟨data₁, rfl, hwf₁, hpoints₁, ⟨init, t, ht, ht₁⟩, ?_⟩
      intro ⟨init', t', binit, b, ht', hb, hcov⟩
      obtain ⟨rfl, -⟩ := List.append_inj' (ht.symm.trans ht') rfl
      exact ⟨init, _, binit, b, ht₁, hboxes₁.trans hb, hcov⟩
  | true =>
      obtain ⟨data₂, t₂, b, binit, hbox, htrails₂, hhandles₂, ht₂, hb₁, hb₂, hroom₂⟩ :=
        snakeUpdateHeadTrailAabb_spec mem hwf₁
      have hroom : segmentRoom mem data₂ = true := by
        rw [hroom₂, happ.room_eq]
        simpa using hsegment
      obtain ⟨data₃, hopen, hopened⟩ := snakeAddNewSegment_spec hroom head
      have htr₂ : data₂.trails = init ++ [t ++ [head.pos]] := by
        rw [SnakeData.trails, htrails₂]
        exact ht₁
      have ht₃ : data₃.trails = init ++ [t ++ [head.pos], [head.pos]] := by
        rw [hopened.trails, htr₂, List.append_assoc]
        rfl
      obtain rfl : t ++ [head.pos] = t₂ := by
        rw [ht₁, List.getLast?_concat] at ht₂
        exact Option.some.inj ht₂
      have hwf₂ : data₂.WF := by
        refine ⟨?_, ?_, ?_⟩
        · rw [htr₂, ← ht₁]
          exact hwf₁.segmented
        · rw [hhandles₂, hwf₁.handles_eq, ht₁, htr₂]
        · have hlen := hwf₁.boxes_eq
          rw [hb₁, ht₁] at hlen
          rw [hb₂, htr₂, ← hlen]
          simp
      have hpoints₂ : data₂.points = data₁.points := by
        rw [SnakeData.points, htr₂, ← ht₁]
        rfl
      refine ⟨data₃, by simp only [ok_bind, if_true, hbox, hopen], hopened.wf hwf₂ htr₂ htne,
        by rw [hopened.points hwf₂, hpoints₂, hpoints₁], ⟨init, t, ht, ht₃⟩, ?_⟩
      intro ⟨init', t', binit', b', ht', hb', hcov⟩
      obtain ⟨rfl, -⟩ := List.append_inj' (ht.symm.trans ht') rfl
      obtain ⟨rfl, -⟩ := List.append_inj' (hb₁.symm.trans (hboxes₁.trans hb')) rfl
      refine ⟨init ++ [t ++ [head.pos]], [head.pos], binit ++ [trailBox (t ++ [head.pos])],
        qwaabbPoint head.pos, by rw [ht₃, List.append_assoc]; rfl, by rw [hopened.boxes, hb₂], ?_⟩
      exact List.rel_append hcov (.cons (covers_trailBox (by simp)) .nil)

/-- A segment that the fit asks for and that the ring buffer cannot take. -/
theorem extendCurve_full {data : SnakeData} (hwf : data.WF) {head : SnakeHead}
    (hroom : newestRoom mem data = true) (hneed : needsSegment mem num data head = true)
    (hfull : rbHasSpace mem data.headTrails = false) :
    extendCurve mem num data head = .error .nullSegment := by
  obtain ⟨data₁, _, t₀, h₁, h₂, -, hupdate, happ⟩ :=
    snakeUpdateCurveFromHead_spec num hwf hroom head
  obtain ⟨data₂, _, _, _, hbox, htrails₂, -⟩ := snakeUpdateHeadTrailAabb_spec mem (happ.wf hwf)
  rw [needsSegment, hupdate] at hneed
  have hfull₂ : rbHasSpace mem data₂.headTrails = false := by
    rw [htrails₂, happ.space_eq, hfull]
  unfold extendCurve
  rw [hupdate]
  simp only [ok_bind, if_pos hneed, hbox, snakeAddNewSegment_full hfull₂]

/-! ## Taking a point back -/

/-- What is related to a list with a last element has a last element. -/
theorem forall₂_concat {β γ : Type} {R : β → γ → Prop} {init : List β} {b : β} {l : List γ}
    (h : List.Forall₂ R (init ++ [b]) l) :
    ∃ linit g, l = linit ++ [g] ∧ List.Forall₂ R init linit ∧ R b g := by
  induction init generalizing l with
  | nil =>
      obtain ⟨g, rest, hb, hnil, rfl⟩ := List.forall₂_cons_left_iff.mp h
      cases hnil
      exact ⟨[], g, rfl, .nil, hb⟩
  | cons a init ih =>
      obtain ⟨g, rest, ha, hrest, rfl⟩ := List.forall₂_cons_left_iff.mp h
      obtain ⟨linit, g', rfl, hinit, hb⟩ := ih hrest
      exact ⟨g :: linit, g', rfl, .cons ha hinit, hb⟩

/-- The newest trail keeps other points. -/
theorem popPoint_inside {data : SnakeData} {init : List (List QwPos)} {t : List QwPos} {p : QwPos}
    (ht : data.trails = init ++ [t ++ [p]]) (hne : t ≠ []) :
    ∃ data', popPoint data = .ok data' ∧ data'.trails = init ++ [t] ∧
      data'.bezierHandles = data.bezierHandles ∧ data'.boxes = data.boxes := by
  obtain ⟨vinit, v, hlist, hinit, hv⟩ := SnakeData.exists_newest ht
  obtain ⟨v', hpop, hv'⟩ := vecPop_of_concat hv
  refine ⟨{ data with headTrails := rbSetWrite data.headTrails v' }, ?_, ?_, rfl, rfl⟩
  · simp only [popPoint, rbPeekWrite_of_concat hlist, ok_bind, hpop, hv', if_neg hne, pure_eq_ok]
  · rw [SnakeData.trails, rbToList_setWrite hlist, List.map_append, hinit, List.map_singleton, hv']

/-- The newest trail runs empty, and its segment goes with it. -/
theorem popPoint_boundary {data : SnakeData} (hwf : data.WF) {init : List (List QwPos)}
    {t : List QwPos} {p : QwPos} (ht : data.trails = init ++ [t ++ [p], [p]]) :
    ∃ data', popPoint data = .ok data' ∧ data'.trails = init ++ [t] ∧
      (∃ h, rbToList data.bezierHandles = rbToList data'.bezierHandles ++ [h]) ∧
      ∃ b, data.boxes = data'.boxes ++ [b] := by
  have hsplit : data.trails = (init ++ [t ++ [p]]) ++ [[p]] := by
    rw [ht, List.append_assoc]
    rfl
  obtain ⟨vinit₂, v, hlist, hinit₂, hv⟩ := SnakeData.exists_newest hsplit
  obtain ⟨vinit, w, rfl, hinit, hw⟩ : ∃ vinit w, vinit₂ = vinit ++ [w] ∧
      vinit.map Vec.items = init ∧ w.items = t ++ [p] := by
    obtain ⟨vinit, wlast, rfl, hinit, hwlast⟩ := List.map_eq_append_iff.mp hinit₂
    obtain ⟨w, rfl, hw⟩ := List.map_eq_singleton_iff.mp hwlast
    exact ⟨vinit, w, rfl, hinit, hw⟩
  obtain ⟨v', hpop, hv'⟩ := vecPop_of_concat (show v.items = [] ++ [p] from hv)
  obtain ⟨trails, htake, htrails⟩ := rbTakew_of_concat (rbToList_setWrite hlist v')
  obtain ⟨binit, b, hbox⟩ := hwf.exists_box
  obtain ⟨aabbs, htakeb, haabbs⟩ := rbTakew_of_concat hbox
  obtain ⟨hinit', h, hhlist⟩ : ∃ hinit' h, rbToList data.bezierHandles = hinit' ++ [h] := by
    refine (List.eq_nil_or_concat' _).resolve_left ?_
    intro hnil
    have := length_rbToList data.bezierHandles
    rw [hnil, hwf.handles_eq] at this
    simp at this
  obtain ⟨handles, htakeh, hhandles⟩ := rbTakew_of_concat hhlist
  obtain ⟨w', hpopw, hw'⟩ := vecPop_of_concat hw
  refine ⟨{ data with headTrails := rbSetWrite trails w', bezierHandles := handles,
                      bezierAabbs := aabbs }, ?_, ?_, ⟨h, ?_⟩, b, ?_⟩
  · simp only [popPoint, rbPeekWrite_of_concat hlist, ok_bind, hpop, hv', if_true, htake, htakeh,
      htakeb, rbPeekWrite_of_concat htrails, hpopw, pure_eq_ok]
  · rw [SnakeData.trails, rbToList_setWrite htrails, List.map_append, hinit, List.map_singleton,
      hw']
  · rw [hhlist, hhandles]
  · rw [hbox, SnakeData.boxes, haabbs]

/-- Taking back a point shortens the newest trail, or closes it and shortens the one before. -/
theorem popPoint_spec {data : SnakeData} (hwf : data.WF) (htwo : 2 ≤ data.points.length) :
    ∃ data', popPoint data = .ok data' ∧ data'.WF ∧
      data'.trails = Chain.keep (data.points.length - 1) data.trails ∧
      (data.ClosedBoxed → data'.ClosedBoxed) := by
  have hseg := hwf.segmented
  have hhandles := hwf.handles_eq
  have hboxes := hwf.boxes_eq
  rcases hseg.newest htwo with ⟨init, t, p, ht, hne⟩ | ⟨init, t, p, ht, hne⟩
  · obtain ⟨data', hpop, ht', hh', hb'⟩ := popPoint_inside ht hne
    rw [ht] at hseg hhandles hboxes
    have hseg' := hseg.unpush hne
    refine ⟨data', hpop, ⟨by rwa [ht'], ?_, ?_⟩, ?_, ?_⟩
    · rw [hh', ht', hhandles]
      simp
    · rw [hb', ht', hboxes]
      simp
    · rw [ht', SnakeData.points, ht, Chain.joined_push hseg', List.length_append,
        List.length_singleton, Nat.add_sub_cancel, Chain.keep_push hseg']
    · intro ⟨init', t', binit, b, hold, hb, hcov⟩
      obtain ⟨rfl, -⟩ := List.append_inj' (ht.symm.trans hold) rfl
      exact ⟨init, t, binit, b, ht', hb'.trans hb, hcov⟩
  · obtain ⟨data', hpop, ht', ⟨h, hh'⟩, b, hb'⟩ := popPoint_boundary hwf ht
    have hcount := rbCount_concat hh'
    have hsplit : data.trails = (init ++ [t ++ [p]]) ++ [[p]] := by
      rw [ht, List.append_assoc]
      rfl
    rw [ht] at hseg hhandles hboxes
    have hseg' := hseg.close.unpush hne
    refine ⟨data', hpop, ⟨by rwa [ht'], ?_, ?_⟩, ?_, ?_⟩
    · rw [ht']
      simp only [List.length_append, List.length_cons, List.length_nil] at hhandles ⊢
      omega
    · rw [hb'] at hboxes
      rw [ht']
      simp only [List.length_append, List.length_cons, List.length_nil] at hboxes ⊢
      omega
    · have hpoints : data.points = Chain.joined (init ++ [t]) ++ [p] := by
        rw [SnakeData.points, hsplit, Chain.joined_open (by simp), Chain.joined_push hseg']
      rw [ht', hpoints, List.length_append, List.length_singleton, Nat.add_sub_cancel, ht,
        Chain.keep_open hseg']
    · intro ⟨init', t', binit', b₁, hold, hb, hcov⟩
      obtain ⟨rfl, -⟩ := List.append_inj' (hsplit.symm.trans hold) rfl
      obtain ⟨rfl, -⟩ := List.append_inj' (hb'.symm.trans hb) rfl
      obtain ⟨binit, b₂, hbinit, hcov', -⟩ := forall₂_concat hcov
      exact ⟨init, t, binit, b₂, ht', hbinit, hcov'⟩

end Clither
