import Clither.Rollback

/-!
# When a rollback is right for every fitter

The fitter decides where the replay closes a trail and opens a new segment.
`mostSegments` counts the segments that it can open at most, and `ReplayFits`
says that these fit into the ring buffer of trails, whose indices have 8 bits.

`rollback_exact` shows that a rollback is a replay for every fitter exactly
when `ReplayFits` holds.  Two fitters decide it: one that closes every trail as
early as it may, and one that never closes any.
-/

namespace Clither

open Faults (bind_eq_ok)

variable {mem : Alloc} {num : Numerics} {simTickRate : UInt8}

/-! ## How many segments a replay can open -/

/-- A fitter that closes no trail of four points or fewer. -/
def FitsShortTrails (fit : BezierHandle → BezierHandle → List QwPos →
    BezierHandle × BezierHandle × Int) : Prop :=
  ∀ h t points, points.length ≤ 4 → (fit h t points).2.2 = 0

/-- The most segments that `n` points can open behind a newest trail of `len`
points: trails are closed at five points at the earliest. -/
def mostSegments (len n : Nat) : Nat :=
  (min len 4 + n - 1) / 4

/-- The number of points of the newest trail. -/
def newestLength (trails : List (List QwPos)) : Nat :=
  (trails.getLastD []).length

/-- Whatever the fitter does, the trails that remain when `n` points have been
taken back can take `n` points again. -/
def ReplayFits (data : SnakeData) (n : Nat) : Prop :=
  let kept := Chain.keep (data.points.length - n) data.trails
  kept.length + mostSegments (newestLength kept) n ≤ 63 ∧ newestLength kept + n ≤ 2 ^ 14

@[simp] theorem newestLength_concat (init : List (List QwPos)) (t : List QwPos) :
    newestLength (init ++ [t]) = t.length := by
  simp [newestLength]

theorem Vec.length_le_max {c : VecInstance} {β : Type} (v : Vec c β) :
    v.items.length ≤ 2 ^ 14 := by
  have hlen := v.length_le
  rcases v.capacity_eq with hzero | ⟨j, hj, hcap⟩
  · omega
  · have := Nat.pow_le_pow_right (show 0 < 2 by decide) (show j + 5 ≤ 14 by omega)
    omega

/-- The 8-bit ring buffer holds 63 trails at most. -/
theorem length_trails_le (data : SnakeData) : data.trails.length ≤ 63 := by
  rw [SnakeData.length_trails]
  unfold rbCount
  cases data.headTrails with
  | none => decide
  | some r =>
      have hfits : r.logCapacity + 1 < 8 := r.fits
      have hlt := r.count_lt
      have hcap : r.capacity ≤ 2 ^ 6 := Nat.pow_le_pow_right (by decide) (by omega)
      show r.count ≤ 63
      omega

/-- With memory for every request a trail takes `2 ^ 14` points. -/
theorem newestRoom_unlimited {data : SnakeData} {init : List (List QwPos)} {t : List QwPos}
    (ht : data.trails = init ++ [t]) :
    newestRoom Alloc.unlimited data = decide (t.length < 2 ^ 14) := by
  obtain ⟨vinit, v, hlist, -, hv⟩ := SnakeData.exists_newest ht
  simp only [newestRoom, rbPeekWrite_of_concat hlist, vecHasSpace_unlimited, hv]

/-- With memory for every request the trails are what runs out first. -/
theorem segmentRoom_of_counts {data : SnakeData}
    (hhandles : rbCount data.bezierHandles = rbCount data.headTrails + 1)
    (hboxes : rbCount data.bezierAabbs = rbCount data.headTrails) :
    segmentRoom Alloc.unlimited data = decide (rbCount data.headTrails < 63) := by
  have hle := length_trails_le data
  rw [SnakeData.length_trails] at hle
  have hvec : vecHasSpace Alloc.unlimited (vecInit : Trail) = true := by
    rw [vecHasSpace_unlimited]
    rfl
  have hbits : qwposVecRb.bits = 8 := rfl
  have hbits₁ : bezierHandleRb.bits = 16 := rfl
  have hbits₂ : qwaabbRb.bits = 16 := rfl
  rw [segmentRoom, rbHasSpace_unlimited, rbHasSpace_unlimited, rbHasSpace_unlimited, hvec, hhandles,
    hboxes, hbits, hbits₁, hbits₂, Bool.and_true, ← Bool.decide_and, ← Bool.decide_and,
    decide_eq_decide]
  omega

theorem segmentRoom_unlimited {data : SnakeData} (hwf : data.WF) :
    segmentRoom Alloc.unlimited data = decide (data.trails.length < 63) := by
  have hhandles := hwf.handles_eq
  have hboxes := hwf.boxes_eq
  rw [SnakeData.boxes, length_rbToList] at hboxes
  rw [SnakeData.length_trails] at *
  exact segmentRoom_of_counts hhandles hboxes

/-- The count of segments that remains enough for the rest of the points. -/
theorem mostSegments_push (len : Nat) {n : Nat} (hn : 0 < n) :
    mostSegments (len + 1) (n - 1) ≤ mostSegments len n := by
  unfold mostSegments
  apply Nat.div_le_div_right
  omega

/-- Opening a segment uses up one of them. -/
theorem mostSegments_open {len n : Nat} (hn : 0 < n) (hlen : 4 ≤ len) :
    1 + mostSegments 1 (n - 1) = mostSegments len n := by
  unfold mostSegments
  omega

/-- **Enough room for every fitter.** -/
theorem extendAllRoom_of_fits {heads : List SnakeHead} {data : SnakeData} (hwf : data.WF)
    (hshort : FitsShortTrails num.fitTrail) {init : List (List QwPos)} {t : List QwPos}
    (ht : data.trails = init ++ [t])
    (hcount : init.length + 1 + mostSegments t.length heads.length ≤ 63)
    (hlength : t.length + heads.length ≤ 2 ^ 14) :
    extendAllRoom Alloc.unlimited num heads data = true := by
  induction heads generalizing data init t with
  | nil => rfl
  | cons head rest ih =>
      simp only [List.length_cons] at hcount hlength
      have hnewest : newestRoom Alloc.unlimited data = true := by
        rw [newestRoom_unlimited ht]
        exact decide_eq_true (by omega)
      obtain ⟨init', t', h₁, h₂, ht', hneed⟩ := needsSegment_eq num hwf hnewest head
      obtain ⟨rfl, hlast⟩ := List.append_inj' (ht.symm.trans ht') rfl
      obtain rfl := List.singleton_inj.mp hlast
      -- a segment is only opened behind five points
      have hfive : needsSegment Alloc.unlimited num data head = true → 4 ≤ t.length := by
        intro h
        by_contra hlt
        rw [hneed, hshort h₁ h₂ _ (by simp; omega)] at h
        exact absurd h (by decide)
      have hroom : extendRoom Alloc.unlimited num data head = true := by
        rw [extendRoom, hnewest, Bool.true_and, segmentRoom_unlimited hwf, ht]
        cases hopen : needsSegment Alloc.unlimited num data head with
        | false => rfl
        | true =>
            have := mostSegments_open (show 0 < rest.length + 1 by omega) (hfive hopen)
            simp only [Bool.not_true, Bool.false_or, decide_eq_true_eq, List.length_append,
              List.length_singleton]
            omega
      obtain ⟨data₁, hext, hextended⟩ := extendCurve_spec hwf hroom
      simp only [extendAllRoom, hroom, hext, Bool.true_and]
      obtain ⟨init', t', ht', ht₁⟩ := hextended.trails
      obtain ⟨rfl, hlast⟩ := List.append_inj' (ht.symm.trans ht') rfl
      obtain rfl := List.singleton_inj.mp hlast
      cases hopen : needsSegment Alloc.unlimited num data head with
      | false =>
          rw [hopen, if_neg (by decide)] at ht₁
          have := mostSegments_push t.length (show 0 < rest.length + 1 by omega)
          apply ih hextended.wf ht₁ <;> simp only [List.length_append, List.length_singleton,
            Nat.add_sub_cancel] at * <;> omega
      | true =>
          rw [hopen, if_pos rfl] at ht₁
          have hsplit : data₁.trails = (init ++ [t ++ [head.pos]]) ++ [[head.pos]] := by
            rw [ht₁, List.append_assoc]
            rfl
          have := mostSegments_open (show 0 < rest.length + 1 by omega) (hfive hopen)
          apply ih hextended.wf hsplit <;> simp only [List.length_append, List.length_singleton,
            Nat.add_sub_cancel] at * <;> omega

/-! ## The two worst fitters -/

/-- A fitter that never closes a trail. -/
def neverFit (h t : BezierHandle) (_ : List QwPos) : BezierHandle × BezierHandle × Int :=
  (h, t, 0)

/-- A fitter that closes every trail at five points. -/
def eagerFit (h t : BezierHandle) (points : List QwPos) : BezierHandle × BezierHandle × Int :=
  (h, t, if 5 ≤ points.length then fitThreshold + 1 else 0)

theorem fitsShort_neverFit : FitsShortTrails neverFit := by
  intro h t points _
  rfl

theorem fitsShort_eagerFit : FitsShortTrails eagerFit := by
  intro h t points hlen
  simp only [eagerFit]
  rw [if_neg (by omega)]

/-- Without new segments only the newest trail grows. -/
theorem extendCurve_never {data data' : SnakeData} {head : SnakeHead} {init : List (List QwPos)}
    {t : List QwPos} (ht : data.trails = init ++ [t])
    (h : extendCurve mem { num with fitTrail := neverFit } data head = .ok data') :
    ∃ added, data'.trails = init ++ [t ++ added] := by
  obtain ⟨vinit, v, hlist, hinit, hv⟩ := SnakeData.exists_newest ht
  obtain ⟨⟨data₁, need⟩, hupdate, hrest⟩ := bind_eq_ok.mp h
  simp only [snakeUpdateCurveFromHead, rbPeekWrite_of_concat hlist, ok_bind] at hupdate
  split at hupdate
  · cases hupdate
  · obtain ⟨h₁, -, hupdate⟩ := bind_eq_ok.mp hupdate
    obtain ⟨h₂, -, hupdate⟩ := bind_eq_ok.mp hupdate
    cases hupdate
    cases hrest
    refine ⟨if vecHasSpace mem v then [head.pos] else [], ?_⟩
    have hset := rbToList_setWrite hlist (vecPush mem v head.pos)
    show (rbToList (rbSetWrite data.headTrails (vecPush mem v head.pos))).map Vec.items = _
    rw [hset, List.map_append, hinit, List.map_singleton, items_vecPush, hv]
    split <;> simp

theorem extendAll_never {heads : List SnakeHead} {data data' : SnakeData}
    {init : List (List QwPos)} {t : List QwPos} (ht : data.trails = init ++ [t])
    (h : extendAll mem { num with fitTrail := neverFit } heads data = .ok data') :
    ∃ added, data'.trails = init ++ [t ++ added] := by
  induction heads generalizing data t with
  | nil =>
      cases h
      exact ⟨[], by rw [ht, List.append_nil]⟩
  | cons head rest ih =>
      obtain ⟨data₁, hext, hrest⟩ := bind_eq_ok.mp h
      obtain ⟨added₁, ht₁⟩ := extendCurve_never ht hext
      obtain ⟨added₂, ht'⟩ := ih ht₁ hrest
      exact ⟨added₁ ++ added₂, by rw [ht', List.append_assoc]⟩

/-- **Too few trails.**  A fitter that closes every trail at five points fills
the ring buffer and the next segment goes through a null pointer. -/
theorem extendAll_eager {heads : List SnakeHead} {data : SnakeData} (hwf : data.WF)
    {init : List (List QwPos)} {t : List QwPos} (ht : data.trails = init ++ [t])
    (hcount : 63 < init.length + 1 + mostSegments t.length heads.length)
    (hlength : t.length + heads.length ≤ 2 ^ 14) :
    extendAll Alloc.unlimited { num with fitTrail := eagerFit } heads data =
      .error .nullSegment := by
  have hle := length_trails_le data
  rw [ht, List.length_append, List.length_singleton] at hle
  induction heads generalizing data init t with
  | nil =>
      exfalso
      have : mostSegments t.length 0 = 0 := by
        unfold mostSegments
        omega
      simp only [List.length_nil] at hcount
      omega
  | cons head rest ih =>
      simp only [List.length_cons] at hcount hlength
      have hnewest : newestRoom Alloc.unlimited data = true := by
        rw [newestRoom_unlimited ht]
        exact decide_eq_true (by omega)
      have hne : t ≠ [] := by
        have hseg := hwf.segmented
        rw [ht] at hseg
        exact hseg.last_ne_nil
      have hpos := List.length_pos_iff.mpr hne
      obtain ⟨init', t', h₁, h₂, ht', hneed⟩ :=
        needsSegment_eq { num with fitTrail := eagerFit } hwf hnewest head
      obtain ⟨rfl, hlast⟩ := List.append_inj' (ht.symm.trans ht') rfl
      obtain rfl := List.singleton_inj.mp hlast
      have hopens : needsSegment Alloc.unlimited { num with fitTrail := eagerFit } data head =
          decide (4 ≤ t.length) := by
        rw [hneed]
        simp only [eagerFit, List.length_append, List.length_singleton]
        by_cases hfour : 4 ≤ t.length
        · rw [if_pos (by omega), decide_eq_true hfour]
          rfl
        · rw [if_neg (by omega), decide_eq_false hfour]
          rfl
      by_cases hroom : extendRoom Alloc.unlimited { num with fitTrail := eagerFit } data head = true
      · -- the segment still fits, or none is opened yet
        obtain ⟨data₁, hext, hextended⟩ := extendCurve_spec hwf hroom
        obtain ⟨init', t', ht', ht₁⟩ := hextended.trails
        obtain ⟨rfl, hlast⟩ := List.append_inj' (ht.symm.trans ht') rfl
        obtain rfl := List.singleton_inj.mp hlast
        have hle₁ := length_trails_le data₁
        simp only [extendAll, hext, ok_bind]
        by_cases hfour : 4 ≤ t.length
        · rw [hopens, decide_eq_true hfour, if_pos rfl] at ht₁
          have hsplit : data₁.trails = (init ++ [t ++ [head.pos]]) ++ [[head.pos]] := by
            rw [ht₁, List.append_assoc]
            rfl
          have := mostSegments_open (show 0 < rest.length + 1 by omega) hfour
          rw [hsplit] at hle₁
          apply ih hextended.wf hsplit <;> simp only [List.length_append, List.length_singleton,
            Nat.add_sub_cancel] at * <;> omega
        · rw [hopens, decide_eq_false hfour, if_neg (by decide)] at ht₁
          have hsame : mostSegments (t.length + 1) rest.length =
              mostSegments t.length (rest.length + 1) := by
            unfold mostSegments
            rw [show min (t.length + 1) 4 + rest.length - 1 =
              min t.length 4 + (rest.length + 1) - 1 by omega]
          rw [ht₁] at hle₁
          apply ih hextended.wf ht₁ <;> simp only [List.length_append, List.length_singleton] at * <;>
            omega
      · -- the ring buffer is full
        rw [extendRoom, hnewest, Bool.true_and, segmentRoom_unlimited hwf] at hroom
        simp only [Bool.or_eq_true, Bool.not_eq_true', decide_eq_true_eq, not_or,
          Bool.not_eq_false] at hroom
        have hfull : rbHasSpace Alloc.unlimited data.headTrails = false := by
          rw [rbHasSpace_unlimited, ← SnakeData.length_trails]
          refine decide_eq_false ?_
          rw [show qwposVecRb.bits = 8 from rfl]
          omega
        rw [extendAll, extendCurve_full hwf hnewest hroom.1 hfull]
        rfl

/-! ## The exact condition -/

/-- The heads do not depend on the fitter. -/
theorem headsFrom_fit (fit : BezierHandle → BezierHandle → List QwPos →
    BezierHandle × BezierHandle × Int) (param : SnakeParam) (head : SnakeHead)
    (commands : List Cmd) :
    headsFrom { num with fitTrail := fit } param simTickRate head commands =
      headsFrom num param simTickRate head commands := by
  induction commands generalizing head with
  | nil => rfl
  | cons command rest ih => exact congrArg _ (ih _)

theorem replayedHeads_fit (fit : BezierHandle → BezierHandle → List QwPos →
    BezierHandle × BezierHandle × Int) (snake : Snake) (authoritative : SnakeHead) (k : Nat) :
    replayedHeads { num with fitTrail := fit } simTickRate snake authoritative k =
      replayedHeads num simTickRate snake authoritative k :=
  congrArg _ (headsFrom_fit fit _ _ _)

theorem length_replayedHeads (num : Numerics) (simTickRate : UInt8) (snake : Snake) (authoritative : SnakeHead) {k : Nat}
    (hk : k < snake.cmdq.count) :
    (replayedHeads num simTickRate snake authoritative k).length = snake.cmdq.count - k := by
  rw [replayedHeads, List.length_cons, length_headsFrom, List.length_drop,
    CmdQueue.length_commands]
  omega

/-- The last two steps of a rollback leave the trails alone. -/
theorem trails_of_updateBoxes {data data₁ data₂ : SnakeData}
    (h₁ : snakeUpdateHeadTrailAabb data = .ok data₁) (h₂ : snakeUpdateAabb data₁ = .ok data₂) :
    data₂.trails = data.trails := by
  have htrails₁ : data₁.headTrails = data.headTrails := by
    obtain ⟨_, -, h₁⟩ := bind_eq_ok.mp h₁
    obtain ⟨trail, -, h₁⟩ := bind_eq_ok.mp h₁
    split at h₁ <;> cases h₁
    rfl
  have htrails₂ : data₂.headTrails = data₁.headTrails := by
    unfold snakeUpdateAabb at h₂
    split at h₂ <;> cases h₂
    rfl
  rw [SnakeData.trails, htrails₂, htrails₁]
  rfl

/-- **Exactly when rollback equals replay.**  Take a frame that is still queued
and a head that differs from the acknowledged one.  The points of the frames
since are replaced by a replay, for every fitter that closes no trail of four
points or fewer, if and only if the segments it may open fit into the ring
buffer of trails and the points it may append fit into the newest trail. -/
theorem rollback_exact (num : Numerics) (simTickRate : UInt8) (snake : Snake)
    (authoritative : SnakeHead) (k : Nat) (hwf : snake.data.WF) (hk : k < snake.cmdq.count)
    (hlong : snake.cmdq.count - k < snake.data.points.length)
    (hdiff : ackedHead num simTickRate snake k ≠ authoritative) :
    (∀ fit, FitsShortTrails fit → ∃ snake',
      snakeAckFrame Alloc.unlimited { num with fitTrail := fit } snake authoritative
        (frameAt snake.cmdq.firstFrame k) simTickRate = .ok snake' ∧
      RolledBack num simTickRate snake authoritative k snake') ↔
    ReplayFits snake.data (snake.cmdq.count - k) := by
  have hlen := length_replayedHeads num simTickRate snake authoritative hk
  constructor
  · intro hall
    by_contra hnot
    -- the trails that remain are the same for both of the worst fitters
    have hreplay := fun fit => snakeAckFrame_replays Alloc.unlimited { num with fitTrail := fit }
      hwf hk hlong hdiff
    obtain ⟨data₁, cmdq', htake, hwf₁, ht₁, -, -, -, heq⟩ := hreplay neverFit
    obtain ⟨data₁', cmdq'', htake', hwf₁', ht₁', -, -, -, heq'⟩ := hreplay eagerFit
    obtain rfl := Except.ok.inj (htake.symm.trans htake')
    obtain ⟨init, t, ht, -⟩ := hwf₁.exists_concat
    rw [ReplayFits, ← ht₁, ht, newestLength_concat, List.length_append, List.length_singleton] at hnot
    by_cases hfits : t.length + (snake.cmdq.count - k) ≤ 2 ^ 14
    · obtain ⟨snake', hok, -⟩ := hall eagerFit fitsShort_eagerFit
      rw [replayedHeads_fit, extendAll_eager hwf₁ ht (by rw [hlen]; omega) (by rw [hlen]; omega)]
        at heq'
      rw [hok] at heq'
      cases heq'
    · obtain ⟨snake', hok, hrolled⟩ := hall neverFit fitsShort_neverFit
      rw [hok] at heq
      obtain ⟨data₂, hext, heq⟩ := bind_eq_ok.mp heq.symm
      obtain ⟨data₃, hbox, heq⟩ := bind_eq_ok.mp heq
      obtain ⟨data₄, hupdate, heq⟩ := bind_eq_ok.mp heq
      cases heq
      obtain ⟨added, hadded⟩ := extendAll_never ht hext
      have htrails := trails_of_updateBoxes hbox hupdate
      have hseg := hwf₁.segmented
      rw [ht] at hseg
      -- all the points would have had to go into the newest trail
      have hkept : snake.data.points.take
          (snake.data.points.length - (snake.cmdq.count - k)) = Chain.joined (init ++ [t]) := by
        rw [← ht, ht₁, Chain.joined_keep]
        rfl
      have hpoints : data₄.points = _ := hrolled.points
      rw [SnakeData.points, htrails, hadded, Chain.joined_pushAll hseg, hkept] at hpoints
      have hcount := congrArg List.length (List.append_cancel_left hpoints)
      rw [List.length_map, hlen] at hcount
      obtain ⟨_, v, -, -, hv⟩ := SnakeData.exists_newest hadded
      have hmax := v.length_le_max
      rw [hv, List.length_append] at hmax
      omega
  · intro hfits fit hshort
    obtain ⟨data₁, -, htake, hwf₁, ht₁, -⟩ := snakeAckFrame_replays Alloc.unlimited
      { num with fitTrail := fit } hwf hk hlong hdiff
    obtain ⟨init, t, ht, -⟩ := hwf₁.exists_concat
    rw [ReplayFits, ← ht₁, ht, newestLength_concat, List.length_append, List.length_singleton]
      at hfits
    have hroom : rollbackRoom Alloc.unlimited { num with fitTrail := fit } simTickRate snake
        authoritative k = true := by
      rw [rollbackRoom, htake]
      refine extendAllRoom_of_fits hwf₁ hshort ht ?_ ?_ <;> rw [replayedHeads_fit, hlen]
      · exact hfits.1
      · exact hfits.2
    have hdiff' : ackedHead { num with fitTrail := fit } simTickRate snake k ≠ authoritative :=
      hdiff
    obtain ⟨snake', hok, hrolled, -, -⟩ := snakeAckFrame_rollback hwf hk hlong hdiff' hroom
    refine ⟨snake', hok, hrolled.acked, ?_, hrolled.head, hrolled.headAck⟩
    rw [hrolled.points, replayedHeads_fit]

/-! ## A snake with 63 segments -/

/-- The trail after pushing the points of a list. -/
def trailOfList (points : List QwPos) : Trail :=
  points.foldl (vecPush Alloc.unlimited) vecInit

/-- A snake that rests at the origin, with trails of five points each and one
command in the queue. -/
def restingSnake (segments : Nat) : Snake where
  cmdq := { rb := rbOfList [cmdDefault], lastCommandRead := cmdDefault, firstFrame := 7 }
  param := snakeParamInit
  data :=
    { headTrails := rbOfList (List.replicate segments (trailOfList (List.replicate 5 ⟨0, 0⟩)))
      bezierHandles := rbOfList (List.replicate (segments + 1) (bezierHandleInit ⟨0, 0⟩ 0))
      bezierAabbs := rbOfList (List.replicate segments (qwaabbPoint ⟨0, 0⟩))
      aabb := qwaabbPoint ⟨0, 0⟩ }
  head := snakeHeadInit ⟨0, 0⟩
  headAck := snakeHeadInit ⟨0, 0⟩
  hold := false

/-- Sine and cosine of the angle 0, with the fitter that closes trails early. -/
def eastward : Numerics where
  qaCos := fun _ => 2 ^ 14
  qaSin := fun _ => 0
  fitTrail := eagerFit
  equidistantPoints := fun _ _ _ => 0

/-- A command that turns the head. -/
def turnedCmd : Cmd :=
  { cmdDefault with angle := 64 }

/-- A snake with trails of five and of two points, and three commands in the queue: the first is
for the last frame before the wrap. -/
def busySnake : Snake :=
  { restingSnake 2 with
    cmdq :=
      { rb := rbOfList [cmdDefault, turnedCmd, cmdDefault]
        lastCommandRead := cmdDefault
        firstFrame := 65535 }
    data :=
      { (restingSnake 2).data with
        headTrails := rbOfList [trailOfList (List.replicate 5 ⟨0, 0⟩),
          trailOfList (List.replicate 2 ⟨0, 0⟩)] } }

/-- The rollback of the first of the three frames takes back the newest segment and a point of the
one before, and is right, also when the fitter closes trails early. -/
theorem rollback_exact_busy : ∃ snake',
    snakeAckFrame Alloc.unlimited eastward busySnake (snakeHeadInit ⟨1, 1⟩) (frameAt 65535 0) 60 =
      .ok snake' ∧
    RolledBack eastward 60 busySnake (snakeHeadInit ⟨1, 1⟩) 0 snake' :=
  (rollback_exact eastward 60 busySnake (snakeHeadInit ⟨1, 1⟩) 0
    ⟨by decide +kernel, by decide +kernel, by decide +kernel⟩ (by decide +kernel) (by decide +kernel)
    (by decide +kernel)).mpr ⟨by decide +kernel, by decide +kernel⟩ eagerFit fitsShort_eagerFit

/-- With 63 segments the first one that the replay opens has no place: the
doubled capacity 128 is negative as an `int8_t`. -/
theorem rollback_crowded :
    (restingSnake 63).data.WF ∧ 0 < (restingSnake 63).cmdq.count ∧
    (restingSnake 63).cmdq.count - 0 < (restingSnake 63).data.points.length ∧
    ackedHead eastward 60 (restingSnake 63) 0 ≠ snakeHeadInit ⟨1, 1⟩ ∧
    FitsShortTrails eastward.fitTrail ∧
    ¬ ∃ snake', snakeAckFrame Alloc.unlimited eastward (restingSnake 63) (snakeHeadInit ⟨1, 1⟩)
        (frameAt 7 0) 60 = .ok snake' ∧
      RolledBack eastward 60 (restingSnake 63) (snakeHeadInit ⟨1, 1⟩) 0 snake' := by
  refine ⟨⟨by decide +kernel, by decide +kernel, by decide +kernel⟩, by decide +kernel,
    by decide +kernel, by decide +kernel, fitsShort_eagerFit, ?_⟩
  have hfault : snakeAckFrame Alloc.unlimited eastward (restingSnake 63) (snakeHeadInit ⟨1, 1⟩)
      (frameAt 7 0) 60 = .error .nullSegment := by decide +kernel
  intro ⟨snake', hok, _⟩
  rw [hfault] at hok
  cases hok

end Clither
