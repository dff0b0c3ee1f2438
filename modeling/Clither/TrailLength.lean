import Clither.CurveShape
import Clither.FitDeterminant
import Clither.SegmentGrowth

/-!
# How long a trail can get

A trail of 365 points or more has the determinant zero, whatever its points are, and the
error that the fit returns then opens a new segment.  So the newest trail has 364 points at
most, and a closed one 365.  A rollback goes back to a closed trail only when it takes a
point from it.
-/

namespace Clither

open Faults (bind_eq_ok)

variable {mem : Alloc} {num : Numerics} {fl : FitFloats}

/-- **The fit of a long trail** returns an error above the threshold. -/
theorem fit_error_of_long (fl : FitFloats) (head tail : BezierHandle) {trail : List QwPos}
    (h : 365 ≤ trail.length) (hlength : trail.length ≤ 32767) :
    (bezierFitTrail fl head tail trail).2.2 = 2 ^ 30 := by
  rw [bezierFitTrail]
  dsimp only
  rw [if_neg (by omega), if_neg (by omega), if_neg (by omega),
    if_pos (fitDet_eq_zero h hlength)]

/-! ## The trails -/

/-- The trails are short, and the newest one can grow still. -/
structure ShortTrails (data : SnakeData) : Prop where
  all : ∀ t ∈ data.trails, t.length ≤ 365
  newest : ∀ t, data.trails.getLast? = some t → t.length ≤ 364

/-- The bound is about the trails only. -/
theorem ShortTrails.of_trails {data data' : SnakeData} (h : ShortTrails data)
    (heq : data'.trails = data.trails) : ShortTrails data' :=
  ⟨by rw [heq]; exact h.all, by rw [heq]; exact h.newest⟩

/-- A push adds one point at most. -/
theorem length_vecPush {c : VecInstance} {α : Type} (mem : Alloc) (v : Vec c α) (elem : α) :
    (vecPush mem v elem).items.length ≤ v.items.length + 1 := by
  rw [vecPush]
  split_ifs <;> simp

/-- The fit leaves a trail of 364 points at most, or asks for a new segment. -/
theorem short_update {data data' : SnakeData} {head : SnakeHead} {need : Bool}
    (hshort : ShortTrails data)
    (h : snakeUpdateCurveFromHead mem (num.fitting fl) data head = .ok (data', need)) :
    (∀ t ∈ data'.trails, t.length ≤ 365) ∧ (need = false → ShortTrails data') := by
  obtain ⟨trail, hpeek, h⟩ := bind_eq_ok.mp h
  dsimp only at h
  split_ifs at h
  obtain ⟨headHandle, -, h⟩ := bind_eq_ok.mp h
  obtain ⟨tailHandle, -, h⟩ := bind_eq_ok.mp h
  cases h
  rcases List.eq_nil_or_concat' (rbToList data.headTrails) with hnil | ⟨init, last, hlist⟩
  · rw [rbPeekWrite_of_nil hnil] at hpeek
    cases hpeek
  rw [rbPeekWrite_of_concat hlist] at hpeek
  cases hpeek
  have htrails : data.trails = init.map Vec.items ++ [trail.items] := by
    rw [SnakeData.trails, hlist, List.map_append, List.map_singleton]
  have hv : trail.items.length ≤ 364 := by
    refine hshort.newest _ ?_
    rw [htrails, List.getLast?_concat]
  have hpushed := length_vecPush mem trail head.pos
  have hclosed (t : List QwPos) (ht : t ∈ init.map Vec.items) : t.length ≤ 365 :=
    hshort.all t (by rw [htrails]; exact List.mem_append_left _ ht)
  have hall : ∀ t ∈ init.map Vec.items ++ [(vecPush mem trail head.pos).items], t.length ≤ 365 := by
    intro t ht
    rcases List.mem_append.mp ht with ht | ht
    · exact hclosed t ht
    · rw [List.mem_singleton.mp ht]
      omega
  have htrails' (data' : SnakeData)
      (hset : data'.headTrails = rbSetWrite data.headTrails (vecPush mem trail head.pos)) :
      data'.trails = init.map Vec.items ++ [(vecPush mem trail head.pos).items] := by
    rw [SnakeData.trails, hset, rbToList_setWrite hlist, List.map_append, List.map_singleton]
  rw [htrails' _ rfl]
  refine ⟨hall, fun hneed => ⟨by rw [htrails' _ rfl]; exact hall, fun t ht => ?_⟩⟩
  rw [htrails' _ rfl, List.getLast?_concat] at ht
  obtain rfl := Option.some.inj ht
  by_contra hlong
  have herror := fit_error_of_long fl headHandle tailHandle
    (show 365 ≤ (vecPush mem trail head.pos).items.length by omega) (by omega)
  change decide ((bezierFitTrail fl headHandle tailHandle
    (vecPush mem trail head.pos).items).2.2 > fitThreshold) = false at hneed
  rw [herror] at hneed
  revert hneed
  decide

/-- Computing the box of the newest trail keeps the trails. -/
theorem trails_box {data data' : SnakeData} (h : snakeUpdateHeadTrailAabb data = .ok data') :
    data'.trails = data.trails := by
  obtain ⟨box, rfl⟩ := box_written h
  rfl

/-- Joining the boxes keeps the trails. -/
theorem trails_aabb {data data' : SnakeData} (h : snakeUpdateAabb data = .ok data') :
    data'.trails = data.trails := by
  obtain ⟨box, rfl⟩ := aabb_written h
  rfl

/-- A new trail has one point. -/
theorem short_addNewSegment {data data' : SnakeData} {head : SnakeHead}
    (hall : ∀ t ∈ data.trails, t.length ≤ 365)
    (h : snakeAddNewSegment mem data head = .ok data') : ShortTrails data' := by
  obtain ⟨trails, htrails, h⟩ := bind_eq_ok.mp h
  obtain ⟨handles, -, h⟩ := bind_eq_ok.mp h
  obtain ⟨aabbs, -, h⟩ := bind_eq_ok.mp h
  cases h
  rw [emplaced_eq_ok] at htrails
  have hnew := length_vecPush mem (vecInit : Trail) head.pos
  have heq (data' : SnakeData) (hset : data'.headTrails = trails) :
      data'.trails = data.trails ++ [(vecPush mem (vecInit : Trail) head.pos).items] := by
    rw [SnakeData.trails, hset, rbToList_rbPutRealloc htrails, List.map_append, List.map_singleton,
      SnakeData.trails]
  have hone : (vecPush mem (vecInit : Trail) head.pos).items.length ≤ 1 := hnew
  refine ⟨fun t ht => ?_, fun t ht => ?_⟩
  · rw [heq _ rfl] at ht
    rcases List.mem_append.mp ht with ht | ht
    · exact hall t ht
    · rw [List.mem_singleton.mp ht]
      omega
  · rw [heq _ rfl, List.getLast?_concat] at ht
    obtain rfl := Option.some.inj ht
    omega

/-- Extending the curve keeps the trails short: a trail too long to fit is closed. -/
theorem short_extendCurve {data data' : SnakeData} {head : SnakeHead} (hshort : ShortTrails data)
    (h : extendCurve mem (num.fitting fl) data head = .ok data') : ShortTrails data' := by
  obtain ⟨⟨data₁, need⟩, hupdate, h⟩ := bind_eq_ok.mp h
  obtain ⟨hall, hopen⟩ := short_update hshort hupdate
  cases need with
  | false =>
      cases h
      exact hopen rfl
  | true =>
      obtain ⟨data₂, hbox, h⟩ := bind_eq_ok.mp h
      exact short_addNewSegment (by rw [trails_box hbox]; exact hall) h

/-! ## A rollback -/

/-- A point is taken from the newest trail, or from the one before it. -/
theorem short_popPoint {data data' : SnakeData} (hshort : ShortTrails data)
    (h : popPoint data = .ok data') : ShortTrails data' := by
  have hpop {init : List Trail} {v popped : Trail} {trails : Rb qwposVecRb Trail}
      (hinit : ∀ t ∈ init, t.items.length ≤ 365) (hv : v.items.length ≤ 365)
      (hlist : rbToList trails = init ++ [v]) (hpopped : vecPop v = .ok popped)
      {data' : SnakeData} (hset : data'.headTrails = rbSetWrite trails popped) :
      ShortTrails data' := by
    have hlength : popped.items.length + 1 ≤ 365 := by
      rw [vecPop] at hpopped
      cases hitems : v.items with
      | nil =>
          rw [hitems] at hpopped
          cases hpopped
      | cons p ps =>
          rw [hitems] at hpopped
          cases hpopped
          rw [hitems, List.length_cons] at hv
          show (v.items.dropLast).length + 1 ≤ 365
          rw [hitems, List.length_dropLast, List.length_cons]
          omega
    have heq : data'.trails = init.map Vec.items ++ [popped.items] := by
      rw [SnakeData.trails, hset, rbToList_setWrite hlist, List.map_append, List.map_singleton]
    refine ⟨fun t ht => ?_, fun t ht => ?_⟩
    · rw [heq] at ht
      rcases List.mem_append.mp ht with ht | ht
      · obtain ⟨v', hv', rfl⟩ := List.mem_map.mp ht
        exact hinit v' hv'
      · rw [List.mem_singleton.mp ht]
        omega
    · rw [heq, List.getLast?_concat] at ht
      obtain rfl := Option.some.inj ht
      omega
  have hall (v : Trail) (hv : v ∈ rbToList data.headTrails) : v.items.length ≤ 365 :=
    hshort.all _ (List.mem_map_of_mem hv)
  obtain ⟨trail, hpeek, h⟩ := bind_eq_ok.mp h
  obtain ⟨popped, hpopped, h⟩ := bind_eq_ok.mp h
  rcases List.eq_nil_or_concat' (rbToList data.headTrails) with hnil | ⟨init, last, hlist⟩
  · rw [rbPeekWrite_of_nil hnil] at hpeek
    cases hpeek
  rw [rbPeekWrite_of_concat hlist] at hpeek
  cases hpeek
  rw [hlist] at hall
  have hinit (t : Trail) (ht : t ∈ init) := hall t (List.mem_append_left _ ht)
  dsimp only at h
  split_ifs at h with hempty
  · obtain ⟨⟨_, trails⟩, htrails, h⟩ := bind_eq_ok.mp h
    obtain ⟨⟨_, handles⟩, -, h⟩ := bind_eq_ok.mp h
    obtain ⟨⟨_, aabbs⟩, -, h⟩ := bind_eq_ok.mp h
    obtain ⟨trail', hpeek', h⟩ := bind_eq_ok.mp h
    obtain ⟨popped', hpopped', h⟩ := bind_eq_ok.mp h
    cases h
    obtain ⟨trails', htake, hrest⟩ := rbTakew_of_concat (rbToList_setWrite hlist popped)
    cases htake.symm.trans htrails
    rcases List.eq_nil_or_concat' (rbToList trails) with hnil | ⟨init', v', hlist'⟩
    · rw [rbPeekWrite_of_nil hnil] at hpeek'
      cases hpeek'
    · rw [rbPeekWrite_of_concat hlist'] at hpeek'
      cases hpeek'
      rw [hrest] at hlist'
      subst hlist'
      exact hpop (fun t ht => hinit t (List.mem_append_left _ ht))
        (hinit _ (List.mem_append_right _ List.mem_cons_self)) hrest hpopped' rfl
  · cases h
    exact hpop hinit (hall trail (List.mem_append_right _ List.mem_cons_self)) hlist hpopped rfl

/-- Taking points back shortens trails. -/
theorem short_popLoop {frame : UInt16} {turns : Nat} {predicted : UInt16} {data data' : SnakeData}
    (hshort : ShortTrails data) (h : popLoop frame turns predicted data = .ok data') :
    ShortTrails data' := by
  induction turns generalizing predicted data with
  | zero =>
      cases h
      exact hshort
  | succ turns ih =>
      rw [popLoop] at h
      split_ifs at h
      · obtain ⟨data₁, hpop, h⟩ := bind_eq_ok.mp h
        exact ih (short_popPoint hshort hpop) h
      · cases h
        exact hshort

/-- Replaying keeps the trails short, by induction on the commands. -/
theorem short_replayLoop {param : SnakeParam} {simTickRate : UInt8} {commands : List Cmd}
    {data data' : SnakeData} {head head' : SnakeHead} (hshort : ShortTrails data)
    (h : replayLoop mem (num.fitting fl) param simTickRate commands data head = .ok (data', head')) :
    ShortTrails data' := by
  induction commands generalizing data head with
  | nil =>
      cases h
      exact hshort
  | cons command rest ih =>
      obtain ⟨data₁, hext, h⟩ := bind_eq_ok.mp h
      exact ih (short_extendCurve hshort hext) h

/-- An acknowledgement keeps the trails short. -/
theorem short_ackFrame {snake snake' : Snake} {authoritative : SnakeHead} {frame : UInt16}
    {simTickRate : UInt8} (hshort : ShortTrails snake.data)
    (h : snakeAckFrame mem (num.fitting fl) snake authoritative frame simTickRate = .ok snake') :
    ShortTrails snake'.data := by
  rw [snakeAckFrame] at h
  dsimp only at h
  split_ifs at h
  · cases h
    exact hshort
  · cases h
    exact hshort
  · obtain ⟨⟨headAck, cmdq⟩, -, h⟩ := bind_eq_ok.mp h
    dsimp only at h
    split_ifs at h
    · cases h
      exact hshort
    · obtain ⟨trail, -, h⟩ := bind_eq_ok.mp h
      obtain ⟨data₁, hpop, h⟩ := bind_eq_ok.mp h
      obtain ⟨data₂, hext, h⟩ := bind_eq_ok.mp h
      obtain ⟨⟨data₃, head⟩, hreplay, h⟩ := bind_eq_ok.mp h
      obtain ⟨data₄, hbox, h⟩ := bind_eq_ok.mp h
      obtain ⟨data₅, haabb, h⟩ := bind_eq_ok.mp h
      cases h
      have hreplayed :=
        short_replayLoop (short_extendCurve (short_popLoop hshort hpop) hext) hreplay
      exact hreplayed.of_trails ((trails_aabb haabb).trans (trails_box hbox))

/-! ## Whole runs -/

/-- The trails left after taking one were there before. -/
theorem short_takeSegment {data data' : SnakeData} (hshort : ShortTrails data)
    (h : takeSegment data = .ok data') : ShortTrails data' := by
  obtain ⟨⟨first, trails⟩, htrails, h⟩ := bind_eq_ok.mp h
  obtain ⟨⟨_, handles⟩, -, h⟩ := bind_eq_ok.mp h
  obtain ⟨⟨_, aabbs⟩, -, h⟩ := bind_eq_ok.mp h
  cases h
  cases hlist : rbToList data.headTrails with
  | nil => cases (rbTake_of_nil hlist).symm.trans htrails
  | cons v rest =>
      obtain ⟨trails', htake, hrest⟩ := rbTake_of_cons hlist
      cases htake.symm.trans htrails
      have heq (data' : SnakeData) (hset : data'.headTrails = trails) :
          data.trails = first.items :: data'.trails := by
        rw [SnakeData.trails, SnakeData.trails, hset, hlist, hrest, List.map_cons]
      refine ⟨fun t ht => hshort.all t ?_, fun t ht => hshort.newest t ?_⟩
      · rw [heq { data with headTrails := trails } rfl]
        exact List.mem_cons_of_mem _ ht
      · change ({ data with headTrails := trails } : SnakeData).trails.getLast? = some t at ht
        rw [heq { data with headTrails := trails } rfl, List.getLast?_cons, ht]
        rfl

/-- So are those left after removing the stale ones. -/
theorem short_removeStale {data data' : SnakeData} {stale : Nat} (hshort : ShortTrails data)
    (h : snakeRemoveStaleSegments data stale = .ok data') : ShortTrails data' := by
  have hloop (n : Nat) : ∀ {data data'}, ShortTrails data → removeStaleLoop n data = .ok data' →
      ShortTrails data' := by
    induction n with
    | zero =>
        intro data data' hshort h
        cases h
        exact hshort
    | succ n ih =>
        intro data data' hshort h
        obtain ⟨data₁, htake, h⟩ := bind_eq_ok.mp h
        exact ih (short_takeSegment hshort htake) h
  rw [snakeRemoveStaleSegments] at h
  split_ifs at h
  obtain ⟨data₁, hremove, h⟩ := bind_eq_ok.mp h
  exact (hloop stale hshort hremove).of_trails (trails_aabb h)

/-- The same under the rollback constraint. -/
theorem short_removeStaleConstrained {data data' : SnakeData} {headAck : SnakeHead} {stale : Nat}
    (hshort : ShortTrails data)
    (h : snakeRemoveStaleSegmentsWithRollbackConstraint data headAck stale = .ok data') :
    ShortTrails data' := by
  have hloop (n : Nat) : ∀ {data data'}, ShortTrails data →
      removeStaleConstrainedLoop headAck n data = .ok data' → ShortTrails data' := by
    induction n with
    | zero =>
        intro data data' hshort h
        cases h
        exact hshort
    | succ n ih =>
        intro data data' hshort h
        obtain ⟨box, -, h⟩ := bind_eq_ok.mp h
        split_ifs at h
        · cases h
          exact hshort
        · obtain ⟨data₁, htake, h⟩ := bind_eq_ok.mp h
          exact ih (short_takeSegment hshort htake) h
  rw [snakeRemoveStaleSegmentsWithRollbackConstraint] at h
  split_ifs at h
  obtain ⟨data₁, hremove, h⟩ := bind_eq_ok.mp h
  exact (hloop stale hshort hremove).of_trails (trails_aabb h)

/-- One simulation step keeps the trails short. -/
theorem short_step {data data' : SnakeData} {head head' : SnakeHead} {param : SnakeParam}
    {command : Cmd} {simTickRate : UInt8} {stale : Nat} (hshort : ShortTrails data)
    (h : snakeStep mem (num.fitting fl) data head param command simTickRate =
      .ok (data', head', stale)) : ShortTrails data' := by
  simp only [snakeStep] at h
  obtain ⟨⟨data₁, need⟩, hupdate, h⟩ := bind_eq_ok.mp h
  obtain ⟨data₂, hbox, h⟩ := bind_eq_ok.mp h
  obtain ⟨data₃, haabb, h⟩ := bind_eq_ok.mp h
  have htrails := (trails_aabb haabb).trans (trails_box hbox)
  obtain ⟨hall, hopen⟩ := short_update hshort hupdate
  cases need with
  | false =>
      dsimp only at h
      rw [if_neg (by decide)] at h
      cases h
      exact (hopen rfl).of_trails htrails
  | true =>
      rw [if_pos rfl] at h
      obtain ⟨data₄, hadd, h⟩ := bind_eq_ok.mp h
      cases h
      exact short_addNewSegment (by rw [htrails]; exact hall) hadd

/-- A new snake's trail is short. -/
theorem short_snakeInit {spawnPos : QwPos} {snake : Snake} (h : snakeInit mem spawnPos = some snake) :
    ShortTrails snake.data := by
  have htrails : snake.data.trails = [[spawnPos]] := (snakeInit_spec h).1
  refine ⟨fun t ht => ?_, fun t ht => ?_⟩
  · rw [htrails, List.mem_singleton] at ht
    rw [ht, List.length_singleton]
    decide
  · rw [htrails, List.getLast?_singleton] at ht
    cases ht
    rw [List.length_singleton]
    decide

/-- Every event keeps the trails short. -/
theorem short_snakeEvent {simTickRate : UInt8} {s s' : SnakeRun} {e : SnakeEvent}
    (hshort : ShortTrails s.snake.data)
    (h : snakeEvent mem (num.fitting fl) simTickRate s e = .ok s') :
    ShortTrails s'.snake.data := by
  cases e with
  | step queue command =>
      simp only [snakeEvent] at h
      obtain ⟨⟨data, head, stale⟩, hstep, h⟩ := bind_eq_ok.mp h
      cases h
      exact short_step hshort hstep
  | removeStale constraint =>
      rw [snakeEvent] at h
      cases hstale : s.stale with
      | none =>
          rw [hstale] at h
          cases h
          exact hshort
      | some stale =>
          rw [hstale] at h
          cases constraint with
          | true =>
              obtain ⟨data, hremove, h⟩ := bind_eq_ok.mp h
              cases h
              exact short_removeStaleConstrained hshort hremove
          | false =>
              obtain ⟨data, hremove, h⟩ := bind_eq_ok.mp h
              cases h
              exact short_removeStale hshort hremove
  | ack frame authoritative =>
      obtain ⟨snake, hack, h⟩ := bind_eq_ok.mp h
      cases h
      exact short_ackFrame hshort hack

/-- **Trails stay short.**  The fit of a trail of 400 points or more asks for a new segment, and
in every state of a run no trail gets longer than that. -/
theorem trails_stay_short (mem : Alloc) (num : Numerics) (fl : FitFloats) (simTickRate : UInt8)
    (spawnPos : QwPos) (snake : Snake) (frame : UInt16)
    (hinit : snakeInit mem spawnPos = some snake) :
    (∀ head tail (trail : List QwPos), 400 ≤ trail.length → trail.length ≤ 32767 →
      fitThreshold < (bezierFitTrail fl head tail trail).2.2) ∧
    ∀ (events : List SnakeEvent) (s : SnakeRun),
      Run.run (snakeEvent mem (num.fitting fl) simTickRate) (SnakeRun.begin snake frame) events =
        .ok s → ∀ trail ∈ s.snake.data.trails, trail.length ≤ 400 := by
  constructor
  · intro head tail trail hlong hlength
    rw [fit_error_of_long fl head tail (by omega) hlength]
    decide
  · intro events s hrun trail htrail
    have hkeeps (s : SnakeRun) (e : SnakeEvent) (s' : SnakeRun)
        (hshort : ShortTrails s.snake.data) (_ : True)
        (hstep : snakeEvent mem (num.fitting fl) simTickRate s e = .ok s') :
        ShortTrails s'.snake.data := short_snakeEvent hshort hstep
    have hbegin : ShortTrails (SnakeRun.begin snake frame).snake.data := short_snakeInit hinit
    have hshort := Run.run_invariant hkeeps hbegin
      (Run.meets_of_forall (fun _ _ => trivial) _ events) hrun
    exact Nat.le_trans (hshort.all trail htrail) (by decide)

/-- What the floats are for a snake that crawls to the right. -/
def levelFloats : FitFloats where
  qwAngle := fun _ _ => qaPi
  qwLen := fun _ => 0
  q1616Angle := fun _ _ => qaPi
  q1616Len := fun _ => 0
  forwardsX := fun _ _ => 0
  forwardsY := fun _ _ => 0

/-- Six steps, and the last trail is fitted by regression. -/
def straightRun : List SnakeEvent :=
  List.replicate 6 (.step true cmdBoost)

/-- A straight run, in which segments are opened. -/
theorem trails_stay_short_straight :
    ∃ s, Run.run (snakeEvent Alloc.unlimited (closing.fitting levelFloats) 60)
        (SnakeRun.begin freshSnake 0) straightRun = .ok s ∧
      ∀ trail ∈ s.snake.data.trails, trail.length ≤ 400 := by
  cases hrun : Run.run (snakeEvent Alloc.unlimited (closing.fitting levelFloats) 60)
      (SnakeRun.begin freshSnake 0) straightRun with
  | error f =>
      have hok : (Run.run (snakeEvent Alloc.unlimited (closing.fitting levelFloats) 60)
        (SnakeRun.begin freshSnake 0) straightRun).isOk = true := by decide +kernel
      rw [hrun] at hok
      cases hok
  | ok s =>
      exact ⟨s, rfl, (trails_stay_short Alloc.unlimited closing levelFloats 60 ⟨0, 0⟩ freshSnake 0
        (by decide +kernel)).2 straightRun s hrun⟩

end Clither
