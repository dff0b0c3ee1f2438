import Clither.Lib.Pace
import Clither.Lib.Run
import Clither.Mem
import Mathlib.Data.Int.ModEq

/-!
# Keeping time

A `struct tick` remembers when the last tick was due.  `tick_wait` and
`tick_wait_warp` sleep until the next one is, `tick_advance` only asks whether it
has passed.  None of them reads the time that a tick took: the next deadline is
computed from the last deadline.

The monotonic clock is the environment.  A call of the wait functions comes with
the readings that it gets and with what `clock_nanosleep` does, a call of
`tick_advance` with one reading.
-/

namespace Clither

/-- `struct timespec`. -/
structure Timespec where
  tvSec : UInt64
  tvNsec : UInt64
  deriving DecidableEq

/-- The nanoseconds that each function computes from a reading. -/
def Timespec.nanos (ts : Timespec) : UInt64 :=
  ts.tvSec * 1000000000 + ts.tvNsec

/-- The deadline that is handed to `clock_nanosleep`. -/
def timespecUntil (waitUntil : UInt64) : Timespec where
  tvSec := waitUntil / 1000000000
  tvNsec := waitUntil - waitUntil / 1000000000 * 1000000000

/-- Splitting a time into seconds and nanoseconds loses nothing. -/
@[simp] theorem nanos_timespecUntil (waitUntil : UInt64) :
    (timespecUntil waitUntil).nanos = waitUntil := by
  simp only [timespecUntil, Timespec.nanos]
  grind

/-- `struct tick`. -/
structure Tick where
  interval : UInt64
  last : UInt64
  deriving DecidableEq

inductive TickFault where
  | divideByZero
  /-- The readings are used up before the call returns. -/
  | waiting
  deriving DecidableEq

/-- `1000000000 / tps`. -/
def tickPeriod (tps : Int) : Except TickFault UInt64 :=
  if tps = 0 then .error .divideByZero else .ok (UInt64.ofInt (Int.tdiv 1000000000 tps))

def tickCfg (now : Timespec) (tps : Int) : Except TickFault Tick :=
  match tickPeriod tps with
  | .error f => .error f
  | .ok interval => .ok { interval := interval, last := now.nanos }

/-- The intervals between a deadline and a later reading, as an `int`. -/
def ticksBehind (t : Tick) (now waitUntil : UInt64) : Except TickFault Int :=
  if t.interval = 0 then .error .divideByZero
  else .ok (wrapInt 32 ((now - waitUntil) / t.interval).toNat)

def tickAdvance (t : Tick) (now : Timespec) : Except TickFault (Tick × Int) :=
  let waitUntil := t.last + t.interval
  if now.nanos > waitUntil then
    match ticksBehind t now.nanos waitUntil with
    | .error f => .error f
    | .ok behind => .ok (if behind > 0 then { t with last := waitUntil } else t, behind)
  else .ok (t, 0)

/-- What the clock does to a call that waits: the first reading, the reading at
which `clock_nanosleep` is over unless it is interrupted, and those of the busy
loop. -/
structure Wakeup where
  now : Timespec
  sleep : Timespec → Option Timespec
  spins : List Timespec

/-- The busy loop, which ends with the first reading that is late enough. -/
def spinUntil (waitUntil : UInt64) : List Timespec → Except TickFault UInt64
  | [] => .error .waiting
  | ts :: rest => if ts.nanos < waitUntil then spinUntil waitUntil rest else .ok ts.nanos

/-- A call that has returned, and the clock when it does. -/
structure Waited where
  tick : Tick
  lag : Int
  clock : UInt64
  deriving DecidableEq

/-- The common part of `tick_wait` and `tick_wait_warp`. -/
def tickWaitUntil (t : Tick) (w : Wakeup) (waitUntil : UInt64) : Except TickFault Waited :=
  let tick := { t with last := waitUntil }
  if w.now.nanos > waitUntil then
    match ticksBehind t w.now.nanos waitUntil with
    | .error f => .error f
    | .ok lag => .ok { tick := tick, lag := lag, clock := w.now.nanos }
  else
    -- A context switch takes about a microsecond, so short waits are not slept through.
    match if waitUntil - w.now.nanos > 2000 then w.sleep (timespecUntil waitUntil) else none with
    | some woken => .ok { tick := tick, lag := 0, clock := woken.nanos }
    | none =>
        match spinUntil waitUntil w.spins with
        | .error f => .error f
        | .ok clock => .ok { tick := tick, lag := 0, clock := clock }

def tickWait (t : Tick) (w : Wakeup) : Except TickFault Waited :=
  tickWaitUntil t w (t.last + t.interval)

/-- The deadline of `tick_wait_warp`. -/
def warpedDeadline (t : Tick) (warp tps : Int) : Except TickFault UInt64 :=
  let waitUntil := t.last + t.interval
  if warp = 0 then .ok waitUntil
  else
    match tickPeriod tps with
    | .error f => .error f
    | .ok shift => .ok (if warp > 0 then waitUntil + shift else waitUntil - shift)

def tickWaitWarp (t : Tick) (w : Wakeup) (warp tps : Int) : Except TickFault Waited :=
  match warpedDeadline t warp tps with
  | .error f => .error f
  | .ok waitUntil => tickWaitUntil t w waitUntil

/-! ## What one call does -/

/-- A rate from one to 10⁹ has a period, and it is a positive number of nanoseconds. -/
theorem tickPeriod_of_pos {tps : Int} (hpos : 0 < tps) (hle : tps ≤ 1000000000) :
    ∃ interval, tickPeriod tps = .ok interval ∧ interval.toNat = 1000000000 / tps.toNat ∧
      0 < interval.toNat := by
  obtain ⟨n, rfl⟩ := Int.eq_ofNat_of_zero_le hpos.le
  have hn : 0 < n := by omega
  have hsmall : 1000000000 / n < 2 ^ 64 := by
    have := Nat.div_le_self 1000000000 n
    omega
  have hperiod : (UInt64.ofInt (Int.tdiv 1000000000 (n : Int))).toNat = 1000000000 / n := by
    have hquot : Int.tdiv 1000000000 (n : Int) = ((1000000000 / n : Nat) : Int) := rfl
    rw [hquot, UInt64.ofInt]
    have hmod (q : Nat) (hq : q < 2 ^ 64) : ((q : Int) % 2 ^ 64).toNat = q := by omega
    rw [hmod _ hsmall, UInt64.toNat_ofNat_of_lt' hsmall]
  refine ⟨_, if_neg hpos.ne', hperiod, ?_⟩
  rw [hperiod]
  exact Nat.div_pos (by omega) hn

/-- The deadline modulo the range of the clock: a warp moves it by one shift. -/
theorem warpedDeadline_modEq {t : Tick} {warp tps : Int} {shift waitUntil : UInt64}
    (hshift : tickPeriod tps = .ok shift) (h : warpedDeadline t warp tps = .ok waitUntil) :
    (waitUntil.toNat : Int) ≡
      t.last.toNat + t.interval.toNat + shift.toNat * warp.sign [ZMOD 2 ^ 64] := by
  unfold warpedDeadline at h
  rw [hshift] at h
  have hadd := UInt64.toNat_add t.last t.interval
  unfold Int.ModEq
  rcases Int.lt_trichotomy warp 0 with hneg | rfl | hpos
  · rw [if_neg hneg.ne] at h
    cases h
    rw [if_neg (by omega), UInt64.toNat_sub, Int.sign_eq_neg_one_of_neg hneg]
    have := shift.toNat_lt
    omega
  · cases h
    rw [Int.sign_zero]
    omega
  · rw [if_neg hpos.ne'] at h
    cases h
    rw [if_pos hpos, UInt64.toNat_add, Int.sign_eq_one_of_pos hpos]
    omega

/-- A call that returns leaves its deadline behind. -/
theorem tick_tickWaitUntil {t : Tick} {w : Wakeup} {waitUntil : UInt64} {waited : Waited}
    (h : tickWaitUntil t w waitUntil = .ok waited) :
    waited.tick = { t with last := waitUntil } := by
  unfold tickWaitUntil at h
  dsimp only at h
  split at h
  · split at h
    · cases h
    · cases h
      rfl
  · split at h
    · cases h
      rfl
    · split at h
      · cases h
      · cases h
        rfl

/-- The intervals that have passed since the last tick, without the first. -/
def Tick.goal (t : Tick) (now : UInt64) : Nat :=
  (now.toNat - t.last.toNat) / t.interval.toNat - 1

/-- The count that is due only grows with the clock. -/
theorem Tick.goal_le_goal (t : Tick) {now later : UInt64} (h : now ≤ later) :
    t.goal now ≤ t.goal later := by
  have hle := UInt64.le_iff_toNat_le.mp h
  have hdiv : (now.toNat - t.last.toNat) / t.interval.toNat ≤
      (later.toNat - t.last.toNat) / t.interval.toNat := Nat.div_le_div_right (by omega)
  simp only [Tick.goal]
  omega

/-- The goal is two intervals behind at most. -/
theorem Tick.lt_of_goal {t : Tick} (hinterval : 0 < t.interval.toNat) (now : UInt64) :
    now.toNat < t.last.toNat + (t.goal now + 2) * t.interval.toNat := by
  have hdiv := Nat.lt_mul_div_succ (now.toNat - t.last.toNat) hinterval
  have hle : (now.toNat - t.last.toNat) / t.interval.toNat + 1 ≤ t.goal now + 2 := by
    simp only [Tick.goal]
    omega
  have hmul := Nat.mul_le_mul_left t.interval.toNat hle
  rw [Nat.mul_comm (t.goal now + 2)]
  omega

/-- Within an interval the goal goes up by one at most. -/
theorem Tick.goal_le_succ {t : Tick} (hinterval : 0 < t.interval.toNat) {now later : UInt64}
    (hlast : t.last ≤ now) (h : later.toNat ≤ now.toNat + t.interval.toNat) :
    t.goal later ≤ t.goal now + 1 := by
  have hle := UInt64.le_iff_toNat_le.mp hlast
  have hdiv : (later.toNat - t.last.toNat) / t.interval.toNat ≤
      (now.toNat - t.last.toNat + t.interval.toNat) / t.interval.toNat :=
    Nat.div_le_div_right (by omega)
  rw [Nat.add_div_right _ hinterval] at hdiv
  simp only [Tick.goal]
  omega

section

variable {t : Tick}

/-- Up to 2³¹ intervals behind, the lag is the quotient of the delay and the interval. -/
theorem ticksBehind_of_le {now waitUntil : UInt64} (hinterval : 0 < t.interval.toNat)
    (hle : waitUntil.toNat ≤ now.toNat)
    (hnear : now.toNat < waitUntil.toNat + 2 ^ 31 * t.interval.toNat) :
    ticksBehind t now waitUntil =
      .ok (((now.toNat - waitUntil.toNat) / t.interval.toNat : Nat) : Int) := by
  have hne : t.interval ≠ 0 := by
    intro h
    rw [h] at hinterval
    exact Nat.lt_irrefl 0 hinterval
  have hsub : (now - waitUntil).toNat = now.toNat - waitUntil.toNat :=
    UInt64.toNat_sub_of_le _ _ (UInt64.le_iff_toNat_le.mpr hle)
  have hlt : (now.toNat - waitUntil.toNat) / t.interval.toNat < 2 ^ 31 := by
    apply (Nat.div_lt_iff_lt_mul hinterval).mpr
    omega
  rw [ticksBehind, if_neg hne, UInt64.toNat_div, hsub,
    wrapInt_of_lt (by decide) (by positivity) (by exact_mod_cast hlt)]

/-- The deadline one interval on does not wrap while it fits 64 bits. -/
theorem toNat_last_add (hrange : t.last.toNat + t.interval.toNat < 2 ^ 64) :
    (t.last + t.interval).toNat = t.last.toNat + t.interval.toNat := by
  rw [UInt64.toNat_add, Nat.mod_eq_of_lt hrange]

/-- A tick passes if its goal is not zero, and only one. -/
theorem tickAdvance_eq {now : Timespec} (hinterval : 0 < t.interval.toNat)
    (hrange : t.last.toNat + t.interval.toNat < 2 ^ 64)
    (hnear : now.nanos.toNat < t.last.toNat + 2 ^ 31 * t.interval.toNat) :
    tickAdvance t now =
      .ok (if 0 < t.goal now.nanos then { t with last := t.last + t.interval } else t,
        (t.goal now.nanos : Int)) := by
  have hwait := toNat_last_add hrange
  have hgoal : t.goal now.nanos =
      (now.nanos.toNat - (t.last + t.interval).toNat) / t.interval.toNat := by
    have hshift := Nat.sub_mul_div (now.nanos.toNat - t.last.toNat) t.interval.toNat 1
    rw [Nat.mul_one, Nat.sub_sub] at hshift
    rw [hwait, hshift, Tick.goal]
  unfold tickAdvance
  by_cases hlate : now.nanos > t.last + t.interval
  · have hlt := UInt64.lt_iff_toNat_lt.mp hlate
    have hbehind := ticksBehind_of_le hinterval hlt.le (by omega)
    simp only [hlate, if_true, hbehind, ← hgoal, Int.natCast_pos]
  · have hle := UInt64.le_iff_toNat_le.mp (UInt64.not_lt.mp hlate)
    have hzero : t.goal now.nanos = 0 := by
      rw [hgoal, Nat.sub_eq_zero_of_le hle, Nat.zero_div]
    simp only [hlate, if_false, hzero, Nat.lt_irrefl]
    rfl

end

/-! ## Polling -/

/-- A tick, the clock as its last call has left it, and what its calls have
returned. -/
structure TickRun where
  tick : Tick
  clock : UInt64
  answers : List Int
  deriving DecidableEq

def TickRun.begin (tick : Tick) : TickRun where
  tick := tick
  clock := tick.last
  answers := []

def TickRun.answered (r : TickRun) (tick : Tick) (clock : UInt64) (answer : Int) : TickRun where
  tick := tick
  clock := clock
  answers := r.answers ++ [answer]

/-- A call of `tick_advance`. -/
def tickPoll (r : TickRun) (now : Timespec) : Except TickFault TickRun :=
  (tickAdvance r.tick now).map fun answer => r.answered answer.1 now.nanos answer.2

/-- A call of `tick_wait`. -/
def tickSleep (r : TickRun) (w : Wakeup) : Except TickFault TickRun :=
  (tickWait r.tick w).map fun waited => r.answered waited.tick waited.clock waited.lag

/-- How often a tick has passed. -/
def TickRun.fires (r : TickRun) : Nat :=
  r.answers.countP fun answer => answer ≠ 0

/-- A poll fires once when its answer is not zero. -/
theorem fires_answered (r : TickRun) (tick : Tick) (clock : UInt64) (answer : Int) :
    (r.answered tick clock answer).fires = r.fires + if answer ≠ 0 then 1 else 0 := by
  simp [TickRun.fires, TickRun.answered, List.countP_append, List.countP_singleton]

/-- The same for an answer written as a natural number. -/
theorem fires_answered_behind (r : TickRun) (tick : Tick) (clock : UInt64) (behind : Nat) :
    (r.answered tick clock behind).fires = r.fires + if 0 < behind then 1 else 0 := by
  rw [fires_answered]
  grind

/-- So many ticks have passed since `start`. -/
structure Fired (start : Tick) (count : Nat) (t : Tick) : Prop where
  interval : t.interval = start.interval
  last : t.last.toNat = start.last.toNat + count * start.interval.toNat
  range : start.last.toNat + (count + 1) * start.interval.toNat < 2 ^ 64

section

variable {start t : Tick}

/-- After `count` ticks the goal is lower by exactly that count. -/
theorem Fired.goal {count : Nat} (h : Fired start count t) (now : UInt64) :
    t.goal now = start.goal now - count := by
  have hshift := Nat.sub_mul_div (now.toNat - start.last.toNat) start.interval.toNat count
  rw [Nat.sub_sub, Nat.mul_comm] at hshift
  rw [Tick.goal, h.last, h.interval, hshift, Tick.goal]
  omega

/-- **One poll** lets the number of ticks follow the goal. -/
theorem Fired.poll {count : Nat} (h : Fired start count t) (hinterval : 0 < start.interval.toNat)
    {now : Timespec}
    (hnear : now.nanos.toNat < t.last.toNat + 2 ^ 31 * start.interval.toNat) :
    ∃ t', tickAdvance t now = .ok (t', ((start.goal now.nanos - count : Nat) : Int)) ∧
      Fired start (Pace.follow count (start.goal now.nanos)) t' := by
  have hlast := h.last
  have hrange := h.range
  rw [Nat.add_mul, Nat.one_mul] at hrange
  have hadvance := @tickAdvance_eq t now (by rw [h.interval]; exact hinterval)
    (by rw [h.interval]; omega) (by rw [h.interval]; omega)
  rw [h.goal now.nanos] at hadvance
  refine ⟨_, hadvance, ?_⟩
  by_cases hpass : 0 < start.goal now.nanos - count
  · have hlt : count < start.goal now.nanos := by omega
    have hreached : (count + 1 + 1) * start.interval.toNat ≤
        now.nanos.toNat - start.last.toNat := by
      apply (Nat.le_div_iff_mul_le hinterval).mp
      simp only [Tick.goal] at hlt
      omega
    have hadd : (t.last + t.interval).toNat = t.last.toNat + t.interval.toNat := by
      apply toNat_last_add
      rw [h.interval]
      omega
    rw [Pace.follow, if_pos hlt, if_pos hpass]
    refine ⟨h.interval, ?_, ?_⟩
    · rw [hadd, hlast, h.interval, Nat.add_mul, Nat.one_mul, Nat.add_assoc]
    · have hclock := now.nanos.toNat_lt
      have hpos : 0 < (count + 1 + 1) * start.interval.toNat := by positivity
      omega
  · have hge : ¬ count < start.goal now.nanos := by omega
    rw [Pace.follow, if_neg hge, if_neg hpass]
    exact ⟨h.interval, hlast, h.range⟩

/-- The `int` that a poll computes does not wrap: the reading is less than `2 ^ 31` intervals behind
the deadline. -/
def NotFarBehind (r : TickRun) (now : Timespec) : Prop :=
  now.nanos.toNat < r.tick.last.toNat + 2 ^ 31 * r.tick.interval.toNat

instance (r : TickRun) (now : Timespec) : Decidable (NotFarBehind r now) :=
  inferInstanceAs (Decidable (_ < _))

/-- Any number of polls moves the tick count as `Pace.follow` moves it towards each goal. -/
theorem Fired.polls {count : Nat} {r : TickRun} (h : Fired start count r.tick)
    (hfires : r.fires = count) (hinterval : 0 < start.interval.toNat) {polls : List Timespec}
    (hnear : Run.Meets tickPoll NotFarBehind r polls) :
    ∃ r', Run.run tickPoll r polls = .ok r' ∧
      r'.fires = ((polls.map Timespec.nanos).map start.goal).foldl Pace.follow count ∧
      Fired start r'.fires r'.tick := by
  induction polls generalizing count r with
  | nil => exact ⟨r, rfl, hfires, hfires ▸ h⟩
  | cons now rest ih =>
      obtain ⟨hnow, hrest⟩ := hnear
      rw [NotFarBehind, h.interval] at hnow
      obtain ⟨t', hadvance, ht'⟩ := h.poll hinterval hnow
      have hpoll : tickPoll r now =
          .ok (r.answered t' now.nanos ((start.goal now.nanos - count : Nat) : Int)) := by
        rw [tickPoll, hadvance]
        rfl
      have hcount : (r.answered t' now.nanos ((start.goal now.nanos - count : Nat) : Int)).fires =
          Pace.follow count (start.goal now.nanos) := by
        rw [fires_answered_behind, hfires, Pace.follow_eq_add]
      obtain ⟨r', hrun, hr'⟩ := ih ht' hcount (hrest _ hpoll)
      exact ⟨r', (Run.run_cons_ok hpoll rest).trans hrun, hr'⟩

/-- Readings that come at least once per interval let the goal go up one by one. -/
theorem Tick.isChain_goal (hinterval : 0 < t.interval.toNat) {clock : UInt64}
    {readings : List UInt64} (hlast : t.last ≤ clock)
    (hclock : (clock :: readings).IsChain (· ≤ ·))
    (hoften : (clock :: readings).IsChain
      fun now later => later.toNat ≤ now.toNat + t.interval.toNat) :
    (t.goal clock :: readings.map t.goal).IsChain fun a b => a ≤ b ∧ b ≤ a + 1 := by
  induction readings generalizing clock with
  | nil => exact .singleton _
  | cons later rest ih =>
      obtain ⟨hle, hclock⟩ := List.isChain_cons_cons.mp hclock
      obtain ⟨hstep, hoften⟩ := List.isChain_cons_cons.mp hoften
      refine List.isChain_cons_cons.mpr ⟨⟨?_, ?_⟩, ih (UInt64.le_trans hlast hle) hclock hoften⟩
      · exact t.goal_le_goal hle
      · exact Tick.goal_le_succ hinterval hlast hstep

/-- **`tick_advance` counts the intervals.**  However irregularly it is called, a
tick passes at most once per call and never before two intervals are over, and
the count is the greatest that this allows; called at least once per interval it
is exactly the number of whole intervals without the first. -/
theorem tick_advance_exact (hinterval : 0 < start.interval.toNat)
    (hrange : start.last.toNat + start.interval.toNat < 2 ^ 64) {polls : List Timespec}
    (hclock : (start.last :: polls.map Timespec.nanos).IsChain (· ≤ ·))
    (hnear : Run.Meets tickPoll NotFarBehind (TickRun.begin start) polls) :
    ∃ r, Run.run tickPoll (TickRun.begin start) polls = .ok r ∧
      r.tick.last.toNat = start.last.toNat + r.fires * start.interval.toNat ∧
      IsLeast {count | Pace.Bound 0 ((polls.map Timespec.nanos).map start.goal) count} r.fires ∧
      ((start.last :: polls.map Timespec.nanos).IsChain
          (fun now later => later.toNat ≤ now.toNat + start.interval.toNat) →
        r.fires = ((polls.map Timespec.nanos).map start.goal).getLast?.getD 0) := by
  have hbegin : Fired start 0 (TickRun.begin start).tick :=
    ⟨rfl, by simp [TickRun.begin], by simpa using hrange⟩
  obtain ⟨r, hrun, hfires, hr⟩ := hbegin.polls rfl hinterval hnear
  have hzero : start.goal start.last = 0 := by simp [Tick.goal]
  refine ⟨r, hrun, hr.last, ?_, ?_⟩
  · have hrising : (0 :: (polls.map Timespec.nanos).map start.goal).IsChain (· ≤ ·) := by
      rw [← hzero, ← List.map_cons]
      exact List.isChain_map_of_isChain start.goal (fun _ _ => start.goal_le_goal) hclock
    rw [hfires]
    exact Pace.foldl_follow_isLeast hrising
  · intro hoften
    have hsteady := Tick.isChain_goal hinterval (UInt64.le_refl _) hclock hoften
    rw [hzero] at hsteady
    rw [hfires]
    exact Pace.foldl_follow_of_steady hsteady

/-- Four polls of a 10 ns tick that started at 100: four ticks, the deadline on the last of them. -/
theorem tick_advance_exact_sample :
    ∃ r, Run.run tickPoll (TickRun.begin ⟨10, 100⟩)
        [⟨0, 105⟩, ⟨0, 138⟩, ⟨0, 139⟩, ⟨0, 140⟩] = .ok r ∧
      r.tick.last.toNat = 100 + r.fires * 10 ∧
      IsLeast {count | Pace.Bound 0 [0, 2, 2, 3] count} r.fires := by
  obtain ⟨r, hrun, hlast, hleast, -⟩ := @tick_advance_exact ⟨10, 100⟩ (by decide) (by decide)
    [⟨0, 105⟩, ⟨0, 138⟩, ⟨0, 139⟩, ⟨0, 140⟩] (by decide) (by decide +kernel)
  exact ⟨r, hrun, hlast, hleast⟩

end

/-! ## Waiting -/

/-- The deadline after so many calls, as the code computes it. -/
def Tick.deadline (t : Tick) (count : Nat) : UInt64 :=
  t.last + UInt64.ofNat count * t.interval

/-- The whole intervals by which a call comes after a deadline, as an `int`. -/
def Tick.lag (t : Tick) (now waitUntil : UInt64) : Int :=
  wrapInt 32 ((now.toNat - waitUntil.toNat) / t.interval.toNat : Nat)

/-- Each deadline is one interval behind the next. -/
theorem deadline_succ (t : Tick) (count : Nat) :
    t.deadline (count + 1) = t.deadline count + t.interval := by
  simp only [Tick.deadline, UInt64.ofNat_add]
  grind

/-- The deadlines are evenly spaced as long as they fit 64 bits. -/
theorem toNat_deadline {t : Tick} {count : Nat}
    (hrange : t.last.toNat + count * t.interval.toNat < 2 ^ 64) :
    (t.deadline count).toNat = t.last.toNat + count * t.interval.toNat := by
  have hcast : t.deadline count =
      UInt64.ofNat (t.last.toNat + count * t.interval.toNat) := by
    rw [Tick.deadline, UInt64.ofNat_add, UInt64.ofNat_mul, UInt64.ofNat_toNat, UInt64.ofNat_toNat]
  rw [hcast, UInt64.toNat_ofNat_of_lt' hrange]

/-- A sleep that is not interrupted is not over early. -/
def Wakeup.SleepsThrough (w : Wakeup) : Prop :=
  ∀ waitUntil woken, w.now.nanos ≤ waitUntil → w.sleep (timespecUntil waitUntil) = some woken →
    waitUntil ≤ woken.nanos

/-- What the clock promises to a call that is to be in time: it does not go back, a sleep is at most
`latency` late, and the busy loop looks at the clock at least that often. -/
structure KeepsTime (latency : Nat) (clock : UInt64) (w : Wakeup) : Prop where
  now : clock ≤ w.now.nanos
  sleeps : w.SleepsThrough
  late : ∀ waitUntil woken, w.now.nanos ≤ waitUntil →
    w.sleep (timespecUntil waitUntil) = some woken → woken.nanos.toNat ≤ waitUntil.toNat + latency
  spins : (w.now.nanos :: w.spins.map Timespec.nanos).IsChain
    fun now later => later.toNat ≤ now.toNat + latency

section

variable {t start : Tick} {latency : Nat} {clock waitUntil : UInt64} {w : Wakeup}

/-- The busy loop ends behind the deadline. -/
theorem le_of_spinUntil {spins : List Timespec} {late : UInt64}
    (h : spinUntil waitUntil spins = .ok late) : waitUntil ≤ late := by
  induction spins with
  | nil => cases h
  | cons ts rest ih =>
      rw [spinUntil] at h
      by_cases hearly : ts.nanos < waitUntil
      · rw [if_pos hearly] at h
        exact ih h
      · rw [if_neg hearly] at h
        cases h
        exact UInt64.not_lt.mp hearly

/-- It has looked at the clock shortly before. -/
theorem spinUntil_prompt {spins : List Timespec} {now late : UInt64} (hnow : now ≤ waitUntil)
    (hspins : (now :: spins.map Timespec.nanos).IsChain
      fun now later => later.toNat ≤ now.toNat + latency)
    (h : spinUntil waitUntil spins = .ok late) : late.toNat ≤ waitUntil.toNat + latency := by
  induction spins generalizing now with
  | nil => cases h
  | cons ts rest ih =>
      obtain ⟨hstep, hrest⟩ := List.isChain_cons_cons.mp hspins
      rw [spinUntil] at h
      by_cases hearly : ts.nanos < waitUntil
      · rw [if_pos hearly] at h
        exact ih (UInt64.le_of_lt hearly) hrest h
      · rw [if_neg hearly] at h
        cases h
        have hle := UInt64.le_iff_toNat_le.mp hnow
        omega

/-- What `ticks_behind` returns for a late call is the lag. -/
theorem ticksBehind_lag {now : UInt64} {lag : Int} (hlate : waitUntil < now)
    (h : ticksBehind t now waitUntil = .ok lag) : lag = t.lag now waitUntil := by
  unfold ticksBehind at h
  split at h
  · cases h
  · rw [← Except.ok.inj h, Tick.lag, UInt64.toNat_div,
      UInt64.toNat_sub_of_le _ _ (UInt64.le_of_lt hlate)]

/-- A call before its deadline has no lag. -/
theorem lag_of_le {now : UInt64} (h : now ≤ waitUntil) : t.lag now waitUntil = 0 := by
  have hle := UInt64.le_iff_toNat_le.mp h
  rw [Tick.lag, Nat.sub_eq_zero_of_le hle, Nat.zero_div]
  rfl

/-- How a call that returns has waited: it was late, it has slept, or it has watched the clock. -/
inductive WaitedFor (t : Tick) (w : Wakeup) (waitUntil : UInt64) : Int → UInt64 → Prop where
  | late {lag : Int} (hlate : waitUntil < w.now.nanos)
      (hlag : ticksBehind t w.now.nanos waitUntil = .ok lag) :
      WaitedFor t w waitUntil lag w.now.nanos
  | slept {woken : Timespec} (hle : w.now.nanos ≤ waitUntil)
      (hsleep : w.sleep (timespecUntil waitUntil) = some woken) :
      WaitedFor t w waitUntil 0 woken.nanos
  | watched {clock : UInt64} (hle : w.now.nanos ≤ waitUntil)
      (hspin : spinUntil waitUntil w.spins = .ok clock) : WaitedFor t w waitUntil 0 clock

/-- Whatever branch `tick_wait_until` takes, it waits for the deadline and returns the lag. -/
theorem waitedFor {waited : Waited} (h : tickWaitUntil t w waitUntil = .ok waited) :
    WaitedFor t w waitUntil waited.lag waited.clock := by
  unfold tickWaitUntil at h
  by_cases hlate : w.now.nanos > waitUntil
  · simp only [hlate, if_true] at h
    cases hbehind : ticksBehind t w.now.nanos waitUntil with
    | error f =>
        rw [hbehind] at h
        cases h
    | ok lag =>
        rw [hbehind] at h
        cases h
        exact .late hlate hbehind
  · have hle : w.now.nanos ≤ waitUntil := UInt64.not_lt.mp hlate
    simp only [hlate, if_false] at h
    cases hsleep : (if waitUntil - w.now.nanos > 2000 then w.sleep (timespecUntil waitUntil)
        else none) with
    | some woken =>
        rw [hsleep] at h
        cases h
        have hwoken : w.sleep (timespecUntil waitUntil) = some woken := by
          split at hsleep
          · exact hsleep
          · cases hsleep
        exact .slept hle hwoken
    | none =>
        rw [hsleep] at h
        cases hspin : spinUntil waitUntil w.spins with
        | error f =>
            rw [hspin] at h
            cases h
        | ok late =>
            rw [hspin] at h
            cases h
            exact .watched hle hspin

/-- No call returns before its deadline. -/
theorem WaitedFor.early {lag : Int} {late : UInt64} (h : WaitedFor t w waitUntil lag late)
    (hsleeps : w.SleepsThrough) : waitUntil ≤ late := by
  cases h with
  | late hlate hlag => exact UInt64.le_of_lt hlate
  | slept hle hsleep => exact hsleeps waitUntil _ hle hsleep
  | watched hle hspin => exact le_of_spinUntil hspin

/-- What a call returns is how late it came. -/
theorem WaitedFor.lag_eq {lag : Int} {late : UInt64} (h : WaitedFor t w waitUntil lag late) :
    lag = t.lag w.now.nanos waitUntil := by
  cases h with
  | late hlate hlag => exact ticksBehind_lag hlate hlag
  | slept hle hsleep => exact (lag_of_le hle).symm
  | watched hle hspin => exact (lag_of_le hle).symm

/-- A call in time returns within the latency of its deadline. -/
theorem WaitedFor.prompt {lag : Int} {late : UInt64} (h : WaitedFor t w waitUntil lag late)
    (hkeeps : KeepsTime latency clock w) (hle : w.now.nanos ≤ waitUntil) :
    lag = 0 ∧ late.toNat ≤ waitUntil.toNat + latency := by
  cases h with
  | late hlate hlag => exact absurd hle (UInt64.not_le.mpr hlate)
  | slept _ hsleep => exact ⟨rfl, hkeeps.late waitUntil _ hle hsleep⟩
  | watched _ hspin => exact ⟨rfl, spinUntil_prompt hle hkeeps.spins hspin⟩

/-- The last of `count` calls has returned, and not before its deadline. -/
structure OnSchedule (start : Tick) (count : Nat) (r : TickRun) : Prop where
  interval : r.tick.interval = start.interval
  last : r.tick.last = start.deadline count
  early : r.tick.last ≤ r.clock

/-- Nothing has been waited for yet. -/
theorem onSchedule_begin (start : Tick) : OnSchedule start 0 (.begin start) := by
  refine ⟨rfl, ?_, UInt64.le_refl _⟩
  simp [Tick.deadline, TickRun.begin]

/-- On schedule, the last deadline is the one the count names. -/
theorem OnSchedule.toNat_last {count : Nat} {r : TickRun} (h : OnSchedule start count r)
    (hrange : start.last.toNat + count * start.interval.toNat < 2 ^ 64) :
    r.tick.last.toNat = start.last.toNat + count * start.interval.toNat := by
  rw [h.last, toNat_deadline hrange]

/-- One call of `tick_wait` waits until the deadline after the last one. -/
theorem tickSleep_ok {r r' : TickRun} (h : tickSleep r w = .ok r') :
    ∃ waited, tickWaitUntil r.tick w (r.tick.last + r.tick.interval) = .ok waited ∧
      r' = r.answered { r.tick with last := r.tick.last + r.tick.interval } waited.clock
        waited.lag := by
  unfold tickSleep tickWait at h
  cases hwait : tickWaitUntil r.tick w (r.tick.last + r.tick.interval) with
  | error f =>
      rw [hwait] at h
      cases h
  | ok waited =>
      rw [hwait] at h
      cases h
      rw [← tick_tickWaitUntil hwait]
      exact ⟨waited, rfl, rfl⟩

/-- **One call**, whenever it comes. -/
theorem OnSchedule.sleep {count : Nat} {r r' : TickRun} (h : OnSchedule start count r)
    (hsleeps : w.SleepsThrough) (hok : tickSleep r w = .ok r') :
    OnSchedule start (count + 1) r' ∧
      r'.answers = r.answers ++ [start.lag w.now.nanos (start.deadline (count + 1))] := by
  obtain ⟨waited, hwait, rfl⟩ := tickSleep_ok hok
  have hdeadline : r.tick.last + r.tick.interval = start.deadline (count + 1) := by
    rw [h.last, h.interval, deadline_succ]
  have hwaited := waitedFor hwait
  refine ⟨⟨h.interval, hdeadline, hwaited.early hsleeps⟩, ?_⟩
  have hlag := hwaited.lag_eq
  rw [hdeadline, Tick.lag, h.interval] at hlag
  exact congrArg (fun lag => r.answers ++ [lag]) hlag

/-- **A call in time** returns in time. -/
theorem OnSchedule.prompt {count : Nat} {r r' : TickRun} (h : OnSchedule start count r)
    (hrange : start.last.toNat + (count + 1) * start.interval.toNat < 2 ^ 64)
    (hkeeps : KeepsTime latency r.clock w) (hok : tickSleep r w = .ok r')
    (hon : w.now.nanos.toNat ≤ r.tick.last.toNat + start.interval.toNat) :
    r'.clock.toNat ≤ r'.tick.last.toNat + latency ∧ r'.answers = r.answers ++ [0] := by
  obtain ⟨waited, hwait, rfl⟩ := tickSleep_ok hok
  rw [Nat.add_mul, Nat.one_mul] at hrange
  have hlast := h.toNat_last (by omega)
  have hdeadline : (r.tick.last + r.tick.interval).toNat =
      r.tick.last.toNat + start.interval.toNat := by
    rw [← h.interval]
    apply toNat_last_add
    rw [h.interval]
    omega
  have hle : w.now.nanos ≤ r.tick.last + r.tick.interval := by
    apply UInt64.le_iff_toNat_le.mpr
    omega
  obtain ⟨hzero, hprompt⟩ := (waitedFor hwait).prompt hkeeps hle
  exact ⟨hprompt, congrArg (fun lag => r.answers ++ [lag]) hzero⟩

/-- The state after a run of calls, and what they have returned. -/
structure Timetable (start : Tick) (wakeups : List Wakeup) (r : TickRun) : Prop where
  schedule : OnSchedule start wakeups.length r
  lags : r.answers =
    wakeups.mapIdx fun i w => start.lag w.now.nanos (start.deadline (i + 1))

/-- A run of waits keeps the schedule and answers the lag of each call, by induction on the wakeups.
-/
theorem OnSchedule.run {count : Nat} {r r' : TickRun} {wakeups : List Wakeup}
    (h : OnSchedule start count r) (hsleeps : ∀ w ∈ wakeups, w.SleepsThrough)
    (hrun : Run.run tickSleep r wakeups = .ok r') :
    OnSchedule start (count + wakeups.length) r' ∧
      r'.answers = r.answers ++
        wakeups.mapIdx fun i w => start.lag w.now.nanos (start.deadline (count + i + 1)) := by
  induction wakeups generalizing count r with
  | nil =>
      cases hrun
      exact ⟨h, (List.append_nil _).symm⟩
  | cons w rest ih =>
      obtain ⟨hfirst, hlater⟩ := List.forall_mem_cons.mp hsleeps
      cases hstep : tickSleep r w with
      | error f =>
          rw [Run.run, hstep] at hrun
          cases hrun
      | ok m =>
          rw [Run.run_cons_ok hstep] at hrun
          obtain ⟨hm, hlag⟩ := h.sleep hfirst hstep
          obtain ⟨hr', hlags⟩ := ih hm hlater hrun
          have hcount : count + 1 + rest.length = count + (w :: rest).length := by
            rw [List.length_cons]
            omega
          refine ⟨hcount ▸ hr', ?_⟩
          have hshift (i : Nat) (w : Wakeup) :
              start.lag w.now.nanos (start.deadline (count + 1 + i + 1)) =
                start.lag w.now.nanos (start.deadline (count + (i + 1) + 1)) := by
            rw [Nat.add_right_comm count 1 i, Nat.add_assoc count i 1]
          rw [hlags, hlag, List.mapIdx_cons, List.append_assoc, List.singleton_append]
          simp only [hshift, Nat.add_zero]

/-- What the clock promises to the calls of a loop: the work between two of them takes no longer
than `work`. -/
structure Punctual (latency work : Nat) (r : TickRun) (w : Wakeup) : Prop where
  keeps : KeepsTime latency r.clock w
  busy : w.now.nanos.toNat ≤ r.clock.toNat + work

/-- A loop whose work fits into an interval is in time at every call. -/
theorem OnSchedule.run_prompt {count work : Nat} {r r' : TickRun} {wakeups : List Wakeup}
    (h : OnSchedule start count r) (hfits : work + latency ≤ start.interval.toNat)
    (hrange : start.last.toNat + (count + wakeups.length) * start.interval.toNat < 2 ^ 64)
    (hclock : r.clock.toNat ≤ r.tick.last.toNat + latency) (hlags : ∀ lag ∈ r.answers, lag = 0)
    (hmeets : Run.Meets tickSleep (Punctual latency work) r wakeups)
    (hrun : Run.run tickSleep r wakeups = .ok r') :
    r'.clock.toNat ≤ r'.tick.last.toNat + latency ∧ ∀ lag ∈ r'.answers, lag = 0 := by
  induction wakeups generalizing count r with
  | nil =>
      cases hrun
      exact ⟨hclock, hlags⟩
  | cons w rest ih =>
      obtain ⟨hfirst, hlater⟩ := hmeets
      cases hstep : tickSleep r w with
      | error f =>
          rw [Run.run, hstep] at hrun
          cases hrun
      | ok m =>
          rw [Run.run_cons_ok hstep] at hrun
          have hcount : count + (w :: rest).length = count + 1 + rest.length := by
            rw [List.length_cons]
            omega
          rw [hcount] at hrange
          have hnext : start.last.toNat + (count + 1) * start.interval.toNat < 2 ^ 64 := by
            have := Nat.mul_le_mul_right start.interval.toNat
              (Nat.le_add_right (count + 1) rest.length)
            omega
          have hon : w.now.nanos.toNat ≤ r.tick.last.toNat + start.interval.toNat := by
            have := hfirst.busy
            omega
          obtain ⟨hm, -⟩ := h.sleep hfirst.keeps.sleeps hstep
          obtain ⟨hprompt, hanswers⟩ := h.prompt hnext hfirst.keeps hstep hon
          refine ih hm hrange hprompt ?_ (hlater m hstep) hrun
          intro lag hlag
          rw [hanswers] at hlag
          rcases List.mem_append.mp hlag with hold | hnew
          · exact hlags lag hold
          · exact List.mem_singleton.mp hnew

/-- **`tick_wait` does not drift.**  After any number of calls, whenever they come and whatever the
clock says, the deadline is that many intervals after the start.  No call returns before its
deadline, and each returns the number of intervals by which it came too late.  As long as the work
between two calls and the latency of a wakeup fit into an interval, each call returns within the
latency of its deadline. -/
theorem tick_wait_keeps_schedule {r : TickRun} {wakeups : List Wakeup}
    (hsleeps : ∀ w ∈ wakeups, w.SleepsThrough)
    (hrun : Run.run tickSleep (TickRun.begin start) wakeups = .ok r) :
    Timetable start wakeups r ∧
      ∀ latency work, work + latency ≤ start.interval.toNat →
        start.last.toNat + wakeups.length * start.interval.toNat < 2 ^ 64 →
        Run.Meets tickSleep (Punctual latency work) (TickRun.begin start) wakeups →
        r.clock.toNat ≤ start.last.toNat + wakeups.length * start.interval.toNat + latency ∧
          ∀ lag ∈ r.answers, lag = 0 := by
  obtain ⟨hr, hlags⟩ := (onSchedule_begin start).run hsleeps hrun
  simp only [Nat.zero_add] at hr hlags
  refine ⟨⟨hr, hlags⟩, ?_⟩
  intro latency work hfits hrange hmeets
  have hprompt := (onSchedule_begin start).run_prompt hfits (by rwa [Nat.zero_add])
    (Nat.le_add_right _ _) (by simp [TickRun.begin]) hmeets hrun
  rw [hr.toNat_last hrange] at hprompt
  exact hprompt

/-- A sleep ends exactly at the time it was asked for, or it is interrupted. -/
def Wakeup.Exact (w : Wakeup) : Prop :=
  ∀ ts woken, w.sleep ts = some woken → woken = ts

/-- A sleep that ends exactly at its deadline sleeps through to it. -/
theorem Wakeup.Exact.sleepsThrough (h : w.Exact) : w.SleepsThrough := by
  intro waitUntil woken _ hsleep
  rw [h _ _ hsleep, nanos_timespecUntil]
  exact UInt64.le_refl _

/-- What is left of `Punctual` when the sleep is exact. -/
def InTime (latency work : Nat) (clock : UInt64) (w : Wakeup) : Prop :=
  clock ≤ w.now.nanos ∧ w.now.nanos.toNat ≤ clock.toNat + work ∧
    (w.now.nanos :: w.spins.map Timespec.nanos).IsChain
      fun now later => later.toNat ≤ now.toNat + latency

instance (latency work : Nat) (clock : UInt64) (w : Wakeup) :
    Decidable (InTime latency work clock w) :=
  inferInstanceAs (Decidable (_ ∧ _ ∧ _))

/-- A wakeup in time keeps the clock within the latency of the deadline. -/
theorem InTime.keepsTime {work : Nat} (h : InTime latency work clock w) (hexact : w.Exact) :
    KeepsTime latency clock w := by
  obtain ⟨hnow, -, hspins⟩ := h
  refine ⟨hnow, hexact.sleepsThrough, ?_, hspins⟩
  intro waitUntil woken _ hsleep
  rw [hexact _ _ hsleep, nanos_timespecUntil]
  exact Nat.le_add_right _ _

/-- A wakeup in time, from a sleep that is over at once. -/
def promptWakeup (now : UInt64) : Wakeup where
  now := timespecUntil now
  sleep := some
  spins := []

/-- The prompt wakeup ends exactly when asked. -/
theorem exact_promptWakeup (now : UInt64) : (promptWakeup now).Exact :=
  fun _ _ h => (Option.some.inj h).symm

/-- A call whose sleep is interrupted watches the clock. -/
def watchfulWakeup (now : UInt64) (spins : List UInt64) : Wakeup where
  now := timespecUntil now
  sleep := fun _ => none
  spins := spins.map timespecUntil

/-- The watchful wakeup ends exactly when asked, too. -/
theorem exact_watchfulWakeup (now : UInt64) (spins : List UInt64) :
    (watchfulWakeup now spins).Exact :=
  fun _ _ h => nomatch h

/-- The second call finds the deadline too near to sleep. -/
def timelyWakeups : List Wakeup :=
  [promptWakeup 4000, watchfulWakeup 18500 [19000, 20103], promptWakeup 24000,
    watchfulWakeup 37000 [38400, 39800, 41200]]

/-- The second call comes two intervals and a half too late. -/
def lateWakeups : List Wakeup :=
  [promptWakeup 4000, promptWakeup 45100, promptWakeup 45200, promptWakeup 45300]

/-- Four calls in time answer 0 each; four calls with one of them two intervals late answer 0, 2, 1,
0. -/
theorem tick_wait_keeps_schedule_sample : ∃ r r',
    Run.run tickSleep (TickRun.begin ⟨10000, 100⟩) timelyWakeups = .ok r ∧
      Timetable ⟨10000, 100⟩ timelyWakeups r ∧ r.clock.toNat ≤ 40100 + 1500 ∧
      (∀ lag ∈ r.answers, lag = 0) ∧
    Run.run tickSleep (TickRun.begin ⟨10000, 100⟩) lateWakeups = .ok r' ∧
      Timetable ⟨10000, 100⟩ lateWakeups r' ∧ r'.answers = [0, 2, 1, 0] := by
  obtain ⟨r, hrun⟩ := Run.exists_ok_of_isSome
    (x := Run.run tickSleep (TickRun.begin ⟨10000, 100⟩) timelyWakeups) (by decide +kernel)
  obtain ⟨r', hrun'⟩ := Run.exists_ok_of_isSome
    (x := Run.run tickSleep (TickRun.begin ⟨10000, 100⟩) lateWakeups) (by decide +kernel)
  have hexact : ∀ w ∈ timelyWakeups, w.Exact := by
    simp [timelyWakeups, exact_promptWakeup, exact_watchfulWakeup]
  have hexact' : ∀ w ∈ lateWakeups, w.Exact := by
    simp [lateWakeups, exact_promptWakeup]
  have hmeets : Run.Meets tickSleep (fun r w => InTime 1500 8500 r.clock w)
      (TickRun.begin ⟨10000, 100⟩) timelyWakeups := by
    decide +kernel
  have hpunctual : Run.Meets tickSleep (Punctual 1500 8500) (TickRun.begin ⟨10000, 100⟩)
      timelyWakeups := Run.meets_mono (fun _ _ h => ⟨h.2.keepsTime h.1, h.2.2.1⟩)
    (Run.meets_and (Run.meets_of_mem hexact) hmeets)
  obtain ⟨htimetable, hprompt⟩ := tick_wait_keeps_schedule
    (fun w hw => (hexact w hw).sleepsThrough) hrun
  obtain ⟨htimetable', -⟩ := tick_wait_keeps_schedule
    (fun w hw => (hexact' w hw).sleepsThrough) hrun'
  obtain ⟨hclock, hlags⟩ := hprompt 1500 8500 (by decide) (by decide) hpunctual
  exact ⟨r, r', hrun, htimetable, hclock, hlags, hrun', htimetable',
    htimetable'.lags.trans (by decide +kernel)⟩

end

end Clither
