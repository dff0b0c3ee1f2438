import Mathlib.Data.List.Perm.Basic
import Mathlib.Data.List.Flatten

/-!
# A line with delays

What enters a delay line brings the number of turns that it waits.  At each turn
the entries that wait no longer leave, in the order of the line, and the others
come one turn closer.

`schedule` puts the time at which it is due on everything that enters, and
`outputs_eq` says that each turn delivers what is due then, in the order of
arrival.  `delivered_perm` and `outputs_of_constant` follow: nothing is lost or made up, and
with a single delay the line is first in, first out.
-/

namespace DelayLine

variable {α : Type}

/-- What leaves at this turn. -/
def due (line : List (Nat × α)) : List α :=
  (line.filter fun entry => entry.1 = 0).map Prod.snd

/-- What stays, one turn closer. -/
def closer (line : List (Nat × α)) : List (Nat × α) :=
  (line.filter fun entry => entry.1 ≠ 0).map fun entry => (entry.1 - 1, entry.2)

/-- An entry is due when its countdown is zero. -/
theorem due_cons (entry : Nat × α) (line : List (Nat × α)) :
    due (entry :: line) = if entry.1 = 0 then entry.2 :: due line else due line := by
  grind [due]

/-- Any other entry comes one turn closer. -/
theorem closer_cons (entry : Nat × α) (line : List (Nat × α)) :
    closer (entry :: line) =
      if entry.1 = 0 then closer line else (entry.1 - 1, entry.2) :: closer line := by
  grind [closer]

/-- What came closer waited longer before. -/
theorem mem_closer {entry : Nat × α} {line : List (Nat × α)} (h : entry ∈ closer line) :
    ∃ waiting ∈ line, entry.1 < waiting.1 ∧ entry.2 = waiting.2 := by
  obtain ⟨waiting, hwaiting, rfl⟩ := List.mem_map.mp h
  obtain ⟨hmem, hlate⟩ := List.mem_filter.mp hwaiting
  exact ⟨waiting, hmem, Nat.sub_one_lt (of_decide_eq_true hlate), rfl⟩

/-- What leaves at each turn, when that much arrives before it. -/
def outputs : List (Nat × α) → List (List (Nat × α)) → List (List α)
  | _, [] => []
  | line, arrivals :: rest => due (line ++ arrivals) :: outputs (closer (line ++ arrivals)) rest

/-- What is in the line after the turns. -/
def lineAfter : List (Nat × α) → List (List (Nat × α)) → List (Nat × α)
  | line, [] => line
  | line, arrivals :: rest => lineAfter (closer (line ++ arrivals)) rest

/-- The entries with the times at which they are due. -/
def stamped (now : Nat) (line : List (Nat × α)) : List (Nat × α) :=
  line.map fun entry => (now + entry.1, entry.2)

/-- All arrivals with the times at which they are due. -/
def schedule : Nat → List (List (Nat × α)) → List (Nat × α)
  | _, [] => []
  | now, arrivals :: rest => stamped now arrivals ++ schedule (now + 1) rest

/-- What is due at that time. -/
def dueAt (entries : List (Nat × α)) (time : Nat) : List α :=
  (entries.filter fun entry => entry.1 = time).map Prod.snd

/-- Joined lines are stamped alike. -/
theorem stamped_append (now : Nat) (line line' : List (Nat × α)) :
    stamped now (line ++ line') = stamped now line ++ stamped now line' :=
  List.map_append

/-- What is due of joined entries is due of either. -/
theorem dueAt_append (entries entries' : List (Nat × α)) (time : Nat) :
    dueAt (entries ++ entries') time = dueAt entries time ++ dueAt entries' time := by
  simp only [dueAt, List.filter_append, List.map_append]

/-- Nothing is due before it has come. -/
theorem dueAt_schedule_of_lt {now time : Nat} (h : time < now) (turns : List (List (Nat × α))) :
    dueAt (schedule now turns) time = [] := by
  induction turns generalizing now with
  | nil => rfl
  | cons arrivals rest ih =>
      have hfirst : dueAt (stamped now arrivals) time = [] := by
        simp only [dueAt, stamped, List.map_eq_nil_iff, List.filter_eq_nil_iff, List.mem_map]
        rintro entry ⟨arrival, -, rfl⟩
        simp only [decide_eq_true_eq]
        omega
      rw [schedule, dueAt_append, hfirst, ih (by omega), List.nil_append]

/-- What is due now is stamped with the present time. -/
theorem due_eq (now : Nat) (line : List (Nat × α)) : due line = dueAt (stamped now line) now := by
  induction line with
  | nil => rfl
  | cons entry rest ih => grind [due, dueAt, stamped]

/-- Coming one turn closer while a turn goes by keeps the due times. -/
theorem dueAt_closer (now : Nat) (line : List (Nat × α)) {time : Nat} (h : now < time) :
    dueAt (stamped (now + 1) (closer line)) time = dueAt (stamped now line) time := by
  induction line with
  | nil => rfl
  | cons entry rest ih => grind [closer, dueAt, stamped]

/-- **Each turn delivers what is due.** -/
theorem outputs_eq (now : Nat) (line : List (Nat × α)) (turns : List (List (Nat × α))) :
    outputs line turns =
      (List.range' now turns.length).map (dueAt (stamped now line ++ schedule now turns)) := by
  induction turns generalizing now line with
  | nil => rfl
  | cons arrivals rest ih =>
      rw [outputs, ih (now + 1), List.length_cons, List.range'_succ, List.map_cons, schedule]
      congr 1
      · rw [due_eq now, stamped_append, dueAt_append, dueAt_append, dueAt_append,
          dueAt_schedule_of_lt (Nat.lt_succ_self now), List.append_nil]
      · apply List.map_congr_left
        intro time htime
        have hlt : now < time := (List.mem_range'_1.mp htime).1
        rw [dueAt_append, dueAt_closer now _ hlt, stamped_append]
        simp only [dueAt_append, List.append_assoc]

/-- Nothing is lost between what is due and what comes closer. -/
theorem due_append_closer_perm (line : List (Nat × α)) :
    (due line ++ (closer line).map Prod.snd).Perm (line.map Prod.snd) := by
  have hstay : (closer line).map Prod.snd =
      (line.filter fun entry => !decide (entry.1 = 0)).map Prod.snd := by
    simp [closer]
  rw [due, hstay, ← List.map_append]
  exact (List.filter_append_perm _ _).map _

/-- **Nothing is lost or made up.** -/
theorem delivered_perm (line : List (Nat × α)) (turns : List (List (Nat × α))) :
    ((outputs line turns).flatten ++ (lineAfter line turns).map Prod.snd).Perm
      (line.map Prod.snd ++ turns.flatten.map Prod.snd) := by
  induction turns generalizing line with
  | nil => simp [outputs, lineAfter]
  | cons arrivals rest ih =>
      have hstep := due_append_closer_perm (line ++ arrivals)
      simp only [outputs, lineAfter, List.flatten_cons, List.append_assoc, List.map_append]
        at hstep ⊢
      have hlater := (ih (closer (line ++ arrivals))).append_left (due (line ++ arrivals))
      have hnow := hstep.append_right (rest.flatten.map Prod.snd)
      simp only [List.append_assoc] at hnow
      exact hlater.trans hnow

/-- Entries with one delay are due at one time. -/
theorem dueAt_stamped_of_constant {delay : Nat} (now : Nat) {line : List (Nat × α)}
    (h : ∀ entry ∈ line, entry.1 = delay) (time : Nat) :
    dueAt (stamped now line) time = if time = now + delay then line.map Prod.snd else [] := by
  induction line with
  | nil => simp [dueAt, stamped]
  | cons entry rest ih =>
      obtain ⟨hentry, hrest⟩ := List.forall_mem_cons.mp h
      grind [dueAt, stamped]

/-- Turns with one delay come out delayed by that many turns. -/
theorem dueAt_schedule_of_constant {delay : Nat} (now : Nat) {turns : List (List (Nat × α))}
    (h : ∀ arrivals ∈ turns, ∀ entry ∈ arrivals, entry.1 = delay) (k : Nat) :
    dueAt (schedule now turns) (now + k) =
      (List.replicate delay [] ++ turns.map (List.map Prod.snd)).getD k [] := by
  induction turns generalizing now k with
  | nil =>
      rw [schedule, List.map_nil, List.append_nil]
      grind [dueAt]
  | cons arrivals rest ih =>
      obtain ⟨hfirst, hrest⟩ := List.forall_mem_cons.mp h
      rw [schedule, dueAt_append, dueAt_stamped_of_constant now hfirst]
      cases k with
      | zero =>
          rw [dueAt_schedule_of_lt (by omega)]
          grind
      | succ k =>
          have hnext : now + (k + 1) = now + 1 + k := by omega
          rw [hnext, ih (now + 1) hrest k]
          grind

/-- **With a single delay** the line hands on what it gets, that many turns later. -/
theorem outputs_of_constant {delay : Nat} {turns : List (List (Nat × α))}
    (h : ∀ arrivals ∈ turns, ∀ entry ∈ arrivals, entry.1 = delay) :
    outputs [] turns =
      (List.replicate delay [] ++ turns.map (List.map Prod.snd)).take turns.length := by
  rw [outputs_eq 0]
  apply List.ext_getElem
  · simp
  · intro k hk hk'
    have hdue := dueAt_schedule_of_constant 0 h k
    simp only [stamped, List.map_nil, List.nil_append, List.getElem_map, List.getElem_range',
      List.getElem_take, Nat.zero_add, Nat.one_mul] at hdue ⊢
    rw [hdue]
    grind

end DelayLine
