import Clither.RemovedSender

/-!
# Feedback on the command buffer

The server measures how many commands of a client wait for their frames, keeps
the last twenty measurements, and tells the client to speed up when a command is
missing and to slow down when even the smallest measurement is too large.

The surplus is stored in a signed byte before it is limited to 10, so that a
large one may come out negative.  `feedback_right_iff` says for which windows the
client is told the right thing.
-/

namespace Clither

open Faults (bind_eq_ok)

/-- The difference that a `MSG_FEEDBACK` reports, if one is queued. -/
def feedbackDiff (granularity : Nat) (lower commandsQueued : Int) : Option Int8 :=
  if commandsQueued < 0 then
    some (Int8.ofInt (if commandsQueued < -10 then -10 else commandsQueued))
  else if lower - granularity * 2 > 0 then
    some (if Int8.ofInt (lower - granularity * 2) > 10 then 10
      else Int8.ofInt (lower - granularity * 2))
  else none

/-- The record after that feedback. -/
def giveFeedback (mem : Alloc) (client : ServerClient) (diff : Option Int8) (frameNumber : UInt16) :
    ServerClient :=
  match diff with
  | some diff => serverQueue mem client (msgFeedback diff frameNumber)
  | none => client

/-- The difference tells the client what the measurements say: it is small,
negative when the command of the current frame is missing, and positive when all
measurements are more than two network updates. -/
structure ToldRight (granularity : Nat) (window : List Int) (commandsQueued : Int) (diff : Int8) :
    Prop where
  low : -10 ≤ diff.toInt
  high : diff.toInt ≤ 10
  behind : diff.toInt < 0 ↔ commandsQueued < 0
  ahead : 0 < diff.toInt ↔ 0 ≤ commandsQueued ∧ ∀ value ∈ window, 2 * granularity < value

/-- The surplus of the smallest measurement stays positive in a signed byte. -/
def SurplusFits (granularity : Nat) (window : List Int) (commandsQueued : Int) : Prop :=
  0 ≤ commandsQueued → ∀ lower ∈ window, (∀ value ∈ window, lower ≤ value) →
    2 * granularity < lower →
      0 < (lower - 2 * granularity) % 256 ∧ (lower - 2 * granularity) % 256 < 128

/-- A measurement is the value of an `int16_t`. -/
def Measured (window : List Int) : Prop :=
  ∀ value ∈ window, -2 ^ 15 ≤ value ∧ value < 2 ^ 15

/-! ## The smallest measurement -/

theorem foldl_lower (window : List Int) (start : Int) :
    (∀ value ∈ start :: window, window.foldl (fun lower value =>
      if lower > value then value else lower) start ≤ value) ∧
    window.foldl (fun lower value => if lower > value then value else lower) start ∈
      start :: window := by
  induction window generalizing start with
  | nil => simp
  | cons v vs ih =>
      rw [List.foldl_cons]
      obtain ⟨hle, hmem⟩ := ih (if start > v then v else start)
      have hstart := hle _ List.mem_cons_self
      constructor
      · intro value hvalue
        rcases List.mem_cons.mp hvalue with rfl | hvalue
        · refine le_trans hstart ?_
          split <;> omega
        · rcases List.mem_cons.mp hvalue with rfl | hvalue
          · refine le_trans hstart ?_
            split <;> omega
          · exact hle value (List.mem_cons_of_mem _ hvalue)
      · rcases List.mem_cons.mp hmem with heq | hmem
        · rw [heq]
          split
          · simp
          · simp
        · exact List.mem_cons_of_mem _ (List.mem_cons_of_mem _ hmem)

/-- `cbf_lower_bound` is the smallest value of the window. -/
theorem cbfLowerBound_least {window : List Int} (hne : window ≠ []) (hmeasured : Measured window) :
    cbfLowerBound window ∈ window ∧ ∀ value ∈ window, cbfLowerBound window ≤ value := by
  obtain ⟨hle, hmem⟩ := foldl_lower window (2 ^ 31 - 1)
  have hbelow : ∀ value ∈ window, cbfLowerBound window ≤ value :=
    fun value hvalue => hle value (List.mem_cons_of_mem _ hvalue)
  refine ⟨?_, hbelow⟩
  rcases List.mem_cons.mp hmem with htop | hmem
  · exfalso
    obtain ⟨v, vs, rfl⟩ := List.exists_cons_of_ne_nil hne
    have hv := (hmeasured v List.mem_cons_self).2
    have hlow := hbelow v List.mem_cons_self
    rw [cbfLowerBound, htop] at hlow
    omega
  · exact hmem

/-! ## The difference -/

theorem queueFeedback_eq (mem : Alloc) (settings : ServerSettings) (client : ServerClient)
    (commandsQueued : Int) (frameNumber : UInt16) :
    queueFeedback mem settings client commandsQueued frameNumber =
      giveFeedback mem client
        (feedbackDiff settings.granularity (cbfLowerBound client.cbfWindow) commandsQueued)
        frameNumber := by
  unfold queueFeedback feedbackDiff
  dsimp only
  split
  · rfl
  · split
    · rfl
    · rfl

theorem toInt_ofInt_small {x : Int} (hlow : -128 ≤ x) (hhigh : x < 128) : (Int8.ofInt x).toInt = x := by
  rw [Int8.toInt_ofInt]
  show x.bmod 256 = x
  exact Int.bmod_eq_of_le (by omega) (by omega)

/-- Where the measurements put the surplus, and the byte that is left of it. -/
theorem toldRight_surplus_iff {granularity : Nat} {window : List Int} {lower commandsQueued : Int}
    (hqueued : 0 ≤ commandsQueued) (hleast : ∀ value ∈ window, lower ≤ value)
    (hsurplus : 2 * granularity < lower) :
    ToldRight granularity window commandsQueued
        (if Int8.ofInt (lower - granularity * 2) > 10 then 10
          else Int8.ofInt (lower - granularity * 2)) ↔
      0 < (lower - 2 * granularity) % 256 ∧ (lower - 2 * granularity) % 256 < 128 := by
  have hall : ∀ value ∈ window, 2 * (granularity : Int) < value := by
    intro value hvalue
    have := hleast value hvalue
    omega
  have hbyte : (Int8.ofInt (lower - granularity * 2)).toInt =
      (lower - 2 * granularity).bmod 256 := by
    rw [Int8.toInt_ofInt, mul_comm]
  have hten : Int8.ofInt (lower - granularity * 2) > 10 ↔ (lower - 2 * granularity).bmod 256 > 10 := by
    rw [gt_iff_lt, Int8.lt_iff_toInt_lt, hbyte]
    rfl
  generalize hdiff : (if Int8.ofInt (lower - granularity * 2) > 10 then 10
    else Int8.ofInt (lower - granularity * 2)) = diff
  have hvalue : diff.toInt = if (lower - 2 * granularity).bmod 256 > 10 then 10
      else (lower - 2 * granularity).bmod 256 := by
    rw [← hdiff]
    by_cases hclamp : Int8.ofInt (lower - granularity * 2) > 10
    · rw [if_pos hclamp, if_pos (hten.mp hclamp)]
      rfl
    · rw [if_neg hclamp, if_neg (fun h => hclamp (hten.mpr h)), hbyte]
  rw [Int.bmod_def] at hvalue
  constructor
  · intro h
    have hpos := h.ahead.mpr ⟨hqueued, hall⟩
    rw [hvalue] at hpos
    split at hpos <;> split at hpos <;> omega
  · intro hfits
    have hrange : 0 < diff.toInt ∧ diff.toInt ≤ 10 := by
      rw [hvalue]
      split <;> split <;> omega
    exact ⟨by omega, hrange.2, by omega, by simp [hrange.1, hqueued]; exact hall⟩

theorem toldRight_behind {granularity : Nat} {window : List Int} {commandsQueued : Int}
    (hqueued : commandsQueued < 0) :
    ToldRight granularity window commandsQueued
      (Int8.ofInt (if commandsQueued < -10 then -10 else commandsQueued)) := by
  have hvalue := @toInt_ofInt_small (if commandsQueued < -10 then -10 else commandsQueued)
    (by split <;> omega) (by split <;> omega)
  have hrange : -10 ≤ (if commandsQueued < -10 then -10 else commandsQueued) ∧
      (if commandsQueued < -10 then -10 else commandsQueued) < 0 := by
    split <;> omega
  rw [← hvalue] at hrange
  refine ⟨hrange.1, by omega, by omega, iff_of_false (by omega) ?_⟩
  intro h
  omega

/-- Which measurements lead to the right feedback. -/
theorem toldRight_iff {granularity : Nat} {window : List Int} {lower : Int} (commandsQueued : Int)
    (hmem : lower ∈ window) (hleast : ∀ value ∈ window, lower ≤ value) :
    (∀ diff ∈ feedbackDiff granularity lower commandsQueued,
      ToldRight granularity window commandsQueued diff) ↔
    SurplusFits granularity window commandsQueued := by
  have hunique : ∀ other ∈ window, (∀ value ∈ window, other ≤ value) → other = lower :=
    fun other hother hle => le_antisymm (hle lower hmem) (hleast other hother)
  unfold feedbackDiff
  by_cases hqueued : commandsQueued < 0
  · rw [if_pos hqueued]
    refine iff_of_true ?_ (fun hpos => by omega)
    rintro _ ⟨⟩
    exact toldRight_behind hqueued
  · rw [if_neg hqueued]
    by_cases hsurplus : lower - granularity * 2 > 0
    · rw [if_pos hsurplus]
      have hexact := toldRight_surplus_iff (by omega : 0 ≤ commandsQueued) hleast
        (by omega : 2 * (granularity : Int) < lower)
      constructor
      · intro h hpos other hother hle hlarge
        obtain rfl := hunique other hother hle
        exact hexact.mp (h _ rfl)
      · rintro h _ ⟨⟩
        exact hexact.mpr (h (by omega) lower hmem hleast (by omega))
    · rw [if_neg hsurplus]
      refine iff_of_true (by rintro _ ⟨⟩) ?_
      intro _ other hother hle hlarge
      obtain rfl := hunique other hother hle
      omega

/-! ## The message -/

/-- The commands are newer than all that the server has had. -/
def newCommands (mem : Alloc) (record : ServerClient) (snake : Snake) (payload : List UInt8)
    (frameNumber : UInt16) : Bool :=
  decide (commandsStatus payload = 0) &&
    !u16LeWrap (msgCommandsUnpackInto mem snake.cmdq payload frameNumber).2.2.2
      record.lastCommandMsgFrame

/-- The measurements after the message. -/
def measure (record : ServerClient) (snake : Snake) (frameNumber : UInt16) : List Int :=
  cbfAdd record.cbfWindow (u16SubWrap snake.cmdq.frameEnd frameNumber)

theorem measured_cbfAdd {window : List Int} (h : Measured window) (a b : UInt16) :
    Measured (cbfAdd window (u16SubWrap a b)) := by
  intro value hvalue
  rcases List.mem_cons.mp hvalue with rfl | hold
  · have hlow := @Int.le_bmod ((a.toNat : Int) - b.toNat) (2 ^ 16) (by decide)
    have hhigh := @Int.bmod_lt ((a.toNat : Int) - b.toNat) (2 ^ 16) (by decide)
    exact ⟨hlow, hhigh⟩
  · exact h value (List.mem_of_mem_take hold)

/-- What `MSG_COMMANDS` leaves in the record of its sender. -/
theorem processCommands_feedback {mem : Alloc} {settings : ServerSettings} {s s' : Server}
    {slot : Nat} {a addr : NetAddr} {record : ServerClient} {snake : Snake} {payload : List UInt8}
    {frameNumber : UInt16} (hcell : s.clients.cell slot = some (a, record))
    (hsame : SameKey serverClientHm a addr)
    (hsnake : findSnake s.world record.snakeId = .ok snake)
    (h : processCommands mem settings s (some slot) addr payload frameNumber = .ok s') :
    ∀ e ∈ s'.clients.cell slot, e.2.pendingMsgs =
      if newCommands mem record snake payload frameNumber then
        (giveFeedback mem record (feedbackDiff settings.granularity
          (cbfLowerBound (measure record snake frameNumber))
          (u16SubWrap snake.cmdq.frameEnd frameNumber)) frameNumber).pendingMsgs
      else record.pendingMsgs := by
  intro e he
  unfold processCommands at h
  rw [client_of_cell hcell, ok_bind] at h
  dsimp only at h
  rw [hsnake, ok_bind] at h
  simp only [msgCommandsUnpackInto_status] at h
  generalize hs₁ : ({ s with world := _ } : Server) = s₁ at h
  have hcell₁ : s₁.clients.cell slot = some (a, record) := by
    subst hs₁
    exact hcell
  by_cases hstatus : commandsStatus payload = 0
  · rw [if_neg (not_not.mpr hstatus)] at h
    simp only [newCommands, hstatus, decide_true, Bool.true_and]
    cases hold : u16LeWrap (msgCommandsUnpackInto mem snake.cmdq payload frameNumber).2.2.2
        record.lastCommandMsgFrame with
    | true =>
        rw [hold, if_pos rfl] at h
        cases h
        cases hcell₁.symm.trans he
        rfl
    | false =>
        rw [hold, if_neg (by decide)] at h
        cases h
        cases (cell_setClient hcell₁ _).symm.trans he
        rw [queueFeedback_eq]
        show (giveFeedback mem _ (feedbackDiff _ (cbfLowerBound (measure record snake frameNumber)) _)
          frameNumber).pendingMsgs = _
        unfold giveFeedback
        cases feedbackDiff settings.granularity (cbfLowerBound (measure record snake frameNumber))
          (u16SubWrap snake.cmdq.frameEnd frameNumber) with
        | none => rfl
        | some diff => rfl
  · rw [if_pos hstatus] at h
    have hremoved := removed_of_mark hcell₁ hsame h
    rw [hremoved.empty] at he
    cases he

/-- **When the client is told the right thing**: the surplus of its smallest
measurement must not come out of the signed byte as zero or negative. -/
theorem feedback_right_iff (mem : Alloc) (settings : ServerSettings) (s s' : Server) (slot : Nat)
    (a a' addr : NetAddr) (record record' : ServerClient) (snake : Snake) (payload : List UInt8)
    (frameNumber : UInt16) (hcell : s.clients.cell slot = some (a, record))
    (hsame : SameKey serverClientHm a addr)
    (hsnake : findSnake s.world record.snakeId = .ok snake) (hwindow : Measured record.cbfWindow)
    (h : processCommands mem settings s (some slot) addr payload frameNumber = .ok s')
    (hcell' : s'.clients.cell slot = some (a', record')) :
    ∃ diff : Option Int8,
      record'.pendingMsgs = (giveFeedback mem record diff frameNumber).pendingMsgs ∧
      ((∀ d ∈ diff, ToldRight settings.granularity (measure record snake frameNumber)
          (u16SubWrap snake.cmdq.frameEnd frameNumber) d) ↔
        (newCommands mem record snake payload frameNumber = true →
          SurplusFits settings.granularity (measure record snake frameNumber)
            (u16SubWrap snake.cmdq.frameEnd frameNumber))) := by
  have hpending := processCommands_feedback hcell hsame hsnake h _ hcell'
  dsimp only at hpending
  have hmeasured : Measured (measure record snake frameNumber) := measured_cbfAdd hwindow _ _
  have hne : measure record snake frameNumber ≠ [] := nofun
  obtain ⟨hmem, hleast⟩ := cbfLowerBound_least hne hmeasured
  by_cases hnew : newCommands mem record snake payload frameNumber = true
  · rw [if_pos hnew] at hpending
    refine ⟨_, hpending, ?_⟩
    rw [toldRight_iff _ hmem hleast]
    exact ⟨fun hfits _ => hfits, fun hfits => hfits hnew⟩
  · rw [if_neg hnew] at hpending
    exact ⟨none, hpending, iff_of_true nofun fun hyes => absurd hyes hnew⟩

/-! ## A client far ahead -/

/-- The record of a client whose last twenty measurements are `ahead`. -/
def recordAhead (ahead : Nat) : ServerClient :=
  { serverClientInit serverSettingsDefaults 0 1 with cbfWindow := List.replicate 20 ahead }

/-- A server with that client, whose next measurement is `ahead` as well. -/
def farAhead (ahead : Nat) : Server :=
  let s := soleClient.setClient 13 (recordAhead ahead)
  match findSnake s.world 1 with
  | .ok snake =>
      { s with world := bmapSet s.world 1
                 { snake with cmdq := { snake.cmdq with firstFrame := UInt16.ofNat ahead } } }
  | .error _ => s

/-- A single command, for frame 500. -/
def commandForLater : List UInt8 :=
  [1, 244, 0, 128, 0, 0]

/-- The server handles the command, and what it queues is feedback `diff`. -/
def TellsAhead (ahead : Nat) (diff : Int8) : Prop :=
  ∃ snake s' record', findSnake (farAhead ahead).world 1 = .ok snake ∧
    snake.cmdq.frameEnd = UInt16.ofNat ahead ∧
    processCommands .unlimited serverSettingsDefaults (farAhead ahead) (some 13) (loopback 40000)
      commandForLater 0 = .ok s' ∧
    s'.clients.cell 13 = some (loopback 40000, record') ∧
    record'.pendingMsgs = (giveFeedback .unlimited (recordAhead ahead) (some diff) 0).pendingMsgs

theorem tellsAhead_of_run {ahead : Nat} {diff : Int8}
    (h : (do
      let snake ← findSnake (farAhead ahead).world 1
      let s' ← processCommands .unlimited serverSettingsDefaults (farAhead ahead) (some 13)
        (loopback 40000) commandForLater 0
      return (snake.cmdq.frameEnd, (s'.clients.cell 13).map fun e => (e.1, e.2.pendingMsgs))) =
        Except.ok (UInt16.ofNat ahead, some (loopback 40000,
          (giveFeedback .unlimited (recordAhead ahead) (some diff) 0).pendingMsgs))) :
    TellsAhead ahead diff := by
  obtain ⟨snake, hsnake, h⟩ := bind_eq_ok.mp h
  obtain ⟨s', hs', h⟩ := bind_eq_ok.mp h
  rw [pure_eq_ok, Except.ok.injEq, Prod.mk.injEq] at h
  obtain ⟨hend, h⟩ := h
  obtain ⟨⟨addr, record'⟩, hcell, heq⟩ := Option.map_eq_some_iff.mp h
  rw [Prod.mk.injEq] at heq
  obtain ⟨rfl, hpending⟩ := heq
  exact ⟨snake, s', record', hsnake, hend, hs', hcell, hpending⟩

/-- A hundred commands in the buffer: the client is told to slow down. -/
theorem feedback_right_hundred :
    ∃ s' record' diff, processCommands .unlimited serverSettingsDefaults (farAhead 100) (some 13)
        (loopback 40000) commandForLater 0 = .ok s' ∧
      s'.clients.cell 13 = some (loopback 40000, record') ∧
      record'.pendingMsgs = (giveFeedback .unlimited (recordAhead 100) diff 0).pendingMsgs ∧
      ∀ d ∈ diff, ToldRight 3 (List.replicate 20 100) 100 d := by
  obtain ⟨snake, s', record', hsnake, hend, hs', hcell', -⟩ : TellsAhead 100 10 :=
    tellsAhead_of_run (by decide +kernel)
  have hmeasure : measure (recordAhead 100) snake 0 = List.replicate 20 100 := by
    rw [measure, hend]
    decide +kernel
  have hqueued : u16SubWrap snake.cmdq.frameEnd 0 = 100 := by
    rw [hend]
    decide +kernel
  obtain ⟨diff, hpending, hiff⟩ := feedback_right_iff .unlimited serverSettingsDefaults (farAhead 100)
    s' 13 (loopback 40000) (loopback 40000) (loopback 40000) (recordAhead 100) record' snake
    commandForLater 0 (by decide +kernel) (SameKey.refl _ _) hsnake
    (by unfold Measured; decide +kernel) hs' hcell'
  rw [hmeasure, hqueued] at hiff
  exact ⟨s', record', diff, hs', hcell', hpending,
    hiff.mpr fun _ => by unfold SurplusFits; decide +kernel⟩

/-- A hundred and thirty-four: it is told to speed up by 128 frames. -/
theorem feedback_wrong_sign : TellsAhead 134 (-128) ∧
    ∀ snake, findSnake (farAhead 134).world 1 = .ok snake →
      ¬ ToldRight serverSettingsDefaults.granularity (measure (recordAhead 134) snake 0)
        (u16SubWrap snake.cmdq.frameEnd 0) (-128) :=
  ⟨tellsAhead_of_run (by decide +kernel), fun snake _ h => absurd h.low (by decide)⟩

end Clither
