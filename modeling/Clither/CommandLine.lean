import Clither.Args

/-!
# Accepted command lines

A backend index, four numbers and a mode are what the words of a command line can get
wrong.  Each word keeps them in order, so that all words do, and the mode is only chosen
afterwards.
-/

namespace Clither

/-- The number fits an `int`. -/
def FitsInt (x : Int) : Prop :=
  -2 ^ 31 ≤ x ∧ x < 2 ^ 31

theorem fitsInt_wrapInt (x : Int) : FitsInt (wrapInt 32 x) := by
  have hpos : (0 : Nat) < 2 ^ 32 := by decide
  have hlow := Int.le_bmod (x := x) hpos
  have hhigh := Int.bmod_lt (x := x) hpos
  unfold FitsInt wrapInt
  omega

theorem fitsInt_zero : FitsInt 0 := by
  unfold FitsInt
  omega

theorem fitsInt_atoi (s : List UInt8) : FitsInt (atoi s) := by
  unfold atoi
  split
  · exact fitsInt_zero
  · split
    · exact fitsInt_wrapInt _
    · split
      · exact fitsInt_wrapInt _
      · exact fitsInt_wrapInt _

/-- What the words can make of the arguments.  Only the flags say that the mode is another. -/
structure Args.Sane (b : BuildOptions) (a : Args) : Prop where
  backend : a.gfxBackend = 0 ∨ b.gfx = true ∧ 0 ≤ a.gfxBackend ∧ a.gfxBackend < b.gfxBackends
  latency : FitsInt a.mcdLatency
  loss : FitsInt a.mcdLoss
  dup : FitsInt a.mcdDup
  reorder : FitsInt a.mcdReorder

/-- A mode that the program has been built with. -/
def Mode.Built (b : BuildOptions) : Mode → Prop
  | .tests => b.tests = true
  | .benchmarks => b.benchmarks = true
  | .client => b.gfx = true
  | .clientAndServer => b.gfx = true ∧ b.server = true
  | .headless => b.gfx = false ∨ b.server = true

section

variable {b : BuildOptions}

/-- The invariant of the parser. -/
structure ArgsState.Sane (b : BuildOptions) (s : ArgsState) : Prop where
  args : s.args.Sane b
  mode : s.args.mode = (argsDefaults b).mode

/-- What the words can get wrong. -/
def ArgsState.checked (s : ArgsState) : Int × Int × Int × Int × Int × Mode :=
  (s.args.gfxBackend, s.args.mcdLatency, s.args.mcdLoss, s.args.mcdDup, s.args.mcdReorder,
    s.args.mode)

/-- The flags and the strings may be anything. -/
theorem ArgsState.Sane.of_checked {s t : ArgsState} (hs : s.Sane b)
    (h : t.checked = s.checked) : t.Sane b := by
  simp only [ArgsState.checked, Prod.mk.injEq] at h
  obtain ⟨hbackend, hlatency, hloss, hdup, hreorder, hmode⟩ := h
  refine ⟨⟨?_, ?_, ?_, ?_, ?_⟩, hmode.trans hs.mode⟩
  · rw [hbackend]
    exact hs.args.backend
  · rw [hlatency]
    exact hs.args.latency
  · rw [hloss]
    exact hs.args.loss
  · rw [hdup]
    exact hs.args.dup
  · rw [hreorder]
    exact hs.args.reorder

theorem sane_argsBegin : (argsBegin b).Sane b :=
  ⟨⟨Or.inl rfl, fitsInt_zero, fitsInt_zero, fitsInt_zero, fitsInt_zero⟩, rfl⟩

/-- The state that the parser goes on or stops with. -/
def WordResult.Sane (b : BuildOptions) : WordResult → Prop
  | .next s _ => s.Sane b
  | .stop s => s.Sane b
  | _ => True

theorem sane_takeValue {option : String} {rest : List (List UInt8)} {store : List UInt8 → WordResult}
    (h : ∀ value, (store value).Sane b) : (takeValue option rest store).Sane b := by
  unfold takeValue
  split
  · trivial
  · next value _ =>
      split
      · trivial
      · exact h value

/-- Both branches are to be sane. -/
theorem sane_ite {p : Prop} [Decidable p] {r r' : WordResult} (hr : p → r.Sane b)
    (hr' : ¬ p → r'.Sane b) : (if p then r else r').Sane b := by
  by_cases hp : p
  · rw [if_pos hp]
    exact hr hp
  · rw [if_neg hp]
    exact hr' hp

theorem sane_parseLong {s : ArgsState} (hs : s.Sane b) (word : List UInt8)
    (rest : List (List UInt8)) : (parseLong b s word rest).Sane b := by
  unfold parseLong
  dsimp only
  -- One case for each option, in the order of the source.
  refine sane_ite (fun _ => trivial) fun _ => ?_
  refine sane_ite (fun _ => hs.of_checked rfl) fun _ => ?_
  refine sane_ite (fun _ => hs.of_checked rfl) fun _ => ?_
  refine sane_ite (fun hgfx => sane_takeValue fun value => ?_) fun _ => ?_
  · have hbuilt : b.gfx = true := (Bool.and_eq_true_iff.mp hgfx).1
    refine sane_ite (fun _ => trivial) fun hrange => ?_
    obtain ⟨hhigh, hlow⟩ := not_or.mp hrange
    exact ⟨⟨Or.inr ⟨hbuilt, Int.not_lt.mp hlow, Int.not_le.mp hhigh⟩, hs.args.latency,
      hs.args.loss, hs.args.dup, hs.args.reorder⟩, hs.mode⟩
  refine sane_ite (fun _ => hs.of_checked rfl) fun _ => ?_
  refine sane_ite (fun _ => hs.of_checked rfl) fun _ => ?_
  refine sane_ite (fun _ => sane_takeValue fun _ => hs.of_checked rfl) fun _ => ?_
  refine sane_ite (fun _ => sane_takeValue fun _ => hs.of_checked rfl) fun _ => ?_
  refine sane_ite (fun _ => ?_) fun _ => ?_
  · split
    · exact ⟨⟨hs.args.backend, fitsInt_atoi _, fitsInt_atoi _, fitsInt_atoi _, fitsInt_atoi _⟩,
        hs.mode⟩
    · trivial
  refine sane_ite (fun _ => ?_) fun _ => ?_
  · split
    · trivial
    · exact hs.of_checked rfl
  refine sane_ite (fun _ => hs.of_checked rfl) fun _ => ?_
  exact sane_ite (fun _ => trivial) fun _ => hs.of_checked rfl

/-- The word is an option that ends in `l`, with an empty value. -/
def EmptyLogFile (b : BuildOptions) (word : List UInt8) (rest : List (List UInt8)) : Prop :=
  b.logging = true ∧ word.getLast? = some (ch 'l') ∧ rest.head? = some []

theorem EmptyLogFile.cons {c : UInt8} {letters : List UInt8} {rest : List (List UInt8)}
    (h : EmptyLogFile b letters rest) : EmptyLogFile b (c :: letters) rest := by
  obtain ⟨hlogging, hend, hvalue⟩ := h
  refine ⟨hlogging, ?_, hvalue⟩
  cases letters with
  | nil => cases hend
  | cons q qs =>
      rw [List.getLast?_cons_cons]
      exact hend

/-- **The short options of a word.**  The index ends at the word or at a value, which is only empty
if it belongs to `-l`. -/
theorem shortLoop_spec {s s' : ArgsState} {word word' letters : List UInt8}
    {rest : List (List UInt8)} {used used' : Nat} (hs : s.Sane b)
    (h : shortLoop b s word used letters rest = .inl (s', word', used')) :
    s'.Sane b ∧ (word' = word ∨ word' ≠ [] ∨ EmptyLogFile b letters rest) := by
  induction letters generalizing s word rest used with
  | nil =>
      cases h
      exact ⟨hs, Or.inl rfl⟩
  | cons p more ih =>
      have hflag {t : ArgsState} (ht : t.Sane b)
          (hrest : shortLoop b t word used more rest = .inl (s', word', used')) :
          s'.Sane b ∧ (word' = word ∨ word' ≠ [] ∨ EmptyLogFile b (p :: more) rest) := by
        obtain ⟨hs', hword⟩ := ih ht hrest
        exact ⟨hs', hword.imp id (Or.imp id EmptyLogFile.cons)⟩
      unfold shortLoop at h
      by_cases hp : p = ch 'p'
      · rw [if_pos hp] at h
        cases rest with
        | nil => cases h
        | cons value rest =>
            dsimp only at h
            by_cases hbad : more ≠ [] ∨ value = []
            · rw [if_pos hbad] at h
              cases h
            · rw [if_neg hbad] at h
              obtain ⟨hmore, hvalue⟩ := not_or.mp hbad
              obtain rfl := not_not.mp hmore
              cases h
              exact ⟨hs.of_checked rfl, Or.inr (Or.inl hvalue)⟩
      rw [if_neg hp] at h
      by_cases hserver : (b.gfx && b.server && p = ch 's') = true
      · rw [if_pos hserver] at h
        exact hflag (t := { s with serverFlag := true }) (hs.of_checked rfl) h
      rw [if_neg hserver] at h
      by_cases hhost : (b.gfx && b.server && p = ch 'h') = true
      · rw [if_pos hhost] at h
        exact hflag (t := { s with hostFlag := true }) (hs.of_checked rfl) h
      rw [if_neg hhost] at h
      by_cases hl : (b.logging && p = ch 'l') = true
      · rw [if_pos hl] at h
        cases rest with
        | nil => cases h
        | cons value rest =>
            dsimp only at h
            by_cases hmore : more = []
            · rw [if_neg (not_not.mpr hmore)] at h
              subst hmore
              cases h
              refine ⟨hs.of_checked rfl, ?_⟩
              obtain ⟨hlogging, hletter⟩ := Bool.and_eq_true_iff.mp hl
              have hletter := of_decide_eq_true hletter
              by_cases hvalue : word' = []
              · refine Or.inr (Or.inr ⟨hlogging, ?_, ?_⟩)
                · rw [hletter]
                  rfl
                · rw [hvalue]
                  rfl
              · exact Or.inr (Or.inl hvalue)
            · rw [if_pos hmore] at h
              cases h
      · rw [if_neg hl] at h
        cases h

/-- A word is read to its end at most, unless it sets an empty log file. -/
theorem parseWord_spec {s : ArgsState} (hs : s.Sane b) (word : List UInt8)
    (rest : List (List UInt8)) :
    (∃ r, parseWord b s word rest = .ok r ∧ r.Sane b) ∨
      parseWord b s word rest = .error .overread ∧ word.head? = some (ch '-') ∧
        EmptyLogFile b word rest := by
  cases word with
  | nil => exact Or.inl ⟨.reject (.invalidOption []), by unfold parseWord charAt; rfl, trivial⟩
  | cons c tail =>
      have hfirst : charAt (c :: tail) 0 = .ok c := rfl
      have hsecond (w : List UInt8) (hw : w ≠ []) : ∃ x, charAt w 1 = .ok x := by
        unfold charAt
        split_ifs with hlt heq
        · exact ⟨_, rfl⟩
        · exact ⟨_, rfl⟩
        · exact absurd (List.length_pos_iff.mpr hw) (by omega)
      by_cases hdash : c = ch '-'
      · obtain ⟨second, hread⟩ := hsecond (c :: tail) (List.cons_ne_nil _ _)
        unfold parseWord
        rw [hfirst, ok_bind, if_pos hdash, hread, ok_bind]
        by_cases hlong : second = ch '-'
        · rw [if_pos hlong]
          exact Or.inl ⟨_, rfl, sane_parseLong hs _ _⟩
        · rw [if_neg hlong, parseShort, List.drop_one, List.tail_cons]
          cases hloop : shortLoop b s (c :: tail) 0 tail rest with
          | inr error => exact Or.inl ⟨_, rfl, trivial⟩
          | inl ended =>
              obtain ⟨s', word', used'⟩ := ended
              obtain ⟨hs', hword⟩ := shortLoop_spec hs hloop
              dsimp only
              by_cases hempty : word' = []
              · refine Or.inr ⟨?_, ?_, ?_⟩
                · rw [hempty]
                  rfl
                · rw [hdash]
                  rfl
                · rcases hword with hsame | hne | hlog
                  · rw [hempty] at hsame
                    cases hsame
                  · exact absurd hempty hne
                  · exact hlog.cons
              · obtain ⟨x, hx⟩ := hsecond word' hempty
                rw [hx, ok_bind]
                refine Or.inl ⟨_, rfl, ?_⟩
                split
                · trivial
                · exact hs'
      · unfold parseWord
        rw [hfirst, ok_bind, if_neg hdash]
        exact Or.inl ⟨_, rfl, trivial⟩

/-- **All words.** -/
theorem argsLoop_spec {words : List (List UInt8)} {s : ArgsState} (hs : s.Sane b) (used : Nat) :
    (∃ r, argsLoop b s used words = .ok r ∧ ∀ s', r = .inl s' → s'.Sane b) ∨
      argsLoop b s used words = .error .overread ∧ ∃ before option after,
        words = before ++ option :: after ∧ option.head? = some (ch '-') ∧
          EmptyLogFile b option after := by
  induction words generalizing s used with
  | nil =>
      refine Or.inl ⟨.inl s, by rw [argsLoop], ?_⟩
      intro s' hsame
      cases hsame
      exact hs
  | cons word rest ih =>
      have hnext {t : ArgsState} (ht : t.Sane b) (n : Nat)
          (hloop : argsLoop b s used (word :: rest) = argsLoop b t n rest) :
          (∃ r, argsLoop b s used (word :: rest) = .ok r ∧ ∀ s', r = .inl s' → s'.Sane b) ∨
            argsLoop b s used (word :: rest) = .error .overread ∧ ∃ before option after,
              word :: rest = before ++ option :: after ∧ option.head? = some (ch '-') ∧
                EmptyLogFile b option after := by
        rw [hloop]
        rcases ih ht n with hok | ⟨herror, before, option, after, hwords, hdash, hlog⟩
        · exact Or.inl hok
        · exact Or.inr ⟨herror, word :: before, option, after, by rw [hwords]; rfl, hdash, hlog⟩
      cases used with
      | succ used => exact hnext hs used (by rw [argsLoop])
      | zero =>
          rcases parseWord_spec hs word rest with ⟨r, hword, hr⟩ | ⟨hword, hdash, hlog⟩
          · cases r with
            | next t n => exact hnext hr n (by rw [argsLoop, hword]; rfl)
            | stop t =>
                refine Or.inl ⟨.inl t, by rw [argsLoop, hword]; rfl, ?_⟩
                intro s' hsame
                cases hsame
                exact hr
            | help =>
                refine Or.inl ⟨.inr none, by rw [argsLoop, hword]; rfl, ?_⟩
                intro s' hsame
                cases hsame
            | reject error =>
                refine Or.inl ⟨.inr (some error), by rw [argsLoop, hword]; rfl, ?_⟩
                intro s' hsame
                cases hsame
          · exact Or.inr ⟨by rw [argsLoop, hword]; rfl, [], word, rest, rfl, hdash, hlog⟩

theorem sane_selectMode {s : ArgsState} (hs : s.Sane b) {a : Args}
    (h : selectMode b s = .inl a) : a.Sane b ∧ a.mode.Built b := by
  have hsane (m : Mode) : ({ s.args with mode := m } : Args).Sane b :=
    ⟨hs.args.backend, hs.args.latency, hs.args.loss, hs.args.dup, hs.args.reorder⟩
  unfold selectMode at h
  split_ifs at h with htests hbench hboth hserver hhost
  · cases h
    exact ⟨hsane _, (Bool.and_eq_true_iff.mp htests).1⟩
  · cases h
    exact ⟨hsane _, (Bool.and_eq_true_iff.mp hbench).1⟩
  · cases h
    obtain ⟨hbuilt, -⟩ := Bool.and_eq_true_iff.mp hserver
    exact ⟨hsane _, Or.inr (Bool.and_eq_true_iff.mp hbuilt).2⟩
  · cases h
    obtain ⟨hbuilt, -⟩ := Bool.and_eq_true_iff.mp hhost
    exact ⟨hsane _, Bool.and_eq_true_iff.mp hbuilt⟩
  · cases h
    refine ⟨hs.args, ?_⟩
    rw [hs.mode, argsDefaults]
    dsimp only
    split
    · next hgfx => exact hgfx
    · next hgfx => exact Or.inl (Bool.eq_false_of_not_eq_true hgfx)

end

/-- **The command line.**  No list of words makes the parser read behind the end of one, except for
short options that end in `l` in front of an empty word.  The arguments of an accepted one name a
graphics backend that exists, numbers that fit, and a mode that has been built. -/
theorem args_parse_sane (b : BuildOptions) (words : List (List UInt8)) :
    (∀ f, argsParse b words = .error f → f = .overread ∧ ∃ before option after,
      words = before ++ option :: after ∧ option.head? = some (ch '-') ∧
        EmptyLogFile b option after) ∧
      ∀ a, argsParse b words = .ok (.inl a) → a.Sane b ∧ a.mode.Built b := by
  unfold argsParse
  rcases @argsLoop_spec b words _ sane_argsBegin 0 with ⟨r, hloop, hr⟩ | ⟨hloop, hword⟩
  · rw [hloop, ok_bind]
    cases r with
    | inl s =>
        constructor
        · intro f hf
          cases hf
        · intro a ha
          exact sane_selectMode (hr s rfl) (Except.ok.inj ha)
    | inr error =>
        constructor
        · intro f hf
          cases hf
        · intro a ha
          cases ha
  · rw [hloop, error_bind]
    constructor
    · intro f hf
      cases hf
      exact ⟨rfl, hword⟩
    · intro a ha
      cases ha

/-- An empty log file is accepted, but behind `-l` the parser reads behind the end of it. -/
example : argsParse ⟨false, false, true, true, true, false, 2⟩ [cstr "-l", []] =
    .error .overread := by decide

end Clither
