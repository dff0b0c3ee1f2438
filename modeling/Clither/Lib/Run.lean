import Mathlib.Logic.Basic

/-!
# Runs of a partial step function

A component is a state type, an event type and a step function that either
reaches the next state or stops with a fault.  A run feeds a list of events to
the step function from the left.

`run_invariant` is the one induction every safety theorem needs: an invariant
that each step keeps, under a condition that each step meets, holds at the end
of the run.  `EveryState` talks about all the states a run passes through and
not only about the last one.
-/

namespace Run

variable {σ ε φ : Type} (step : σ → ε → Except φ σ)

/-- Feed the events to the step function, oldest first. -/
def run : σ → List ε → Except φ σ
  | s, [] => .ok s
  | s, e :: es =>
      match step s e with
      | .ok s' => run s' es
      | .error f => .error f

/-- Each step of the run is taken in a state where `cond` holds of the event. -/
def Meets (cond : σ → ε → Prop) : σ → List ε → Prop
  | _, [] => True
  | s, e :: es => cond s e ∧ ∀ s', step s e = .ok s' → Meets cond s' es

/-- The run takes all of its steps, and `good` holds of every state it passes
through, the first and the last included. -/
def EveryState (good : σ → Prop) : σ → List ε → Prop
  | s, [] => good s
  | s, e :: es => good s ∧ ∃ s', step s e = .ok s' ∧ EveryState good s' es

/-- Each step that the run takes has the effect `effect`, and a fault that stops
it is `allowed`. -/
def EverySafe (effect : σ → ε → σ → Prop) (allowed : φ → Prop) : σ → List ε → Prop
  | _, [] => True
  | s, e :: es =>
      (∀ f, step s e = .error f → allowed f) ∧
        ∀ s', step s e = .ok s' → effect s e s' ∧ EverySafe effect allowed s' es

/-- The run takes all of its steps, and each of them has the effect `effect`. -/
def EveryStep (effect : σ → ε → σ → Prop) : σ → List ε → Prop
  | _, [] => True
  | s, e :: es => ∃ s', step s e = .ok s' ∧ effect s e s' ∧ EveryStep effect s' es

variable {step}

instance decidableMeets {cond : σ → ε → Prop} [∀ s e, Decidable (cond s e)] :
    (s : σ) → (es : List ε) → Decidable (Meets step cond s es)
  | _, [] => isTrue trivial
  | s, e :: es =>
      match h : step s e with
      | .ok m =>
          haveI : Decidable (Meets step cond m es) := decidableMeets m es
          decidable_of_iff (cond s e ∧ Meets step cond m es)
            ⟨fun hm => ⟨hm.1, fun s' hs' => by rw [h] at hs'; cases hs'; exact hm.2⟩,
             fun hm => ⟨hm.1, hm.2 m h⟩⟩
      | .error _ =>
          decidable_of_iff (cond s e)
            ⟨fun hc => ⟨hc, fun s' hs' => by rw [h] at hs'; cases hs'⟩, fun hm => hm.1⟩

theorem run_cons_ok {s m : σ} {e : ε} (h : step s e = .ok m) (es : List ε) :
    run step s (e :: es) = run step m es := by
  rw [run, h]

theorem exists_ok_of_isSome {x : Except φ σ} (h : x.toOption.isSome = true) : ∃ s, x = .ok s := by
  cases x with
  | ok s => exact ⟨s, rfl⟩
  | error f => cases h

/-- A run can be cut at any point. -/
theorem run_append (s : σ) (es fs : List ε) :
    run step s (es ++ fs) =
      (match run step s es with
        | .ok s' => run step s' fs
        | .error f => .error f) := by
  induction es generalizing s with
  | nil => rfl
  | cons e es ih =>
      simp only [List.cons_append, run]
      cases step s e with
      | ok s' => exact ih s'
      | error f => rfl

/-- **Run rule, partial form.**  What every step keeps holds at the end of
each run that is not stopped by a fault. -/
theorem run_invariant {inv : σ → Prop} {cond : σ → ε → Prop}
    (keeps : ∀ s e s', inv s → cond s e → step s e = .ok s' → inv s')
    {s s' : σ} {es : List ε} (hs : inv s) (hmeets : Meets step cond s es)
    (hrun : run step s es = .ok s') : inv s' := by
  induction es generalizing s with
  | nil =>
      cases hrun
      exact hs
  | cons e es ih =>
      simp only [run] at hrun
      cases hstep : step s e with
      | ok m =>
          rw [hstep] at hrun
          exact ih (keeps s e m hs hmeets.1 hstep) (hmeets.2 m hstep) hrun
      | error f =>
          rw [hstep] at hrun
          cases hrun

/-- **Run rule for all states.**  Under a condition that makes every step
succeed and keep the invariant, the run passes through states with the
invariant only. -/
theorem everyState_of_meets {inv good : σ → Prop} {cond : σ → ε → Prop}
    (keeps : ∀ s e, inv s → cond s e → ∃ s', step s e = .ok s' ∧ inv s')
    (himp : ∀ s, inv s → good s) {s : σ} {es : List ε} (hs : inv s)
    (hmeets : Meets step cond s es) : EveryState step good s es := by
  induction es generalizing s with
  | nil => exact himp s hs
  | cons e es ih =>
      obtain ⟨m, hstep, hm⟩ := keeps s e hs hmeets.1
      exact ⟨himp s hs, m, hstep, ih hm (hmeets.2 m hstep)⟩

/-- **Run rule for all steps.** -/
theorem everyStep_of_meets {inv : σ → Prop} {cond : σ → ε → Prop} {effect : σ → ε → σ → Prop}
    (keeps : ∀ s e, inv s → cond s e → ∃ s', step s e = .ok s' ∧ inv s' ∧ effect s e s')
    {s : σ} {es : List ε} (hs : inv s) (hmeets : Meets step cond s es) :
    EveryStep step effect s es := by
  induction es generalizing s with
  | nil => trivial
  | cons e es ih =>
      obtain ⟨m, hstep, hm, heffect⟩ := keeps s e hs hmeets.1
      exact ⟨m, hstep, heffect, ih hm (hmeets.2 m hstep)⟩

/-- **Exact run rule.**  Let every step keep `inv`.  If a step from a good state
leads to a good state exactly when the condition holds, then a run passes
through good states only exactly when all of its steps meet the condition. -/
theorem everyState_iff_meets {inv good : σ → Prop} {cond : σ → ε → Prop}
    (keeps : ∀ s e s', inv s → step s e = .ok s' → inv s')
    (exact_step : ∀ s e, inv s → good s →
      ((∃ s', step s e = .ok s' ∧ good s') ↔ cond s e))
    {s : σ} {es : List ε} (hs : inv s) (hgood : good s) :
    EveryState step good s es ↔ Meets step cond s es := by
  induction es generalizing s with
  | nil => simp [EveryState, Meets, hgood]
  | cons e es ih =>
      constructor
      · rintro ⟨_, m, hstep, hrest⟩
        have hm : good m := by
          cases es with
          | nil => exact hrest
          | cons f fs => exact hrest.1
        refine ⟨(exact_step s e hs hgood).mp ⟨m, hstep, hm⟩, ?_⟩
        intro s' hstep'
        obtain rfl : m = s' := Except.ok.inj (hstep.symm.trans hstep')
        exact (ih (keeps s e m hs hstep) hm).mp hrest
      · rintro ⟨hcond, hrest⟩
        obtain ⟨m, hstep, hm⟩ := (exact_step s e hs hgood).mpr hcond
        exact ⟨hgood, m, hstep, (ih (keeps s e m hs hstep) hm).mpr (hrest m hstep)⟩

/-- **Exact run rule for an invariant.**  Let the states with the invariant be good, and let a
step that the run is `given` lead to the invariant when the condition holds, and to a good state
only then. -/
theorem everyState_iff_meets_of_inv {inv good : σ → Prop} {given cond : σ → ε → Prop}
    (himp : ∀ s, inv s → good s)
    (keeps : ∀ s e, inv s → given s e → cond s e → ∃ s', step s e = .ok s' ∧ inv s')
    (only : ∀ s e s', inv s → given s e → step s e = .ok s' → good s' → cond s e)
    {s : σ} {es : List ε} (hs : inv s) (hgiven : Meets step given s es) :
    EveryState step good s es ↔ Meets step cond s es := by
  induction es generalizing s with
  | nil => exact ⟨fun _ => trivial, fun _ => himp s hs⟩
  | cons e es ih =>
      obtain ⟨hfirst, hlater⟩ := hgiven
      constructor
      · rintro ⟨-, m, hstep, hrest⟩
        have hm : good m := by
          cases es with
          | nil => exact hrest
          | cons f fs => exact hrest.1
        have hcond := only s e m hs hfirst hstep hm
        refine ⟨hcond, fun s' hstep' => ?_⟩
        obtain ⟨m', hm', hinv⟩ := keeps s e hs hfirst hcond
        obtain rfl : m = m' := Except.ok.inj (hstep.symm.trans hm')
        obtain rfl : m = s' := Except.ok.inj (hstep.symm.trans hstep')
        exact (ih hinv (hlater m hstep)).mp hrest
      · rintro ⟨hcond, hrest⟩
        obtain ⟨m, hstep, hm⟩ := keeps s e hs hfirst hcond
        exact ⟨himp s hs, m, hstep, (ih hm (hlater m hstep)).mpr (hrest m hstep)⟩

/-- **Exact run rule for all steps.**  Let every step keep `inv`, and let a step
that the run is `given` have its effect exactly when the condition holds.  Then
all steps of the run have their effect exactly when all of them meet the
condition. -/
theorem everyStep_iff_meets {inv : σ → Prop} {given cond : σ → ε → Prop}
    {effect : σ → ε → σ → Prop}
    (keeps : ∀ s e s', inv s → step s e = .ok s' → inv s')
    (exact_step : ∀ s e, inv s → given s e →
      ((∃ s', step s e = .ok s' ∧ effect s e s') ↔ cond s e))
    {s : σ} {es : List ε} (hs : inv s) (hgiven : Meets step given s es) :
    EveryStep step effect s es ↔ Meets step cond s es := by
  induction es generalizing s with
  | nil => exact Iff.rfl
  | cons e es ih =>
      obtain ⟨hfirst, hlater⟩ := hgiven
      constructor
      · rintro ⟨m, hstep, heffect, hrest⟩
        refine ⟨(exact_step s e hs hfirst).mp ⟨m, hstep, heffect⟩, ?_⟩
        intro s' hstep'
        obtain rfl : m = s' := Except.ok.inj (hstep.symm.trans hstep')
        exact (ih (keeps s e m hs hstep) (hlater m hstep)).mp hrest
      · rintro ⟨hcond, hrest⟩
        obtain ⟨m, hstep, heffect⟩ := (exact_step s e hs hfirst).mpr hcond
        exact ⟨m, hstep, heffect, (ih (keeps s e m hs hstep) (hlater m hstep)).mpr (hrest m hstep)⟩

/-- **Exact run rule for runs that may stop.**  Let every step that meets the
condition keep `inv`, and let a step be safe exactly when the condition holds. -/
theorem everySafe_iff_meets_of_keeps {inv : σ → Prop} {cond : σ → ε → Prop}
    {effect : σ → ε → σ → Prop} {allowed : φ → Prop}
    (keeps : ∀ s e s', inv s → cond s e → step s e = .ok s' → inv s')
    (exact_step : ∀ s e, inv s →
      (((∀ f, step s e = .error f → allowed f) ∧ ∀ s', step s e = .ok s' → effect s e s') ↔
        cond s e))
    {s : σ} {es : List ε} (hs : inv s) :
    EverySafe step effect allowed s es ↔ Meets step cond s es := by
  induction es generalizing s with
  | nil => exact Iff.rfl
  | cons e es ih =>
      have hrest (hcond : cond s e) (s' : σ) (hstep : step s e = .ok s') :=
        ih (keeps s e s' hs hcond hstep)
      constructor
      · rintro ⟨hfault, hok⟩
        have hcond := (exact_step s e hs).mp ⟨hfault, fun s' hstep => (hok s' hstep).1⟩
        exact ⟨hcond, fun s' hstep => (hrest hcond s' hstep).mp (hok s' hstep).2⟩
      · rintro ⟨hcond, hlater⟩
        obtain ⟨hfault, heffect⟩ := (exact_step s e hs).mpr hcond
        exact ⟨hfault, fun s' hstep =>
          ⟨heffect s' hstep, (hrest hcond s' hstep).mpr (hlater s' hstep)⟩⟩

/-- The same when every step keeps `inv`. -/
theorem everySafe_iff_meets {inv : σ → Prop} {cond : σ → ε → Prop} {effect : σ → ε → σ → Prop}
    {allowed : φ → Prop} (keeps : ∀ s e s', inv s → step s e = .ok s' → inv s')
    (exact_step : ∀ s e, inv s →
      (((∀ f, step s e = .error f → allowed f) ∧ ∀ s', step s e = .ok s' → effect s e s') ↔
        cond s e))
    {s : σ} {es : List ε} (hs : inv s) :
    EverySafe step effect allowed s es ↔ Meets step cond s es :=
  everySafe_iff_meets_of_keeps (fun s e s' hs _ => keeps s e s' hs) exact_step hs

theorem meets_of_forall {cond : σ → ε → Prop} (h : ∀ s e, cond s e) (s : σ) (es : List ε) :
    Meets step cond s es := by
  induction es generalizing s with
  | nil => trivial
  | cons e es ih => exact ⟨h s e, fun s' _ => ih s'⟩

theorem meets_mono {cond cond' : σ → ε → Prop} (h : ∀ s e, cond s e → cond' s e) {s : σ}
    {es : List ε} (hmeets : Meets step cond s es) : Meets step cond' s es := by
  induction es generalizing s with
  | nil => trivial
  | cons e es ih => exact ⟨h s e hmeets.1, fun s' hstep => ih (hmeets.2 s' hstep)⟩

theorem meets_and {cond cond' : σ → ε → Prop} {s : σ} {es : List ε} (h : Meets step cond s es)
    (h' : Meets step cond' s es) : Meets step (fun s e => cond s e ∧ cond' s e) s es := by
  induction es generalizing s with
  | nil => trivial
  | cons e es ih => exact ⟨⟨h.1, h'.1⟩, fun s' hstep => ih (h.2 s' hstep) (h'.2 s' hstep)⟩

theorem meets_of_mem {p : ε → Prop} {s : σ} {es : List ε} (h : ∀ e ∈ es, p e) :
    Meets step (fun _ e => p e) s es := by
  induction es generalizing s with
  | nil => trivial
  | cons e es ih =>
      obtain ⟨he, hes⟩ := List.forall_mem_cons.mp h
      exact ⟨he, fun s' _ => ih hes⟩

/-- **Exact rule for two conditions** that are the same where the run is `given`. -/
theorem meets_iff_meets {inv : σ → Prop} {given cond cond' : σ → ε → Prop}
    (keeps : ∀ s e s', inv s → given s e → step s e = .ok s' → inv s')
    (exact_cond : ∀ s e, inv s → given s e → (cond s e ↔ cond' s e)) {s : σ} {es : List ε}
    (hs : inv s) (hgiven : Meets step given s es) :
    Meets step cond s es ↔ Meets step cond' s es := by
  induction es generalizing s with
  | nil => exact Iff.rfl
  | cons e es ih =>
      obtain ⟨hfirst, hlater⟩ := hgiven
      refine and_congr (exact_cond s e hs hfirst) ?_
      exact forall₂_congr fun s' hstep => ih (keeps s e s' hs hfirst hstep) (hlater s' hstep)

/-- **Run rule for runs that may stop anywhere.** -/
theorem everySafe_of_meets {inv : σ → Prop} {cond : σ → ε → Prop} {effect : σ → ε → σ → Prop}
    (keeps : ∀ s e s', inv s → cond s e → step s e = .ok s' → inv s' ∧ effect s e s')
    {s : σ} {es : List ε} (hs : inv s) (hmeets : Meets step cond s es) :
    EverySafe step effect (fun _ => True) s es := by
  induction es generalizing s with
  | nil => trivial
  | cons e es ih =>
      refine ⟨fun _ _ => trivial, fun s' hstep => ?_⟩
      obtain ⟨hs', heffect⟩ := keeps s e s' hs hmeets.1 hstep
      exact ⟨heffect, ih hs' (hmeets.2 s' hstep)⟩

/-- The same without a condition. -/
theorem everySafe_of_invariant {inv : σ → Prop} {effect : σ → ε → σ → Prop}
    (keeps : ∀ s e s', inv s → step s e = .ok s' → inv s' ∧ effect s e s')
    {s : σ} {es : List ε} (hs : inv s) : EverySafe step effect (fun _ => True) s es :=
  everySafe_of_meets (fun s e s' hs _ => keeps s e s' hs) hs
    (meets_of_forall (fun _ _ => trivial) s es)

/-- The last step of such a run has the effect. -/
theorem effect_of_everySafe {effect : σ → ε → σ → Prop} {allowed : φ → Prop} {s m m' : σ} {es : List ε}
    {e : ε} (h : EverySafe step effect allowed s (es ++ [e])) (hrun : run step s es = .ok m)
    (hstep : step m e = .ok m') : effect m e m' := by
  induction es generalizing s with
  | nil =>
      cases hrun
      exact (h.2 m' hstep).1
  | cons f fs ih =>
      simp only [run] at hrun
      cases hfirst : step s f with
      | error _ =>
          rw [hfirst] at hrun
          cases hrun
      | ok s₁ =>
          rw [hfirst] at hrun
          exact ih (h.2 s₁ hfirst).2 hrun

/-- A fault that stops such a run is allowed. -/
theorem allowed_of_everySafe {effect : σ → ε → σ → Prop} {allowed : φ → Prop} {s : σ} {es : List ε}
    {f : φ} (h : EverySafe step effect allowed s es) (hrun : run step s es = .error f) :
    allowed f := by
  induction es generalizing s with
  | nil => cases hrun
  | cons e es ih =>
      simp only [run] at hrun
      cases hfirst : step s e with
      | error f' =>
          rw [hfirst] at hrun
          cases hrun
          exact h.1 f hfirst
      | ok s₁ =>
          rw [hfirst] at hrun
          exact ih (h.2 s₁ hfirst).2 hrun

/-- A run whose steps all have an effect passes through all of its states. -/
theorem everyState_of_everyStep {inv good : σ → Prop} {effect : σ → ε → σ → Prop}
    (keeps : ∀ s e s', inv s → step s e = .ok s' → inv s') (himp : ∀ s, inv s → good s)
    {s : σ} {es : List ε} (hs : inv s) (h : EveryStep step effect s es) :
    EveryState step good s es := by
  induction es generalizing s with
  | nil => exact himp s hs
  | cons e es ih =>
      obtain ⟨m, hstep, -, hrest⟩ := h
      exact ⟨himp s hs, m, hstep, ih (keeps s e m hs hstep) hrest⟩

/-- The states a run passes through are the ends of its prefixes. -/
theorem everyState_prefix {good : σ → Prop} {s : σ} {es fs : List ε}
    (h : EveryState step good s (es ++ fs)) :
    ∃ m, run step s es = .ok m ∧ EveryState step good m fs := by
  induction es generalizing s with
  | nil => exact ⟨s, rfl, h⟩
  | cons e es ih =>
      obtain ⟨_, m, hstep, hrest⟩ := h
      obtain ⟨m', hrun, hm'⟩ := ih hrest
      exact ⟨m', by simpa only [run, hstep] using hrun, hm'⟩

/-! ## Calls with answers

A call reaches the next state and gives an answer.  A specification relates the
states and the answer of one call. -/

section

variable {ρ τ : Type} (call : σ → ε → Except φ (ρ × σ)) (spec : τ → ε → ρ → τ → Prop)

/-- The step of a call. -/
def stepOf (s : σ) (e : ε) : Except φ σ :=
  match call s e with
  | .ok r => .ok r.2
  | .error f => .error f

/-- The answers of a run, and the state it ends in. -/
def answers : σ → List ε → Except φ (List ρ × σ)
  | s, [] => .ok ([], s)
  | s, e :: es =>
      match call s e with
      | .error f => .error f
      | .ok (r, s') =>
          match answers s' es with
          | .error f => .error f
          | .ok (rs, last) => .ok (r :: rs, last)

/-- The answers that the specification allows, and the state it ends in. -/
inductive SpecRun : τ → List ε → List ρ → τ → Prop where
  | nil (t : τ) : SpecRun t [] [] t
  | cons {t t' last : τ} {e : ε} {es : List ε} {r : ρ} {rs : List ρ} (hcall : spec t e r t')
      (hrest : SpecRun t' es rs last) : SpecRun t (e :: es) (r :: rs) last

variable {call spec}

theorem stepOf_eq_ok {s s' : σ} {e : ε} :
    stepOf call s e = .ok s' ↔ ∃ r, call s e = .ok (r, s') := by
  unfold stepOf
  cases call s e with
  | error f => simp
  | ok r => simp [Prod.ext_iff]

/-- **Refinement rule.**  If each call answers as the specification allows and
keeps the states related, so does a run. -/
theorem answers_refine {rel : σ → τ → Prop} {cond : σ → ε → Prop}
    (refines : ∀ s t e, rel s t → cond s e →
      ∃ r s' t', call s e = .ok (r, s') ∧ spec t e r t' ∧ rel s' t')
    {s : σ} {t : τ} {es : List ε} (hrel : rel s t) (hmeets : Meets (stepOf call) cond s es) :
    ∃ rs s' t', answers call s es = .ok (rs, s') ∧ SpecRun spec t es rs t' ∧ rel s' t' := by
  induction es generalizing s t with
  | nil => exact ⟨[], s, t, rfl, .nil t, hrel⟩
  | cons e es ih =>
      obtain ⟨r, m, u, hcall, hspec, hm⟩ := refines s t e hrel hmeets.1
      obtain ⟨rs, s', t', hrun, hrest, hlast⟩ := ih hm (hmeets.2 m (stepOf_eq_ok.mpr ⟨r, hcall⟩))
      refine ⟨r :: rs, s', t', ?_, .cons hspec hrest, hlast⟩
      rw [answers, hcall]
      dsimp only
      rw [hrun]

end

end Run
