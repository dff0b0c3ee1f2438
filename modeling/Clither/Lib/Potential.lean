import Clither.Lib.Run
import Mathlib.Data.Int.ModEq
import Mathlib.Tactic.Ring

/-!
# Potentials

A quantity of the state changes in each step of a run by an amount that is known
before the step is taken.  Over the run it changes by the sum of these amounts.
A log grows in the same way.
-/

namespace Run

variable {σ ε φ : Type} (step : σ → ε → Except φ σ)

/-- The sum of an amount over the steps that the run takes. -/
def total (amount : σ → ε → Int) : σ → List ε → Int
  | _, [] => 0
  | s, e :: es =>
      match step s e with
      | .ok s' => amount s e + total amount s' es
      | .error _ => amount s e

variable {step} {amount : σ → ε → Int}

theorem total_cons_ok {s m : σ} {e : ε} (h : step s e = .ok m) (es : List ε) :
    total step amount s (e :: es) = amount s e + total step amount m es := by
  rw [total, h]

/-- **Potential rule**, for a quantity that is only known modulo `n`: in a run whose steps add a
constant and a multiple of an amount, these are added up. -/
theorem potential_run {inv : σ → Prop} {good : ε → Prop} {potential : σ → Int}
    {n fixed factor : Int}
    (keeps : ∀ s e s', inv s → good e → step s e = .ok s' →
      inv s' ∧ potential s' ≡ potential s + fixed + factor * amount s e [ZMOD n])
    {s s' : σ} {es : List ε} (hs : inv s) (hes : ∀ e ∈ es, good e)
    (hrun : run step s es = .ok s') :
    inv s' ∧ potential s' ≡
      potential s + es.length * fixed + factor * total step amount s es [ZMOD n] := by
  induction es generalizing s with
  | nil =>
      cases hrun
      refine ⟨hs, ?_⟩
      simp [total, Int.ModEq.refl]
  | cons e es ih =>
      cases hstep : step s e with
      | error f =>
          rw [run, hstep] at hrun
          cases hrun
      | ok m =>
          rw [run_cons_ok hstep] at hrun
          obtain ⟨hgood, hes⟩ := List.forall_mem_cons.mp hes
          obtain ⟨hm, hfirst⟩ := keeps s e m hs hgood hstep
          obtain ⟨hs', hrest⟩ := ih hm hes hrun
          refine ⟨hs', hrest.trans ?_⟩
          have hadded := (hfirst.add_right (es.length * fixed)).add_right
            (factor * total step amount m es)
          have hsum : potential s + fixed + factor * amount s e + es.length * fixed +
              factor * total step amount m es =
                potential s + (e :: es).length * fixed +
                  factor * total step amount s (e :: es) := by
            rw [total_cons_ok hstep, List.length_cons]
            push_cast
            ring
          rw [← hsum]
          exact hadded

section

variable (step) {γ : Type*} (out : σ → ε → List γ)

/-- What the steps of a run put out, one after the other. -/
def emitted : σ → List ε → List γ
  | _, [] => []
  | s, e :: es =>
      out s e ++
        match step s e with
        | .ok m => emitted m es
        | .error _ => []

theorem emitted_cons_ok {s m : σ} {e : ε} (h : step s e = .ok m) (es : List ε) :
    emitted step out s (e :: es) = out s e ++ emitted step out m es := by
  rw [emitted, h]

/-- **Log rule**: in a run whose steps append what they put out to a log, the log holds all of
it. -/
theorem emitted_run {δ : Type*} {entry : γ → δ} {inv : σ → Prop} {good : ε → Prop}
    {log : σ → List δ}
    (keeps : ∀ s e s', inv s → good e → step s e = .ok s' →
      inv s' ∧ log s' = log s ++ (out s e).map entry)
    {s s' : σ} {es : List ε} (hs : inv s) (hes : ∀ e ∈ es, good e)
    (hrun : run step s es = .ok s') :
    inv s' ∧ log s' = log s ++ (emitted step out s es).map entry := by
  induction es generalizing s with
  | nil =>
      cases hrun
      exact ⟨hs, (List.append_nil _).symm⟩
  | cons e es ih =>
      cases hstep : step s e with
      | error f =>
          rw [run, hstep] at hrun
          cases hrun
      | ok m =>
          rw [run_cons_ok hstep] at hrun
          obtain ⟨hgood, hes⟩ := List.forall_mem_cons.mp hes
          obtain ⟨hm, hfirst⟩ := keeps s e m hs hgood hstep
          obtain ⟨hs', hrest⟩ := ih hm hes hrun
          refine ⟨hs', ?_⟩
          rw [hrest, hfirst, emitted_cons_ok step out hstep, List.map_append, List.append_assoc]

end

end Run
