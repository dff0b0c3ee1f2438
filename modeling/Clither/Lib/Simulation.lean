import Clither.Lib.Run

/-!
# Simulations

What one machine does in a step may be nothing to another machine, or one of its own
steps.  Then the other machine can follow any run of the first.
-/

namespace Run

variable {σ τ ε δ φ : Type} (step : σ → ε → Except φ σ) (other : τ → δ → Except φ τ)

/-- From related states, the other machine follows each step in one of its own at most. -/
def Simulates (rel : σ → τ → Prop) : Prop :=
  ∀ s t e s', rel s t → step s e = .ok s' →
    ∃ t' followed, followed.length ≤ 1 ∧ run other t followed = .ok t' ∧ rel s' t'

variable {step other}

/-- **Simulation rule.**  The other machine follows each run, in no more steps. -/
theorem Simulates.run {rel : σ → τ → Prop} (h : Simulates step other rel) {s s' : σ} {t : τ}
    {es : List ε} (hrel : rel s t) (hrun : Run.run step s es = .ok s') :
    ∃ t' followed, followed.length ≤ es.length ∧ Run.run other t followed = .ok t' ∧
      rel s' t' := by
  induction es generalizing s t with
  | nil =>
      cases hrun
      exact ⟨t, [], Nat.le_refl _, rfl, hrel⟩
  | cons e rest ih =>
      cases hstep : step s e with
      | error f =>
          rw [Run.run, hstep] at hrun
          cases hrun
      | ok m =>
          rw [run_cons_ok hstep] at hrun
          obtain ⟨u, first, hone, hfirst, hm⟩ := h s t e m hrel hstep
          obtain ⟨t', later, hlength, hlater, hlast⟩ := ih hm hrun
          refine ⟨t', first ++ later, ?_, ?_, hlast⟩
          · rw [List.length_append, List.length_cons]
            omega
          · rw [run_append, hfirst]
            exact hlater

end Run
