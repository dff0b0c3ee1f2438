import Mathlib.Logic.Basic

/-!
# Faults that a computation avoids

A function that may stop with one of several faults is often known to avoid one of
them.  `Avoids` is closed under the ways in which such functions are put
together, so that a long function avoids a fault if the functions it calls do.
-/

namespace Faults

variable {φ β γ : Type} {f : φ}

/-- What is asked of the result, if there is one. -/
instance decidableForallOk {P : β → Prop} [DecidablePred P] :
    (x : Except φ β) → Decidable (∀ b, x = .ok b → P b)
  | .ok b => decidable_of_iff (P b) ⟨fun h _ hb => Except.ok.inj hb ▸ h, fun h => h b rfl⟩
  | .error _ => isTrue fun _ hb => by cases hb

/-- The computation does not stop with the fault. -/
def Avoids (f : φ) (x : Except φ β) : Prop :=
  x ≠ .error f

@[simp] theorem avoids_ok (b : β) : Avoids f (.ok b) := by
  intro h
  cases h

@[simp] theorem avoids_pure (b : β) : Avoids f (pure b) :=
  avoids_ok b

/-- A sequence goes through if both of its parts do. -/
theorem bind_eq_ok {x : Except φ β} {g : β → Except φ γ} {r : γ} :
    (x >>= g) = .ok r ↔ ∃ b, x = .ok b ∧ g b = .ok r := by
  constructor
  · intro h
    cases x with
    | ok b => exact ⟨b, rfl, h⟩
    | error e => cases h
  · rintro ⟨b, rfl, h⟩
    exact h

theorem avoids_error {e : φ} (hne : e ≠ f) : Avoids f (.error e : Except φ β) := by
  intro h
  cases h
  exact hne rfl

theorem Avoids.bind {x : Except φ β} {g : β → Except φ γ} (hx : Avoids f x)
    (hg : ∀ b, x = .ok b → Avoids f (g b)) : Avoids f (x >>= g) := by
  cases x with
  | ok b => exact hg b rfl
  | error e =>
      intro h
      cases h
      exact hx rfl

/-- The fault is avoided exactly when both parts avoid it. -/
theorem avoids_bind_iff {x : Except φ β} {g : β → Except φ γ} :
    Avoids f (x >>= g) ↔ Avoids f x ∧ ∀ b, x = .ok b → Avoids f (g b) := by
  refine ⟨fun h => ⟨?_, fun b hb => ?_⟩, fun h => h.1.bind h.2⟩
  · rintro rfl
    exact h rfl
  · subst hb
    exact h

/-- A computation that succeeds leaves the fault to the rest. -/
theorem avoids_bind_ok {x : Except φ β} {g : β → Except φ γ} {b : β} (hx : x = .ok b) :
    Avoids f (x >>= g) ↔ Avoids f (g b) := by
  subst hx
  exact Iff.rfl

theorem avoids_ite {p : Prop} [Decidable p] {x y : Except φ β} (hx : p → Avoids f x)
    (hy : ¬ p → Avoids f y) : Avoids f (if p then x else y) := by
  by_cases hp : p
  · rw [if_pos hp]
    exact hx hp
  · rw [if_neg hp]
    exact hy hp

end Faults
