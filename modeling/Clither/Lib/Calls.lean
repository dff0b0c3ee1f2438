import Clither.Lib.Faults

/-!
# Programs that call an interface

A program is a tree of calls: it is done, or it calls an operation of its interface and
goes on with the answer.  The interface is given by a handler, which answers a call in
a state or stops with a fault.

`Meets` and `EverySafe` speak about every call of one run, and `everySafe_iff_meets` is
the induction over the run: when an operation is safe exactly under a condition, so is
each call of a program.  `Yields` is what a program does as long as its calls meet the
condition, and is closed under the ways in which programs are put together.
-/

namespace Calls

/-- A result, or a call and what is done with its answer. -/
inductive Prog (ι : Type) (ρ : ι → Type) (α : Type) : Type where
  | ret (a : α)
  | call (op : ι) (next : ρ op → Prog ι ρ α)

variable {ι σ φ α β : Type} {ρ : ι → Type}

namespace Prog

def bind : Prog ι ρ α → (α → Prog ι ρ β) → Prog ι ρ β
  | .ret a, f => f a
  | .call op next, f => .call op fun r => (next r).bind f

instance : Monad (Prog ι ρ) where
  pure := .ret
  bind := .bind

/-- One call. -/
def ask (op : ι) : Prog ι ρ (ρ op) :=
  .call op .ret

/-- Repeat the body until it has a result.  `endless` is what is left when the number
of rounds is used up. -/
def repeatUntil (endless : Prog ι ρ α) (body : β → Prog ι ρ (β ⊕ α)) : Nat → β → Prog ι ρ α
  | 0, _ => endless
  | n + 1, b =>
      (body b).bind fun
        | .inl b' => repeatUntil endless body n b'
        | .inr a => .ret a

end Prog

section

variable (handle : (op : ι) → σ → Except φ (ρ op × σ))

def run : Prog ι ρ α → σ → Except φ (α × σ)
  | .ret a, s => .ok (a, s)
  | .call op next, s =>
      match handle op s with
      | .error f => .error f
      | .ok (r, s') => run (next r) s'

/-- Each call of the run is made in a state where `cond` holds of it. -/
def Meets (cond : ι → σ → Prop) : Prog ι ρ α → σ → Prop
  | .ret _, _ => True
  | .call op next, s => cond op s ∧ ∀ r, handle op s = .ok r → Meets cond (next r.1) r.2

/-- Each call that is answered has the effect `effect`, and a fault that stops the run is
`allowed`. -/
def EverySafe (effect : (op : ι) → σ → ρ op → σ → Prop) (allowed : φ → Prop) :
    Prog ι ρ α → σ → Prop
  | .ret _, _ => True
  | .call op next, s =>
      (∀ f, handle op s = .error f → allowed f) ∧
        ∀ r, handle op s = .ok r → effect op s r.1 r.2 ∧ EverySafe effect allowed (next r.1) r.2

/-- As long as the calls meet `cond`, they are all `fine`, and the run ends in `post`. -/
def Yields (cond : ι → σ → Prop) (fine : ι → Prop) (post : α → σ → Prop) : Prog ι ρ α → σ → Prop
  | .ret a, s => post a s
  | .call op next, s =>
      cond op s → fine op ∧ ∀ r, handle op s = .ok r → Yields cond fine post (next r.1) r.2

end

variable {handle : (op : ι) → σ → Except φ (ρ op × σ)}

/-- A call is answered before the program goes on. -/
theorem run_call {op : ι} {next : ρ op → Prog ι ρ α} {s s' : σ} {r : ρ op}
    (h : handle op s = .ok (r, s')) : run handle (.call op next) s = run handle (next r) s' := by
  rw [run, h]

/-- A program that ends had its first call answered. -/
theorem run_call_ok {op : ι} {next : ρ op → Prog ι ρ α} {s : σ} {a : α × σ}
    (h : run handle (.call op next) s = .ok a) :
    ∃ r s', handle op s = .ok (r, s') ∧ run handle (next r) s' = .ok a := by
  rw [run] at h
  cases hop : handle op s with
  | error f =>
      rw [hop] at h
      cases h
  | ok q =>
      rw [hop] at h
      exact ⟨q.1, q.2, rfl, h⟩

/-- A program made of two runs one after the other. -/
theorem run_bind (prog : Prog ι ρ α) (f : α → Prog ι ρ β) (s : σ) :
    run handle (prog >>= f) s = run handle prog s >>= fun r => run handle (f r.1) r.2 := by
  induction prog generalizing s with
  | ret a => rfl
  | call op next ih =>
      show run handle (.call op fun r => (next r).bind f) s = _
      rw [run, run]
      cases handle op s with
      | error e => rfl
      | ok r => exact ih r.1 r.2

section

variable {endless : Prog ι ρ α} {body : β → Prog ι ρ (β ⊕ α)} {n : Nat} {b b' : β} {a : α} {s s' : σ}

/-- The loop ends when its body does. -/
theorem run_repeat_done (h : run handle (body b) s = .ok (.inr a, s')) :
    run handle (Prog.repeatUntil endless body (n + 1) b) s = .ok (a, s') := by
  refine (run_bind _ _ _).trans ?_
  rw [h]
  rfl

/-- The loop goes on when its body says so. -/
theorem run_repeat_next (h : run handle (body b) s = .ok (.inl b', s')) :
    run handle (Prog.repeatUntil endless body (n + 1) b) s =
      run handle (Prog.repeatUntil endless body n b') s' := by
  refine (run_bind _ _ _).trans ?_
  rw [h]
  rfl

/-- The loop faults when its body does. -/
theorem run_repeat_error {f : φ} (h : run handle (body b) s = .error f) :
    run handle (Prog.repeatUntil endless body (n + 1) b) s = .error f := by
  refine (run_bind _ _ _).trans ?_
  rw [h]
  rfl

/-- A loop that returns has returned in its first round, or after it. -/
theorem run_repeat_ok (h : run handle (Prog.repeatUntil endless body (n + 1) b) s = .ok (a, s')) :
    run handle (body b) s = .ok (.inr a, s') ∨
      ∃ b' t, run handle (body b) s = .ok (.inl b', t) ∧
        run handle (Prog.repeatUntil endless body n b') t = .ok (a, s') := by
  cases hbody : run handle (body b) s with
  | error f =>
      rw [run_repeat_error hbody] at h
      cases h
  | ok r =>
      obtain ⟨r, t⟩ := r
      cases r with
      | inl b' =>
          rw [run_repeat_next hbody] at h
          exact .inr ⟨b', t, rfl, h⟩
      | inr a' =>
          rw [run_repeat_done hbody] at h
          cases h
          exact .inl rfl

end

instance decidableMeets {cond : ι → σ → Prop} [∀ op s, Decidable (cond op s)] :
    (prog : Prog ι ρ α) → (s : σ) → Decidable (Meets handle cond prog s)
  | .ret _, _ => isTrue trivial
  | .call op next, s =>
      haveI (r : ρ op × σ) : Decidable (Meets handle cond (next r.1) r.2) :=
        decidableMeets (next r.1) r.2
      inferInstanceAs (Decidable (cond op s ∧ ∀ r, handle op s = .ok r →
        Meets handle cond (next r.1) r.2))

/-- **Exact rule.**  Let every call keep `inv`, and let a call be safe exactly when the
condition holds.  Then a run is safe exactly when all of its calls meet the condition. -/
theorem everySafe_iff_meets {inv : σ → Prop} {cond : ι → σ → Prop}
    {effect : (op : ι) → σ → ρ op → σ → Prop} {allowed : φ → Prop}
    (keeps : ∀ op s r, inv s → handle op s = .ok r → inv r.2)
    (exact_call : ∀ op s, inv s →
      (((∀ f, handle op s = .error f → allowed f) ∧
        ∀ r, handle op s = .ok r → effect op s r.1 r.2) ↔ cond op s))
    (prog : Prog ι ρ α) {s : σ} (hs : inv s) :
    EverySafe handle effect allowed prog s ↔ Meets handle cond prog s := by
  induction prog generalizing s with
  | ret a => exact Iff.rfl
  | call op next ih =>
      constructor
      · rintro ⟨hfault, hok⟩
        refine ⟨(exact_call op s hs).mp ⟨hfault, fun r hr => (hok r hr).1⟩, fun r hr => ?_⟩
        exact (ih r.1 (keeps op s r hs hr)).mp (hok r hr).2
      · rintro ⟨hcond, hlater⟩
        obtain ⟨hfault, heffect⟩ := (exact_call op s hs).mpr hcond
        exact ⟨hfault, fun r hr =>
          ⟨heffect r hr, (ih r.1 (keeps op s r hs hr)).mpr (hlater r hr)⟩⟩

/-- A weaker condition is met as well. -/
theorem meets_mono {cond cond' : ι → σ → Prop} (h : ∀ op s, cond op s → cond' op s)
    {prog : Prog ι ρ α} {s : σ} (hmeets : Meets handle cond prog s) :
    Meets handle cond' prog s := by
  induction prog generalizing s with
  | ret a => trivial
  | call op next ih => exact ⟨h op s hmeets.1, fun r hr => ih r.1 (hmeets.2 r hr)⟩

/-- A safe run ends with a result or with an allowed fault. -/
theorem run_of_everySafe {effect : (op : ι) → σ → ρ op → σ → Prop} {allowed : φ → Prop}
    {prog : Prog ι ρ α} {s : σ} (h : EverySafe handle effect allowed prog s) :
    (∃ r, run handle prog s = .ok r) ∨ ∃ f, allowed f ∧ run handle prog s = .error f := by
  induction prog generalizing s with
  | ret a => exact .inl ⟨(a, s), rfl⟩
  | call op next ih =>
      rw [run]
      cases hop : handle op s with
      | error f => exact .inr ⟨f, h.1 f hop, rfl⟩
      | ok r => exact ih r.1 (h.2 r hop).2

/-! ## What a program yields -/

section

variable {cond : ι → σ → Prop} {fine : ι → Prop} {post post' : α → σ → Prop}

/-- A weaker result is yielded as well. -/
theorem Yields.mono (h : ∀ a s, post a s → post' a s) {prog : Prog ι ρ α} {s : σ}
    (hprog : Yields handle cond fine post prog s) : Yields handle cond fine post' prog s := by
  induction prog generalizing s with
  | ret a => exact h a s hprog
  | call op next ih => exact fun hcond => ⟨(hprog hcond).1, fun r hr => ih r.1 ((hprog hcond).2 r hr)⟩

/-- What a program made of two yields, one after the other. -/
theorem yields_bind {post : β → σ → Prop} {prog : Prog ι ρ α} {f : α → Prog ι ρ β} {s : σ}
    (h : Yields handle cond fine (fun a s' => Yields handle cond fine post (f a) s') prog s) :
    Yields handle cond fine post (prog >>= f) s := by
  induction prog generalizing s with
  | ret a => exact h
  | call op next ih => exact fun hcond => ⟨(h hcond).1, fun r hr => ih r.1 ((h hcond).2 r hr)⟩

/-- The calls that a run makes are fine. -/
theorem Yields.meets {prog : Prog ι ρ α} {s : σ} (h : Yields handle cond fine post prog s)
    (hmeets : Meets handle cond prog s) :
    Meets handle (fun op s => cond op s ∧ fine op) prog s := by
  induction prog generalizing s with
  | ret a => trivial
  | call op next ih =>
      obtain ⟨hcond, hlater⟩ := hmeets
      obtain ⟨hfine, hrest⟩ := h hcond
      exact ⟨⟨hcond, hfine⟩, fun r hr => ih r.1 (hrest r hr) (hlater r hr)⟩

/-- **Loop rule.**  When each round that goes on makes `size` smaller, as many rounds as
`size` are enough. -/
theorem yields_repeatUntil {endless : Prog ι ρ α} {body : β → Prog ι ρ (β ⊕ α)}
    (inv : β → σ → Prop) (size : σ → Nat)
    (hbody : ∀ b s, inv b s → Yields handle cond fine
      (fun r s' => match r with
        | .inl b' => inv b' s' ∧ size s' < size s
        | .inr a => post a s') (body b) s)
    (n : Nat) {b : β} {s : σ} (hinv : inv b s) (hsize : size s < n) :
    Yields handle cond fine post (Prog.repeatUntil endless body n b) s := by
  induction n generalizing b s with
  | zero => exact absurd hsize (Nat.not_lt_zero _)
  | succ n ih =>
      refine yields_bind ((hbody b s hinv).mono fun r s' hr => ?_)
      cases r with
      | inl b' => exact ih hr.1 (Nat.lt_of_lt_of_le hr.2 (Nat.le_of_lt_succ hsize))
      | inr a => exact hr

end

end Calls
