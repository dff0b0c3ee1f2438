import Mathlib.Data.List.Basic
import Mathlib.Tactic.Ring

/-!
# Segmented sequences

A sequence that grows at its end is stored in segments, oldest first.  When a
segment is closed, the next one starts with the last element of the one before,
so that the segments overlap in one element.  `joined` is the sequence itself,
with the shared elements taken once.

`Segmented` is the shape such a store always has.  The lemmas say what the
operations at the two ends do to `joined`: appending an element, opening a
segment, removing the newest element and removing the oldest segment.  `keep k`
is what is left when all but the first `k` elements have been removed.
-/

namespace Chain

variable {α : Type}

/-- The sequence that the segments store. -/
def joined : List (List α) → List α
  | [] => []
  | s :: rest => s ++ (joined rest).tail

/-- Closed segments have two elements at least, the open one has one, and each
segment starts where the one before ends. -/
def Segmented : List (List α) → Prop
  | [] => False
  | [s] => s ≠ []
  | s :: t :: rest => 2 ≤ s.length ∧ s.getLast? = t.head? ∧ Segmented (t :: rest)

instance decidableSegmented [DecidableEq α] : (ts : List (List α)) → Decidable (Segmented ts)
  | [] => isFalse id
  | [s] => inferInstanceAs (Decidable (s ≠ []))
  | s :: t :: rest =>
      haveI := decidableSegmented (t :: rest)
      inferInstanceAs (Decidable (2 ≤ s.length ∧ s.getLast? = t.head? ∧ Segmented (t :: rest)))

/-- The segments that hold the first `k` elements. -/
def keep : Nat → List (List α) → List (List α)
  | _, [] => []
  | k, s :: rest =>
      if k < s.length ∨ rest = [] then [s.take k] else s :: keep (k + 1 - s.length) rest

/-- A chain has a segment. -/
theorem Segmented.ne_nil {ts : List (List α)} (h : Segmented ts) : ts ≠ [] := by
  intro hnil
  rw [hnil] at h
  exact h

/-- Its first segment has a point. -/
theorem Segmented.head_ne_nil {s : List α} {rest : List (List α)} (h : Segmented (s :: rest)) :
    s ≠ [] := by
  cases rest with
  | nil => exact h
  | cons t rest =>
      intro hnil
      have := h.1
      simp [hnil] at this

/-- So the joined chain has a point. -/
theorem Segmented.joined_ne_nil {ts : List (List α)} (h : Segmented ts) : joined ts ≠ [] := by
  cases ts with
  | nil => exact absurd rfl h.ne_nil
  | cons s rest =>
      intro hnil
      exact h.head_ne_nil (List.append_eq_nil_iff.mp hnil).1

/-- Without its first segment a chain of two or more is a chain. -/
theorem Segmented.tail {s t : List α} {rest : List (List α)} (h : Segmented (s :: t :: rest)) :
    Segmented (t :: rest) :=
  h.2.2

/-- The same with the last segment named. -/
theorem Segmented.of_cons {s t : List α} {init : List (List α)}
    (h : Segmented (s :: (init ++ [t]))) : Segmented (init ++ [t]) := by
  cases init with
  | nil => exact h.2.2
  | cons u init => exact h.2.2

/-- The newest segment is not empty. -/
theorem Segmented.last_ne_nil {init : List (List α)} {t : List α} (h : Segmented (init ++ [t])) :
    t ≠ [] := by
  induction init with
  | nil => exact h
  | cons s init ih =>
      cases init with
      | nil => exact h.2.2
      | cons u init => exact ih h.2.2

/-- No segment is empty. -/
theorem Segmented.forall_ne_nil {ts : List (List α)} (h : Segmented ts) : ∀ s ∈ ts, s ≠ [] := by
  induction ts with
  | nil => simp
  | cons s rest ih =>
      intro u hu
      rcases List.mem_cons.mp hu with rfl | hmem
      · exact h.head_ne_nil
      · cases rest with
        | nil => cases hmem
        | cons t rest => exact ih h.tail u hmem

/-- Every element is stored in some segment. -/
theorem exists_mem_of_mem_joined {ts : List (List α)} {p : α} (h : p ∈ joined ts) :
    ∃ s ∈ ts, p ∈ s := by
  induction ts with
  | nil => cases h
  | cons s rest ih =>
      rcases List.mem_append.mp h with hfirst | hrest
      · exact ⟨s, List.mem_cons_self, hfirst⟩
      · obtain ⟨u, hu, hp⟩ := ih (List.mem_of_mem_tail hrest)
        exact ⟨u, List.mem_cons_of_mem s hu, hp⟩

/-! ## The newest end -/

/-- Appending to the newest segment appends to the sequence. -/
theorem joined_push {init : List (List α)} {t : List α} (h : Segmented (init ++ [t])) (p : α) :
    joined (init ++ [t ++ [p]]) = joined (init ++ [t]) ++ [p] := by
  induction init with
  | nil => simp [joined]
  | cons s init ih =>
      have hrest : Segmented (init ++ [t]) := h.of_cons
      show s ++ (joined (init ++ [t ++ [p]])).tail = s ++ (joined (init ++ [t])).tail ++ [p]
      rw [ih hrest, List.tail_append_of_ne_nil hrest.joined_ne_nil, List.append_assoc]

/-- A point may be added at the end. -/
theorem Segmented.push {init : List (List α)} {t : List α} (h : Segmented (init ++ [t])) (p : α) :
    Segmented (init ++ [t ++ [p]]) := by
  induction init with
  | nil => simp [Segmented]
  | cons s init ih =>
      cases init with
      | nil =>
          have ht : t ≠ [] := h.2.2
          refine ⟨h.1, ?_, by simp [Segmented]⟩
          rw [h.2.1, List.head?_append_of_ne_nil _ ht]
      | cons u init => exact ⟨h.1, h.2.1, ih h.2.2⟩

/-- Points added at the end are added to the joined chain. -/
theorem joined_pushAll {init : List (List α)} {t : List α} (h : Segmented (init ++ [t]))
    (added : List α) : joined (init ++ [t ++ added]) = joined (init ++ [t]) ++ added := by
  induction added generalizing t with
  | nil => rw [List.append_nil, List.append_nil]
  | cons p rest ih =>
      have := ih (h.push p)
      rwa [joined_push h, List.append_assoc, List.append_assoc] at this

/-- Opening a segment does not change the sequence. -/
theorem joined_open {ts : List (List α)} (hne : ts ≠ []) (p : α) :
    joined (ts ++ [[p]]) = joined ts := by
  induction ts with
  | nil => exact absurd rfl hne
  | cons s rest ih =>
      show s ++ (joined (rest ++ [[p]])).tail = s ++ (joined rest).tail
      cases rest with
      | nil => simp [joined]
      | cons t rest => rw [ih (by simp)]

/-- A new segment may start where the last one ends. -/
theorem Segmented.open {init : List (List α)} {t : List α} (h : Segmented (init ++ [t]))
    (htwo : 2 ≤ t.length) {p : α} (hlast : t.getLast? = some p) :
    Segmented (init ++ [t] ++ [[p]]) := by
  induction init with
  | nil => exact ⟨htwo, by simp [hlast], by simp [Segmented]⟩
  | cons s init ih =>
      cases init with
      | nil => exact ⟨h.1, h.2.1, ih h.2.2⟩
      | cons u init => exact ⟨h.1, h.2.1, ih h.2.2⟩

/-- The two places of the newest element: behind others in the newest segment,
or alone in it and then also at the end of the segment before. -/
theorem Segmented.newest {ts : List (List α)} (h : Segmented ts) (htwo : 2 ≤ (joined ts).length) :
    (∃ init t p, ts = init ++ [t ++ [p]] ∧ t ≠ []) ∨
    (∃ init t p, ts = init ++ [t ++ [p], [p]] ∧ t ≠ []) := by
  induction ts with
  | nil => exact absurd rfl h.ne_nil
  | cons s rest ih =>
      cases rest with
      | nil =>
          have hlen : 2 ≤ s.length := by simpa [joined] using htwo
          obtain ⟨t, p, rfl⟩ := (List.eq_nil_or_concat s).resolve_left (by
            intro hnil
            simp [hnil] at hlen)
          refine Or.inl ⟨[], t, p, by simp, ?_⟩
          intro hnil
          simp [hnil] at hlen
      | cons t rest =>
          by_cases hmore : 2 ≤ (joined (t :: rest)).length
          · rcases ih h.tail hmore with ⟨init, u, p, hts, hu⟩ | ⟨init, u, p, hts, hu⟩
            · exact Or.inl ⟨s :: init, u, p, by rw [hts]; rfl, hu⟩
            · exact Or.inr ⟨s :: init, u, p, by rw [hts]; rfl, hu⟩
          · -- the newest segment holds one element, the last one of `s`
            have hrest : rest = [] ∧ ∃ p, t = [p] := by
              have ht := h.tail.head_ne_nil
              cases rest with
              | nil =>
                  refine ⟨rfl, List.length_eq_one_iff.mp ?_⟩
                  have := List.length_pos_iff.mpr ht
                  simp [joined] at hmore
                  omega
              | cons u rest =>
                  exfalso
                  have h2 := h.tail.1
                  simp only [joined, List.length_append] at hmore
                  omega
            obtain ⟨rfl, p, rfl⟩ := hrest
            obtain ⟨u, q, rfl⟩ := (List.eq_nil_or_concat s).resolve_left h.head_ne_nil
            have hpq : q = p := by simpa using h.2.1
            subst hpq
            refine Or.inr ⟨[], u, q, by simp, ?_⟩
            intro hnil
            have := h.1
            simp [hnil] at this

/-- The newest segment may lose its last element and stay. -/
theorem Segmented.unpush {init : List (List α)} {t : List α} {p : α}
    (h : Segmented (init ++ [t ++ [p]])) (ht : t ≠ []) : Segmented (init ++ [t]) := by
  induction init with
  | nil => exact ht
  | cons s init ih =>
      cases init with
      | nil => exact ⟨h.1, by rw [h.2.1, List.head?_append_of_ne_nil _ ht], ht⟩
      | cons u init => exact ⟨h.1, h.2.1, ih h.2.2⟩

/-- Without its newest segment the store ends in the shared element. -/
theorem Segmented.close {init : List (List α)} {t u : List α}
    (h : Segmented (init ++ [t, u])) : Segmented (init ++ [t]) := by
  induction init with
  | nil =>
      intro hnil
      have := h.1
      simp [hnil] at this
  | cons s init ih =>
      cases init with
      | nil => exact ⟨h.1, h.2.1, ih h.2.2⟩
      | cons v init => exact ⟨h.1, h.2.1, ih h.2.2⟩

/-! ## The oldest end -/

/-- Removing the oldest segment leaves the sequence from its last element on. -/
theorem joined_tail {s t : List α} {rest : List (List α)} (h : Segmented (s :: t :: rest)) :
    joined (t :: rest) = (joined (s :: t :: rest)).drop (s.length - 1) := by
  obtain ⟨u, p, rfl⟩ := (List.eq_nil_or_concat s).resolve_left h.head_ne_nil
  obtain ⟨q, t', rfl⟩ := List.exists_cons_of_ne_nil h.tail.head_ne_nil
  have hpq : p = q := by simpa using h.2.1
  subst hpq
  simp [joined]

/-! ## The first elements -/

/-- Something of a chain is kept. -/
theorem keep_ne_nil {ts : List (List α)} (hne : ts ≠ []) (k : Nat) : keep k ts ≠ [] := by
  cases ts with
  | nil => exact absurd rfl hne
  | cons s rest =>
      rw [keep]
      split <;> simp

/-- What is kept is a prefix of the sequence. -/
theorem joined_keep (k : Nat) (ts : List (List α)) : joined (keep k ts) = (joined ts).take k := by
  induction ts generalizing k with
  | nil => simp [keep, joined]
  | cons s rest ih =>
      rw [keep]
      split
      · next h =>
          rcases h with hlt | hnil
          · simp [joined, List.take_append_of_le_length (Nat.le_of_lt hlt)]
          · simp [joined, hnil]
      · next h =>
          have hge : s.length ≤ k := by
            by_contra hlt
            exact h (Or.inl (by omega))
          simp only [joined, ih]
          rw [List.take_append, List.take_of_length_le hge, ← List.drop_one, ← List.drop_one,
            List.drop_take, show k + 1 - s.length - 1 = k - s.length by omega]

/-- Keeping fewer of what was kept keeps fewer. -/
theorem keep_keep {j k : Nat} (hkj : k ≤ j) (ts : List (List α)) :
    keep k (keep j ts) = keep k ts := by
  induction ts generalizing j k with
  | nil => rfl
  | cons s rest ih =>
      by_cases hj : j < s.length ∨ rest = []
      · have hk : k < s.length ∨ rest = [] := hj.imp_left (fun h => by omega)
        rw [keep, if_pos hj, keep, if_pos (Or.inr rfl), keep, if_pos hk, List.take_take,
          Nat.min_eq_left hkj]
      · have hne : keep (j + 1 - s.length) rest ≠ [] :=
          keep_ne_nil (fun h => hj (Or.inr h)) _
        have hrest : rest ≠ [] := fun h => hj (Or.inr h)
        rw [keep, if_neg hj, keep, keep]
        by_cases hk : k < s.length
        · rw [if_pos (Or.inl hk), if_pos (Or.inl hk)]
        · rw [if_neg (by simp [hk, hne]), if_neg (by simp [hk, hrest]), ih (by omega)]

/-- Keeping more than the first segment has keeps that segment. -/
theorem keep_cons {s : List α} {ts us : List (List α)} (hts : Segmented ts) (hus : us ≠ []) :
    keep (joined (s :: ts)).length (s :: us) = s :: keep (joined ts).length us := by
  have hpos := List.length_pos_iff.mpr hts.joined_ne_nil
  have hlen : (joined (s :: ts)).length = s.length + ((joined ts).length - 1) := by
    rw [joined, List.length_append, List.length_tail]
  rw [hlen, keep, if_neg (by simp [hus]),
    show s.length + ((joined ts).length - 1) + 1 - s.length = (joined ts).length by omega]

/-- Everything is kept when there is nothing to remove. -/
theorem keep_self {ts : List (List α)} (h : Segmented ts) : keep (joined ts).length ts = ts := by
  induction ts with
  | nil => rfl
  | cons s rest ih =>
      cases rest with
      | nil => simp [keep, joined]
      | cons t rest => rw [keep_cons h.tail (by simp), ih h.tail]

/-- Removing the newest element from a segment that has others. -/
theorem keep_push {init : List (List α)} {t : List α} (h : Segmented (init ++ [t])) (p : α) :
    keep (joined (init ++ [t])).length (init ++ [t ++ [p]]) = init ++ [t] := by
  induction init with
  | nil => simp [keep, joined]
  | cons s init ih =>
      rw [List.cons_append, List.cons_append, keep_cons h.of_cons (by simp), ih h.of_cons]

/-- Removing the newest element together with the segment it opened. -/
theorem keep_open {init : List (List α)} {t : List α} (h : Segmented (init ++ [t])) (p : α) :
    keep (joined (init ++ [t])).length (init ++ [t ++ [p], [p]]) = init ++ [t] := by
  induction init with
  | nil => simp [keep, joined]
  | cons s init ih =>
      rw [List.cons_append, List.cons_append, keep_cons h.of_cons (by simp), ih h.of_cons]

/-- What is kept is a chain. -/
theorem Segmented.keep {ts : List (List α)} (h : Segmented ts) {k : Nat} (hk : 0 < k) :
    Segmented (keep k ts) := by
  induction ts generalizing k with
  | nil => exact absurd rfl h.ne_nil
  | cons s rest ih =>
      rw [Chain.keep]
      split
      · have hs := h.head_ne_nil
        simpa [Segmented, List.take_eq_nil_iff, hs] using by omega
      · next hgo =>
          cases rest with
          | nil => exact absurd (Or.inr rfl) hgo
          | cons t rest =>
              have hge : s.length ≤ k := by
                by_contra hlt
                exact hgo (Or.inl (by omega))
              have hrest := ih h.tail (k := k + 1 - s.length) (by omega)
              have ht := h.tail.head_ne_nil
              -- whatever is kept of `t` starts with the first element of `t`
              have hhead : ∃ u us, Chain.keep (k + 1 - s.length) (t :: rest) = u :: us ∧
                  u.head? = t.head? := by
                rw [Chain.keep]
                split
                · refine ⟨_, [], rfl, ?_⟩
                  obtain ⟨q, t', rfl⟩ := List.exists_cons_of_ne_nil ht
                  rw [show k + 1 - s.length = (k - s.length) + 1 by omega]
                  rfl
                · exact ⟨_, _, rfl, rfl⟩
              obtain ⟨u, us, hkeep, huhead⟩ := hhead
              rw [hkeep] at hrest ⊢
              exact ⟨h.1, h.2.1.trans huhead.symm, hrest⟩

end Chain
