import Mathlib.Data.List.Perm.Basic
import Mathlib.Data.List.Pairwise

/-!
# Finite maps on keys that are compared by an equivalence

A map sends keys to values, and two keys that compare equal to the same value.
A list of entries stands for a map as soon as no two of its keys compare equal;
the order of the entries does not matter then.
-/

namespace KeyMap

variable {K V : Type} (same : K → K → Bool)

/-- The empty map. -/
def empty : K → Option V :=
  fun _ => none

/-- The map with one association added or replaced. -/
def insert (m : K → Option V) (key : K) (value : V) : K → Option V :=
  fun k => if same key k then some value else m k

/-- The map without the association of `key`. -/
def erase (m : K → Option V) (key : K) : K → Option V :=
  fun k => if same key k then none else m k

/-- The map that a list of entries stands for. -/
def ofEntries (entries : List (K × V)) : K → Option V :=
  fun key => (entries.find? fun e => same e.1 key).map Prod.snd

/-- No two keys of the list compare equal. -/
def Distinct (entries : List (K × V)) : Prop :=
  entries.Pairwise fun a b => same a.1 b.1 = false

variable {same}

theorem ofEntries_cons (k : K) (v : V) (entries : List (K × V)) :
    ofEntries same ((k, v) :: entries) = insert same (ofEntries same entries) k v := by
  funext key
  unfold ofEntries insert
  rw [List.find?_cons]
  cases same k key <;> rfl

theorem ofEntries_eq_none {entries : List (K × V)} {key : K} :
    ofEntries same entries key = none ↔ ∀ e ∈ entries, same e.1 key = false := by
  unfold ofEntries
  simp only [Option.map_eq_none_iff, List.find?_eq_none, Bool.not_eq_true]

section

variable (hsame : Equivalence fun a b => same a b = true)
include hsame

theorem Distinct.perm {l l' : List (K × V)} (h : Distinct same l) (hperm : l.Perm l') :
    Distinct same l' := by
  refine (hperm.pairwise_iff ?_).mp h
  intro a b hab
  by_contra hba
  rw [hsame.symm (Bool.not_eq_false _ ▸ hba)] at hab
  cases hab

/-- The value of a key is that of the one entry whose key compares equal. -/
theorem ofEntries_eq_some {entries : List (K × V)} (hdist : Distinct same entries) {key : K}
    {v : V} :
    ofEntries same entries key = some v ↔ ∃ k, (k, v) ∈ entries ∧ same k key = true := by
  induction entries with
  | nil => simp [ofEntries]
  | cons e rest ih =>
      obtain ⟨k, w⟩ := e
      obtain ⟨hfresh, hrest⟩ := List.pairwise_cons.mp hdist
      rw [ofEntries_cons, insert]
      by_cases hk : same k key = true
      · rw [if_pos hk]
        constructor
        · intro h
          cases h
          exact ⟨k, List.mem_cons_self, hk⟩
        · intro ⟨k', hmem, hk'⟩
          rcases List.mem_cons.mp hmem with heq | hmem
          · cases heq
            rfl
          · have hno := hfresh (k', v) hmem
            rw [hsame.trans hk (hsame.symm hk')] at hno
            cases hno
      · rw [if_neg hk, ih hrest]
        constructor
        · intro ⟨k', hmem, hk'⟩
          exact ⟨k', List.mem_cons_of_mem _ hmem, hk'⟩
        · intro ⟨k', hmem, hk'⟩
          rcases List.mem_cons.mp hmem with heq | hmem
          · cases heq
            exact absurd hk' hk
          · exact ⟨k', hmem, hk'⟩

/-- The order of the entries does not matter. -/
theorem ofEntries_perm {l l' : List (K × V)} (hdist : Distinct same l) (hperm : l.Perm l') :
    ofEntries same l = ofEntries same l' := by
  funext key
  refine Option.ext fun v => ?_
  rw [ofEntries_eq_some hsame hdist, ofEntries_eq_some hsame (hdist.perm hsame hperm)]
  simp only [hperm.mem_iff]

/-- Taking an entry out of the list takes its key out of the map. -/
theorem ofEntries_erase {l rest : List (K × V)} {k key : K} {v : V} (hdist : Distinct same l)
    (hperm : l.Perm ((k, v) :: rest)) (hk : same k key = true) :
    ofEntries same l key = some v ∧
      ofEntries same rest = erase same (ofEntries same l) key := by
  have hcons := hdist.perm hsame hperm
  rw [ofEntries_perm hsame hdist hperm, ofEntries_cons]
  refine ⟨if_pos hk, ?_⟩
  funext k'
  unfold erase insert
  by_cases hk' : same key k' = true
  · rw [if_pos hk', ofEntries_eq_none]
    intro e he
    have hno := (List.pairwise_cons.mp hcons).1 e he
    by_contra hek
    rw [hsame.trans (hsame.trans hk hk') (hsame.symm (Bool.not_eq_false _ ▸ hek))] at hno
    cases hno
  · rw [if_neg hk', if_neg fun h => hk' (hsame.trans (hsame.symm hk) h)]

/-- Replacing the value of an entry replaces it in the map. -/
theorem ofEntries_replace {before after : List (K × V)} {k key : K} {v : V}
    (hdist : Distinct same (before ++ (k, v) :: after)) (hk : same k key = true) (v' : V) :
    ofEntries same (before ++ (k, v') :: after) =
      insert same (ofEntries same (before ++ (k, v) :: after)) key v' := by
  have hdist' : Distinct same (before ++ (k, v') :: after) := by
    unfold Distinct at hdist ⊢
    simp only [List.pairwise_append, List.pairwise_cons, List.mem_cons, forall_eq_or_imp] at hdist ⊢
    exact hdist
  rw [ofEntries_perm hsame hdist List.perm_middle, ofEntries_perm hsame hdist' List.perm_middle,
    ofEntries_cons, ofEntries_cons]
  funext k'
  unfold insert
  by_cases hk' : same k k' = true
  · rw [if_pos hk', if_pos (hsame.trans (hsame.symm hk) hk')]
  · rw [if_neg hk', if_neg fun h => hk' (hsame.trans hk h), if_neg hk']

end

end KeyMap
