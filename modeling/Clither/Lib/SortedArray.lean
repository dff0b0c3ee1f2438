import Mathlib.Data.List.Perm.Basic
import Mathlib.Order.Lattice

/-!
# Sorted arrays as maps

Keys and values in the order of the keys, with lookup by binary search.  The
order is a field of the structure, so that every operation keeps it.

`exists_split` is what the binary search finds: the place between the smaller
keys and all others.  The rest speaks of the map as the list of its entries, up
to permutation.
-/

/-- Entries with strictly increasing keys. -/
structure SortedArray (K V : Type) [LinearOrder K] where
  entries : List (K × V)
  sorted : entries.Pairwise fun a b => a.1 < b.1
  deriving DecidableEq

namespace SortedArray

variable {K V : Type} [LinearOrder K]

/-- The loop of the binary search, with `len` entries from `found` on left. -/
def lowerBoundLoop (entries : List (K × V)) (key : K) : Nat → Nat → Nat → Nat
  | 0, found, _ => found
  | fuel + 1, found, len =>
      if len > 0 then
        let half := len / 2
        match entries[found + half]? with
        | some e =>
            if e.1 < key then lowerBoundLoop entries key fuel (found + half + 1) (len - half - 1)
            else lowerBoundLoop entries key fuel found half
        | none => found
      else found

/-- The index of the first entry whose key is not smaller. -/
def lowerBound (m : SortedArray K V) (key : K) : Nat :=
  lowerBoundLoop m.entries key m.entries.length 0 m.entries.length

def empty : SortedArray K V where
  entries := []
  sorted := List.Pairwise.nil

def find (m : SortedArray K V) (key : K) : Option V :=
  match m.entries[m.lowerBound key]? with
  | some e => if e.1 = key then some e.2 else none
  | none => none

def keys (m : SortedArray K V) : List K :=
  m.entries.map Prod.fst

/-! ## The search -/

/-- Each turn halves the rest and keeps the place inside of it. -/
theorem lowerBoundLoop_spec {entries : List (K × V)}
    (hsorted : entries.Pairwise fun a b => a.1 < b.1) (key : K) {fuel found len : Nat}
    (hfuel : len ≤ fuel) (hlen : found + len ≤ entries.length)
    (hsmall : ∀ e ∈ entries.take found, e.1 < key)
    (hlarge : ∀ e ∈ entries.drop (found + len), ¬ e.1 < key) :
    ∃ r, lowerBoundLoop entries key fuel found len = r ∧ r ≤ entries.length ∧
      (∀ e ∈ entries.take r, e.1 < key) ∧ ∀ e ∈ entries.drop r, ¬ e.1 < key := by
  induction fuel generalizing found len with
  | zero =>
      obtain rfl : len = 0 := by omega
      exact ⟨found, rfl, hlen, hsmall, hlarge⟩
  | succ fuel ih =>
      by_cases hpos : len > 0
      · have hlt : found + len / 2 < entries.length := by omega
        have hsplit : entries = entries.take (found + len / 2) ++
            entries[found + len / 2] :: entries.drop (found + len / 2 + 1) := by
          rw [← List.drop_eq_getElem_cons hlt, List.take_append_drop]
        have hpair := hsorted
        rw [hsplit, List.pairwise_append, List.pairwise_cons] at hpair
        obtain ⟨-, ⟨hbehind, -⟩, hbefore⟩ := hpair
        simp only [lowerBoundLoop, if_pos hpos, List.getElem?_eq_getElem hlt]
        by_cases hless : entries[found + len / 2].1 < key
        · rw [if_pos hless]
          apply ih (by omega) (by omega)
          · intro e he
            rw [List.take_succ_eq_append_getElem hlt] at he
            rcases List.mem_append.mp he with hfirst | hmid
            · exact lt_trans (hbefore e hfirst _ List.mem_cons_self) hless
            · rw [List.mem_singleton.mp hmid]
              exact hless
          · rw [show found + len / 2 + 1 + (len - len / 2 - 1) = found + len by omega]
            exact hlarge
        · rw [if_neg hless]
          apply ih (by omega) (by omega) hsmall
          intro e he
          rw [List.drop_eq_getElem_cons hlt] at he
          rcases List.mem_cons.mp he with rfl | hrest
          · exact hless
          · exact fun hlow => hless (lt_trans (hbehind e hrest) hlow)
      · obtain rfl : len = 0 := by omega
        exact ⟨found, if_neg hpos, hlen, hsmall, hlarge⟩

/-- **The search splits the entries** into those with a smaller key and the
others. -/
theorem exists_split (m : SortedArray K V) (key : K) :
    ∃ before behind, m.entries = before ++ behind ∧ m.lowerBound key = before.length ∧
      (∀ e ∈ before, e.1 < key) ∧ ∀ e ∈ behind, ¬ e.1 < key := by
  obtain ⟨r, hr, hle, hsmall, hlarge⟩ := lowerBoundLoop_spec m.sorted key (Nat.le_refl _)
    (show 0 + m.entries.length ≤ m.entries.length by omega) (by simp) (by simp)
  refine ⟨m.entries.take r, m.entries.drop r, (List.take_append_drop _ _).symm, ?_, hsmall, hlarge⟩
  rw [List.length_take, Nat.min_eq_left hle]
  exact hr

/-- A key that is there is the first one behind the split. -/
theorem exists_split_of_find {m : SortedArray K V} {key : K} {v : V} (h : m.find key = some v) :
    ∃ before behind, m.entries = before ++ (key, v) :: behind ∧
      m.lowerBound key = before.length := by
  obtain ⟨before, behind, heq, hr, -, -⟩ := m.exists_split key
  rw [find, heq, hr, List.getElem?_append_right (Nat.le_refl _), Nat.sub_self] at h
  cases behind with
  | nil => cases h
  | cons e rest =>
      simp only [List.getElem?_cons_zero] at h
      by_cases hkey : e.1 = key
      · rw [if_pos hkey] at h
        exact ⟨before, rest, by rw [heq, ← hkey, ← Option.some.inj h], hr⟩
      · rw [if_neg hkey] at h
        cases h

/-- **Lookup.** -/
theorem find_eq_some {m : SortedArray K V} {key : K} {v : V} :
    m.find key = some v ↔ (key, v) ∈ m.entries := by
  constructor
  · intro h
    obtain ⟨before, behind, heq, -⟩ := exists_split_of_find h
    rw [heq]
    exact List.mem_append_right _ List.mem_cons_self
  · intro hmem
    obtain ⟨before, behind, heq, hr, hsmall, hlarge⟩ := m.exists_split key
    have hpair := m.sorted
    rw [heq] at hmem hpair
    rcases List.mem_append.mp hmem with hlow | hhigh
    · exact absurd (hsmall _ hlow) (lt_irrefl key)
    · cases behind with
      | nil => cases hhigh
      | cons e rest =>
          have hfirst : e = (key, v) := by
            rcases List.mem_cons.mp hhigh with heq' | hrest
            · exact heq'.symm
            · rw [List.pairwise_append, List.pairwise_cons] at hpair
              exact absurd (hpair.2.1.1 _ hrest) (hlarge e List.mem_cons_self)
          simp only [find, heq, hr, List.getElem?_append_right (Nat.le_refl _), Nat.sub_self,
            List.getElem?_cons_zero, hfirst, if_true]

/-- Nothing is found exactly for what is not a key. -/
theorem find_eq_none {m : SortedArray K V} {key : K} : m.find key = none ↔ key ∉ m.keys := by
  constructor
  · intro h hmem
    obtain ⟨e, he, rfl⟩ := List.mem_map.mp hmem
    rw [find_eq_some.mpr he] at h
    cases h
  · intro h
    cases hfind : m.find key with
    | none => rfl
    | some v => exact absurd (List.mem_map_of_mem (find_eq_some.mp hfind)) h

/-- The keys are those a value is found for. -/
theorem mem_keys_iff {m : SortedArray K V} {key : K} :
    key ∈ m.keys ↔ ∃ v, m.find key = some v := by
  rw [← not_iff_not, ← find_eq_none, Option.eq_none_iff_forall_not_mem, not_exists]
  rfl

/-- No key occurs twice. -/
theorem keys_nodup (m : SortedArray K V) : m.keys.Nodup :=
  List.pairwise_map.mpr (m.sorted.imp ne_of_lt)

/-! ## Updates -/

/-- Move the entries from an index on by one place and write a new one there. -/
def insertAt (entries : List (K × V)) (idx : Nat) (e : K × V) : List (K × V) :=
  entries.take idx ++ e :: entries.drop idx

/-- An entry that goes where the search says keeps the order. -/
theorem sorted_insertAt (m : SortedArray K V) {key : K} (value : V) (h : m.find key = none) :
    (insertAt m.entries (m.lowerBound key) (key, value)).Pairwise fun a b => a.1 < b.1 := by
  obtain ⟨before, behind, heq, hr, hsmall, hlarge⟩ := m.exists_split key
  have habsent := find_eq_none.mp h
  have hpair := m.sorted
  rw [keys, heq] at habsent
  rw [heq, List.pairwise_append] at hpair
  rw [insertAt, heq, hr, List.take_left, List.drop_left, List.pairwise_append, List.pairwise_cons]
  obtain ⟨hbefore, hbehind, hcross⟩ := hpair
  have hgreater : ∀ e ∈ behind, key < e.1 := by
    intro e he
    refine lt_of_le_of_ne (not_lt.mp (hlarge e he)) ?_
    intro hkey
    exact habsent (List.mem_map.mpr ⟨e, List.mem_append_right _ he, hkey.symm⟩)
  refine ⟨hbefore, ⟨hgreater, hbehind⟩, ?_⟩
  intro a ha b hb
  rcases List.mem_cons.mp hb with rfl | hrest
  · exact hsmall a ha
  · exact hcross a ha b hrest

/-- Insert a new key at the place that the search finds. -/
def insert (m : SortedArray K V) (key : K) (value : V) : SortedArray K V :=
  if h : m.find key = none then
    { entries := insertAt m.entries (m.lowerBound key) (key, value)
      sorted := m.sorted_insertAt value h }
  else m

/-- Remove a key at the place that the search finds. -/
def erase (m : SortedArray K V) (key : K) : SortedArray K V :=
  if (m.find key).isSome then
    { entries := m.entries.eraseIdx (m.lowerBound key)
      sorted := m.sorted.sublist (List.eraseIdx_sublist _ _) }
  else m

/-- Write the value of a key. -/
def set (m : SortedArray K V) (key : K) (value : V) : SortedArray K V where
  entries := m.entries.map fun e => if e.1 = key then (e.1, value) else e
  sorted := by
    refine List.pairwise_map.mpr (m.sorted.imp ?_)
    intro a b hab
    split <;> split <;> exact hab

/-- Inserting adds one entry. -/
theorem entries_insert {m : SortedArray K V} {key : K} (value : V) (h : m.find key = none) :
    (m.insert key value).entries.Perm ((key, value) :: m.entries) := by
  rw [insert, dif_pos h]
  show (insertAt m.entries (m.lowerBound key) (key, value)).Perm _
  rw [insertAt]
  refine List.perm_middle.trans (List.Perm.cons _ ?_)
  rw [List.take_append_drop]

/-- Inserting adds one key. -/
theorem keys_insert {m : SortedArray K V} {key : K} (value : V) (h : m.find key = none) :
    (m.insert key value).keys.Perm (key :: m.keys) :=
  (entries_insert value h).map Prod.fst

/-- Inserting changes what is found at the key only. -/
theorem find_insert {m : SortedArray K V} {key : K} (value : V) (h : m.find key = none) (k : K) :
    (m.insert key value).find k = if k = key then some value else m.find k := by
  have hperm := entries_insert value h
  by_cases hk : k = key
  · rw [if_pos hk, hk, find_eq_some]
    exact hperm.mem_iff.mpr List.mem_cons_self
  · rw [if_neg hk]
    apply Option.ext
    intro w
    rw [find_eq_some, find_eq_some, hperm.mem_iff, List.mem_cons]
    exact or_iff_right fun heq => hk (Prod.ext_iff.mp heq).1

/-- Inserting adds one entry at most. -/
theorem length_insert_le (m : SortedArray K V) (key : K) (value : V) :
    (m.insert key value).entries.length ≤ m.entries.length + 1 := by
  by_cases h : m.find key = none
  · exact Nat.le_of_eq (entries_insert value h).length_eq
  · rw [insert, dif_neg h]
    exact Nat.le_succ _

/-- Erasing takes one entry out. -/
theorem entries_erase {m : SortedArray K V} {key : K} {v : V} (h : m.find key = some v) :
    m.entries.Perm ((key, v) :: (m.erase key).entries) := by
  obtain ⟨before, behind, heq, hr⟩ := exists_split_of_find h
  have herase : (m.erase key).entries = before ++ behind := by
    rw [erase, if_pos (by rw [h]; rfl)]
    show m.entries.eraseIdx (m.lowerBound key) = _
    rw [heq, hr, List.eraseIdx_append_of_length_le (Nat.le_refl _), Nat.sub_self]
    rfl
  rw [herase, heq]
  exact List.perm_middle

/-- Erasing what is not there changes nothing. -/
theorem erase_of_find_none {m : SortedArray K V} {key : K} (h : m.find key = none) :
    m.erase key = m := by
  rw [erase, h]
  rfl

/-- Erasing adds no entry. -/
theorem length_erase_le (m : SortedArray K V) (key : K) :
    (m.erase key).entries.length ≤ m.entries.length := by
  cases h : m.find key with
  | none => exact Nat.le_of_eq (by rw [erase_of_find_none h])
  | some v =>
      rw [(entries_erase h).length_eq, List.length_cons]
      exact Nat.le_succ _

/-- Erasing takes one key out. -/
theorem keys_erase {m : SortedArray K V} {key : K} {v : V} (h : m.find key = some v) :
    m.keys.Perm (key :: (m.erase key).keys) :=
  (entries_erase h).map Prod.fst

/-- Erasing a key leaves the others. -/
theorem mem_keys_erase {m : SortedArray K V} {key k : K} :
    k ∈ (m.erase key).keys ↔ k ∈ m.keys ∧ k ≠ key := by
  cases h : m.find key with
  | none =>
      rw [erase_of_find_none h]
      have habsent := find_eq_none.mp h
      refine ⟨fun hk => ⟨hk, fun heq => habsent (heq ▸ hk)⟩, fun hk => hk.1⟩
  | some v =>
      have hperm := keys_erase h
      have hnodup := hperm.nodup_iff.mp m.keys_nodup
      rw [hperm.mem_iff, List.mem_cons]
      constructor
      · intro hk
        refine ⟨Or.inr hk, ?_⟩
        rintro rfl
        exact (List.nodup_cons.mp hnodup).1 hk
      · intro ⟨hk, hne⟩
        exact hk.resolve_left hne

/-- Erasing a key leaves the values of the others. -/
theorem find_erase (m : SortedArray K V) (key k : K) :
    (m.erase key).find k = if k = key then none else m.find k := by
  by_cases hk : k = key
  · rw [if_pos hk, find_eq_none, mem_keys_erase]
    exact fun h => h.2 hk
  · rw [if_neg hk]
    cases h : m.find key with
    | none => rw [erase_of_find_none h]
    | some v =>
        apply Option.ext
        intro w
        rw [find_eq_some, find_eq_some, (entries_erase h).mem_iff, List.mem_cons]
        exact (or_iff_right fun heq => hk (Prod.ext_iff.mp heq).1).symm

/-- Setting keeps the keys. -/
@[simp] theorem keys_set (m : SortedArray K V) (key : K) (value : V) :
    (m.set key value).keys = m.keys := by
  rw [keys, set, List.map_map]
  apply List.map_congr_left
  intro e _
  show (if e.1 = key then (e.1, value) else e).1 = e.1
  split <;> rfl

/-- Writing the value that is there already changes nothing. -/
theorem set_self {m : SortedArray K V} {key : K} {v : V} (h : m.find key = some v) :
    m.set key v = m := by
  have hentries : (m.set key v).entries = m.entries := by
    refine (List.map_congr_left ?_).trans (List.map_id _)
    intro e he
    by_cases hek : e.1 = key
    · have hfind : m.find key = some e.2 := find_eq_some.mpr (hek ▸ he)
      rw [h] at hfind
      rw [if_pos hek, Option.some.inj hfind]
      rfl
    · rw [if_neg hek]
      rfl
  cases m
  simpa only [set, mk.injEq] using hentries

/-- Setting changes what is found at the key only. -/
theorem find_set {m : SortedArray K V} {key : K} {v : V} (value : V) (h : m.find key = some v)
    (k : K) : (m.set key value).find k = if k = key then some value else m.find k := by
  by_cases hk : k = key
  · rw [if_pos hk, hk, find_eq_some]
    exact List.mem_map.mpr ⟨(key, v), find_eq_some.mp h, if_pos rfl⟩
  · rw [if_neg hk]
    apply Option.ext
    intro w
    rw [find_eq_some, find_eq_some]
    constructor
    · intro hmem
      obtain ⟨e, he, heq⟩ := List.mem_map.mp hmem
      by_cases hek : e.1 = key
      · rw [if_pos hek] at heq
        cases heq
        exact absurd hek hk
      · rw [if_neg hek] at heq
        rwa [← heq]
    · intro hmem
      exact List.mem_map.mpr ⟨(k, w), hmem, if_neg hk⟩

end SortedArray
