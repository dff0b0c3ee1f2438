import Clither.Hm
import Mathlib.Data.List.Perm.Basic
import Mathlib.Data.List.Pairwise
import Mathlib.Data.Nat.Bitwise

/-!
# What the hash map operations do to the set of entries

`HmTable.WF` is the invariant of a table: its size is a power of two, `count`
is the number of live entries, no key is stored twice, and every live entry can
be reached by its own probe sequence without crossing an unused slot.

`FoundBy` states what `findSlot` answers, one constructor for each way its loop
can end, and `findSlot_spec` proves it.  Everything else follows from it: an
insertion adds exactly one entry, an erasure removes exactly one, growing
rearranges the entries, and a lookup finds a key exactly when it is stored.
-/

namespace Clither

variable {K V : Type} (c : HmInstance K)

/-- Two keys the map takes for the same one. -/
def SameKey (a b : K) : Prop :=
  hmHash c a = hmHash c b ∧ c.keysEqual a b = true

/-- Every key is the same as itself. -/
theorem SameKey.refl (a : K) : SameKey c a a :=
  ⟨rfl, c.keysEqual_equiv.refl a⟩

variable {c}

/-- Being the same key is symmetric. -/
theorem SameKey.symm {a b : K} (h : SameKey c a b) : SameKey c b a :=
  ⟨h.1.symm, c.keysEqual_equiv.symm h.2⟩

/-- Being the same key is transitive. -/
theorem SameKey.trans {a b d : K} (h : SameKey c a b) (h' : SameKey c b d) : SameKey c a d :=
  ⟨h.1.trans h'.1, c.keysEqual_equiv.trans h.2 h'.2⟩

/-! ## Slots of a table -/

namespace HmTable

/-- Putting changes one slot. -/
theorem slotAt_put {t : HmTable K V} {s : Nat} (hs : s < t.capacity) (h : UInt32) (k : K)
    (v : V) (i : Nat) :
    (t.put s h k v).slotAt i = if i = s then .live h k v else t.slotAt i := by
  unfold slotAt put
  split
  · next heq => subst heq; simp [List.getD_eq_getElem?_getD, show i < t.slots.length from hs]
  · next hne =>
      simp [List.getD_eq_getElem?_getD, List.getElem?_set_ne (Ne.symm hne)]

/-- Burying changes one slot. -/
theorem slotAt_bury {t : HmTable K V} {s : Nat} (hs : s < t.capacity) (i : Nat) :
    (t.bury s).slotAt i = if i = s then .rip else t.slotAt i := by
  unfold slotAt bury
  split
  · next heq => subst heq; simp [List.getD_eq_getElem?_getD, show i < t.slots.length from hs]
  · next hne =>
      simp [List.getD_eq_getElem?_getD, List.getElem?_set_ne (Ne.symm hne)]

/-- Putting keeps the capacity. -/
@[simp] theorem capacity_put (t : HmTable K V) (s : Nat) (h : UInt32) (k : K) (v : V) :
    (t.put s h k v).capacity = t.capacity := by
  simp [capacity, put]

/-- Burying keeps the capacity. -/
@[simp] theorem capacity_bury (t : HmTable K V) (s : Nat) : (t.bury s).capacity = t.capacity := by
  simp [capacity, bury]

/-- A slot that is not unused lies inside the table. -/
theorem lt_capacity_of_slotAt {t : HmTable K V} {i : Nat} (h : t.slotAt i ≠ .unused) :
    i < t.capacity := by
  by_contra hge
  apply h
  simp [slotAt, List.getD_eq_getElem?_getD,
    List.getElem?_eq_none (Nat.le_of_not_lt hge : t.slots.length ≤ i)]

/-- Within the capacity, `slotAt` is the list's element. -/
theorem slotAt_eq_getElem {t : HmTable K V} {i : Nat} (hi : i < t.slots.length) :
    t.slotAt i = t.slots[i] := by
  simp [slotAt, List.getD_eq_getElem?_getD, hi]

/-- Writing one slot replaces what that slot contributes to the entries. -/
theorem entries_set {l : List (HmSlot K V)} {i : Nat} (hi : i < l.length) (x : HmSlot K V) :
    ∃ before after, l.filterMap HmSlot.toEntry = before ++ l[i].toEntry.toList ++ after ∧
      (l.set i x).filterMap HmSlot.toEntry = before ++ x.toEntry.toList ++ after := by
  refine ⟨(l.take i).filterMap HmSlot.toEntry, (l.drop (i + 1)).filterMap HmSlot.toEntry, ?_, ?_⟩
  · conv_lhs => rw [← List.take_append_drop i l, List.drop_eq_getElem_cons hi]
    rw [List.filterMap_append, List.filterMap_cons]
    cases l[i].toEntry <;> simp
  · rw [List.set_eq_take_append_cons_drop, if_pos hi, List.filterMap_append, List.filterMap_cons]
    cases x.toEntry <;> simp

/-- The entry of a live slot is one of the entries. -/
theorem mem_entries {t : HmTable K V} {i : Nat} {h : UInt32} {k : K} {v : V}
    (hi : t.slotAt i = .live h k v) : (k, v) ∈ t.entries := by
  have hlt : i < t.capacity := lt_capacity_of_slotAt (by simp [hi])
  rw [slotAt_eq_getElem hlt] at hi
  exact List.mem_filterMap.mpr ⟨_, List.getElem_mem hlt, by rw [hi]; rfl⟩

/-- Every entry sits in some live slot. -/
theorem exists_slotAt {t : HmTable K V} {e : K × V} (he : e ∈ t.entries) :
    ∃ i h, t.slotAt i = .live h e.1 e.2 := by
  obtain ⟨s, hs, hse⟩ := List.mem_filterMap.mp he
  obtain ⟨i, hi, rfl⟩ := List.getElem_of_mem hs
  cases hslot : t.slots[i] with
  | unused => rw [hslot] at hse; cases hse
  | rip => rw [hslot] at hse; cases hse
  | live h k v =>
      rw [hslot] at hse
      cases hse
      exact ⟨i, h, by rw [slotAt_eq_getElem hi, hslot]⟩

/-- Putting into a free slot adds an entry. -/
theorem entries_put_perm {t : HmTable K V} {s : Nat} (hs : s < t.capacity)
    (hfree : (t.slotAt s).isLive = false) (h : UInt32) (k : K) (v : V) :
    (t.put s h k v).entries.Perm ((k, v) :: t.entries) := by
  have hlen : s < t.slots.length := hs
  obtain ⟨before, after, hold, hnew⟩ := entries_set hlen (.live h k v)
  have hnone : t.slots[s].toEntry = none := by
    rw [← slotAt_eq_getElem hlen]
    cases hslot : t.slotAt s <;> simp_all [HmSlot.isLive, HmSlot.toEntry]
  simp only [hnone, Option.toList_none, List.append_nil] at hold
  show ((t.slots.set s _).filterMap HmSlot.toEntry).Perm _
  rw [hnew, entries, hold, List.append_assoc]
  exact List.perm_middle

/-- Burying takes an entry out. -/
theorem entries_bury_perm {t : HmTable K V} {s : Nat} {h : UInt32} {k : K} {v : V}
    (hlive : t.slotAt s = .live h k v) : t.entries.Perm ((k, v) :: (t.bury s).entries) := by
  have hs : s < t.capacity := lt_capacity_of_slotAt (by simp [hlive])
  have hlen : s < t.slots.length := hs
  obtain ⟨before, after, hold, hnew⟩ := entries_set hlen .rip
  have hentry : t.slots[s].toEntry = some (k, v) := by
    rw [← slotAt_eq_getElem hlen, hlive]
    rfl
  rw [hentry] at hold
  simp only [HmSlot.toEntry, Option.toList_none, List.append_nil] at hnew
  show t.entries.Perm ((k, v) :: (t.slots.set s .rip).filterMap HmSlot.toEntry)
  rw [hnew, entries, hold, List.append_assoc]
  exact List.perm_middle

end HmTable

/-! ## The probe loop -/

/-- Slot of probe number `j` for the hash `h`. -/
def HmTable.probe (t : HmTable K V) (h : UInt32) (j : Nat) : Nat :=
  Probe.slotAt t.capacity h.toNat j

/-- The slot holds this key. -/
def Matches (c : HmInstance K) (t : HmTable K V) (key : K) (h : UInt32) (s : Nat) : Prop :=
  ∃ k v, t.slotAt s = .live h k v ∧ c.keysEqual k key = true

/-- The loop goes on from this slot. -/
def Passes (c : HmInstance K) (t : HmTable K V) (key : K) (h : UInt32) (s : Nat) : Prop :=
  t.slotAt s ≠ .unused ∧ ¬ Matches c t key h s

/-- The last tombstone among the first `j` probes. -/
def lastRip (t : HmTable K V) (h : UInt32) : Nat → Option Nat
  | 0 => none
  | j + 1 =>
      match t.slotAt (t.probe h j) with
      | .rip => some (t.probe h j)
      | _ => lastRip t h j

/-- The answers of `findSlot`: no end, the key, or a place for it. -/
inductive FoundBy (c : HmInstance K) (t : HmTable K V) (key : K) (h : UInt32) :
    Option FoundSlot → Prop where
  | endless (hpass : ∀ l, l < t.capacity → Passes c t key h (t.probe h l)) :
      FoundBy c t key h none
  | present {j : Nat} (hj : j < t.capacity) (hpass : ∀ l, l < j → Passes c t key h (t.probe h l))
      (hmatch : Matches c t key h (t.probe h j)) :
      FoundBy c t key h (some (.present (t.probe h j)))
  | absent {j : Nat} (hj : j < t.capacity) (hpass : ∀ l, l < j → Passes c t key h (t.probe h l))
      (hunused : t.slotAt (t.probe h j) = .unused) :
      FoundBy c t key h (some (.absent ((lastRip t h j).getD (t.probe h j))))

/-- Masking with `capacity - 1` moves on to the next probe. -/
theorem probe_succ {t : HmTable K V} {k : Nat} (hcap : t.capacity = 2 ^ k) (h : UInt32)
    (i : Nat) : (t.probe h i + (i + 1)) &&& (t.capacity - 1) = t.probe h (i + 1) := by
  unfold HmTable.probe
  rw [Probe.slotAt_succ, hcap, Nat.and_two_pow_sub_one_eq_mod]

/-- The first probe is the masked hash. -/
theorem probe_zero {t : HmTable K V} {k : Nat} (hcap : t.capacity = 2 ^ k) (h : UInt32) :
    h.toNat &&& (t.capacity - 1) = t.probe h 0 := by
  unfold HmTable.probe
  rw [Probe.slotAt_zero, hcap, Nat.and_two_pow_sub_one_eq_mod]

/-- The loop from probe `i`, after `i` probes that went on: it goes on for all
of its fuel, or stops at the key or at an unused slot. -/
private theorem findSlotLoop_spec {t : HmTable K V} {k : Nat} (hcap : t.capacity = 2 ^ k)
    (key : K) (h : UInt32) (fuel i : Nat)
    (hpass : ∀ l, l < i → Passes c t key h (t.probe h l)) :
    let r := findSlotLoop c t key h fuel i (t.probe h i) (lastRip t h i)
    (r = none ∧ ∀ l, l < i + fuel → Passes c t key h (t.probe h l)) ∨
    (∃ j, j < i + fuel ∧ (∀ l, l < j → Passes c t key h (t.probe h l)) ∧
      ((Matches c t key h (t.probe h j) ∧ r = some (.present (t.probe h j))) ∨
       (t.slotAt (t.probe h j) = .unused ∧
        r = some (.absent ((lastRip t h j).getD (t.probe h j)))))) := by
  induction fuel generalizing i with
  | zero => exact Or.inl ⟨rfl, hpass⟩
  | succ n ih =>
      have hnext (hgo : Passes c t key h (t.probe h i)) :
          ∀ l, l < i + 1 → Passes c t key h (t.probe h l) := by
        intro l hl
        rcases Nat.lt_succ_iff_lt_or_eq.mp hl with hlt | rfl
        · exact hpass l hlt
        · exact hgo
      have hfuel : i + 1 + n = i + (n + 1) := by omega
      cases hslot : t.slotAt (t.probe h i) with
      | unused =>
          exact Or.inr ⟨i, by omega, hpass, Or.inr ⟨hslot, by simp [findSlotLoop, hslot]⟩⟩
      | rip =>
          have hgo : Passes c t key h (t.probe h i) := by
            refine ⟨by simp [hslot], ?_⟩
            rintro ⟨k, v, hm, -⟩
            rw [hslot] at hm
            cases hm
          have hrip : lastRip t h (i + 1) = some (t.probe h i) := by simp [lastRip, hslot]
          have := ih (i + 1) (hnext hgo)
          rw [hrip, ← probe_succ hcap, hfuel] at this
          simpa only [findSlotLoop, hslot] using this
      | live h' k' v' =>
          by_cases hm : h' = h ∧ c.keysEqual k' key = true
          · refine Or.inr ⟨i, by omega, hpass, Or.inl ⟨⟨k', v', ?_, hm.2⟩, ?_⟩⟩
            · rw [hslot, hm.1]
            · simp [findSlotLoop, hslot, hm]
          · have hgo : Passes c t key h (t.probe h i) := by
              refine ⟨by simp [hslot], ?_⟩
              rintro ⟨k, v, hlive, heq⟩
              rw [hslot] at hlive
              cases hlive
              exact hm ⟨rfl, heq⟩
            have hrip : lastRip t h (i + 1) = lastRip t h i := by simp [lastRip, hslot]
            have := ih (i + 1) (hnext hgo)
            rw [hrip, ← probe_succ hcap, hfuel] at this
            simpa only [findSlotLoop, hslot, if_neg hm] using this

/-- **What `find_slot` answers.** -/
theorem findSlot_spec {t : HmTable K V} {k : Nat} (hcap : t.capacity = 2 ^ k) (key : K)
    (h : UInt32) : FoundBy c t key h (findSlot c t key h) := by
  have hspec := findSlotLoop_spec (c := c) hcap key h t.capacity 0 (by simp)
  rw [← probe_zero hcap] at hspec
  simp only [Nat.zero_add] at hspec
  change (findSlot c t key h = none ∧ _) ∨ _ at hspec
  rcases hspec with ⟨hr, hpass⟩ | ⟨j, hj, hpass, ⟨hm, hr⟩ | ⟨hu, hr⟩⟩
  · rw [hr]
    exact .endless hpass
  · change findSlot c t key h = _ at hr
    rw [hr]
    exact .present hj hpass hm
  · change findSlot c t key h = _ at hr
    rw [hr]
    exact .absent hj hpass hu

/-- Probes visit every slot, so a loop that passes `capacity` of them passes
every slot of the table. -/
theorem passes_of_endless {t : HmTable K V} {k : Nat} (hcap : t.capacity = 2 ^ k) {key : K}
    {h : UInt32} (hnone : findSlot c t key h = none) {s : Nat} (hs : s < t.capacity) :
    Passes c t key h s := by
  have hspec := findSlot_spec (c := c) hcap key h
  rw [hnone] at hspec
  cases hspec with
  | endless hpass =>
      obtain ⟨l, hl, hls⟩ := Probe.exists_slotAt_eq (k := k) h.toNat (by rwa [← hcap])
      have := hpass l (by rwa [hcap])
      rwa [HmTable.probe, hcap, hls] at this

/-- **The loop that does not end in `capacity` turns never ends.** -/
theorem findSlot_endless {t : HmTable K V} {k : Nat} (hcap : t.capacity = 2 ^ k) {key : K}
    {h : UInt32} (hnone : findSlot c t key h = none) (fuel : Nat) :
    findSlotLoop c t key h fuel 0 (h.toNat &&& (t.capacity - 1)) none = none := by
  have hpos : 0 < t.capacity := by rw [hcap]; exact Nat.two_pow_pos k
  have hspec := findSlotLoop_spec (c := c) hcap key h fuel 0 (by simp)
  rw [← probe_zero hcap] at hspec
  rcases hspec with ⟨hr, -⟩ | ⟨j, -, -, ⟨hm, -⟩ | ⟨hu, -⟩⟩
  · exact hr
  · exact absurd hm (passes_of_endless hcap hnone (Probe.slotAt_lt hpos _ _)).2
  · exact absurd hu (passes_of_endless hcap hnone (Probe.slotAt_lt hpos _ _)).1

/-! ## The invariant -/

/-- The invariant of a table. -/
structure HmTable.WF (c : HmInstance K) (t : HmTable K V) : Prop where
  pow2 : ∃ k, k + 1 < c.bits ∧ t.capacity = 2 ^ k
  count_eq : t.count = t.entries.length
  hash_eq : ∀ {i h k v}, t.slotAt i = .live h k v → h = hmHash c k
  reach : ∀ {i h k v}, t.slotAt i = .live h k v →
    ∃ j, t.probe h j = i ∧ ∀ l, l < j → t.slotAt (t.probe h l) ≠ .unused
  distinct : t.entries.Pairwise fun a b => ¬ SameKey c a.1 b.1

/-- A map in a valid state: no table yet, or a valid one. -/
def Hm.WF (c : HmInstance K) (hm : Hm K V) : Prop :=
  ∀ t, hm = some t → t.WF c

def Hm.entries : Hm K V → List (K × V)
  | none => []
  | some t => t.entries

/-- The key is stored in the table. -/
def HmTable.Stores (c : HmInstance K) (t : HmTable K V) (key : K) : Prop :=
  ∃ e ∈ t.entries, SameKey c e.1 key

/-- A walk that passed up to an unused slot proves the key absent: were it
stored, its own path would lead through that unused slot. -/
theorem not_stores_of_walk {t : HmTable K V} (hwf : t.WF c) {key : K} {j : Nat}
    (hpass : ∀ l, l < j → Passes c t key (hmHash c key) (t.probe (hmHash c key) l))
    (hunused : t.slotAt (t.probe (hmHash c key) j) = .unused) : ¬ t.Stores c key := by
  rintro ⟨⟨k, v⟩, hmem, hsame⟩
  obtain ⟨i, h, hi⟩ := HmTable.exists_slotAt hmem
  obtain rfl : h = hmHash c key := (hwf.hash_eq hi).trans hsame.1
  obtain ⟨j', hj', hreach⟩ := hwf.reach hi
  rcases Nat.lt_trichotomy j' j with hlt | heq | hgt
  · exact (hpass j' hlt).2 ⟨k, v, by rw [hj', hi], hsame.2⟩
  · rw [← heq, hj', hi] at hunused
    cases hunused
  · exact hreach j hgt hunused

/-- The place `find_slot` offers for a new key: a tombstone or an unused slot
inside the table, on the key's own path and with no unused slot before it. -/
theorem lastRip_getD_spec {t : HmTable K V} (h : UInt32) {j : Nat}
    (hunused : t.slotAt (t.probe h j) = .unused) :
    ∃ i, i ≤ j ∧ t.probe h i = (lastRip t h j).getD (t.probe h j) ∧
      (t.slotAt (t.probe h i)).isLive = false ∧
      (t.slotAt (t.probe h i) = .unused ↔ lastRip t h j = none) := by
  suffices hrip : ∀ n, (lastRip t h n = none) ∨
      ∃ i, i < n ∧ lastRip t h n = some (t.probe h i) ∧ t.slotAt (t.probe h i) = .rip by
    rcases hrip j with hnone | ⟨i, hi, hsome, hslot⟩
    · exact ⟨j, Nat.le_refl j, by simp [hnone], by simp [hunused, HmSlot.isLive],
        by simp [hunused, hnone]⟩
    · exact ⟨i, Nat.le_of_lt hi, by simp [hsome], by simp [hslot, HmSlot.isLive],
        by simp [hslot, hsome]⟩
  intro n
  induction n with
  | zero => exact Or.inl rfl
  | succ m ih =>
      cases hslot : t.slotAt (t.probe h m) with
      | rip => exact Or.inr ⟨m, by omega, by simp [lastRip, hslot], hslot⟩
      | unused =>
          rcases ih with hnone | ⟨i, hi, hsome, hr⟩
          · exact Or.inl (by simp [lastRip, hslot, hnone])
          · exact Or.inr ⟨i, by omega, by simp [lastRip, hslot, hsome], hr⟩
      | live h' k v =>
          rcases ih with hnone | ⟨i, hi, hsome, hr⟩
          · exact Or.inl (by simp [lastRip, hslot, hnone])
          · exact Or.inr ⟨i, by omega, by simp [lastRip, hslot, hsome], hr⟩

/-- An insertion at a free slot of the key's path keeps the invariant. -/
theorem HmTable.WF.put {t : HmTable K V} (hwf : t.WF c) {key : K} {i : Nat}
    (habsent : ¬ t.Stores c key)
    (hpath : ∀ l, l < i → t.slotAt (t.probe (hmHash c key) l) ≠ .unused)
    (hfree : (t.slotAt (t.probe (hmHash c key) i)).isLive = false) (v : V) :
    (t.put (t.probe (hmHash c key) i) (hmHash c key) key v).WF c := by
  obtain ⟨k, hfits, hcap⟩ := hwf.pow2
  have hlt : t.probe (hmHash c key) i < t.capacity :=
    Probe.slotAt_lt (by rw [hcap]; exact Nat.two_pow_pos k) _ _
  have hperm := entries_put_perm hlt hfree (hmHash c key) key v
  have hprobe (h : UInt32) (j : Nat) :
      (t.put (t.probe (hmHash c key) i) (hmHash c key) key v).probe h j = t.probe h j := by
    simp [HmTable.probe]
  refine ⟨⟨k, hfits, by simpa using hcap⟩, ?_, ?_, ?_, ?_⟩
  · rw [hperm.length_eq, List.length_cons, ← hwf.count_eq]
    rfl
  · intro s h k' v' hs
    rw [slotAt_put hlt] at hs
    split at hs
    · cases hs
      rfl
    · exact hwf.hash_eq hs
  · intro s h k' v' hs
    rw [slotAt_put hlt] at hs
    split at hs
    · next heq =>
        cases hs
        refine ⟨i, by rw [hprobe, heq], ?_⟩
        intro l hl
        rw [hprobe, slotAt_put hlt]
        split
        · simp
        · exact hpath l hl
    · obtain ⟨j, hj, hreach⟩ := hwf.reach hs
      refine ⟨j, by rw [hprobe, hj], ?_⟩
      intro l hl
      rw [hprobe, slotAt_put hlt]
      split
      · simp
      · exact hreach l hl
  · have hsymm : ∀ {x y : K × V}, ¬ SameKey c x.1 y.1 → ¬ SameKey c y.1 x.1 :=
      fun hxy hyx => hxy hyx.symm
    rw [hperm.pairwise_iff hsymm, List.pairwise_cons]
    exact ⟨fun e he hsame => habsent ⟨e, he, hsame.symm⟩, hwf.distinct⟩

/-- Burying a live entry keeps the invariant. -/
theorem HmTable.WF.bury {t : HmTable K V} (hwf : t.WF c) {s : Nat} {h : UInt32} {k : K} {v : V}
    (hlive : t.slotAt s = .live h k v) : (t.bury s).WF c := by
  have hlt : s < t.capacity := lt_capacity_of_slotAt (by simp [hlive])
  have hperm := entries_bury_perm hlive
  have hprobe (h : UInt32) (j : Nat) : (t.bury s).probe h j = t.probe h j := by
    simp [HmTable.probe]
  refine ⟨?_, ?_, ?_, ?_, ?_⟩
  · simpa using hwf.pow2
  · have := hperm.length_eq
    rw [← hwf.count_eq, List.length_cons] at this
    show t.count - 1 = _
    omega
  · intro i h k' v' hi
    rw [slotAt_bury hlt] at hi
    split at hi
    · cases hi
    · exact hwf.hash_eq hi
  · intro i h k' v' hi
    rw [slotAt_bury hlt] at hi
    split at hi
    · cases hi
    · obtain ⟨j, hj, hreach⟩ := hwf.reach hi
      refine ⟨j, by rw [hprobe, hj], ?_⟩
      intro l hl
      rw [hprobe, slotAt_bury hlt]
      split
      · simp
      · exact hreach l hl
  · have hsymm : ∀ {x y : K × V}, ¬ SameKey c x.1 y.1 → ¬ SameKey c y.1 x.1 :=
      fun hxy hyx => hxy hyx.symm
    exact (List.pairwise_cons.mp ((hperm.pairwise_iff hsymm).mp hwf.distinct)).2

/-- No two slots of a valid table hold the same key. -/
theorem HmTable.WF.slot_unique {t : HmTable K V} (hwf : t.WF c) {i j : Nat} {h h' : UInt32}
    {k k' : K} {v v' : V} (hi : t.slotAt i = .live h k v) (hj : t.slotAt j = .live h' k' v')
    (hsame : SameKey c k k') : i = j := by
  have hilt : i < t.slots.length := lt_capacity_of_slotAt (by simp [hi])
  have hjlt : j < t.slots.length := lt_capacity_of_slotAt (by simp [hj])
  have hpair := hwf.distinct
  rw [HmTable.entries, List.pairwise_filterMap, List.pairwise_iff_getElem] at hpair
  rw [slotAt_eq_getElem hilt] at hi
  rw [slotAt_eq_getElem hjlt] at hj
  rcases Nat.lt_trichotomy i j with hlt | heq | hgt
  · exact absurd hsame (hpair i j hilt hjlt hlt (k, v) (by simp [hi, HmSlot.toEntry]) (k', v')
      (by simp [hj, HmSlot.toEntry]))
  · exact heq
  · exact absurd hsame.symm (hpair j i hjlt hilt hgt (k', v') (by simp [hj, HmSlot.toEntry]) (k, v)
      (by simp [hi, HmSlot.toEntry]))

/-! ## Unused slots -/

def HmTable.HasUnused (t : HmTable K V) : Prop :=
  HmSlot.unused ∈ t.slots

def HmTable.unusedCount (t : HmTable K V) : Nat :=
  t.slots.countP HmSlot.isUnused

/-- There is an unused slot exactly when the count of them is positive. -/
theorem hasUnused_iff_unusedCount {t : HmTable K V} : t.HasUnused ↔ 0 < t.unusedCount := by
  rw [HmTable.unusedCount, List.countP_pos_iff, HmTable.HasUnused]
  constructor
  · exact fun h => ⟨_, h, rfl⟩
  · rintro ⟨s, hs, hu⟩
    cases s <;> simp_all [HmSlot.isUnused]

/-- There are as many entries as live slots. -/
theorem entries_length {l : List (HmSlot K V)} :
    (l.filterMap HmSlot.toEntry).length = l.countP HmSlot.isLive := by
  induction l with
  | nil => rfl
  | cons s l ih => cases s <;> simp [List.filterMap_cons, List.countP_cons, ih]

/-- Live slots, unused slots and tombstones make up the table. -/
theorem entries_add_unused_le (t : HmTable K V) :
    t.entries.length + t.unusedCount ≤ t.capacity := by
  unfold HmTable.entries HmTable.unusedCount HmTable.capacity
  rw [entries_length]
  induction t.slots with
  | nil => simp
  | cons s l ih => cases s <;> simp [List.countP_cons] <;> omega

/-- Without tombstones every slot is live or unused. -/
theorem entries_add_unused_of_no_rip {t : HmTable K V} (h : HmSlot.rip ∉ t.slots) :
    t.entries.length + t.unusedCount = t.capacity := by
  unfold HmTable.entries HmTable.unusedCount HmTable.capacity
  rw [entries_length]
  induction hl : t.slots generalizing t with
  | nil => simp
  | cons s l ih =>
      have hrest := ih (t := ⟨0, l⟩) (by simpa using (by rw [hl] at h; simp_all)) rfl
      cases s with
      | rip => rw [hl] at h; simp at h
      | unused => simp [List.countP_cons]; omega
      | live _ _ _ => simp [List.countP_cons]; omega

/-- **Termination.**  With an unused slot in the table every probe loop ends. -/
theorem findSlot_isSome_of_hasUnused {t : HmTable K V} {k : Nat} (hcap : t.capacity = 2 ^ k)
    (hunused : t.HasUnused) (key : K) (h : UInt32) : (findSlot c t key h).isSome := by
  cases hr : findSlot c t key h with
  | some r => rfl
  | none =>
      obtain ⟨i, hi, heq⟩ := List.getElem_of_mem hunused
      exact absurd (by rw [HmTable.slotAt_eq_getElem hi, heq]) (passes_of_endless hcap hr hi).1

/-! ## Lookup -/

/-- A stored key is found in the slot that holds it. -/
theorem findSlot_present_iff {t : HmTable K V} (hwf : t.WF c) {key : K} {s : Nat} :
    findSlot c t key (hmHash c key) = some (.present s) ↔
      ∃ h k v, t.slotAt s = .live h k v ∧ SameKey c k key := by
  obtain ⟨m, -, hcap⟩ := hwf.pow2
  have hspec := findSlot_spec (c := c) hcap key (hmHash c key)
  constructor
  · intro hr
    rw [hr] at hspec
    cases hspec with
    | present _ _ hm =>
        obtain ⟨k, v, hslot, heq⟩ := hm
        exact ⟨_, k, v, hslot, (hwf.hash_eq hslot).symm, heq⟩
  · rintro ⟨h, k, v, hslot, hsame⟩
    have hstores : t.Stores c key := ⟨(k, v), HmTable.mem_entries hslot, hsame⟩
    cases hr : findSlot c t key (hmHash c key) with
    | none =>
        obtain rfl : h = hmHash c key := (hwf.hash_eq hslot).trans hsame.1
        exact absurd ⟨k, v, hslot, hsame.2⟩
          (passes_of_endless hcap hr (HmTable.lt_capacity_of_slotAt (by simp [hslot]))).2
    | some r =>
        rw [hr] at hspec
        cases hspec with
        | present _ _ hm =>
            obtain ⟨k', v', hslot', heq⟩ := hm
            have hsame' : SameKey c k' key := ⟨(hwf.hash_eq hslot').symm, heq⟩
            rw [hwf.slot_unique hslot' hslot (hsame'.trans hsame.symm)]
        | absent _ hpass hu => exact absurd hstores (not_stores_of_walk hwf hpass hu)

/-- What an answer `absent s` promises to the insertion that follows. -/
structure FreshSlot (c : HmInstance K) (t : HmTable K V) (key : K) (s : Nat) : Prop where
  lt : s < t.capacity
  absent : ¬ t.Stores c key
  free : (t.slotAt s).isLive = false
  put_wf : ∀ v, (t.put s (hmHash c key) key v).WF c

/-- Some tombstone lies on the path of the key before the first unused slot. -/
def TombstoneOnPath (c : HmInstance K) (t : HmTable K V) (key : K) : Prop :=
  ∃ j, t.slotAt (t.probe (hmHash c key) j) = .rip ∧
    ∀ l, l < j → t.slotAt (t.probe (hmHash c key) l) ≠ .unused

/-- An absent key is given a fresh slot, a tombstone if one was on the path. -/
theorem findSlot_absent {t : HmTable K V} (hwf : t.WF c) {key : K} {s : Nat}
    (hr : findSlot c t key (hmHash c key) = some (.absent s)) :
    FreshSlot c t key s ∧ (t.slotAt s = .unused ↔ ¬ TombstoneOnPath c t key) := by
  obtain ⟨m, hfits, hcap⟩ := hwf.pow2
  have hspec := findSlot_spec (c := c) hcap key (hmHash c key)
  rw [hr] at hspec
  cases hspec with
  | @absent j hj hpass hu =>
      have habsent := not_stores_of_walk hwf hpass hu
      obtain ⟨i, hij, hi, hfree, hrip⟩ := lastRip_getD_spec (hmHash c key) hu
      have hpath : ∀ l, l < i → t.slotAt (t.probe (hmHash c key) l) ≠ .unused :=
        fun l hl => (hpass l (by omega)).1
      rw [← hi]
      refine ⟨⟨Probe.slotAt_lt (by rw [hcap]; exact Nat.two_pow_pos m) _ _, habsent, hfree,
        hwf.put habsent hpath hfree⟩, hrip.trans ⟨?_, ?_⟩⟩
      · -- a tombstone before the unused slot would have been remembered
        rintro hnone ⟨l, hl, hbefore⟩
        have hlj : l < j := by
          rcases Nat.lt_trichotomy l j with hlt | heq | hgt
          · exact hlt
          · rw [heq, hu] at hl
            cases hl
          · exact absurd hu (hbefore j hgt)
        have hkeep : ∀ n, l < n → (lastRip t (hmHash c key) n).isSome := by
          intro n hn
          induction n with
          | zero => omega
          | succ n ih =>
              rcases Nat.lt_succ_iff_lt_or_eq.mp hn with hlt | rfl
              · cases hslot : t.slotAt (t.probe (hmHash c key) n) <;>
                  simp [lastRip, hslot, ih hlt]
              · simp [lastRip, hl]
        simpa [hnone] using hkeep j hlj
      · intro hno
        by_contra hsome
        have hriporlive : t.slotAt (t.probe (hmHash c key) i) = .rip := by
          have hne : t.slotAt (t.probe (hmHash c key) i) ≠ .unused :=
            fun h => hsome (hrip.mp h)
          cases hslot : t.slotAt (t.probe (hmHash c key) i) with
          | unused => exact absurd hslot hne
          | rip => rfl
          | live _ _ _ => rw [hslot] at hfree; cases hfree
        exact hno ⟨i, hriporlive, hpath⟩

/-- Putting into the fresh slot adds the entry. -/
theorem FreshSlot.perm {t : HmTable K V} {key : K} {s : Nat} (h : FreshSlot c t key s) (v : V) :
    (t.put s (hmHash c key) key v).entries.Perm ((key, v) :: t.entries) :=
  HmTable.entries_put_perm h.lt h.free _ _ _

/-! ## Growing -/

/-- Rehashing moves every entry of the old slots into the new table. -/
theorem rehash_spec (old : List (HmSlot K V)) {new : HmTable K V} (hwf : new.WF c)
    (hrip : HmSlot.rip ∉ new.slots)
    (hdistinct : (old.filterMap HmSlot.toEntry).Pairwise fun a b => ¬ SameKey c a.1 b.1)
    (hfresh : ∀ e ∈ old.filterMap HmSlot.toEntry, ¬ new.Stores c e.1)
    (hroom : (old.filterMap HmSlot.toEntry).length + new.entries.length < new.capacity) :
    ∃ t, rehash c old new = .ok t ∧ t.WF c ∧ HmSlot.rip ∉ t.slots ∧ t.capacity = new.capacity ∧
      t.entries.Perm (old.filterMap HmSlot.toEntry ++ new.entries) := by
  induction old generalizing new with
  | nil => exact ⟨new, rfl, hwf, hrip, rfl, by simp⟩
  | cons s rest ih =>
      cases s with
      | unused => simpa [rehash, List.filterMap_cons] using ih hwf hrip hdistinct hfresh hroom
      | rip => simpa [rehash, List.filterMap_cons] using ih hwf hrip hdistinct hfresh hroom
      | live h k v =>
          simp only [List.filterMap_cons, HmSlot.toEntry, List.pairwise_cons, List.forall_mem_cons,
            List.length_cons] at hdistinct hfresh hroom
          obtain ⟨m, -, hcap⟩ := hwf.pow2
          have hunused : new.HasUnused := by
            have := entries_add_unused_of_no_rip hrip
            exact hasUnused_iff_unusedCount.mpr (by omega)
          obtain ⟨r, hr⟩ := Option.isSome_iff_exists.mp
            (findSlot_isSome_of_hasUnused (c := c) hcap hunused k (hmHash c k))
          cases r with
          | present slot =>
              obtain ⟨_, k', v', hslot, hsame⟩ := (findSlot_present_iff hwf).mp hr
              exact absurd ⟨(k', v'), HmTable.mem_entries hslot, hsame⟩ hfresh.1
          | absent slot =>
              have hslot := (findSlot_absent hwf hr).1
              have hperm := hslot.perm v
              obtain ⟨t, ht, htwf, htrip, htcap, htperm⟩ := ih (hslot.put_wf v)
                (by
                  intro hmem
                  rcases List.mem_or_eq_of_mem_set hmem with h' | h'
                  · exact hrip h'
                  · cases h')
                hdistinct.2
                (by
                  rintro e he ⟨e', he', hsame⟩
                  rcases List.mem_cons.mp (hperm.mem_iff.mp he') with rfl | hmem
                  · exact hdistinct.1 e he hsame
                  · exact hfresh.2 e he ⟨e', hmem, hsame⟩)
                (by rw [hperm.length_eq, HmTable.capacity_put, List.length_cons]; omega)
              refine ⟨t, by rw [rehash, hr]; exact ht, htwf, htrip, by simpa using htcap, ?_⟩
              refine htperm.trans ((hperm.append_left _).trans ?_)
              simp only [List.filterMap_cons, HmSlot.toEntry, List.cons_append]
              exact List.perm_middle

/-- The capacity of a granted growth is what the source writes, unwrapped. -/
theorem growCapacity_of_granted {mem : Alloc} {hm : Hm K V} (hwf : Hm.WF c hm)
    (hgrant : growGranted c mem hm = true) :
    ∃ k, k + 1 < c.bits ∧ growCapacity c hm = (2 ^ k : Nat) ∧
      (∀ t, hm = some t → 2 ^ k = 2 * t.capacity) ∧ (hm = none → 2 ^ k = c.minCapacity) := by
  cases hm with
  | none =>
      refine ⟨c.logMinCapacity, by have := c.fits; omega, ?_, by simp, fun _ => rfl⟩
      refine (wrapInt_of_lt (by have := c.fits; omega) (by positivity) ?_).trans rfl
      unfold HmInstance.minCapacity
      exact_mod_cast Nat.pow_lt_pow_right (by decide) (by have := c.fits; omega)
  | some t =>
      obtain ⟨k, hk, hcap⟩ := (hwf t rfl).pow2
      have hdouble : (2 * t.capacity : Int) = 2 ^ (k + 1) := by
        rw [hcap]
        push_cast
        ring
      have hgc : growCapacity c (some t) = wrapInt c.bits (2 ^ (k + 1)) := by
        rw [growCapacity, ← hdouble]
      have hkb : k + 2 < c.bits := by
        by_contra hge
        obtain ⟨b, hb⟩ : ∃ b, c.bits = b + 1 := ⟨c.bits - 1, by omega⟩
        have hbk : b = k + 1 := by omega
        rw [hb, hbk, wrapInt_two_pow_eq_neg] at hgc
        simp only [growGranted, Bool.and_eq_true] at hgrant
        have := nonneg_of_granted hgrant.1.2
        rw [hgc] at this
        have hpos : (0 : Int) < c.sizeofKey * 2 ^ (k + 1) := by
          have := c.sizeofKey_pos
          positivity
        linarith
      refine ⟨k + 1, hkb, ?_, ?_, by simp⟩
      · rw [hgc, wrapInt_of_lt (by omega) (by positivity)
          (by exact_mod_cast Nat.pow_lt_pow_right (by decide) (by omega))]
        push_cast
        rfl
      · rintro t' rfl'
        obtain rfl := Option.some.inj rfl'
        rw [hcap]
        ring

/-- A table of unused slots is well formed. -/
theorem replicate_wf {k : Nat} (hk : k + 1 < c.bits) :
    (⟨0, List.replicate (2 ^ k) .unused⟩ : HmTable K V).WF c := by
  have hslot (i : Nat) :
      (⟨0, List.replicate (2 ^ k) .unused⟩ : HmTable K V).slotAt i = .unused := by
    by_cases hi : i < 2 ^ k <;>
      simp [HmTable.slotAt, List.getD_eq_getElem?_getD, hi]
  have hentries : (⟨0, List.replicate (2 ^ k) .unused⟩ : HmTable K V).entries = [] := by
    simp [HmTable.entries, List.filterMap_replicate, HmSlot.toEntry]
  refine ⟨⟨k, hk, by simp [HmTable.capacity]⟩, by simp [hentries], ?_, ?_, by simp [hentries]⟩
  · intro i h key v hi
    rw [hslot] at hi
    cases hi
  · intro i h key v hi
    rw [hslot] at hi
    cases hi

/-- **Growing keeps every entry**, drops the tombstones and doubles the table. -/
theorem hmGrow_spec (mem : Alloc) {hm : Hm K V} (hwf : Hm.WF c hm) :
    (growGranted c mem hm = false ∧ hmGrow c mem hm = .ok none) ∨
    ∃ t, growGranted c mem hm = true ∧ hmGrow c mem hm = .ok (some t) ∧ t.WF c ∧
      HmSlot.rip ∉ t.slots ∧ t.entries.Perm (Hm.entries hm) ∧
      (∀ u, hm = some u → t.capacity = 2 * u.capacity) ∧
      (hm = none → t.capacity = c.minCapacity) := by
  cases hgrant : growGranted c mem hm with
  | false => exact Or.inl ⟨rfl, by simp [hmGrow, hgrant]⟩
  | true =>
      obtain ⟨k, hk, hgc, hsome, hnone⟩ := growCapacity_of_granted hwf hgrant
      have hold : (oldSlots hm).filterMap HmSlot.toEntry = Hm.entries hm := by
        cases hm <;> rfl
      have hempty : (⟨0, List.replicate (2 ^ k) .unused⟩ : HmTable K V).entries = [] := by
        simp [HmTable.entries, List.filterMap_replicate, HmSlot.toEntry]
      have hlen : (Hm.entries hm).length < 2 ^ k := by
        cases hm with
        | none => exact Nat.two_pow_pos k
        | some u =>
            obtain ⟨m, -, hcap⟩ := (hwf u rfl).pow2
            have := entries_add_unused_le u
            have := Nat.two_pow_pos m
            rw [hsome u rfl]
            show u.entries.length < _
            omega
      obtain ⟨t, ht, htwf, htrip, htcap, hperm⟩ := rehash_spec (oldSlots hm)
        (replicate_wf (V := V) hk) (by simp)
        (by
          rw [hold]
          cases hm with
          | none => exact List.Pairwise.nil
          | some u => exact (hwf u rfl).distinct)
        (by simp [HmTable.Stores, hempty]) (by simpa [hold, hempty, HmTable.capacity] using hlen)
      have hcap : t.capacity = 2 ^ k := by simpa [HmTable.capacity] using htcap
      refine Or.inr ⟨t, rfl, ?_, htwf, htrip, by simpa [hold, hempty] using hperm, ?_, ?_⟩
      · rw [hmGrow, if_pos hgrant, hgc, Int.toNat_natCast, ht]
      · intro u hu
        rw [hcap, hsome u hu]
      · intro hu
        rw [hcap, hnone hu]

end Clither
