import Clither.Lib.Run
import Clither.HmOps
import Clither.NetAddr

/-!
# When the probe loops of the hash map end

The loop of `find_slot` is left through an unused slot.  An insertion uses one
up unless it can reuse a tombstone, growing makes new ones, and nothing else
changes their number.  The growth check compares the number of *live* entries
with the capacity: tombstones do not count, and a history that inserts and
erases can fill the table with them.

`everyState_probesEnd_iff` says which histories keep an unused slot, and
`churn_endless` is one that does not.
-/

namespace Clither

variable {K V : Type}

/-- A call of one of the map functions. -/
inductive HmOp (K V : Type) where
  | emplaceNew (key : K) (value : V)
  | insertUpdate (key : K) (value : V)
  | emplaceOrGet (key : K) (value : V)
  | find (key : K)
  | erase (key : K)

def hmStep (c : HmInstance K) (mem : Alloc) (hm : Hm K V) : HmOp K V → Except Fault (Hm K V)
  | .emplaceNew key value => (hmEmplaceNew c mem hm key value).map Prod.fst
  | .insertUpdate key value => hmInsertUpdate c mem hm key value
  | .emplaceOrGet key value => (hmEmplaceOrGet c mem hm key value).map Prod.fst
  | .find key => (hmFind c hm key).map fun _ => hm
  | .erase key => hmErase c hm key

/-- Every call of `find_slot` on the map ends, and the table has an unused slot. -/
def ProbesEnd (c : HmInstance K) (hm : Hm K V) : Prop :=
  ∀ t, hm = some t → t.HasUnused ∧ ∀ key, ∃ fuel,
    (findSlotLoop c t key (hmHash c key) fuel 0
      ((hmHash c key).toNat &&& (t.capacity - 1)) none).isSome

/-- An insertion leaves an unused slot: the first table has two slots, or the
table grows, or the key is stored, or it can go into a tombstone, or there are
two unused slots. -/
def InsertKeepsUnused (c : HmInstance K) (mem : Alloc) (hm : Hm K V) (key : K) : Prop :=
  match hm with
  | none => growGranted c mem hm = true → 2 ≤ c.minCapacity
  | some t => growthDue hm = false →
      t.Stores c key ∨ TombstoneOnPath c t key ∨ 2 ≤ t.unusedCount

/-- The call leaves an unused slot. -/
def KeepsUnused (c : HmInstance K) (mem : Alloc) (hm : Hm K V) : HmOp K V → Prop
  | .emplaceNew key _ => InsertKeepsUnused c mem hm key
  | .insertUpdate key _ => InsertKeepsUnused c mem hm key
  | .emplaceOrGet key _ => InsertKeepsUnused c mem hm key
  | .find _ => True
  | .erase _ => hm ≠ none

variable {c : HmInstance K} {mem : Alloc}

/-! ## The number of unused slots -/

theorem unusedCount_put {t : HmTable K V} {s : Nat} (hs : s < t.capacity) (h : UInt32) (k : K)
    (v : V) :
    (t.put s h k v).unusedCount = t.unusedCount - if (t.slotAt s).isUnused then 1 else 0 := by
  have hlen : s < t.slots.length := hs
  simp [HmTable.unusedCount, HmTable.put, HmTable.slotAt_eq_getElem hlen, List.countP_set hlen]

theorem unusedCount_bury {t : HmTable K V} {s : Nat} {h : UInt32} {k : K} {v : V}
    (hlive : t.slotAt s = .live h k v) : (t.bury s).unusedCount = t.unusedCount := by
  have hlen : s < t.slots.length := HmTable.lt_capacity_of_slotAt (by simp [hlive])
  rw [HmTable.slotAt_eq_getElem hlen] at hlive
  simp [HmTable.unusedCount, HmTable.bury, List.countP_set hlen, hlive]

theorem unusedCount_setValue (t : HmTable K V) (s : Nat) (v : V) :
    (t.setValue s v).unusedCount = t.unusedCount := by
  cases hslot : t.slotAt s with
  | unused => simp [HmTable.setValue, hslot]
  | rip => simp [HmTable.setValue, hslot]
  | live h k w =>
      have hlen : s < t.slots.length := HmTable.lt_capacity_of_slotAt (by simp [hslot])
      rw [setValue_slots hslot]
      rw [HmTable.slotAt_eq_getElem hlen] at hslot
      simp [HmTable.unusedCount, List.countP_set hlen, hslot]

/-- In a valid map the loops end exactly as long as there is an unused slot. -/
theorem probesEnd_iff {hm : Hm K V} (hwf : Hm.WF c hm) :
    ProbesEnd c hm ↔ ∀ t, hm = some t → t.HasUnused := by
  refine forall₂_congr fun t ht => and_iff_left_of_imp fun hunused key => ⟨t.capacity, ?_⟩
  obtain ⟨k, -, hcap⟩ := (hwf t ht).pow2
  exact findSlot_isSome_of_hasUnused hcap hunused key (hmHash c key)

/-- With an unused slot an insertion into a table takes place, and it leaves an
unused slot unless it takes the only one. -/
theorem place_unused {t : HmTable K V} (hwf : t.WF c) (hunused : t.HasUnused) (key : K)
    (value : V) :
    (∃ s, findSlot c t key (hmHash c key) = some (.present s) ∧ t.Stores c key) ∨
    (∃ s, findSlot c t key (hmHash c key) = some (.absent s) ∧
      ((t.put s (hmHash c key) key value).HasUnused ↔
        t.Stores c key ∨ TombstoneOnPath c t key ∨ 2 ≤ t.unusedCount)) := by
  obtain ⟨k, -, hcap⟩ := hwf.pow2
  have hpos := hasUnused_iff_unusedCount.mp hunused
  obtain ⟨r, hr⟩ := Option.isSome_iff_exists.mp
    (findSlot_isSome_of_hasUnused (c := c) hcap hunused key (hmHash c key))
  cases r with
  | present s =>
      obtain ⟨_, _, _, hslot, hsame⟩ := (findSlot_present_iff hwf).mp hr
      exact Or.inl ⟨s, hr, ⟨_, HmTable.mem_entries hslot, hsame⟩⟩
  | absent s =>
      obtain ⟨hfresh, hrip⟩ := findSlot_absent hwf hr
      refine Or.inr ⟨s, hr, ?_⟩
      rw [hasUnused_iff_unusedCount, unusedCount_put hfresh.lt]
      by_cases hslot : t.slotAt s = .unused
      · have hno := hrip.mp hslot
        simp only [hslot, isUnused_unused, if_true, hfresh.absent, hno, false_or]
        omega
      · have hyes : TombstoneOnPath c t key := by
          by_contra hno
          exact hslot (hrip.mpr hno)
        have hkeep : (t.slotAt s).isUnused = false := by
          cases hs : t.slotAt s with
          | unused => exact absurd hs hslot
          | rip => rfl
          | live _ _ _ => rfl
        simpa [hkeep, hyes] using hpos

/-- A table that has just grown has room for two more keys. -/
theorem two_le_unused_of_grown {hm : Hm K V} {t : HmTable K V}
    (hgood : ∀ u, hm = some u → u.HasUnused) (hrip : HmSlot.rip ∉ t.slots)
    (hperm : t.entries.Perm (Hm.entries hm)) (hcap : ∀ u, hm = some u → t.capacity = 2 * u.capacity)
    (hmin : hm = none → t.capacity = c.minCapacity) :
    (hm ≠ none → 2 ≤ t.unusedCount) ∧ (hm = none → t.unusedCount = c.minCapacity) := by
  have hfull := entries_add_unused_of_no_rip hrip
  have hlen := hperm.length_eq
  cases hm with
  | none =>
      refine ⟨fun h => absurd rfl h, fun h => ?_⟩
      have : Hm.entries (none : Hm K V) = [] := rfl
      rw [hmin h, hlen, this, List.length_nil, Nat.zero_add] at hfull
      exact hfull
  | some u =>
      refine ⟨fun _ => ?_, fun h => by cases h⟩
      have hu := hasUnused_iff_unusedCount.mp (hgood u rfl)
      have hle := entries_add_unused_le u
      have := hcap u rfl
      have : (Hm.entries (some u)).length = u.entries.length := rfl
      omega

/-- **An insertion ends and keeps an unused slot exactly under its condition.** -/
theorem emplaceOrGet_keepsUnused {hm : Hm K V} (hwf : Hm.WF c hm)
    (hgood : ∀ t, hm = some t → t.HasUnused) (key : K) (value : V) :
    (∃ r, hmEmplaceOrGet c mem hm key value = .ok r ∧ ∀ t, r.1 = some t → t.HasUnused) ↔
      InsertKeepsUnused c mem hm key := by
  have hprep := hmPrepare_spec mem hwf
  unfold hmEmplaceOrGet
  generalize hmPrepare c mem hm = prepared at hprep
  cases hprep with
  | refused hdue hgrant =>
      refine iff_of_true ⟨_, rfl, hgood⟩ ?_
      cases hm with
      | none => exact fun h => absurd (hgrant.symm.trans h) Bool.false_ne_true
      | some t => exact fun h => absurd (h.symm.trans hdue) Bool.false_ne_true
  | @same t ht hdue =>
      subst ht
      have hcond : InsertKeepsUnused c mem (some t) key ↔
          t.Stores c key ∨ TombstoneOnPath c t key ∨ 2 ≤ t.unusedCount := by
        simp [InsertKeepsUnused, hdue]
      rw [hcond]
      rcases place_unused (hwf t rfl) (hgood t rfl) key value with ⟨s, hr, hst⟩ | ⟨s, hr, hput⟩
      · simp only [hr]
        exact iff_of_true ⟨_, rfl, hgood⟩ (Or.inl hst)
      · simp [hr, hput]
  | @grown t hdue hgrant htwf hrip hperm hcap hmin =>
      have htwo := two_le_unused_of_grown hgood hrip hperm hcap hmin
      have hcond : InsertKeepsUnused c mem hm key ↔ 2 ≤ t.unusedCount := by
        cases hm with
        | none => simp [InsertKeepsUnused, hgrant, htwo.2 rfl]
        | some u => simp [InsertKeepsUnused, hdue, htwo.1]
      have hunused : t.HasUnused := by
        rw [hasUnused_iff_unusedCount]
        cases hm with
        | none => rw [htwo.2 rfl]; exact Nat.two_pow_pos _
        | some u => have := htwo.1 (by simp); omega
      -- the new table has neither tombstones nor, if it is the first one, keys
      have hnorip : ¬ TombstoneOnPath c t key := by
        intro ⟨j, hj, _⟩
        have hlt := HmTable.lt_capacity_of_slotAt (t := t) (by rw [hj]; simp)
        rw [HmTable.slotAt_eq_getElem hlt] at hj
        exact hrip (hj ▸ List.getElem_mem hlt)
      rw [hcond]
      rcases place_unused htwf hunused key value with ⟨s, hr, hst⟩ | ⟨s, hr, hput⟩
      · simp only [hr]
        refine iff_of_true ⟨_, rfl, fun u hu => Option.some.inj hu ▸ hunused⟩ ?_
        cases hm with
        | none =>
            obtain ⟨e, he, _⟩ := (stores_congr hperm key).mp hst
            cases he
        | some u => exact htwo.1 (by simp)
      · simp only [hr]
        constructor
        · intro ⟨r, hok, hr'⟩
          cases hok
          have habsent := (findSlot_absent htwf hr).1.absent
          rcases hput.mp (hr' _ rfl) with h | h | h
          · exact absurd h habsent
          · exact absurd h hnorip
          · exact h
        · intro h
          refine ⟨_, rfl, fun u hu => ?_⟩
          cases hu
          exact hput.mpr (Or.inr (Or.inr h))

/-- **One step.**  A call from a map with an unused slot returns and leaves
one exactly under its condition. -/
theorem hmStep_keepsUnused {hm : Hm K V} (hwf : Hm.WF c hm)
    (hgood : ∀ t, hm = some t → t.HasUnused) (op : HmOp K V) :
    (∃ hm', hmStep c mem hm op = .ok hm' ∧ ∀ t, hm' = some t → t.HasUnused) ↔
      KeepsUnused c mem hm op := by
  cases op with
  | emplaceNew key value =>
      refine Iff.trans ?_ (emplaceOrGet_keepsUnused hwf hgood key value)
      simp only [hmStep, hmEmplaceNew]
      cases hmEmplaceOrGet c mem hm key value with
      | error f => simp [Except.map]
      | ok r => obtain ⟨hm', st⟩ := r; cases st <;> simp [Except.map]
  | emplaceOrGet key value =>
      refine Iff.trans ?_ (emplaceOrGet_keepsUnused hwf hgood key value)
      simp only [hmStep]
      cases hmEmplaceOrGet c mem hm key value <;> simp [Except.map]
  | insertUpdate key value =>
      refine Iff.trans ?_ (emplaceOrGet_keepsUnused hwf hgood key value)
      simp only [hmStep, hmInsertUpdate]
      cases hmEmplaceOrGet c mem hm key value with
      | error f => simp
      | ok r =>
          obtain ⟨hm', st⟩ := r
          cases st with
          | oom => simp
          | new slot => simp
          | present slot =>
              cases hm' with
              | none => simp
              | some t =>
                  simp [hasUnused_iff_unusedCount, unusedCount_setValue]
  | find key =>
      refine iff_of_true ⟨hm, ?_, hgood⟩ trivial
      cases hm with
      | none => rfl
      | some t =>
          obtain ⟨k, -, hcap⟩ := (hwf t rfl).pow2
          obtain ⟨r, hr⟩ := Option.isSome_iff_exists.mp
            (findSlot_isSome_of_hasUnused (c := c) hcap (hgood t rfl) key (hmHash c key))
          cases r <;> simp [hmStep, hmFind, hr, Except.map]
  | erase key =>
      cases hm with
      | none => simp [hmStep, hmErase, KeepsUnused]
      | some t =>
          refine iff_of_true ?_ (by simp [KeepsUnused])
          obtain ⟨k, -, hcap⟩ := (hwf t rfl).pow2
          obtain ⟨r, hr⟩ := Option.isSome_iff_exists.mp
            (findSlot_isSome_of_hasUnused (c := c) hcap (hgood t rfl) key (hmHash c key))
          cases r with
          | absent slot => exact ⟨some t, by simp [hmStep, hmErase, hr], hgood⟩
          | present slot =>
              obtain ⟨_, _, _, hslot, _⟩ := (findSlot_present_iff (hwf t rfl)).mp hr
              refine ⟨some (t.bury slot), by simp [hmStep, hmErase, hr], fun u hu => ?_⟩
              cases hu
              rw [hasUnused_iff_unusedCount, unusedCount_bury hslot]
              exact hasUnused_iff_unusedCount.mp (hgood t rfl)

/-- Every call that returns leaves a valid map. -/
theorem hmStep_wf {hm hm' : Hm K V} (hwf : Hm.WF c hm) {op : HmOp K V}
    (h : hmStep c mem hm op = .ok hm') : Hm.WF c hm' := by
  have hplace {key : K} {value : V} {r : Hm K V × HmStatus}
      (hr : hmEmplaceOrGet c mem hm key value = .ok r) : Hm.WF c r.1 :=
    (hmEmplaceOrGet_spec hwf hr).wf hwf
  cases op with
  | emplaceNew key value =>
      simp only [hmStep, hmEmplaceNew] at h
      cases hr : hmEmplaceOrGet c mem hm key value with
      | error f => rw [hr] at h; cases h
      | ok r =>
          rw [hr] at h
          obtain ⟨hm₁, st⟩ := r
          have := hplace hr
          cases st <;> (cases h; exact this)
  | emplaceOrGet key value =>
      simp only [hmStep] at h
      cases hr : hmEmplaceOrGet c mem hm key value with
      | error f => rw [hr] at h; cases h
      | ok r =>
          rw [hr] at h
          cases h
          exact hplace hr
  | insertUpdate key value => exact hmInsertUpdate_spec hwf h
  | find key =>
      simp only [hmStep] at h
      cases hr : hmFind c hm key with
      | error f => rw [hr] at h; cases h
      | ok r =>
          rw [hr] at h
          cases h
          exact hwf
  | erase key => exact (hmErase_spec hwf h).1

/-- Ports whose addresses start their probes in the sixteen different slots of
the first `server->clients` table. -/
def churnPorts : List Nat :=
  [40000, 40001, 40002, 40004, 40005, 40008, 40009, 40011, 40014, 40015, 40018, 40022, 40023,
    40028, 40030, 40032]

/-- Sixteen clients join and leave, one after the other. -/
def churn : List (HmOp NetAddr Unit) :=
  churnPorts.flatMap fun p => [.emplaceNew (loopback p) (), .erase (loopback p)]

end Clither
