import Clither.HmSpec

/-!
# One specification for each hash map operation

A client of the map needs three facts about an operation: which entries it
leaves, that the table stays valid, and when it does not return.  Each
operation gets one lemma that says so, and later modules never look at slots
or probes again.
-/

namespace Clither

variable {K V : Type} {c : HmInstance K}

/-- The outcomes of preparing an insertion. -/
inductive Prepared (c : HmInstance K) (mem : Alloc) (hm : Hm K V) :
    Except Fault (Option (HmTable K V)) → Prop where
  | refused (hdue : growthDue hm = true) (hgrant : growGranted c mem hm = false) :
      Prepared c mem hm (.ok none)
  | same {t : HmTable K V} (ht : hm = some t) (hdue : growthDue hm = false) :
      Prepared c mem hm (.ok (some t))
  | grown {t : HmTable K V} (hdue : growthDue hm = true) (hgrant : growGranted c mem hm = true)
      (hwf : t.WF c) (hrip : HmSlot.rip ∉ t.slots) (hperm : t.entries.Perm (Hm.entries hm))
      (hcap : ∀ u, hm = some u → t.capacity = 2 * u.capacity)
      (hmin : hm = none → t.capacity = c.minCapacity) :
      Prepared c mem hm (.ok (some t))

/-- Before an insert the table has a free slot, or there was no memory. -/
theorem hmPrepare_spec (mem : Alloc) {hm : Hm K V} (hwf : Hm.WF c hm) :
    Prepared c mem hm (hmPrepare c mem hm) := by
  unfold hmPrepare
  cases hdue : growthDue hm with
  | false =>
      cases hm with
      | none => cases hdue
      | some t => exact .same rfl hdue
  | true =>
      rcases hmGrow_spec mem hwf with ⟨hgrant, hr⟩ | ⟨t, hgrant, hr, htwf, hrip, hperm, hcap, hmin⟩
      · rw [if_pos rfl, hr]
        exact .refused hdue hgrant
      · rw [if_pos rfl, hr]
        exact .grown hdue hgrant htwf hrip hperm hcap hmin

/-- The table an insertion goes into holds the old entries and is valid. -/
theorem hmPrepare_some {mem : Alloc} {hm : Hm K V} (hwf : Hm.WF c hm) {t : HmTable K V}
    (h : hmPrepare c mem hm = .ok (some t)) : t.WF c ∧ t.entries.Perm (Hm.entries hm) := by
  have hspec := hmPrepare_spec mem hwf
  rw [h] at hspec
  cases hspec with
  | same ht _ =>
      subst ht
      exact ⟨hwf t rfl, List.Perm.refl _⟩
  | grown _ _ htwf _ hperm _ _ => exact ⟨htwf, hperm⟩

/-- Making that room faults on no well-formed table. -/
theorem hmPrepare_ne_error {mem : Alloc} {hm : Hm K V} (hwf : Hm.WF c hm) (f : Fault) :
    hmPrepare c mem hm ≠ .error f := by
  intro h
  have hspec := hmPrepare_spec mem hwf
  rw [h] at hspec
  cases hspec

/-- The key is stored in the map. -/
def Hm.Stores (c : HmInstance K) (hm : Hm K V) (key : K) : Prop :=
  ∃ e ∈ Hm.entries hm, SameKey c e.1 key

/-- A well-formed table is a well-formed map. -/
theorem Hm.wf_some {t : HmTable K V} (h : t.WF c) : Hm.WF c (some t) := by
  intro u hu
  cases hu
  exact h

/-- The order of the entries does not matter to what is stored. -/
theorem stores_congr {t : HmTable K V} {hm : Hm K V} (hperm : t.entries.Perm (Hm.entries hm))
    (key : K) : t.Stores c key ↔ Hm.Stores c hm key := by
  simp only [HmTable.Stores, Hm.Stores, hperm.mem_iff]

/-- What a call of `emplace_or_get` that returns has done. -/
inductive Emplaced (c : HmInstance K) (mem : Alloc) (hm : Hm K V) (key : K) (value : V) :
    Hm K V → HmStatus → Prop where
  | oom (hdue : growthDue hm = true) (hgrant : growGranted c mem hm = false) :
      Emplaced c mem hm key value hm .oom
  | present {t : HmTable K V} {slot : Nat} {h : UInt32} {k : K} {v : V} (hwf : t.WF c)
      (hperm : t.entries.Perm (Hm.entries hm)) (hslot : t.slotAt slot = .live h k v)
      (hsame : SameKey c k key) :
      Emplaced c mem hm key value (some t) (.present slot)
  | new {t : HmTable K V} {slot : Nat} {h : UInt32} (hwf : t.WF c)
      (hperm : t.entries.Perm ((key, value) :: Hm.entries hm)) (habsent : ¬ Hm.Stores c hm key)
      (hslot : t.slotAt slot = .live h key value) :
      Emplaced c mem hm key value (some t) (.new slot)

/-- What `emplace_or_get` can answer, and the map it leaves for each answer. -/
theorem hmEmplaceOrGet_spec {mem : Alloc} {hm hm' : Hm K V} (hwf : Hm.WF c hm) {key : K}
    {value : V} {st : HmStatus} (h : hmEmplaceOrGet c mem hm key value = .ok (hm', st)) :
    Emplaced c mem hm key value hm' st := by
  have hprep := hmPrepare_spec mem hwf
  unfold hmEmplaceOrGet at h
  cases hp : hmPrepare c mem hm with
  | error f => exact absurd hp (hmPrepare_ne_error hwf f)
  | ok prepared =>
      rw [hp] at h hprep
      cases prepared with
      | none =>
          cases h
          cases hprep with
          | refused hdue hgrant => exact .oom hdue hgrant
      | some t =>
          obtain ⟨htwf, hperm⟩ := hmPrepare_some hwf hp
          simp only at h
          cases hr : findSlot c t key (hmHash c key) with
          | none => rw [hr] at h; cases h
          | some r =>
              rw [hr] at h
              cases r with
              | present slot =>
                  cases h
                  obtain ⟨_, k, v, hslot, hsame⟩ := (findSlot_present_iff htwf).mp hr
                  exact .present htwf hperm hslot hsame
              | absent slot =>
                  cases h
                  obtain ⟨hfresh, -⟩ := findSlot_absent htwf hr
                  refine .new (hfresh.put_wf value) ((hfresh.perm value).trans (hperm.cons _)) ?_
                    (by rw [HmTable.slotAt_put hfresh.lt, if_pos rfl])
                  rw [← stores_congr hperm]
                  exact hfresh.absent

/-- Whatever it answers, the map stays well formed. -/
theorem Emplaced.wf {mem : Alloc} {hm hm' : Hm K V} {key : K} {value : V} {st : HmStatus}
    (hwf : Hm.WF c hm) (h : Emplaced c mem hm key value hm' st) : Hm.WF c hm' := by
  cases h with
  | oom => exact hwf
  | present htwf => exact Hm.wf_some htwf
  | new htwf => exact Hm.wf_some htwf

/-- An insertion does not return only if its probe loop goes round for ever. -/
theorem hmEmplaceOrGet_error {mem : Alloc} {hm : Hm K V} (hwf : Hm.WF c hm) {key : K} {value : V}
    {f : Fault} (h : hmEmplaceOrGet c mem hm key value = .error f) :
    f = .probeLoop ∧ ∃ t, hmPrepare c mem hm = .ok (some t) ∧
      findSlot c t key (hmHash c key) = none := by
  unfold hmEmplaceOrGet at h
  cases hp : hmPrepare c mem hm with
  | error f => exact absurd hp (hmPrepare_ne_error hwf f)
  | ok prepared =>
      rw [hp] at h
      cases prepared with
      | none => cases h
      | some t =>
          simp only at h
          cases hr : findSlot c t key (hmHash c key) with
          | none =>
              rw [hr] at h
              cases h
              exact ⟨rfl, t, rfl, hr⟩
          | some r => rw [hr] at h; cases r <;> cases h

/-! ## Writing a value -/

/-- Setting a value replaces one slot. -/
theorem setValue_slots {t : HmTable K V} {s : Nat} {h : UInt32} {k : K} {v : V}
    (hslot : t.slotAt s = .live h k v) (v' : V) :
    t.setValue s v' = { t with slots := t.slots.set s (.live h k v') } := by
  simp [HmTable.setValue, hslot]

/-- The same, slot by slot. -/
theorem slotAt_setValue {t : HmTable K V} {s : Nat} {h : UInt32} {k : K} {v : V}
    (hslot : t.slotAt s = .live h k v) (v' : V) (i : Nat) :
    (t.setValue s v').slotAt i = if i = s then .live h k v' else t.slotAt i := by
  have hs : s < t.slots.length := HmTable.lt_capacity_of_slotAt (by simp [hslot])
  rw [setValue_slots hslot]
  unfold HmTable.slotAt
  split
  · next heq => subst heq; simp [List.getD_eq_getElem?_getD, hs]
  · next hne => simp [List.getD_eq_getElem?_getD, List.getElem?_set_ne (Ne.symm hne)]

/-- Setting a value keeps the capacity. -/
@[simp] theorem capacity_setValue (t : HmTable K V) (s : Nat) (v : V) :
    (t.setValue s v).capacity = t.capacity := by
  unfold HmTable.setValue
  cases t.slotAt s <;> simp [HmTable.capacity]

/-- Writing a value replaces it in its entry and nothing else. -/
theorem entries_setValue {t : HmTable K V} {s : Nat} {h : UInt32} {k : K} {v : V}
    (hslot : t.slotAt s = .live h k v) (v' : V) :
    ∃ before after, t.entries = before ++ (k, v) :: after ∧
      (t.setValue s v').entries = before ++ (k, v') :: after := by
  have hs : s < t.slots.length := HmTable.lt_capacity_of_slotAt (by simp [hslot])
  obtain ⟨before, after, hold, hnew⟩ := HmTable.entries_set hs (.live h k v')
  rw [HmTable.slotAt_eq_getElem hs] at hslot
  refine ⟨before, after, ?_, ?_⟩
  · rw [HmTable.entries, hold, hslot]
    simp
  · rw [setValue_slots (by rw [HmTable.slotAt_eq_getElem hs, hslot])]
    show (t.slots.set s _).filterMap HmSlot.toEntry = _
    rw [hnew]
    simp

/-- Setting a value keeps the table well formed. -/
theorem HmTable.WF.setValue {t : HmTable K V} (hwf : t.WF c) (s : Nat) (v' : V) :
    (t.setValue s v').WF c := by
  cases hslot : t.slotAt s with
  | unused => simpa only [HmTable.setValue, hslot] using hwf
  | rip => simpa only [HmTable.setValue, hslot] using hwf
  | live h k v =>
      obtain ⟨before, after, hold, hnew⟩ := entries_setValue hslot v'
      have hprobe (h : UInt32) (j : Nat) : (t.setValue s v').probe h j = t.probe h j := by
        simp [HmTable.probe]
      have hlive {i : Nat} {h' : UInt32} {k' : K} {w : V}
          (hi : (t.setValue s v').slotAt i = .live h' k' w) :
          ∃ w', t.slotAt i = .live h' k' w' := by
        rw [slotAt_setValue hslot] at hi
        split at hi
        · next heq =>
            cases hi
            exact ⟨v, by rw [heq, hslot]⟩
        · exact ⟨w, hi⟩
      refine ⟨by simpa using hwf.pow2, ?_, ?_, ?_, ?_⟩
      · have hlen : t.entries.length = (t.setValue s v').entries.length := by simp [hold, hnew]
        rw [← hlen, ← hwf.count_eq, setValue_slots hslot]
      · intro i h' k' w hi
        obtain ⟨w', hw'⟩ := hlive hi
        exact hwf.hash_eq hw'
      · intro i h' k' w hi
        obtain ⟨w', hw'⟩ := hlive hi
        obtain ⟨j, hj, hreach⟩ := hwf.reach hw'
        refine ⟨j, by rw [hprobe, hj], ?_⟩
        intro l hl
        rw [hprobe, slotAt_setValue hslot]
        split
        · simp
        · exact hreach l hl
      · have hdist := hwf.distinct
        rw [hold] at hdist
        rw [hnew]
        rw [List.pairwise_append, List.pairwise_cons] at hdist ⊢
        refine ⟨hdist.1, hdist.2.1, ?_⟩
        intro a ha b hb
        rcases List.mem_cons.mp hb with rfl | hb
        · exact hdist.2.2 a ha (k, v) (by simp)
        · exact hdist.2.2 a ha b (by simp [hb])

/-! ## Lookup and erasure -/

/-- A lookup that returns finds the slot of the key, or the key is not stored. -/
theorem hmFind_spec {hm : Hm K V} (hwf : Hm.WF c hm) {key : K} {r : Option Nat}
    (h : hmFind c hm key = .ok r) :
    (∃ t s h k v, hm = some t ∧ r = some s ∧ t.slotAt s = .live h k v ∧ SameKey c k key) ∨
    (r = none ∧ ¬ Hm.Stores c hm key) := by
  cases hm with
  | none =>
      cases h
      refine Or.inr ⟨rfl, ?_⟩
      rintro ⟨e, he, -⟩
      cases he
  | some t =>
      have htwf := hwf t rfl
      simp only [hmFind] at h
      cases hr : findSlot c t key (hmHash c key) with
      | none => rw [hr] at h; cases h
      | some f =>
          rw [hr] at h
          cases f with
          | present slot =>
              cases h
              obtain ⟨h', k, v, hslot, hsame⟩ := (findSlot_present_iff htwf).mp hr
              exact Or.inl ⟨t, slot, h', k, v, rfl, rfl, hslot, hsame⟩
          | absent slot =>
              cases h
              exact Or.inr ⟨rfl, (findSlot_absent htwf hr).1.absent⟩

/-- A stored key is always found: its own probe path ends at it. -/
theorem hmFind_live {t : HmTable K V} (hwf : t.WF c) {s : Nat} {h : UInt32} {k key : K} {v : V}
    (hslot : t.slotAt s = .live h k v) (hsame : SameKey c k key) :
    hmFind c (some t) key = .ok (some s) := by
  rw [hmFind, (findSlot_present_iff hwf).mpr ⟨h, k, v, hslot, hsame⟩]

/-- Erasing a stored key leaves a tombstone in its slot. -/
theorem hmErase_live {t : HmTable K V} (hwf : t.WF c) {s : Nat} {h : UInt32} {k key : K} {v : V}
    (hslot : t.slotAt s = .live h k v) (hsame : SameKey c k key) :
    hmErase c (some t) key = .ok (some (t.bury s)) := by
  rw [hmErase, (findSlot_present_iff hwf).mpr ⟨h, k, v, hslot, hsame⟩]

/-- An erasure that returns removes the entry of the key, if there is one. -/
theorem hmErase_spec {hm hm' : Hm K V} (hwf : Hm.WF c hm) {key : K}
    (h : hmErase c hm key = .ok hm') :
    Hm.WF c hm' ∧
    ((∃ k v, SameKey c k key ∧ (Hm.entries hm).Perm ((k, v) :: Hm.entries hm')) ∨
     (hm' = hm ∧ ¬ Hm.Stores c hm key)) := by
  cases hm with
  | none => cases h
  | some t =>
      have htwf := hwf t rfl
      simp only [hmErase] at h
      cases hr : findSlot c t key (hmHash c key) with
      | none => rw [hr] at h; cases h
      | some f =>
          rw [hr] at h
          cases f with
          | present slot =>
              cases h
              obtain ⟨_, k, v, hslot, hsame⟩ := (findSlot_present_iff htwf).mp hr
              exact ⟨Hm.wf_some (htwf.bury hslot),
                Or.inl ⟨k, v, hsame, HmTable.entries_bury_perm hslot⟩⟩
          | absent slot =>
              cases h
              exact ⟨hwf, Or.inr ⟨rfl, (findSlot_absent htwf hr).1.absent⟩⟩

/-- `insert_update` keeps the map well formed. -/
theorem hmInsertUpdate_spec {mem : Alloc} {hm hm' : Hm K V} (hwf : Hm.WF c hm) {key : K}
    {value : V} (h : hmInsertUpdate c mem hm key value = .ok hm') : Hm.WF c hm' := by
  unfold hmInsertUpdate at h
  cases he : hmEmplaceOrGet c mem hm key value with
  | error f => rw [he] at h; cases h
  | ok r =>
      obtain ⟨hm₁, st⟩ := r
      have hwf₁ := (hmEmplaceOrGet_spec hwf he).wf hwf
      rw [he] at h
      cases st with
      | oom => cases h; exact hwf₁
      | new slot => cases h; exact hwf₁
      | present slot =>
          cases h
          intro t ht
          obtain ⟨u, hu, rfl⟩ := Option.map_eq_some_iff.mp ht
          exact (hwf₁ u hu).setValue slot value

end Clither
