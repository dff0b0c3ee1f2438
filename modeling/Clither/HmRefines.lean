import Clither.HmTermination
import Clither.Lib.KeyMap

/-!
# The hash map is a finite map

A call of a map function hands something back and leaves a map.  `hmCall` is the
call with what it hands back, and `mapCall` is the same call on a finite map.
The two agree as long as the probe loops end, with two exceptions: a call that
has to grow the table may be refused the memory for it, and `erase` looks into a
map that was never allocated, where `find` checks for it first.

`hm_refines_map_iff` says so for all histories.
-/

namespace Clither

variable {K V : Type}

/-! ## Loops over the map -/

/-- The loop of `hm_next_valid_slot`, behind its first increment. -/
def hmNextValidSlot (t : HmTable K V) : Nat → Nat → Nat
  | 0, slot => slot
  | fuel + 1, slot =>
      if slot < t.capacity ∧ (t.slotAt slot).isLive = false then hmNextValidSlot t fuel (slot + 1)
      else slot

/-- `hm_for_each` at a slot, with a body that erases the key it is visiting if
`erases` says so, and the entries visited so far. -/
def hmForEachLoop (c : HmInstance K) (erases : K × V → Bool) :
    Nat → Nat → HmTable K V → List (K × V) → Except Fault (Hm K V × List (K × V))
  | 0, _, t, visited => .ok (some t, visited)
  | fuel + 1, slot, t, visited =>
      if slot ≠ t.capacity then
        match t.keyAt slot, t.valueAt slot with
        | some k, some v => do
            let hm ← if erases (k, v) then hmErase c (some t) k else .ok (some t)
            match hm with
            | none => .ok (none, visited ++ [(k, v)])
            | some t =>
                hmForEachLoop c erases fuel (hmNextValidSlot t t.capacity (slot + 1)) t
                  (visited ++ [(k, v)])
        | _, _ => .ok (some t, visited)
      else .ok (some t, visited)

/-- `hm_for_each`. -/
def hmForEach (c : HmInstance K) (erases : K × V → Bool) :
    Hm K V → Except Fault (Hm K V × List (K × V))
  | none => .ok (none, [])
  | some t => hmForEachLoop c erases (t.capacity + 1) (hmNextValidSlot t t.capacity 0) t []

/-! ## Calls with their results -/

/-- What a call hands back: whether a new value was emplaced, the value behind
the returned pointer, or nothing of interest. -/
inductive HmAnswer (V : Type) where
  | emplaced (isNew : Bool)
  | oom
  | new
  | existing (value : Option V)
  | value (value : Option V)
  | done
  deriving DecidableEq

/-- `erase`, with the value that the returned pointer refers to. -/
def hmEraseValue (c : HmInstance K) (hm : Hm K V) (key : K) : Except Fault (Hm K V × Option V) :=
  match hm with
  | none => .error .nullMap
  | some t =>
      match findSlot c t key (hmHash c key) with
      | none => .error .probeLoop
      | some (.present slot) => .ok (some (t.bury slot), t.valueAt slot)
      | some (.absent _) => .ok (some t, none)

def Hm.valueAt : Hm K V → Nat → Option V
  | none, _ => none
  | some t, slot => t.valueAt slot

def hmCall (c : HmInstance K) (mem : Alloc) (hm : Hm K V) :
    HmOp K V → Except Fault (Hm K V × HmAnswer V)
  | .emplaceNew key value => do
      let (hm, slot) ← hmEmplaceNew c mem hm key value
      return (hm, .emplaced slot.isSome)
  | .insertUpdate key value => do
      let hm ← hmInsertUpdate c mem hm key value
      return (hm, .done)
  | .emplaceOrGet key value => do
      match ← hmEmplaceOrGet c mem hm key value with
      | (hm, .oom) => return (hm, .oom)
      | (hm, .present slot) => return (hm, .existing (hm.valueAt slot))
      | (hm, .new _) => return (hm, .new)
  | .find key => do
      let slot ← hmFind c hm key
      return (hm, .value (slot.bind hm.valueAt))
  | .erase key => do
      let (hm, value) ← hmEraseValue c hm key
      return (hm, .value value)

/-- `erase` with the value returned leaves the same map. -/
theorem hmEraseValue_fst (c : HmInstance K) (hm : Hm K V) (key : K) :
    (hmEraseValue c hm key).map Prod.fst = hmErase c hm key := by
  cases hm with
  | none => rfl
  | some t =>
      simp only [hmEraseValue, hmErase]
      cases findSlot c t key (hmHash c key) with
      | none => rfl
      | some found => cases found <;> rfl

/-- The results aside, these are the calls of a history. -/
theorem hmCall_fst (c : HmInstance K) (mem : Alloc) (hm : Hm K V) (op : HmOp K V) :
    (hmCall c mem hm op).map Prod.fst = hmStep c mem hm op := by
  cases op with
  | emplaceNew key value =>
      simp only [hmCall, hmStep]
      cases hmEmplaceNew c mem hm key value <;> rfl
  | insertUpdate key value =>
      simp only [hmCall, hmStep]
      cases hmInsertUpdate c mem hm key value <;> rfl
  | emplaceOrGet key value =>
      simp only [hmCall, hmStep]
      cases hmEmplaceOrGet c mem hm key value with
      | error f => rfl
      | ok r =>
          obtain ⟨hm', status⟩ := r
          cases status <;> rfl
  | find key =>
      simp only [hmCall, hmStep]
      cases hmFind c hm key <;> rfl
  | erase key =>
      simp only [hmCall, hmStep, ← hmEraseValue_fst]
      cases hmEraseValue c hm key <;> rfl

/-! ## The finite map -/

/-- The call on a finite map. -/
def mapCall (same : K → K → Bool) (m : K → Option V) : HmOp K V → (K → Option V) × HmAnswer V
  | .emplaceNew key value =>
      if (m key).isSome then (m, .emplaced false)
      else (KeyMap.insert same m key value, .emplaced true)
  | .insertUpdate key value => (KeyMap.insert same m key value, .done)
  | .emplaceOrGet key value =>
      if (m key).isSome then (m, .existing (m key))
      else (KeyMap.insert same m key value, .new)
  | .find key => (m, .value (m key))
  | .erase key => (KeyMap.erase same m key, .value (m key))

/-- The finite map that a hash map stands for. -/
def Hm.toMap (c : HmInstance K) (hm : Hm K V) : K → Option V :=
  KeyMap.ofEntries c.keysEqual (Hm.entries hm)

/-- The probe loops of the call end. -/
def LoopsEnd (c : HmInstance K) (mem : Alloc) (hm : Hm K V) : HmOp K V → Prop
  | .emplaceNew key _ | .insertUpdate key _ | .emplaceOrGet key _ =>
      ∀ t, hmPrepare c mem hm = .ok (some t) → (findSlot c t key (hmHash c key)).isSome
  | .find key | .erase key => ∀ t, hm = some t → (findSlot c t key (hmHash c key)).isSome

/-- The call does what it does on a finite map: a table that is full can grow,
unless the call changes nothing anyway, and there is a table to erase from. -/
def Answerable (c : HmInstance K) (mem : Alloc) (hm : Hm K V) : HmOp K V → Prop
  | .emplaceNew key _ =>
      growthDue hm = true → growGranted c mem hm = true ∨ (hm.toMap c key).isSome
  | .insertUpdate key value =>
      growthDue hm = true → growGranted c mem hm = true ∨ hm.toMap c key = some value
  | .emplaceOrGet _ _ => growthDue hm = true → growGranted c mem hm = true
  | .find _ => True
  | .erase _ => hm ≠ none

instance decidableLoopsEnd (c : HmInstance K) (mem : Alloc) (hm : Hm K V) (op : HmOp K V) :
    Decidable (LoopsEnd c mem hm op) :=
  have ends (prepared : Option (HmTable K V)) (key : K) : Decidable (∀ t, prepared = some t →
      (findSlot c t key (hmHash c key)).isSome) :=
    match prepared with
    | none => isTrue nofun
    | some t => decidable_of_iff ((findSlot c t key (hmHash c key)).isSome) (by simp)
  have prepares (key : K) : Decidable (∀ t, hmPrepare c mem hm = .ok (some t) →
      (findSlot c t key (hmHash c key)).isSome) :=
    match h : hmPrepare c mem hm with
    | .error _ => isTrue nofun
    | .ok prepared =>
        have := ends prepared key
        decidable_of_iff (∀ t, prepared = some t → (findSlot c t key (hmHash c key)).isSome)
          (by simp only [Except.ok.injEq])
  match op with
  | .emplaceNew key _ | .insertUpdate key _ | .emplaceOrGet key _ => prepares key
  | .find key | .erase key => ends hm key

instance decidableAnswerable [DecidableEq V] (c : HmInstance K) (mem : Alloc) (hm : Hm K V)
    (op : HmOp K V) : Decidable (Answerable c mem hm op) := by
  cases op <;> (unfold Answerable; infer_instance)

/-- The call answers like the finite map and leaves it. -/
def AnswersLikeMap (c : HmInstance K) (mem : Alloc) (hm : Hm K V) (op : HmOp K V) (hm' : Hm K V) :
    Prop :=
  hmCall c mem hm op = .ok (hm', (mapCall c.keysEqual (hm.toMap c) op).2) ∧
    hm'.toMap c = (mapCall c.keysEqual (hm.toMap c) op).1

/-- What can be seen of a map besides the results of the calls. -/
structure MapView (c : HmInstance K) (hm : Hm K V) : Prop where
  distinct : KeyMap.Distinct c.keysEqual (Hm.entries hm)
  count : (match hm with
    | none => 0
    | some t => t.count) = (Hm.entries hm).length
  grow : ∀ mem t, hmGrow c mem hm = .ok (some t) → Hm.toMap c (some t) = hm.toMap c
  visits : ∀ erases, ∃ hm', hmForEach c erases hm = .ok (hm', Hm.entries hm) ∧
    Hm.entries hm' = (Hm.entries hm).filter fun e => !erases e

/-! ## What the loops visit -/

/-- The next valid slot skips what holds no entry. -/
theorem hmNextValidSlot_spec (t : HmTable K V) {fuel slot : Nat} (hslot : slot ≤ t.capacity)
    (hfuel : t.capacity ≤ fuel + slot) :
    hmNextValidSlot t fuel slot ≤ t.capacity ∧
    (t.slots.drop slot).filterMap HmSlot.toEntry =
      (t.slots.drop (hmNextValidSlot t fuel slot)).filterMap HmSlot.toEntry ∧
    slot ≤ hmNextValidSlot t fuel slot ∧
    (hmNextValidSlot t fuel slot ≠ t.capacity →
      (t.slotAt (hmNextValidSlot t fuel slot)).isLive = true) := by
  induction fuel generalizing slot with
  | zero => exact ⟨hslot, rfl, Nat.le_refl _, fun hne => absurd (by rw [hmNextValidSlot]; omega) hne⟩
  | succ fuel ih =>
      rw [hmNextValidSlot]
      by_cases hdead : slot < t.capacity ∧ (t.slotAt slot).isLive = false
      · rw [if_pos hdead]
        obtain ⟨hle, hdrop, hge, hlive⟩ := @ih (slot + 1) hdead.1 (by omega)
        refine ⟨hle, ?_, by omega, hlive⟩
        have hlt : slot < t.slots.length := hdead.1
        rw [← hdrop, List.drop_eq_getElem_cons hlt, ← HmTable.slotAt_eq_getElem hlt,
          List.filterMap_cons]
        have hnone : (t.slotAt slot).toEntry = none := by
          cases hat : t.slotAt slot with
          | unused => rfl
          | rip => rfl
          | live hash k v =>
              rw [hat] at hdead
              cases hdead.2
        rw [hnone]
      · rw [if_neg hdead]
        refine ⟨hslot, rfl, Nat.le_refl _, fun hne => ?_⟩
        rw [not_and, Bool.not_eq_false] at hdead
        exact hdead (by omega)

/-- What is left of the entries determines what was visited. -/
theorem filterMap_take_of_drop {slots : List (HmSlot K V)} {i j : Nat}
    (h : (slots.drop i).filterMap HmSlot.toEntry = (slots.drop j).filterMap HmSlot.toEntry) :
    (slots.take i).filterMap HmSlot.toEntry = (slots.take j).filterMap HmSlot.toEntry := by
  apply (List.append_left_inj ((slots.drop i).filterMap HmSlot.toEntry)).mp
  conv_rhs => rw [h]
  rw [← List.filterMap_append, ← List.filterMap_append, List.take_append_drop,
    List.take_append_drop]

/-- Changing the slot that is visited changes its entry only. -/
theorem filterMap_take_set {slots : List (HmSlot K V)} {slot : Nat} (hlt : slot < slots.length)
    (x : HmSlot K V) :
    ((slots.set slot x).take (slot + 1)).filterMap HmSlot.toEntry =
      (slots.take slot).filterMap HmSlot.toEntry ++ x.toEntry.toList := by
  rw [List.take_succ_eq_append_getElem (by simpa using hlt), List.filterMap_append,
    List.getElem_set_self, List.take_set_of_le (Nat.le_refl slot)]
  cases x <;> rfl

/-- The loop over the map visits the entries that are left, and erases those that
its body erases. -/
theorem hmForEachLoop_spec {c : HmInstance K} (erases : K × V → Bool) {fuel slot : Nat}
    {t : HmTable K V} (hwf : t.WF c) (hslot : slot ≤ t.capacity)
    (hlive : slot ≠ t.capacity → (t.slotAt slot).isLive = true) (hfuel : t.capacity < fuel + slot)
    (visited : List (K × V)) :
    ∃ t', hmForEachLoop c erases fuel slot t visited =
        .ok (some t', visited ++ (t.slots.drop slot).filterMap HmSlot.toEntry) ∧
      t'.entries = (t.slots.take slot).filterMap HmSlot.toEntry ++
        ((t.slots.drop slot).filterMap HmSlot.toEntry).filter fun e => !erases e := by
  induction fuel generalizing slot t visited with
  | zero => omega
  | succ fuel ih =>
      rw [hmForEachLoop]
      by_cases hend : slot = t.capacity
      · rw [if_neg (not_not.mpr hend), hend]
        refine ⟨t, ?_, ?_⟩
        · rw [HmTable.capacity, List.drop_length, List.filterMap_nil, List.append_nil]
        · rw [HmTable.capacity, List.drop_length, List.take_length, List.filterMap_nil,
            List.filter_nil, List.append_nil]
          rfl
      · rw [if_pos hend]
        obtain ⟨hash, k, v, hat⟩ : ∃ hash k v, t.slotAt slot = .live hash k v := by
          have := hlive hend
          cases hat : t.slotAt slot with
          | live hash k v => exact ⟨hash, k, v, rfl⟩
          | unused => rw [hat] at this; cases this
          | rip => rw [hat] at this; cases this
        have hlt : slot < t.slots.length := lt_of_le_of_ne hslot hend
        have hget := hat
        rw [HmTable.slotAt_eq_getElem hlt] at hget
        -- from the slot behind, with a table that differs up to here only
        have hrest {t₁ : HmTable K V} (hwf₁ : t₁.WF c) (hcap : t₁.capacity = t.capacity)
            (hdrop : t₁.slots.drop (slot + 1) = t.slots.drop (slot + 1)) :
            ∃ t', hmForEachLoop c erases fuel (hmNextValidSlot t₁ t₁.capacity (slot + 1)) t₁
                (visited ++ [(k, v)]) =
              .ok (some t', visited ++ (t.slots.drop slot).filterMap HmSlot.toEntry) ∧
            t'.entries = (t₁.slots.take (slot + 1)).filterMap HmSlot.toEntry ++
              ((t.slots.drop (slot + 1)).filterMap HmSlot.toEntry).filter fun e => !erases e := by
          obtain ⟨hle, hnext, hge, hlive₁⟩ :=
            @hmNextValidSlot_spec K V t₁ t₁.capacity (slot + 1) (by rw [hcap]; exact hlt) (by omega)
          obtain ⟨t', hloop, hentries⟩ := ih hwf₁ hle hlive₁ (by omega) (visited ++ [(k, v)])
          rw [← hnext, hdrop] at hloop hentries
          rw [← filterMap_take_of_drop hnext] at hentries
          refine ⟨t', ?_, hentries⟩
          rw [hloop, List.drop_eq_getElem_cons hlt, hget, List.append_assoc]
          rfl
        have hkey : t.keyAt slot = some k := by rw [HmTable.keyAt, hat]
        have hvalue : t.valueAt slot = some v := by rw [HmTable.valueAt, hat]
        rw [hkey, hvalue]
        rw [List.drop_eq_getElem_cons hlt, hget, List.filterMap_cons]
        dsimp only [toEntry_live]
        cases herases : erases (k, v) with
        | true =>
            rw [if_pos rfl, hmErase_live hwf hat (SameKey.refl c k), ok_bind]
            obtain ⟨t', hloop, hentries⟩ := hrest (hwf.bury hat)
              (by simp [HmTable.bury, HmTable.capacity]) (List.drop_set_of_lt (Nat.lt_succ_self _))
            refine ⟨t', ?_, ?_⟩
            · dsimp only
              rw [hloop, List.drop_eq_getElem_cons hlt, hget]
              rfl
            · rw [hentries]
              show ((t.slots.set slot .rip).take (slot + 1)).filterMap HmSlot.toEntry ++ _ = _
              rw [filterMap_take_set hlt]
              simp [herases]
        | false =>
            rw [if_neg (by simp), ok_bind]
            obtain ⟨t', hloop, hentries⟩ := hrest hwf rfl rfl
            refine ⟨t', ?_, ?_⟩
            · dsimp only
              rw [hloop, List.drop_eq_getElem_cons hlt, hget]
              rfl
            · have htake := filterMap_take_set hlt (.live hash k v)
              rw [← hget, List.set_getElem_self, hget] at htake
              rw [hentries, htake]
              simp [herases]

/-- **Every live key is visited once**, and the erased ones are gone. -/
theorem hmForEach_spec {c : HmInstance K} {hm : Hm K V} (hwf : Hm.WF c hm) (erases : K × V → Bool) :
    ∃ hm', hmForEach c erases hm = .ok (hm', Hm.entries hm) ∧
      Hm.entries hm' = (Hm.entries hm).filter fun e => !erases e := by
  cases hm with
  | none => exact ⟨none, rfl, rfl⟩
  | some t =>
      obtain ⟨hle, hdrop, -, hlive⟩ :=
        hmNextValidSlot_spec t (Nat.zero_le t.capacity) (Nat.le_refl t.capacity)
      have htake := filterMap_take_of_drop hdrop
      obtain ⟨t', hloop, hentries⟩ := hmForEachLoop_spec erases (hwf t rfl) hle hlive
        (Nat.lt_of_lt_of_le (Nat.lt_succ_self _) (Nat.le_add_right _ _)) []
      rw [← hdrop] at hloop hentries
      rw [← htake] at hentries
      exact ⟨some t', hloop, hentries⟩

/-! ## Keys with constant hashes -/

/-- The probe loop of an insertion ends, so the insertion returns. -/
theorem emplaceOrGet_returns {c : HmInstance K} {mem : Alloc} {hm : Hm K V} (hwf : Hm.WF c hm) {key : K}
    (hends : ∀ t, hmPrepare c mem hm = .ok (some t) → (findSlot c t key (hmHash c key)).isSome)
    (value : V) : ∃ hm' status, hmEmplaceOrGet c mem hm key value = .ok (hm', status) := by
  cases h : hmEmplaceOrGet c mem hm key value with
  | ok r => exact ⟨r.1, r.2, rfl⟩
  | error f =>
      obtain ⟨-, t, hprep, hloop⟩ := hmEmplaceOrGet_error hwf h
      have := hends t hprep
      rw [hloop] at this
      cases this

/-- An insertion that is not refused has got the memory it needs. -/
theorem emplaceOrGet_granted {c : HmInstance K} {mem : Alloc} {hm hm' : Hm K V} (hwf : Hm.WF c hm)
    {key : K} {value : V} {status : HmStatus}
    (h : hmEmplaceOrGet c mem hm key value = .ok (hm', status)) (hne : status ≠ .oom)
    (hdue : growthDue hm = true) :
    growGranted c mem hm = true := by
  by_contra hgrant
  rcases hmGrow_spec mem hwf with ⟨-, hr⟩ | ⟨t, hgranted, -⟩
  · rw [hmEmplaceOrGet, hmPrepare, if_pos hdue, hr] at h
    cases h
    exact hne rfl
  · exact hgrant hgranted

section

variable {c : HmInstance K} (hconst : ∀ a b, c.keysEqual a b = true → c.hashFunc a = c.hashFunc b)
include hconst

/-- Keys that compare equal are the same to the map. -/
theorem sameKey_iff {a b : K} : SameKey c a b ↔ c.keysEqual a b = true := by
  constructor
  · intro h
    exact h.2
  · intro h
    refine ⟨?_, h⟩
    unfold hmHash
    rw [hconst a b h]

/-- No two entries have the same key. -/
theorem distinct_entries {hm : Hm K V} (hwf : Hm.WF c hm) :
    KeyMap.Distinct c.keysEqual (Hm.entries hm) := by
  cases hm with
  | none => exact List.Pairwise.nil
  | some t =>
      refine (hwf t rfl).distinct.imp ?_
      intro a b hab
      rw [sameKey_iff hconst] at hab
      exact Bool.not_eq_true _ ▸ hab

/-- A stored entry is what its key is mapped to. -/
theorem toMap_of_mem {hm : Hm K V} (hwf : Hm.WF c hm) {k key : K} {v : V}
    (hmem : (k, v) ∈ Hm.entries hm) (hsame : SameKey c k key) : hm.toMap c key = some v :=
  (KeyMap.ofEntries_eq_some c.keysEqual_equiv (distinct_entries hconst hwf)).mpr
    ⟨k, hmem, (sameKey_iff hconst).mp hsame⟩

/-- A key is unmapped exactly when it is not stored. -/
theorem toMap_eq_none {hm : Hm K V} {key : K} :
    hm.toMap c key = none ↔ ¬ Hm.Stores c hm key := by
  unfold Hm.toMap Hm.Stores
  rw [KeyMap.ofEntries_eq_none]
  simp only [sameKey_iff hconst, not_exists, not_and, Bool.not_eq_true]

/-- The order of the entries does not matter to the map. -/
theorem toMap_perm {t : HmTable K V} {hm : Hm K V} (hwf : Hm.WF c hm)
    (hperm : t.entries.Perm (Hm.entries hm)) : Hm.toMap c (some t) = hm.toMap c :=
  (KeyMap.ofEntries_perm c.keysEqual_equiv (distinct_entries hconst hwf) hperm.symm).symm

/-! ## The calls -/

/-- An insertion of a new key adds it to the map. -/
theorem toMap_new {t : HmTable K V} {hm : Hm K V} (hwf : Hm.WF c hm) {key : K} {value : V}
    (hperm : t.entries.Perm ((key, value) :: Hm.entries hm)) (habsent : ¬ Hm.Stores c hm key) :
    Hm.toMap c (some t) = KeyMap.insert c.keysEqual (hm.toMap c) key value := by
  have hdist : KeyMap.Distinct c.keysEqual ((key, value) :: Hm.entries hm) := by
    refine List.pairwise_cons.mpr ⟨fun e he => ?_, distinct_entries hconst hwf⟩
    by_contra heq
    refine habsent ⟨e, he, (sameKey_iff hconst).mpr ?_⟩
    exact c.keysEqual_equiv.symm (Bool.not_eq_false _ ▸ heq)
  show KeyMap.ofEntries c.keysEqual t.entries = _
  rw [← KeyMap.ofEntries_perm c.keysEqual_equiv hdist hperm.symm, KeyMap.ofEntries_cons]
  rfl

/-- What an insertion that returns does to the finite map. -/
theorem emplaced_toMap {mem : Alloc} {hm hm' : Hm K V} (hwf : Hm.WF c hm) {key : K} {value : V}
    {status : HmStatus} (h : hmEmplaceOrGet c mem hm key value = .ok (hm', status)) :
    match status with
    | .oom => hm' = hm ∧ growthDue hm = true ∧ growGranted c mem hm = false
    | .present slot => hm'.toMap c = hm.toMap c ∧ hm'.valueAt slot = hm.toMap c key ∧
        (hm.toMap c key).isSome
    | .new _ => hm'.toMap c = KeyMap.insert c.keysEqual (hm.toMap c) key value ∧
        hm.toMap c key = none := by
  cases hmEmplaceOrGet_spec hwf h with
  | oom hdue hgrant => exact ⟨rfl, hdue, hgrant⟩
  | @present t slot hash k v htwf hperm hslot hsame =>
      have hvalue := toMap_of_mem hconst hwf
        (hperm.mem_iff.mp (HmTable.mem_entries hslot)) hsame
      have hat : t.valueAt slot = some v := by rw [HmTable.valueAt, hslot]
      exact ⟨toMap_perm hconst hwf hperm, hat.trans hvalue.symm, by rw [hvalue]; rfl⟩
  | new htwf hperm habsent hslot =>
      exact ⟨toMap_new hconst hwf hperm habsent, (toMap_eq_none hconst).mpr habsent⟩

/-- Overwriting the value of a stored key. -/
theorem toMap_setValue {t : HmTable K V} (hwf : t.WF c) {slot : Nat} {hash : UInt32} {k key : K}
    {v : V} (hslot : t.slotAt slot = .live hash k v) (hsame : SameKey c k key) (value : V) :
    Hm.toMap c (some (t.setValue slot value)) =
      KeyMap.insert c.keysEqual (Hm.toMap c (some t)) key value := by
  obtain ⟨before, after, hold, hnew⟩ := entries_setValue hslot value
  have hdist := distinct_entries hconst (Hm.wf_some hwf)
  have hentries : Hm.entries (some t) = before ++ (k, v) :: after := hold
  have hentries' : Hm.entries (some (t.setValue slot value)) = before ++ (k, value) :: after := hnew
  unfold Hm.toMap
  rw [hentries, hentries']
  rw [hentries] at hdist
  exact KeyMap.ofEntries_replace c.keysEqual_equiv hdist ((sameKey_iff hconst).mp hsame) value

/-- A call of `emplace_new` agrees with the finite map exactly when it can. -/
theorem emplaceNew_answers {mem : Alloc} {hm : Hm K V} (hwf : Hm.WF c hm) {key : K} {value : V}
    (hends : LoopsEnd c mem hm (.emplaceNew key value)) :
    (∃ hm', hmStep c mem hm (.emplaceNew key value) = .ok hm' ∧
      AnswersLikeMap c mem hm (.emplaceNew key value) hm') ↔
    Answerable c mem hm (.emplaceNew key value) := by
  obtain ⟨hm', status, hcall⟩ := emplaceOrGet_returns hwf hends value
  have hspec := emplaced_toMap hconst hwf hcall
  simp only [hmStep, AnswersLikeMap, hmCall, mapCall, Answerable, hmEmplaceNew, hcall]
  cases status with
  | oom =>
      obtain ⟨rfl, hdue, hgrant⟩ := hspec
      cases hkey : (hm'.toMap c key).isSome <;> simp [hdue, hgrant, Except.map]
  | present slot =>
      obtain ⟨hmap, -, hkey⟩ := hspec
      simp [hkey, hmap, Except.map]
  | new slot =>
      obtain ⟨hmap, hkey⟩ := hspec
      have hgrant := emplaceOrGet_granted hwf hcall (by simp)
      refine iff_of_true ⟨hm', rfl, ?_⟩ fun hdue => Or.inl (hgrant hdue)
      simp [hkey, hmap]

/-- `emplace_or_get` answers as the map says exactly when the call is answerable. -/
theorem emplaceOrGet_answers {mem : Alloc} {hm : Hm K V} (hwf : Hm.WF c hm) {key : K} {value : V}
    (hends : LoopsEnd c mem hm (.emplaceOrGet key value)) :
    (∃ hm', hmStep c mem hm (.emplaceOrGet key value) = .ok hm' ∧
      AnswersLikeMap c mem hm (.emplaceOrGet key value) hm') ↔
    Answerable c mem hm (.emplaceOrGet key value) := by
  obtain ⟨hm', status, hcall⟩ := emplaceOrGet_returns hwf hends value
  have hspec := emplaced_toMap hconst hwf hcall
  simp only [hmStep, AnswersLikeMap, hmCall, mapCall, Answerable, hcall]
  cases status with
  | oom =>
      obtain ⟨rfl, hdue, hgrant⟩ := hspec
      cases hkey : (hm'.toMap c key).isSome <;> simp [hdue, hgrant, Except.map]
  | present slot =>
      obtain ⟨hmap, hvalue, hkey⟩ := hspec
      have hgrant := emplaceOrGet_granted hwf hcall (by simp)
      refine iff_of_true ⟨hm', rfl, ?_⟩ hgrant
      simp [hkey, hmap, hvalue]
  | new slot =>
      obtain ⟨hmap, hkey⟩ := hspec
      have hgrant := emplaceOrGet_granted hwf hcall (by simp)
      refine iff_of_true ⟨hm', rfl, ?_⟩ hgrant
      simp [hkey, hmap]

/-- Replacing a value by itself changes nothing, and nothing else does. -/
theorem insert_eq_self {hm : Hm K V} (hwf : Hm.WF c hm) {key : K} {value : V} :
    KeyMap.insert c.keysEqual (hm.toMap c) key value = hm.toMap c ↔
      hm.toMap c key = some value := by
  have hdist := distinct_entries hconst hwf
  constructor
  · intro h
    rw [← h, KeyMap.insert, if_pos (c.keysEqual_equiv.refl key)]
  · intro h
    obtain ⟨k, hmem, hk⟩ := (KeyMap.ofEntries_eq_some c.keysEqual_equiv hdist).mp h
    funext k'
    unfold KeyMap.insert
    by_cases hk' : c.keysEqual key k' = true
    · rw [if_pos hk']
      exact ((KeyMap.ofEntries_eq_some c.keysEqual_equiv hdist).mpr
        ⟨k, hmem, c.keysEqual_equiv.trans hk hk'⟩).symm
    · rw [if_neg hk']

/-- The same for `insert_update`. -/
theorem insertUpdate_answers {mem : Alloc} {hm : Hm K V} (hwf : Hm.WF c hm) {key : K} {value : V}
    (hends : LoopsEnd c mem hm (.insertUpdate key value)) :
    (∃ hm', hmStep c mem hm (.insertUpdate key value) = .ok hm' ∧
      AnswersLikeMap c mem hm (.insertUpdate key value) hm') ↔
    Answerable c mem hm (.insertUpdate key value) := by
  obtain ⟨hm', status, hcall⟩ := emplaceOrGet_returns hwf hends value
  have hspec := emplaced_toMap hconst hwf hcall
  simp only [hmStep, AnswersLikeMap, hmCall, mapCall, Answerable, hmInsertUpdate, hcall]
  cases status with
  | oom =>
      obtain ⟨rfl, hdue, hgrant⟩ := hspec
      simp [hdue, hgrant, ← insert_eq_self hconst hwf, eq_comm]
  | present slot =>
      have hgrant := emplaceOrGet_granted hwf hcall (by simp)
      refine iff_of_true ⟨_, rfl, rfl, ?_⟩ fun hdue => Or.inl (hgrant hdue)
      cases hmEmplaceOrGet_spec hwf hcall with
      | @present t slot hash k v htwf hperm hslot hsame =>
          rw [← hspec.1]
          exact toMap_setValue hconst htwf hslot hsame value
  | new slot =>
      have hgrant := emplaceOrGet_granted hwf hcall (by simp)
      exact iff_of_true ⟨_, rfl, rfl, hspec.1⟩ fun hdue => Or.inl (hgrant hdue)

/-- The same for `find`. -/
theorem find_answers {mem : Alloc} {hm : Hm K V} (hwf : Hm.WF c hm) {key : K}
    (hends : LoopsEnd c mem hm (.find key)) :
    (∃ hm', hmStep c mem hm (.find key) = .ok hm' ∧ AnswersLikeMap c mem hm (.find key) hm') ↔
    Answerable c mem hm (.find key) := by
  refine iff_of_true ?_ trivial
  obtain ⟨r, hr⟩ : ∃ r, hmFind c hm key = .ok r := by
    cases hm with
    | none => exact ⟨none, rfl⟩
    | some t =>
        obtain ⟨found, hfound⟩ := Option.isSome_iff_exists.mp (hends t rfl)
        rw [hmFind, hfound]
        cases found with
        | present slot => exact ⟨_, rfl⟩
        | absent slot => exact ⟨_, rfl⟩
  have hvalue : r.bind hm.valueAt = hm.toMap c key := by
    rcases hmFind_spec hwf hr with ⟨t, slot, hash, k, v, rfl, rfl, hslot, hsame⟩ | ⟨rfl, habsent⟩
    · rw [toMap_of_mem hconst hwf (HmTable.mem_entries hslot) hsame]
      show t.valueAt slot = some v
      rw [HmTable.valueAt, hslot]
    · exact ((toMap_eq_none hconst).mpr habsent).symm
  refine ⟨hm, by rw [hmStep, hr]; rfl, ?_, rfl⟩
  simp [hmCall, hr, hvalue, mapCall]

/-- The same for `erase`. -/
theorem erase_answers {mem : Alloc} {hm : Hm K V} (hwf : Hm.WF c hm) {key : K}
    (hends : LoopsEnd c mem hm (.erase key)) :
    (∃ hm', hmStep c mem hm (.erase key) = .ok hm' ∧ AnswersLikeMap c mem hm (.erase key) hm') ↔
    Answerable c mem hm (.erase key) := by
  cases hm with
  | none => exact iff_of_false (by rintro ⟨hm', h, -⟩; cases h) (fun h => h rfl)
  | some t =>
      refine iff_of_true ?_ nofun
      have htwf := hwf t rfl
      have hdist := distinct_entries hconst hwf
      obtain ⟨found, hfound⟩ := Option.isSome_iff_exists.mp (hends t rfl)
      cases found with
      | present slot =>
          obtain ⟨hash, k, v, hslot, hsame⟩ := (findSlot_present_iff htwf).mp hfound
          obtain ⟨hvalue, hmap⟩ := KeyMap.ofEntries_erase c.keysEqual_equiv hdist
            (HmTable.entries_bury_perm hslot) ((sameKey_iff hconst).mp hsame)
          have hat : t.valueAt slot = some v := by rw [HmTable.valueAt, hslot]
          refine ⟨some (t.bury slot), by rw [hmStep, hmErase, hfound], ?_, hmap⟩
          simp only [hmCall, hmEraseValue, hfound, ok_bind, pure_eq_ok, hat, mapCall]
          rw [Hm.toMap, hvalue]
      | absent slot =>
          have hnone : Hm.toMap c (some t) key = none :=
            (toMap_eq_none hconst).mpr (findSlot_absent htwf hfound).1.absent
          refine ⟨some t, by rw [hmStep, hmErase, hfound], ?_, ?_⟩
          · simp only [hmCall, hmEraseValue, hfound, ok_bind, pure_eq_ok, hnone, mapCall]
          · funext k
            show _ = KeyMap.erase c.keysEqual (Hm.toMap c (some t)) key k
            unfold KeyMap.erase
            by_cases hk : c.keysEqual key k = true
            · rw [if_pos hk]
              rw [toMap_eq_none hconst] at hnone ⊢
              rintro ⟨e, he, hsame⟩
              exact hnone ⟨e, he, hsame.trans ((sameKey_iff hconst).mpr hk).symm⟩
            · rw [if_neg hk]

/-- **A call agrees with the finite map** exactly when it can. -/
theorem hmStep_answers {mem : Alloc} {hm : Hm K V} (hwf : Hm.WF c hm) {op : HmOp K V}
    (hends : LoopsEnd c mem hm op) :
    (∃ hm', hmStep c mem hm op = .ok hm' ∧ AnswersLikeMap c mem hm op hm') ↔
      Answerable c mem hm op := by
  cases op with
  | emplaceNew key value => exact emplaceNew_answers hconst hwf hends
  | insertUpdate key value => exact insertUpdate_answers hconst hwf hends
  | emplaceOrGet key value => exact emplaceOrGet_answers hconst hwf hends
  | find key => exact find_answers hconst hwf hends
  | erase key => exact erase_answers hconst hwf hends

/-- What a well-formed table shows to its users is a map. -/
theorem mapView {hm : Hm K V} (hwf : Hm.WF c hm) : MapView c hm where
  distinct := distinct_entries hconst hwf
  count := by
    cases hm with
    | none => rfl
    | some t => exact (hwf t rfl).count_eq
  grow := by
    intro mem t hgrow
    rcases hmGrow_spec mem hwf with ⟨-, hr⟩ | ⟨t', -, hr, -, -, hperm, -⟩
    · cases hr.symm.trans hgrow
    · cases hr.symm.trans hgrow
      exact toMap_perm hconst hwf hperm
  visits := hmForEach_spec hwf

/-- **The hash map refines a finite map.**  Take a history of calls on the empty
map whose probe loops end.  All of its calls answer as on a finite map, and it
passes through maps that look like one only, exactly when no call is refused
memory that it needs and nothing is erased before the first table exists. -/
theorem hm_refines_map_iff (mem : Alloc) {ops : List (HmOp K V)}
    (hloops : Run.Meets (hmStep c mem) (LoopsEnd c mem) none ops) :
    (Run.EveryStep (hmStep c mem) (AnswersLikeMap c mem) none ops ∧
      Run.EveryState (hmStep c mem) (MapView c) none ops) ↔
    Run.Meets (hmStep c mem) (Answerable c mem) none ops := by
  have hempty : Hm.WF c (none : Hm K V) := fun t ht => by cases ht
  have hkeeps : ∀ (hm : Hm K V) op hm', Hm.WF c hm → hmStep c mem hm op = .ok hm' → Hm.WF c hm' :=
    fun hm op hm' hwf hstep => hmStep_wf hwf hstep
  rw [← Run.everyStep_iff_meets hkeeps (fun hm op hwf hends => hmStep_answers hconst hwf hends)
    hempty hloops]
  exact and_iff_left_of_imp
    (Run.everyState_of_everyStep hkeeps (fun hm hwf => mapView hconst hwf) hempty)

end

/-- A map over strings of 16 bytes with the constant hash 42. -/
def collidingHm : HmInstance (List UInt8) where
  bits := 32
  header := 24
  sizeofKey := 16
  sizeofValue := 4
  logMinCapacity := 6
  hashFunc := fun _ => 42
  keysEqual := fun k1 k2 => decide (k1 = k2)
  sizeofKey_pos := by decide
  fits := by decide
  keysEqual_equiv := by
    simp only [decide_eq_true_eq]
    exact eq_equivalence

/-- Keys that collide are inserted, found and erased. -/
def collisions : List (HmOp (List UInt8) Nat) :=
  [.find [1], .emplaceNew [1] 10, .emplaceOrGet [2] 20, .emplaceNew [3] 30, .erase [2],
    .emplaceNew [1] 11, .insertUpdate [3] 31, .emplaceNew [2] 21, .find [3]]

/-- Calls on keys that all have one hash. -/
theorem hm_refines_map_colliding :
    Run.EveryStep (hmStep collidingHm .unlimited) (AnswersLikeMap collidingHm .unlimited) none
      collisions ∧
    Run.EveryState (hmStep collidingHm .unlimited) (MapView collidingHm) none collisions :=
  (@hm_refines_map_iff (List UInt8) Nat collidingHm (fun _ _ _ => rfl) .unlimited collisions
    (by decide +kernel)).mpr (by decide +kernel)

/-- `erase` on a map that has been initialised, but never inserted into. -/
theorem erase_unallocated :
    Run.Meets (hmStep serverClientHm .unlimited) (LoopsEnd serverClientHm .unlimited)
      (none : Hm NetAddr Unit) [.erase (loopback 40000)] ∧
    ¬ Run.EveryStep (hmStep serverClientHm .unlimited) (AnswersLikeMap serverClientHm .unlimited)
      (none : Hm NetAddr Unit) [.erase (loopback 40000)] := by
  refine ⟨⟨fun t ht => (by cases ht), fun _ _ => trivial⟩, ?_⟩
  rintro ⟨hm', hstep, -⟩
  cases hstep

end Clither
