import Mathlib.Data.Int.Bitwise
import Clither.HmTermination

/-!
# The slots that `find_slot` visits

The loop of `find_slot` keeps the slot and the number of the probe in the index type of the
map.  For a capacity that this type can hold, no probe of a whole turn leaves the type, so
that the probes are those of `Probe.slotAt`.  They visit each slot once: a lookup meets an
unused slot when there is one, and it meets its key.
-/

namespace Clither

variable {K V : Type}

/-- `slot` and `i` of `find_slot` after so many rounds of its loop. -/
def findSlotProbe (bits : Nat) (capacity start : Int) : Nat → Int × Int
  | 0 => (start, 0)
  | n + 1 =>
      let p := findSlotProbe bits capacity start n
      let i := wrapInt bits (p.2 + 1)
      (wrapInt bits (Int.land (p.1 + i) (capacity - 1)), i)

/-- A whole turn fits into the index type. -/
theorem probe_sum_lt {bits k slot i : Nat} (hk : k + 1 < bits) (hslot : slot < 2 ^ k)
    (hi : i < 2 ^ k) : slot + i < 2 ^ (bits - 1) := by
  have hdouble : 2 ^ (k + 1) ≤ 2 ^ (bits - 1) := Nat.pow_le_pow_right (by decide) (by omega)
  rw [Nat.pow_succ] at hdouble
  omega

/-- **The probes of a whole turn** are those of the library. -/
theorem findSlotProbe_eq {bits k start n : Nat} (hk : k + 1 < bits) (hstart : start < 2 ^ k)
    (hn : n < 2 ^ k) :
    findSlotProbe bits (2 ^ k : Nat) start n = ((Probe.slotAt (2 ^ k) start n : Int), (n : Int)) := by
  have hpos : 0 < 2 ^ k := Nat.two_pow_pos k
  induction n with
  | zero => rw [findSlotProbe, Probe.slotAt_zero, Nat.mod_eq_of_lt hstart, Nat.cast_zero]
  | succ n ih =>
      have hslot := Probe.slotAt_lt hpos start n
      have hnext := Probe.slotAt_lt hpos start (n + 1)
      have hcount : wrapInt bits ((n : Int) + 1) = (n + 1 : Nat) := by
        have hfits := probe_sum_lt hk hpos hn
        rw [← Nat.cast_add_one]
        exact wrapInt_of_lt (by omega) (by omega) (by exact_mod_cast (by omega))
      have hmask : Int.land (Probe.slotAt (2 ^ k) start n + (n + 1 : Nat)) ((2 ^ k : Nat) - 1) =
          Probe.slotAt (2 ^ k) start (n + 1) := by
        rw [Probe.slotAt_succ, ← Nat.and_two_pow_sub_one_eq_mod, ← Nat.cast_add,
          ← Nat.cast_pred hpos]
        rfl
      have hfits := probe_sum_lt hk hnext hpos
      rw [findSlotProbe, ih (by omega)]
      dsimp only
      rw [hcount, hmask, wrapInt_of_lt (by omega) (by omega) (by exact_mod_cast hfits)]

/-- The start of a hash. -/
theorem hash_start_lt (h : UInt32) (k : Nat) : h.toNat &&& (2 ^ k - 1) < 2 ^ k := by
  rw [Nat.and_two_pow_sub_one_eq_mod]
  exact Nat.mod_lt _ (Nat.two_pow_pos k)

/-- The probes of a hash are those of its start. -/
theorem slotAt_hash_start (h : UInt32) (k i : Nat) :
    Probe.slotAt (2 ^ k) (h.toNat &&& (2 ^ k - 1)) i = Probe.slotAt (2 ^ k) h.toNat i := by
  rw [Nat.and_two_pow_sub_one_eq_mod, Probe.slotAt, Probe.slotAt, Nat.mod_add_mod]

/-- The table of a run is valid. -/
theorem wf_of_run {c : HmInstance K} {mem : Alloc} {ops : List (HmOp K V)} {hm : Hm K V}
    (hrun : Run.run (hmStep c mem) none ops = .ok hm) : Hm.WF c hm := by
  have hempty : Hm.WF c (none : Hm K V) := by
    intro t ht
    cases ht
  exact Run.run_invariant (fun hm op hm' hwf _ hstep => hmStep_wf hwf hstep) hempty
    (Run.meets_of_forall (fun _ _ => trivial) none ops) hrun

/-- What the probes do in the tables of one capacity. -/
structure ProbesCover (c : HmInstance K) (V : Type) (capacity : Nat) : Prop where
  /-- The sum that the next probe masks is a value of the index type. -/
  fits : ∀ {start i : Nat}, start < capacity → i + 1 < capacity →
    (findSlotProbe c.bits capacity start i).1 + (i + 1) < 2 ^ (c.bits - 1)
  visits : ∀ {start slot : Nat}, start < capacity → slot < capacity →
    ∃! i, i < capacity ∧ (findSlotProbe c.bits capacity start i).1 = slot
  ends : ∀ {t : HmTable K V}, t.capacity = capacity → t.HasUnused → ∀ (key : K) (h : UInt32),
    (findSlotLoop c t key h capacity 0 (h.toNat &&& (capacity - 1)) none).isSome
  sees : ∀ {mem : Alloc} {ops : List (HmOp K V)} {t : HmTable K V},
    Run.run (hmStep c mem) none ops = .ok (some t) → t.capacity = capacity →
    ∀ {key : K}, t.Stores c key → ∃ i slot : Nat, i < capacity ∧
      (findSlotProbe c.bits capacity ((hmHash c key).toNat &&& (capacity - 1) : Nat) i).1 = slot ∧
      findSlot c t key (hmHash c key) = some (.present slot) ∧
      ∃ k, t.keyAt slot = some k ∧ SameKey c k key

/-- **A lookup sees the whole table**, whatever its capacity is. -/
theorem find_slot_covers (c : HmInstance K) (V : Type) {k : Nat} (hk : k + 1 < c.bits) :
    ProbesCover c V (2 ^ k) where
  fits := by
    intro start i hstart hi
    rw [findSlotProbe_eq hk hstart (by omega)]
    dsimp only
    exact_mod_cast probe_sum_lt hk (Probe.slotAt_lt (Nat.two_pow_pos k) start i) hi
  visits := by
    intro start slot hstart hslot
    obtain ⟨i, hi, hat⟩ := Probe.exists_slotAt_eq start hslot
    refine ⟨i, ⟨hi, by rw [findSlotProbe_eq hk hstart hi, hat]⟩, ?_⟩
    rintro j ⟨hj, hjat⟩
    rw [findSlotProbe_eq hk hstart hj] at hjat
    exact Probe.slotAt_injective hj hi ((Int.ofNat_inj.mp hjat).trans hat.symm)
  ends := by
    intro t hcap hunused key h
    have hends := findSlot_isSome_of_hasUnused (c := c) hcap hunused key h
    rwa [findSlot, hcap] at hends
  sees := by
    intro mem ops t hrun hcap key hstores
    have hwf := wf_of_run hrun t rfl
    obtain ⟨e, he, hsame⟩ := hstores
    obtain ⟨slot, hash, hslot⟩ := HmTable.exists_slotAt he
    have hlt : slot < 2 ^ k := hcap ▸ HmTable.lt_capacity_of_slotAt (by rw [hslot]; simp)
    obtain ⟨i, hi, hat⟩ := Probe.exists_slotAt_eq (hmHash c key).toNat hlt
    refine ⟨i, slot, hi, ?_, (findSlot_present_iff hwf).mpr ⟨hash, e.1, e.2, hslot, hsame⟩, e.1, ?_,
      hsame⟩
    · rw [findSlotProbe_eq hk (hash_start_lt _ k) hi, slotAt_hash_start, hat]
    · rw [HmTable.keyAt, hslot]

/-- The largest table of a map with 16-bit indices. -/
theorem find_slot_covers_largest : ProbesCover serverClientHm Unit (2 ^ 14) :=
  find_slot_covers serverClientHm Unit (by decide)

end Clither
