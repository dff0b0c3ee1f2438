import Clither.Lib.SortedArray
import Clither.Mem

/-!
# The binary-search map

`BMAP_DECLARE` generates a map over two parallel arrays that are kept in the
order of the keys.  The keys of every instance in the server are snake ids.  The
capacity is 32 at first and doubles from there, in a 16-bit integer, and the
byte count of the values is kept in such an integer too.

The entries are a `SortedArray`, so the order of the keys is part of the type.
The lemmas say what each operation does to lookups and to the list of keys.
-/

namespace Clither

open Faults (bind_eq_ok)

/-- Numbers of 16 bits in the order of the program. -/
instance uint16LinearOrder : LinearOrder UInt16 where
  le_refl a := UInt16.le_iff_toNat_le.mpr (Nat.le_refl _)
  le_trans a b c hab hbc := UInt16.le_iff_toNat_le.mpr
    (Nat.le_trans (UInt16.le_iff_toNat_le.mp hab) (UInt16.le_iff_toNat_le.mp hbc))
  le_antisymm a b hab hba := UInt16.toNat_inj.mp
    (Nat.le_antisymm (UInt16.le_iff_toNat_le.mp hab) (UInt16.le_iff_toNat_le.mp hba))
  le_total a b := by
    rw [UInt16.le_iff_toNat_le, UInt16.le_iff_toNat_le]
    exact Nat.le_total _ _
  lt_iff_le_not_ge a b := by
    rw [UInt16.lt_iff_toNat_lt, UInt16.le_iff_toNat_le, UInt16.le_iff_toNat_le]
    omega
  toDecidableLE := inferInstance
  toDecidableLT := inferInstance
  toDecidableEq := inferInstance

/-- The arguments of one `BMAP_DECLARE` with 16 bits and `uint16_t` keys: the
offset of `values` and `sizeof(V)`. -/
structure BmapInstance where
  header : Nat
  sizeofValue : Nat

structure BmapTable (c : BmapInstance) (V : Type) where
  capacity : Nat
  map : SortedArray UInt16 V
  capacity_pos : 0 < capacity
  capacity_lt : capacity < 2 ^ 15
  length_le : map.entries.length ≤ capacity
  deriving DecidableEq

/-- A map before its first insertion is the null pointer. -/
abbrev Bmap (c : BmapInstance) (V : Type) := Option (BmapTable c V)

variable {c : BmapInstance} {V : Type}

/-- The entries that a pointer to a map stands for. -/
def bmapEntries : Bmap c V → SortedArray UInt16 V
  | none => .empty
  | some t => t.map

/-- `bmap_count`. -/
def bmapCount (bmap : Bmap c V) : Nat :=
  (bmapEntries bmap).entries.length

/-- The keys in the order of `bmap_for_each`. -/
def bmapKeys (bmap : Bmap c V) : List UInt16 :=
  (bmapEntries bmap).keys

/-- `find`. -/
def bmapFind (bmap : Bmap c V) (key : UInt16) : Option V :=
  (bmapEntries bmap).find key

/-! ## Growing -/

/-- The capacity that `kvs_emplace` asks for. -/
def bmapGrowCapacity : Bmap c V → Int
  | none => 32
  | some t => wrapInt 16 (2 * t.capacity)

/-- The request for header and values, whose byte count is an `int16_t`. -/
def valuesRequest (c : BmapInstance) (newCapacity : Int) : Int :=
  c.header + wrapInt 16 (c.sizeofValue * newCapacity)

/-- The request for the keys. -/
def keysRequest (newCapacity : Int) : Int :=
  2 * newCapacity

/-- A doubled capacity that is not negative has not wrapped. -/
theorem wrapInt_double {n : Nat} (hn : n < 2 ^ 15) (h : 0 ≤ wrapInt 16 (2 * n)) :
    wrapInt 16 (2 * n) = 2 * n ∧ 2 * n < 2 ^ 15 := by
  by_cases hfits : 2 * n < 2 ^ 15
  · exact ⟨wrapInt_of_lt (by decide) (by omega) (by norm_num; omega), hfits⟩
  · exfalso
    unfold wrapInt at h
    rw [Int.bmod_def] at h
    norm_num at h
    split at h <;> omega

/-- There is no table yet, or no place in it. -/
def bmapFull : Bmap c V → Bool
  | none => true
  | some t => decide (t.map.entries.length = t.capacity)

/-- A capacity that is granted has room for one more key. -/
theorem bmapGrowCapacity_of_granted {mem : Alloc} {bmap : Bmap c V} (hfull : bmapFull bmap = true)
    (h : granted mem (keysRequest (bmapGrowCapacity bmap)) = true) :
    bmapCount bmap < (bmapGrowCapacity bmap).toNat ∧ (bmapGrowCapacity bmap).toNat < 2 ^ 15 := by
  cases bmap with
  | none => exact ⟨by show 0 < 32; decide, by show 32 < 2 ^ 15; decide⟩
  | some t =>
      have hlen : t.map.entries.length = t.capacity := of_decide_eq_true hfull
      have hpos := t.capacity_pos
      have hnonneg := nonneg_of_granted h
      rw [keysRequest] at hnonneg
      obtain ⟨heq, hlt⟩ := wrapInt_double t.capacity_lt (by
        show 0 ≤ bmapGrowCapacity (some t)
        omega)
      show t.map.entries.length < (wrapInt 16 (2 * t.capacity)).toNat ∧
        (wrapInt 16 (2 * t.capacity)).toNat < 2 ^ 15
      rw [heq]
      omega

/-- A table with a place for one more key. -/
abbrev Roomy (c : BmapInstance) (V : Type) :=
  {t : BmapTable c V // t.map.entries.length < t.capacity}

/-- The table that `kvs_emplace` writes to; `none` when a request is refused.
When only the second one is, the old table has been given back to the allocator
already. -/
def bmapReserve (mem : Alloc) (bmap : Bmap c V) : Except Fault (Option (Roomy c V)) :=
  if hfull : bmapFull bmap = true then
    if granted mem (valuesRequest c (bmapGrowCapacity bmap)) then
      if hkeys : granted mem (keysRequest (bmapGrowCapacity bmap)) = true then
        have hgrow := bmapGrowCapacity_of_granted hfull hkeys
        .ok (some ⟨{ capacity := (bmapGrowCapacity bmap).toNat
                     map := bmapEntries bmap
                     capacity_pos := Nat.zero_lt_of_lt hgrow.1
                     capacity_lt := hgrow.2
                     length_le := Nat.le_of_lt hgrow.1 }, hgrow.1⟩)
      else if bmap.isSome then .error .danglingMap
      else .ok none
    else .ok none
  else
    match bmap, hfull with
    | none, hfull => absurd rfl hfull
    | some t, hfull =>
        .ok (some ⟨t, lt_of_le_of_ne t.length_le fun heq => hfull (decide_eq_true heq)⟩)

/-- Whether there is room for a new key or memory to make it. -/
def bmapHasRoom (mem : Alloc) (bmap : Bmap c V) : Bool :=
  !bmapFull bmap ||
    (granted mem (valuesRequest c (bmapGrowCapacity bmap)) &&
      granted mem (keysRequest (bmapGrowCapacity bmap)))

/-- With room, the map gets a table that can take one more entry. -/
theorem bmapReserve_of_hasRoom {mem : Alloc} {bmap : Bmap c V} (h : bmapHasRoom mem bmap = true) :
    ∃ t : Roomy c V, bmapReserve mem bmap = .ok (some t) ∧ t.val.map = bmapEntries bmap := by
  by_cases hfull : bmapFull bmap = true
  · simp only [bmapHasRoom, hfull, Bool.not_true, Bool.false_or, Bool.and_eq_true] at h
    rw [bmapReserve, dif_pos hfull, if_pos h.1, dif_pos h.2]
    exact ⟨_, rfl, rfl⟩
  · rw [bmapReserve, dif_neg hfull]
    cases bmap with
    | none => exact absurd rfl hfull
    | some t => exact ⟨_, rfl, rfl⟩

/-- A table that was reserved had its room and kept the entries. -/
theorem bmapReserve_some {mem : Alloc} {bmap : Bmap c V} {t : Roomy c V}
    (h : bmapReserve mem bmap = .ok (some t)) :
    bmapHasRoom mem bmap = true ∧ t.val.map = bmapEntries bmap := by
  by_cases hroom : bmapHasRoom mem bmap = true
  · obtain ⟨t', ht', hmap⟩ := bmapReserve_of_hasRoom hroom
    cases ht'.symm.trans h
    exact ⟨hroom, hmap⟩
  · exfalso
    simp only [bmapHasRoom, Bool.or_eq_true, Bool.not_eq_true', Bool.not_eq_false, Bool.and_eq_true,
      not_or, Bool.not_eq_false] at hroom
    obtain ⟨hfull, hrefused⟩ := hroom
    rw [bmapReserve, dif_pos hfull] at h
    by_cases hvalues : granted mem (valuesRequest c (bmapGrowCapacity bmap)) = true
    · rw [if_pos hvalues, dif_neg fun hkeys => hrefused ⟨hvalues, hkeys⟩] at h
      split at h <;> cases h
    · rw [if_neg hvalues] at h
      cases h

/-- The one fault of a growth is the pointer left dangling. -/
theorem bmapReserve_error {mem : Alloc} {bmap : Bmap c V} {f : Fault}
    (h : bmapReserve mem bmap = .error f) : f = .danglingMap := by
  unfold bmapReserve at h
  split at h
  · split at h
    · split at h
      · cases h
      · split at h
        · cases h
          rfl
        · cases h
    · cases h
  · cases bmap with
    | none => exact absurd rfl ‹_›
    | some t => cases h

/-! ## Operations -/

inductive BmapStatus where
  | oom
  | present
  | new
  deriving DecidableEq, Repr

def BmapTable.put (t : Roomy c V) (key : UInt16) (value : V) : BmapTable c V where
  capacity := t.val.capacity
  map := t.val.map.insert key value
  capacity_pos := t.val.capacity_pos
  capacity_lt := t.val.capacity_lt
  length_le := Nat.le_trans (t.val.map.length_insert_le key value) t.property

/-- `emplace_new` and `emplace_or_get`, which differ in whether a value that is
there already is handed out.  The caller initialises a new value at once, which
may fail; the model takes the initialisation as an argument. -/
def bmapEmplace (mem : Alloc) (bmap : Bmap c V) (key : UInt16) (init : Except Fault V) :
    Except Fault (Bmap c V × BmapStatus) :=
  if (bmapFind bmap key).isSome then .ok (bmap, .present)
  else do
    match ← bmapReserve mem bmap with
    | none => return (bmap, .oom)
    | some t => do
        let value ← init
        return (some (BmapTable.put t key value), .new)

/-- `erase`. -/
def bmapErase (bmap : Bmap c V) (key : UInt16) : Bmap c V :=
  bmap.map fun t =>
    { capacity := t.capacity
      map := t.map.erase key
      capacity_pos := t.capacity_pos
      capacity_lt := t.capacity_lt
      length_le := Nat.le_trans (t.map.length_erase_le key) t.length_le }

/-- Write through the pointer that `find` returned. -/
def bmapSet (bmap : Bmap c V) (key : UInt16) (value : V) : Bmap c V :=
  bmap.map fun t =>
    { capacity := t.capacity
      map := t.map.set key value
      capacity_pos := t.capacity_pos
      capacity_lt := t.capacity_lt
      length_le := by
        show (t.map.entries.map _).length ≤ t.capacity
        rw [List.length_map]
        exact t.length_le }

/-! ## What the operations do -/

/-- No key is stored twice. -/
theorem bmapKeys_nodup (bmap : Bmap c V) : (bmapKeys bmap).Nodup :=
  (bmapEntries bmap).keys_nodup

/-- The keys are those the map finds a value for. -/
theorem mem_bmapKeys {bmap : Bmap c V} {key : UInt16} :
    key ∈ bmapKeys bmap ↔ ∃ v, bmapFind bmap key = some v :=
  SortedArray.mem_keys_iff

/-- The map finds exactly its keys. -/
theorem isSome_bmapFind {bmap : Bmap c V} {key : UInt16} :
    (bmapFind bmap key).isSome = true ↔ key ∈ bmapKeys bmap := by
  rw [mem_bmapKeys, Option.isSome_iff_exists]

/-- The map finds nothing for any other key. -/
theorem bmapFind_eq_none {bmap : Bmap c V} {key : UInt16} :
    bmapFind bmap key = none ↔ key ∉ bmapKeys bmap :=
  SortedArray.find_eq_none

/-- The count fits its type. -/
theorem bmapCount_lt (bmap : Bmap c V) : bmapCount bmap < 2 ^ 15 := by
  cases bmap with
  | none => exact Nat.two_pow_pos _
  | some t => exact lt_of_le_of_lt t.length_le t.capacity_lt

/-- What an insertion that returns has done. -/
inductive BmapEmplaced (mem : Alloc) (bmap : Bmap c V) (key : UInt16) (init : Except Fault V) :
    Bmap c V → BmapStatus → Prop where
  | present (hkey : key ∈ bmapKeys bmap) : BmapEmplaced mem bmap key init bmap .present
  | oom (hkey : key ∉ bmapKeys bmap) (hroom : bmapHasRoom mem bmap = false) :
      BmapEmplaced mem bmap key init bmap .oom
  | new {bmap' : Bmap c V} {value : V} (hkey : key ∉ bmapKeys bmap) (hinit : init = .ok value)
      (hkeys : (bmapKeys bmap').Perm (key :: bmapKeys bmap))
      (hfind : ∀ k, bmapFind bmap' k = if k = key then some value else bmapFind bmap k) :
      BmapEmplaced mem bmap key init bmap' .new

/-- A put adds the key and changes what is found there only. -/
theorem bmapPut_spec {bmap : Bmap c V} {t : Roomy c V} (hmap : t.val.map = bmapEntries bmap)
    {key : UInt16} (hkey : key ∉ bmapKeys bmap) (value : V) :
    (bmapKeys (some (BmapTable.put t key value))).Perm (key :: bmapKeys bmap) ∧
    ∀ k, bmapFind (some (BmapTable.put t key value)) k =
      if k = key then some value else bmapFind bmap k := by
  have hnone : (bmapEntries bmap).find key = none := SortedArray.find_eq_none.mpr hkey
  show (t.val.map.insert key value).keys.Perm _ ∧ ∀ k, (t.val.map.insert key value).find k = _
  rw [hmap]
  exact ⟨SortedArray.keys_insert value hnone, SortedArray.find_insert value hnone⟩

/-- What `emplace` can answer, and the map it leaves for each answer. -/
theorem bmapEmplace_spec {mem : Alloc} {bmap bmap' : Bmap c V} {key : UInt16}
    {init : Except Fault V} {status : BmapStatus}
    (h : bmapEmplace mem bmap key init = .ok (bmap', status)) :
    BmapEmplaced mem bmap key init bmap' status := by
  unfold bmapEmplace at h
  cases hfind : bmapFind bmap key with
  | some v =>
      simp only [hfind, Option.isSome_some, if_true] at h
      cases h
      exact .present (mem_bmapKeys.mpr ⟨v, hfind⟩)
  | none =>
      have hkey := bmapFind_eq_none.mp hfind
      simp only [hfind, Option.isSome_none, Bool.false_eq_true, if_false] at h
      obtain ⟨reserved, hreserve, h⟩ := bind_eq_ok.mp h
      cases reserved with
      | none =>
          cases h
          refine .oom hkey ?_
          by_contra hroom
          obtain ⟨t, ht, -⟩ := bmapReserve_of_hasRoom (Bool.not_eq_false _ ▸ hroom)
          cases ht.symm.trans hreserve
      | some t =>
          obtain ⟨value, hinit, h⟩ := bind_eq_ok.mp h
          cases h
          obtain ⟨hkeys, hvalue⟩ := bmapPut_spec (bmapReserve_some hreserve).2 hkey value
          exact .new hkey hinit hkeys hvalue

/-- An insertion fails to return if the map is lost, or if the new value cannot be
initialised. -/
theorem bmapEmplace_error {mem : Alloc} {bmap : Bmap c V} {key : UInt16} {init : Except Fault V}
    {f : Fault} (h : bmapEmplace mem bmap key init = .error f) :
    f = .danglingMap ∨ init = .error f := by
  unfold bmapEmplace at h
  split at h
  · cases h
  · cases hreserve : bmapReserve mem bmap with
    | error f' =>
        rw [hreserve] at h
        cases h
        exact Or.inl (bmapReserve_error hreserve)
    | ok reserved =>
        rw [hreserve, ok_bind] at h
        cases reserved with
        | none => cases h
        | some t =>
            cases init with
            | error f' =>
                cases h
                exact Or.inr rfl
            | ok value => cases h

/-- Erasing changes what is found at the key only. -/
theorem bmapFind_erase (bmap : Bmap c V) (key k : UInt16) :
    bmapFind (bmapErase bmap key) k = if k = key then none else bmapFind bmap k := by
  cases bmap with
  | none => exact (ite_self none).symm
  | some t => exact t.map.find_erase key k

/-- Erasing takes the key out. -/
theorem mem_bmapKeys_erase {bmap : Bmap c V} {key k : UInt16} :
    k ∈ bmapKeys (bmapErase bmap key) ↔ k ∈ bmapKeys bmap ∧ k ≠ key := by
  rw [mem_bmapKeys, mem_bmapKeys, bmapFind_erase]
  by_cases hk : k = key <;> simp [hk]

/-- Setting a value keeps the keys. -/
@[simp] theorem bmapKeys_set (bmap : Bmap c V) (key : UInt16) (value : V) :
    bmapKeys (bmapSet bmap key value) = bmapKeys bmap := by
  cases bmap with
  | none => rfl
  | some t => exact t.map.keys_set key value

/-- Setting the value that is there changes nothing. -/
theorem bmapSet_self {bmap : Bmap c V} {key : UInt16} {value : V}
    (h : bmapFind bmap key = some value) : bmapSet bmap key value = bmap := by
  cases bmap with
  | none => rfl
  | some t =>
      have hmap : t.map.set key value = t.map := SortedArray.set_self h
      cases t
      simpa only [bmapSet, Option.map_some, Option.some.injEq, BmapTable.mk.injEq, true_and]
        using hmap

/-- Setting changes what is found at the key only. -/
theorem bmapFind_set {bmap : Bmap c V} {key : UInt16} (value : V) (h : key ∈ bmapKeys bmap)
    (k : UInt16) :
    bmapFind (bmapSet bmap key value) k = if k = key then some value else bmapFind bmap k := by
  obtain ⟨v, hv⟩ := mem_bmapKeys.mp h
  cases bmap with
  | none => cases hv
  | some t => exact SortedArray.find_set value hv k

end Clither
