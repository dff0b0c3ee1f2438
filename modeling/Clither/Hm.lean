import Clither.Mem
import Clither.Lib.Probe

/-!
# The open-addressing hash map

`HM_DEFINE_FULL` generates a hash map over three parallel arrays: the hashes,
the keys and the values.  Here one slot holds the three together.  A hash of
`HM_SLOT_UNUSED` marks a slot that was never written and a hash of
`HM_SLOT_RIP` the tombstone of an erased key; every other hash belongs to a
live entry.

`findSlot` follows the probe sequence until it meets the key or an unused slot.
The loop of the source has no other exit, so the model counts its turns:
`findSlotLoop` with fuel `n` answers `none` when `n` turns were not enough, and
`findSlot` grants one turn for each slot of the table.  `findSlot_endless` in
`HmSpec` shows that this is no restriction.
-/

namespace Clither

/-- The arguments of one `HM_DEFINE_FULL` that the map operations depend on.
`header` is the offset of the hashes in the map structure, `bits` the width of
`count` and `capacity`. -/
structure HmInstance (K : Type) where
  bits : Nat
  header : Nat
  sizeofKey : Nat
  sizeofValue : Nat
  logMinCapacity : Nat
  hashFunc : K → UInt32
  keysEqual : K → K → Bool
  sizeofKey_pos : 0 < sizeofKey
  /-- The initial capacity is a value of the index type, and the byte count of
  its hashes does not wrap round to nothing. -/
  fits : logMinCapacity + 2 < bits
  keysEqual_equiv : Equivalence fun a b => keysEqual a b = true

def HmInstance.minCapacity {K : Type} (c : HmInstance K) : Nat :=
  2 ^ c.logMinCapacity

/-- `REHASH_AT_PERCENT` of every instance in the program. -/
def rehashAtPercent : Nat := 70

/-- One slot of the three arrays. -/
inductive HmSlot (K V : Type) where
  | unused
  | rip
  | live (hash : UInt32) (key : K) (value : V)
  deriving DecidableEq, Repr

structure HmTable (K V : Type) where
  count : Nat
  slots : List (HmSlot K V)
  deriving DecidableEq, Repr

/-- A map before its first insertion is the null pointer. -/
abbrev Hm (K V : Type) := Option (HmTable K V)

variable {K V : Type}

def HmSlot.isLive : HmSlot K V → Bool
  | .live _ _ _ => true
  | _ => false

def HmSlot.isUnused : HmSlot K V → Bool
  | .unused => true
  | _ => false

def HmSlot.toEntry : HmSlot K V → Option (K × V)
  | .live _ k v => some (k, v)
  | _ => none

/-- An unused slot is not live. -/
@[simp] theorem isLive_unused : (HmSlot.unused : HmSlot K V).isLive = false := rfl
@[simp] theorem isLive_rip : (HmSlot.rip : HmSlot K V).isLive = false := rfl
@[simp] theorem isLive_live (h : UInt32) (k : K) (v : V) : (HmSlot.live h k v).isLive = true := rfl
@[simp] theorem isUnused_unused : (HmSlot.unused : HmSlot K V).isUnused = true := rfl
@[simp] theorem isUnused_rip : (HmSlot.rip : HmSlot K V).isUnused = false := rfl
@[simp] theorem isUnused_live (h : UInt32) (k : K) (v : V) :
    (HmSlot.live h k v).isUnused = false := rfl
/-- An unused slot has no entry. -/
@[simp] theorem toEntry_unused : (HmSlot.unused : HmSlot K V).toEntry = none := rfl
@[simp] theorem toEntry_rip : (HmSlot.rip : HmSlot K V).toEntry = none := rfl
@[simp] theorem toEntry_live (h : UInt32) (k : K) (v : V) :
    (HmSlot.live h k v).toEntry = some (k, v) := rfl

namespace HmTable

def capacity (t : HmTable K V) : Nat :=
  t.slots.length

def slotAt (t : HmTable K V) (i : Nat) : HmSlot K V :=
  t.slots.getD i .unused

/-- Live entries in slot order, the order of `hm_for_each`. -/
def entries (t : HmTable K V) : List (K × V) :=
  t.slots.filterMap HmSlot.toEntry

/-- Write hash, key and value of a slot and count the new entry. -/
def put (t : HmTable K V) (slot : Nat) (h : UInt32) (key : K) (value : V) : HmTable K V where
  count := t.count + 1
  slots := t.slots.set slot (.live h key value)

/-- Leave a tombstone in a slot. -/
def bury (t : HmTable K V) (slot : Nat) : HmTable K V where
  count := t.count - 1
  slots := t.slots.set slot .rip

def valueAt (t : HmTable K V) (slot : Nat) : Option V :=
  match t.slotAt slot with
  | .live _ _ v => some v
  | _ => none

def keyAt (t : HmTable K V) (slot : Nat) : Option K :=
  match t.slotAt slot with
  | .live _ k _ => some k
  | _ => none

/-- Write through the pointer to the value of a live slot. -/
def setValue (t : HmTable K V) (slot : Nat) (value : V) : HmTable K V :=
  match t.slotAt slot with
  | .live h k _ => { t with slots := t.slots.set slot (.live h k value) }
  | _ => t

end HmTable

/-- What `find_slot` returns: `-(1 + slot)` for a key that is there and the
slot to insert into otherwise. -/
inductive FoundSlot where
  | present (slot : Nat)
  | absent (slot : Nat)
  deriving DecidableEq, Repr

variable (c : HmInstance K)

/-- The hash of a key, moved away from the two reserved values. -/
def hmHash (key : K) : UInt32 :=
  let h := c.hashFunc key
  if h = 0 ∨ h = 1 then 2 else h

/-- The loop of `find_slot`, from probe number `i` at `slot` with the last
tombstone seen so far. -/
def findSlotLoop (t : HmTable K V) (key : K) (h : UInt32) :
    Nat → Nat → Nat → Option Nat → Option FoundSlot
  | 0, _, _, _ => none
  | fuel + 1, i, slot, lastRip =>
      match t.slotAt slot with
      | .unused => some (.absent (lastRip.getD slot))
      | .rip =>
          findSlotLoop t key h fuel (i + 1) ((slot + (i + 1)) &&& (t.capacity - 1)) (some slot)
      | .live h' k _ =>
          if h' = h ∧ c.keysEqual k key = true then some (.present slot)
          else findSlotLoop t key h fuel (i + 1) ((slot + (i + 1)) &&& (t.capacity - 1)) lastRip

def findSlot (t : HmTable K V) (key : K) (h : UInt32) : Option FoundSlot :=
  findSlotLoop c t key h t.capacity 0 (h.toNat &&& (t.capacity - 1)) none

/-- The capacity that `grow` asks for, in the index type. -/
def growCapacity : Hm K V → Int
  | none => wrapInt c.bits c.minCapacity
  | some t => wrapInt c.bits (2 * t.capacity)

/-- The three allocations of `grow`: header and hashes, keys, values. -/
def growGranted (mem : Alloc) (hm : Hm K V) : Bool :=
  let newCap := growCapacity c hm
  granted mem (c.header + wrapInt c.bits (4 * newCap)) &&
    granted mem (c.sizeofKey * newCap) && granted mem (c.sizeofValue * newCap)

/-- Insert every live slot of the old table into the new one. -/
def rehash : List (HmSlot K V) → HmTable K V → Except Fault (HmTable K V)
  | [], new => .ok new
  | .live _ k v :: rest, new =>
      match findSlot c new k (hmHash c k) with
      | some (.absent slot) => rehash rest (new.put slot (hmHash c k) k v)
      | some (.present _) => .error .slotTaken
      | none => .error .probeLoop
  | _ :: rest, new => rehash rest new

def oldSlots : Hm K V → List (HmSlot K V)
  | none => []
  | some t => t.slots

/-- `grow`; `none` when an allocation fails. -/
def hmGrow (mem : Alloc) (hm : Hm K V) : Except Fault (Option (HmTable K V)) :=
  if growGranted c mem hm then
    match rehash c (oldSlots hm) ⟨0, List.replicate (growCapacity c hm).toNat .unused⟩ with
    | .ok new => .ok (some new)
    | .error f => .error f
  else .ok none

/-- `count * 100 >= REHASH_AT_PERCENT * capacity`, or no table yet. -/
def growthDue : Hm K V → Bool
  | none => true
  | some t => decide (t.count * 100 ≥ rehashAtPercent * t.capacity)

/-- The table an insertion goes into; `none` when growing it fails. -/
def hmPrepare (mem : Alloc) (hm : Hm K V) : Except Fault (Option (HmTable K V)) :=
  if growthDue hm then hmGrow c mem hm else .ok hm

inductive HmStatus where
  | oom
  | present (slot : Nat)
  | new (slot : Nat)
  deriving DecidableEq, Repr

/-- `emplace_or_get`.  The caller writes the new value at once, so the model
takes it as an argument. -/
def hmEmplaceOrGet (mem : Alloc) (hm : Hm K V) (key : K) (value : V) :
    Except Fault (Hm K V × HmStatus) :=
  match hmPrepare c mem hm with
  | .error f => .error f
  | .ok none => .ok (hm, .oom)
  | .ok (some t) =>
      match findSlot c t key (hmHash c key) with
      | none => .error .probeLoop
      | some (.present slot) => .ok (some t, .present slot)
      | some (.absent slot) => .ok (some (t.put slot (hmHash c key) key value), .new slot)

/-- `emplace_new`: the slot of the new value, or `NULL`. -/
def hmEmplaceNew (mem : Alloc) (hm : Hm K V) (key : K) (value : V) :
    Except Fault (Hm K V × Option Nat) :=
  match hmEmplaceOrGet c mem hm key value with
  | .error f => .error f
  | .ok (hm', .new slot) => .ok (hm', some slot)
  | .ok (hm', _) => .ok (hm', none)

def hmInsertUpdate (mem : Alloc) (hm : Hm K V) (key : K) (value : V) :
    Except Fault (Hm K V) :=
  match hmEmplaceOrGet c mem hm key value with
  | .error f => .error f
  | .ok (hm', .present slot) => .ok (hm'.map (·.setValue slot value))
  | .ok (hm', _) => .ok hm'

/-- `find`: the slot of the value, or `NULL`. -/
def hmFind (hm : Hm K V) (key : K) : Except Fault (Option Nat) :=
  match hm with
  | none => .ok none
  | some t =>
      match findSlot c t key (hmHash c key) with
      | none => .error .probeLoop
      | some (.present slot) => .ok (some slot)
      | some (.absent _) => .ok none

def hmErase (hm : Hm K V) (key : K) : Except Fault (Hm K V) :=
  match hm with
  | none => .error .nullMap
  | some t =>
      match findSlot c t key (hmHash c key) with
      | none => .error .probeLoop
      | some (.present slot) => .ok (some (t.bury slot))
      | some (.absent _) => .ok (some t)

end Clither
