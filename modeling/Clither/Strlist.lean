import Clither.BmapArrays
import Clither.Lib.Region

/-!
# String lists

A `struct strlist` keeps its strings in one block of bytes.  The strings grow upwards from
the begin of the block, and a table with an offset and a length for each string grows
downwards from its end.

An address is relative to `data`; one before it, or behind the block, is not accessed.  The
bytes that `mem_realloc` adds are not written yet.
-/

namespace Clither

/-! ## The block -/

/-- The block of `data`. -/
abbrev Bytes := List (Option UInt8)

def memmove (data : Bytes) (dst src n : Int) : Except Fault Bytes :=
  if 0 ≤ dst ∧ 0 ≤ src ∧ 0 ≤ n then accessed (Cells.move data dst.toNat src.toNat n.toNat)
  else .error .outOfBlock

def memcpy (data : Bytes) (dst : Int) (bytes : List UInt8) : Except Fault Bytes :=
  if 0 ≤ dst then accessed (Cells.write data dst.toNat bytes) else .error .outOfBlock

/-- The four bytes of an `int`. -/
def intBytes (x : Int) : List UInt8 :=
  [UInt8.ofInt x, UInt8.ofInt (x / 2 ^ 8), UInt8.ofInt (x / 2 ^ 16), UInt8.ofInt (x / 2 ^ 24)]

def intOfBytes : List UInt8 → Int
  | [b₀, b₁, b₂, b₃] =>
      wrapInt 32 (b₀.toNat + 2 ^ 8 * b₁.toNat + 2 ^ 16 * b₂.toNat + 2 ^ 24 * b₃.toNat)
  | _ => 0

def readInt (data : Bytes) (p : Int) : Except Fault Int := do
  if 0 ≤ p then
    let bytes ← accessed (Cells.read data p.toNat 4)
    .ok (intOfBytes bytes)
  else .error .outOfBlock

def writeInt (data : Bytes) (p x : Int) : Except Fault Bytes :=
  memcpy data p (intBytes x)

/-! ## The list -/

structure StrSpan where
  off : Int
  len : Int
  deriving DecidableEq

/-- The block behind the pointer to a list. -/
structure Strlist where
  count : Int
  strUsed : Int
  capacity : Int
  data : Bytes
  deriving DecidableEq

/-- `&STRLIST_TABLE_PTR(l)[-i]`. -/
def slotPtr (capacity i : Int) : Int :=
  capacity - 8 * (i + 1)

def strlistCount (l : Option Strlist) : Int :=
  match l with
  | some l => l.count
  | none => 0

def strlistSpan (l : Strlist) (i : Int) : Except Fault StrSpan := do
  let off ← readInt l.data (slotPtr l.capacity i)
  let len ← readInt l.data (slotPtr l.capacity i + 4)
  .ok { off := off, len := len }

/-- The bytes before the first NUL. -/
def cstrOf : Bytes → Option (List UInt8)
  | some 0 :: _ => some []
  | some b :: data => (cstrOf data).map (b :: ·)
  | _ => none

/-- What `strlist_cstr` points to. -/
def strlistCstr (l : Strlist) (i : Int) : Except Fault (List UInt8) := do
  let span ← strlistSpan l i
  if 0 ≤ span.off then accessed (cstrOf (l.data.drop span.off.toNat)) else .error .outOfBlock

/-- The loop of `grow`.  From 128 bytes on, a capacity is doubled not more than 24 times before
an `int` cannot hold it. -/
def strlistGrowLoop (mem : Alloc) (count strLen : Int) :
    Nat → Option Strlist → Except Fault (Option Strlist × Int)
  | 0, _ => .error .badCapacity
  | fuel + 1, l => do
      let oldTableSize := wrapInt 32 (8 * count)
      let newTableSize := wrapInt 32 (8 * (count + 1))
      let block := l.getD { count := 0, strUsed := 0, capacity := 0, data := [] }
      let cap := block.capacity
      if cap < wrapInt 32 (newTableSize + block.strUsed + strLen + 1) then
        let growSize := if cap = 0 then 128 else cap
        if granted mem (wrapInt 32 (cap + growSize + 12)) then
          let block :=
            if cap = 0 then { block with count := 0, strUsed := 0, capacity := 0 } else block
          let capacity := wrapInt 32 (block.capacity + growSize)
          let data ←
            memmove (Cells.resize block.data (cap + growSize).toNat) (capacity - oldTableSize)
              (capacity - oldTableSize - growSize) oldTableSize
          strlistGrowLoop mem count strLen fuel (some { block with capacity := capacity, data := data })
        else .ok (l, -1)
      else .ok (l, 0)

def strlistGrow (mem : Alloc) (l : Option Strlist) (strLen : Int) :
    Except Fault (Option Strlist × Int) :=
  strlistGrowLoop mem (strlistCount l) strLen 32 l

def strlistAdd (mem : Alloc) (l : Option Strlist) (str : List UInt8) :
    Except Fault (Option Strlist × Int) := do
  let (l, rc) ← strlistGrow mem l str.length
  if rc < 0 then .ok (l, -1)
  else
    match l with
    | none => .error .nullBuffer
    | some l =>
        let ref := slotPtr l.capacity l.count
        let data ← writeInt l.data ref l.strUsed
        let data ← writeInt data (ref + 4) str.length
        let off ← readInt data ref
        let data ← memcpy data off str
        let off ← readInt data ref
        let data ← memcpy data (off + str.length) [0]
        .ok (some
          { l with
            data := data
            strUsed := wrapInt 32 (l.strUsed + str.length + 1)
            count := wrapInt 32 (l.count + 1) }, 0)

/-- The loops that patch the offsets of `n` spans, from the slot at `span` downwards. -/
def shiftOffs (delta : Int) : Nat → Int → Bytes → Except Fault Bytes
  | 0, _, data => .ok data
  | n + 1, span, data => do
      let off ← readInt data span
      let data ← writeInt data span (wrapInt 32 (off + delta))
      shiftOffs delta n (span - 8) data

/-- The branch of `strlist_insert` that makes space for a string before another one, or sets
the offset of one that comes last. -/
def strlistMakeSpace (l : Strlist) (insert strLen : Int) : Except Fault Bytes :=
  let slotspan := slotPtr l.capacity insert
  if insert < l.count then do
    let off ← readInt l.data slotspan
    let data ← memmove l.data (off + strLen + 1) off (l.strUsed - off)
    let data ←
      memmove data (slotPtr l.capacity l.count) (slotPtr l.capacity (l.count - 1))
        (8 * (l.count - insert))
    shiftOffs (strLen + 1) (l.count - insert).toNat (slotspan - 8) data
  else writeInt l.data slotspan l.strUsed

/-- `strlist_insert`.  No NUL is written behind the string. -/
def strlistInsert (mem : Alloc) (l : Option Strlist) (insert : Int) (cstr : List UInt8) :
    Except Fault (Option Strlist × Int) := do
  let (l, rc) ← strlistGrow mem l cstr.length
  if rc < 0 then .ok (l, -1)
  else
    match l with
    | none => .error .nullBuffer
    | some l =>
        let slotspan := slotPtr l.capacity insert
        let data ← strlistMakeSpace l insert cstr.length
        let off ← readInt data slotspan
        let data ← memcpy data off cstr
        let data ← writeInt data (slotspan + 4) cstr.length
        .ok (some
          { l with
            data := data
            strUsed := wrapInt 32 (l.strUsed + cstr.length + 1)
            count := wrapInt 32 (l.count + 1) }, 0)

/-- The branch of `strlist_erase` that fills the gap. -/
def strlistFillGap (l : Strlist) (idx strGap : Int) : Except Fault Bytes :=
  let span := slotPtr l.capacity idx
  if idx < l.count - 1 then do
    let off ← readInt l.data span
    let data ← memmove l.data off (off + strGap) (l.strUsed - off - strGap)
    let data ←
      memmove data (slotPtr l.capacity (l.count - 2)) (slotPtr l.capacity (l.count - 1))
        (8 * (l.count - idx - 1))
    shiftOffs (-strGap) (l.count - idx - 1).toNat span data
  else .ok l.data

def strlistErase (l : Strlist) (idx : Int) : Except Fault Strlist := do
  let len ← readInt l.data (slotPtr l.capacity idx + 4)
  let strGap := len + 1
  let data ← strlistFillGap l idx strGap
  .ok
    { l with
      data := data
      strUsed := wrapInt 32 (l.strUsed - strGap)
      count := wrapInt 32 (l.count - 1) }

inductive StrlistOp where
  | add (str : List UInt8)
  | insert (insert : Nat) (cstr : List UInt8)
  | erase (idx : Nat)
  deriving DecidableEq

/-- A call, with what it leaves of the list. -/
def strlistCall (mem : Alloc) (l : Option Strlist) : StrlistOp → Except Fault (Option Strlist)
  | .add str => do
      let (l, _) ← strlistAdd mem l str
      .ok l
  | .insert insert cstr => do
      let (l, _) ← strlistInsert mem l insert cstr
      .ok l
  | .erase idx =>
      match l with
      | none => .error .nullBuffer
      | some l => do
          let l ← strlistErase l idx
          .ok (some l)

example :
    (do
      let l ← strlistCall Alloc.unlimited none (.add [97, 98, 99])
      let l ← strlistCall Alloc.unlimited l (.insert 0 [120])
      match l with
      | none => .error .nullBuffer
      | some l => strlistCstr l 0) = Except.ok [120, 98, 97, 98, 99] := by
  decide +kernel

end Clither
