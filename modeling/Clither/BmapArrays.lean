import Clither.Bmap
import Clither.Lib.Cells

/-!
# The two arrays of a binary-search map

`Bmap` models the map as its entries.  This is the level below: a block with
`count`, `capacity` and the values, a second block with the keys, and the
functions of `BMAP_DEFINE` as they move cells around in them.  The key type, the
value type and the width of the index type are those of the instance.

Growing asks for the two blocks one after the other.  What `mem_realloc` answers
is an input of each call: a request may be refused, and a block that is granted
may have moved, so that the old pointer to it is dangling.
-/

namespace Clither

/-- The arguments of one `BMAP_DECLARE`: the width of the index type, the offset of
`values`, `sizeof(K)` and `sizeof(V)`. -/
structure KvsLayout where
  bits : Nat
  header : Nat
  sizeofKey : Nat
  sizeofValue : Nat
  /-- The first capacity, which is 32, is a value of the index type. -/
  fits : 6 < bits
  sizeofKey_pos : 0 < sizeofKey
  sizeofValue_pos : 0 < sizeofValue

theorem KvsLayout.fits_int16 : 6 < 16 := by decide

/-- The layout of the map of the tests. -/
def objBmap : KvsLayout where
  bits := 16
  header := 16
  sizeofKey := 2
  sizeofValue := 12
  fits := KvsLayout.fits_int16
  sizeofKey_pos := ElemType.size_pos .uint16
  sizeofValue_pos := ElemType.size_pos .obj

/-- What `mem_realloc` answers. -/
inductive ReallocReply where
  | refused
  | inPlace
  | moved
  deriving DecidableEq

/-- The answers to the requests for the two blocks. -/
structure KvsReplies where
  values : ReallocReply
  keys : ReallocReply
  deriving DecidableEq

/-- Both requests are granted, and the blocks move. -/
def moving : KvsReplies where
  values := .moved
  keys := .moved

/-- The answer to a request.  A negative byte count is refused in any case. -/
def reallocAnswer (bytes : Int) (reply : ReallocReply) : ReallocReply :=
  if 0 ≤ bytes then reply else .refused

/-- The caller's pointer to the block of a container. -/
inductive BlockPtr (T : Type) where
  | null
  | live (t : T)
  | dangling
  deriving DecidableEq

/-- The caller's pointer after a request that was answered with `NULL`.  A request
for 0 bytes gives the block back. -/
def BlockPtr.afterRefusal {T : Type} (p : BlockPtr T) (bytes : Int) : BlockPtr T :=
  match p with
  | .live t => if bytes = 0 then .dangling else .live t
  | p => p

/-- Access to a block. -/
def accessed {β : Type} : Option β → Except Fault β
  | some b => .ok b
  | none => .error .outOfBlock

theorem wrapInt_lt {bits : Nat} (hbits : 0 < bits) (x : Int) : wrapInt bits x < 2 ^ (bits - 1) := by
  have hpow : (2 : Nat) ^ bits = 2 * 2 ^ (bits - 1) := by
    rw [← pow_succ', Nat.sub_add_cancel (by omega)]
  have hlt := Int.bmod_lt (x := x) (m := 2 ^ bits) (Nat.two_pow_pos bits)
  have hhalf : ((((2 : Nat) ^ bits : Nat) : Int) + 1) / 2 = (2 : Int) ^ (bits - 1) := by
    rw [hpow]
    push_cast
    omega
  rwa [hhalf] at hlt

theorem firstCapacity_lt {bits : Nat} (hfits : 6 < bits) : (32 : Int) < 2 ^ (bits - 1) :=
  calc
    (32 : Int) < 2 ^ 6 := by norm_num
    _ ≤ 2 ^ (bits - 1) := pow_le_pow_right₀ (by norm_num) (by omega)

/-- What is less than twice the limit is kept, or becomes negative. -/
theorem wrapInt_eq_or_neg {bits : Nat} (hbits : 0 < bits) {x : Int} (h0 : 0 ≤ x)
    (hx : x < 2 * 2 ^ (bits - 1)) : wrapInt bits x = x ∨ wrapInt bits x < 0 := by
  have hpow : (2 : Int) ^ bits = 2 * 2 ^ (bits - 1) := by
    rw [← pow_succ', Nat.sub_add_cancel (by omega)]
  by_cases hfits : x < 2 ^ (bits - 1)
  · exact .inl (wrapInt_of_lt hbits h0 hfits)
  · right
    unfold wrapInt
    rw [Int.bmod_def]
    push_cast
    rw [Int.emod_eq_of_lt h0 (by omega), if_neg (by omega)]
    omega

/-- A capacity that is doubled in the index type grows, unless it has become
negative. -/
theorem lt_wrapInt_double {bits : Nat} (hbits : 0 < bits) {n : Int} (hn : 0 < n)
    (hlt : n < 2 ^ (bits - 1)) (hpos : 0 ≤ wrapInt bits (2 * n)) : n < wrapInt bits (2 * n) := by
  rcases wrapInt_eq_or_neg hbits (show 0 ≤ 2 * n by omega) (by omega) with heq | hneg
  · rw [heq]
    omega
  · omega

namespace BmapArrays

/-- The block behind a pointer to a map, with the block of its keys. -/
structure Table (K V : Type) where
  count : Nat
  capacity : Int
  keys : List (Option K)
  values : List (Option V)
  deriving DecidableEq

abbrev Ptr (K V : Type) := BlockPtr (Table K V)

variable {K V U : Type} (c : KvsLayout)

/-- The request for header and values. -/
def valuesBytes (newCapacity : Int) : Int :=
  c.header + wrapInt c.bits (c.sizeofValue * newCapacity)

/-- The request for the keys. -/
def keysBytes (newCapacity : Int) : Int :=
  c.sizeofKey * newCapacity

/-- What `kvs_realloc` finds behind the pointer; `count` and `keys` of a new block
are initialised to 0 and `NULL`. -/
def oldTable : Ptr K V → Table K V
  | .live t => t
  | _ => { count := 0, capacity := 0, keys := [], values := [] }

/-- The first block after `mem_realloc` has granted the request for it. -/
def newTable (bmap : Ptr K V) (newCapacity : Int) : Table K V where
  count := (oldTable bmap).count
  capacity := newCapacity
  keys := (oldTable bmap).keys
  values := Cells.resize (oldTable bmap).values
    (wrapInt c.bits (c.sizeofValue * newCapacity) / c.sizeofValue).toNat

/-- The caller's pointer when the second request is refused.  The first block is
not given back: the pointer still refers to it, unless the block has moved or is
new. -/
def halfGrown (bmap : Ptr K V) (granted : ReallocReply) (newBmap : Table K V) : Ptr K V :=
  match bmap with
  | .null => .null
  | _ => if granted = .moved then .dangling else .live newBmap

/-- `kvs_realloc`, with `true` for 0. -/
def kvsRealloc (bmap : Ptr K V) (newCapacity : Int) (replies : KvsReplies) :
    Except Fault (Ptr K V × Bool) :=
  match bmap with
  | .dangling => .error .danglingMap
  | _ =>
      if newCapacity = 0 then .ok (.null, true)
      else
        match reallocAnswer (valuesBytes c newCapacity) replies.values with
        | .refused => .ok (bmap.afterRefusal (valuesBytes c newCapacity), false)
        | granted =>
            -- the count of bytes has wrapped, and the block has no room for the capacity
            if valuesBytes c newCapacity < c.header then .error .outOfBlock
            else
              match reallocAnswer (keysBytes c newCapacity) replies.keys with
              | .refused => .ok (halfGrown bmap granted (newTable c bmap newCapacity), false)
              | _ =>
                  .ok (.live { newTable c bmap newCapacity with
                    keys := Cells.resize (oldTable bmap).keys newCapacity.toNat }, true)

/-- There is no block yet, or no place in it. -/
def isFull : Ptr K V → Bool
  | .null => true
  | .live t => decide ((t.count : Int) = t.capacity)
  | .dangling => false

/-- The capacity that `kvs_emplace` asks for. -/
def growCapacity : Ptr K V → Int
  | .live t => wrapInt c.bits (2 * t.capacity)
  | _ => 32

/-- The growing of `kvs_emplace`. -/
def makeRoom (bmap : Ptr K V) (replies : KvsReplies) : Except Fault (Ptr K V × Bool) :=
  if isFull bmap then kvsRealloc c bmap (growCapacity c bmap) replies else .ok (bmap, true)

/-- The two `memmove`s of `kvs_emplace`, and the write of the key. -/
def openGap (t : Table K V) (idx : Nat) (key : K) : Except Fault (Table K V) := do
  let keys ← accessed (Cells.move t.keys (idx + 1) idx (t.count - idx))
  let values ← accessed (Cells.move t.values (idx + 1) idx (t.count - idx))
  let keys ← accessed (Cells.store keys idx key)
  return { t with count := t.count + 1, keys := keys, values := values }

/-- `kvs_emplace`, with `true` for a pointer to the value of the new key, which its
caller has to write, and `false` for `NULL`. -/
def kvsEmplace (bmap : Ptr K V) (idx : Nat) (key : K) (replies : KvsReplies) :
    Except Fault (Ptr K V × Bool) := do
  let (bmap, ok) ← makeRoom c bmap replies
  if ok then
    match bmap with
    | .null => .error .nullMap
    | .dangling => .error .danglingMap
    | .live t => return (.live (← openGap t idx key), true)
  else return (bmap, false)

/-- `kvs_erase`. -/
def kvsErase (t : Table K V) (idx : Nat) : Except Fault (Table K V) := do
  let keys ← accessed (Cells.move t.keys idx (idx + 1) (t.count - 1 - idx))
  let values ← accessed (Cells.move t.values idx (idx + 1) (t.count - 1 - idx))
  return { t with count := t.count - 1, keys := keys, values := values }

/-- Read through the pointer to a value. -/
def readValue (bmap : Ptr K V) (idx : Nat) : Except Fault V :=
  match bmap with
  | .live t => accessed (Cells.load t.values idx)
  | _ => .error .danglingMap

/-- Write through the pointer to a value. -/
def writeValue (bmap : Ptr K V) (idx : Nat) (value : V) : Except Fault (Ptr K V) :=
  match bmap with
  | .live t => do
      let values ← accessed (Cells.store t.values idx value)
      return .live { t with values := values }
  | _ => .error .danglingMap

/-- A callback of `retain`: from the key, the value and what `user` points to, its
answer and what it leaves in the two. -/
abbrev OnElement (K V U : Type) := K → V → U → Int × V × U

/-- The loop of `retain`.  A turn either steps on or erases, so there are no more
turns than elements. -/
def retainLoop (onElement : OnElement K V U) :
    Nat → Nat → Table K V → U → Except Fault (Table K V × Int × U)
  | 0, _, t, user => .ok (t, 0, user)
  | fuel + 1, i, t, user =>
      if i ≠ t.count then do
        let key ← accessed (Cells.load t.keys i)
        let value ← accessed (Cells.load t.values i)
        let (result, value, user) := onElement key value user
        let values ← accessed (Cells.store t.values i value)
        let t : Table K V := { t with values := values }
        if result < 0 then return (t, result, user)
        else if result ≠ 0 then retainLoop onElement fuel i (← kvsErase t i) user
        else retainLoop onElement fuel (i + 1) t user
      else .ok (t, 0, user)

/-- `retain`. -/
def retain (bmap : Ptr K V) (onElement : OnElement K V U) (user : U) :
    Except Fault (Ptr K V × Int × U) :=
  match bmap with
  | .null => .ok (.null, 0, user)
  | .dangling => .error .danglingMap
  | .live t => do
      let (t, result, user) ← retainLoop onElement t.count 0 t user
      return (.live t, result, user)

/-- `compact`. -/
def compact (bmap : Ptr K V) (replies : KvsReplies) : Except Fault (Ptr K V) := do
  let (bmap, _) ← kvsRealloc c bmap (oldTable bmap).count replies
  return bmap

/-- The turns of `bmap_for_each` that are left, from an index on. -/
def forEachFrom (t : Table K V) : Nat → Nat → Except Fault (List (K × V))
  | 0, _ => .ok []
  | turns + 1, idx => do
      let key ← accessed (Cells.load t.keys idx)
      let value ← accessed (Cells.load t.values idx)
      return (key, value) :: (← forEachFrom t turns (idx + 1))

/-- The entries that `bmap_for_each` visits. -/
def forEach (bmap : Ptr K V) : Except Fault (List (K × V)) :=
  match bmap with
  | .null => .ok []
  | .dangling => .error .danglingMap
  | .live t => forEachFrom t t.count 0

variable [LinearOrder K]

/-- The loop of `lower_bound`, with `len` keys from `found` on left. -/
def lowerBoundLoop (keys : List (Option K)) (key : K) : Nat → Nat → Nat → Except Fault Nat
  | 0, found, _ => .ok found
  | fuel + 1, found, len =>
      if len > 0 then
        let half := len / 2
        match Cells.load keys (found + half) with
        | none => .error .outOfBlock
        | some k =>
            if k < key then lowerBoundLoop keys key fuel (found + half + 1) (len - half - 1)
            else lowerBoundLoop keys key fuel found half
      else .ok found

/-- `lower_bound`. -/
def lowerBound (bmap : Ptr K V) (key : K) : Except Fault Nat :=
  match bmap with
  | .null => .ok 0
  | .live t => lowerBoundLoop t.keys key t.count 0 t.count
  | .dangling => .error .danglingMap

/-- The key is the one at the index that the search has found. -/
def hasKey (bmap : Ptr K V) (idx : Nat) (key : K) : Except Fault Bool :=
  match bmap with
  | .null => .ok false
  | .dangling => .error .danglingMap
  | .live t =>
      if idx < t.count then do
        let k ← accessed (Cells.load t.keys idx)
        return decide (key = k)
      else .ok false

/-- `emplace_new`.  The index stands for the pointer to the value that it hands
out. -/
def emplaceNew (bmap : Ptr K V) (key : K) (replies : KvsReplies) :
    Except Fault (Ptr K V × BmapStatus × Option Nat) := do
  let idx ← lowerBound bmap key
  if ← hasKey bmap idx key then return (bmap, .present, none)
  else do
    let (bmap, ok) ← kvsEmplace c bmap idx key replies
    if ok then return (bmap, .new, some idx) else return (bmap, .oom, none)

/-- `emplace_or_get`, which also hands out a value that is there. -/
def emplaceOrGet (bmap : Ptr K V) (key : K) (replies : KvsReplies) :
    Except Fault (Ptr K V × BmapStatus × Option Nat) := do
  let idx ← lowerBound bmap key
  if ← hasKey bmap idx key then return (bmap, .present, some idx)
  else do
    let (bmap, ok) ← kvsEmplace c bmap idx key replies
    if ok then return (bmap, .new, some idx) else return (bmap, .oom, none)

/-- `insert_new`. -/
def insertNew (bmap : Ptr K V) (key : K) (value : V) (replies : KvsReplies) :
    Except Fault (Ptr K V × BmapStatus) := do
  let (bmap, status, slot) ← emplaceNew c bmap key replies
  match slot with
  | some idx => return (← writeValue bmap idx value, status)
  | none => return (bmap, status)

/-- `insert_update`. -/
def insertUpdate (bmap : Ptr K V) (key : K) (value : V) (replies : KvsReplies) :
    Except Fault (Ptr K V × BmapStatus) := do
  let (bmap, status, slot) ← emplaceOrGet c bmap key replies
  match slot with
  | some idx => return (← writeValue bmap idx value, status)
  | none => return (bmap, status)

/-- A call of `emplace_or_get` whose caller initialises a new value and reads one
that was there. -/
def getOrInsert (bmap : Ptr K V) (key : K) (value : V) (replies : KvsReplies) :
    Except Fault (Ptr K V × BmapStatus × Option V) := do
  let (bmap, status, slot) ← emplaceOrGet c bmap key replies
  match status, slot with
  | .new, some idx => return (← writeValue bmap idx value, status, some value)
  | _, some idx => return (bmap, status, some (← readValue bmap idx))
  | _, none => return (bmap, status, none)

/-- `erase`. -/
def erase (bmap : Ptr K V) (key : K) : Except Fault (Ptr K V × Bool) := do
  let idx ← lowerBound bmap key
  if ← hasKey bmap idx key then
    match bmap with
    | .live t => return (.live (← kvsErase t idx), true)
    | _ => return (bmap, false)
  else return (bmap, false)

/-- `find`. -/
def find (bmap : Ptr K V) (key : K) : Except Fault (Option V) := do
  let idx ← lowerBound bmap key
  if ← hasKey bmap idx key then return some (← readValue bmap idx)
  else return none

end BmapArrays

end Clither
