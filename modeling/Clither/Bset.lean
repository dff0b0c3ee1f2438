import Clither.BmapRefines
import Mathlib.Data.Set.Insert

/-!
# The binary-search set

`BSET_DECLARE` generates a set over one sorted array, in the same block as `count`
and `capacity`.  Its functions are those of a map without the values, and so are
the lemmas: `Stands` says that a pointer stands for a sorted array of keys, and
`calls_refine` follows every sequence of calls against the specification
`SetCall`.
-/

namespace Clither.Bset

/-- The arguments of one `BSET_DECLARE`: the width of the index type, the offset of
`keys` and `sizeof(K)`. -/
structure Layout where
  bits : Nat
  header : Nat
  sizeofKey : Nat
  /-- The first capacity, which is 32, is a value of the index type. -/
  fits : 6 < bits
  sizeofKey_pos : 0 < sizeofKey

/-- The block behind a pointer to a set. -/
structure Table (K : Type) where
  count : Nat
  capacity : Int
  keys : List (Option K)
  deriving DecidableEq

abbrev Ptr (K : Type) := BlockPtr (Table K)

variable {K U : Type} (c : Layout)

/-- What `kvs_realloc` finds behind the pointer. -/
def oldTable : Ptr K → Table K
  | .live t => t
  | _ => { count := 0, capacity := 0, keys := [] }

/-- The request for header and keys. -/
def keysBytes (newCapacity : Int) : Int :=
  c.header + wrapInt c.bits (c.sizeofKey * newCapacity)

/-- `kvs_realloc`, with `true` for 0. -/
def kvsRealloc (bset : Ptr K) (newCapacity : Int) (reply : ReallocReply) :
    Except Fault (Ptr K × Bool) :=
  match bset with
  | .dangling => .error .danglingMap
  | _ =>
      if newCapacity = 0 then .ok (.null, true)
      else
        match reallocAnswer (keysBytes c newCapacity) reply with
        | .refused => .ok (bset.afterRefusal (keysBytes c newCapacity), false)
        | _ =>
            -- the count of bytes has wrapped, and the block has no room for the capacity
            if keysBytes c newCapacity < c.header then .error .outOfBlock
            else
              .ok (.live
                { count := (oldTable bset).count
                  capacity := newCapacity
                  keys := Cells.resize (oldTable bset).keys
                    (wrapInt c.bits (c.sizeofKey * newCapacity) / c.sizeofKey).toNat }, true)

/-- There is no block yet, or no place in it. -/
def isFull : Ptr K → Bool
  | .null => true
  | .live t => decide ((t.count : Int) = t.capacity)
  | .dangling => false

/-- The capacity that `kvs_insert` asks for. -/
def growCapacity : Ptr K → Int
  | .live t => wrapInt c.bits (2 * t.capacity)
  | _ => 32

/-- The growing of `kvs_insert`. -/
def makeRoom (bset : Ptr K) (reply : ReallocReply) : Except Fault (Ptr K × Bool) :=
  if isFull bset then kvsRealloc c bset (growCapacity c bset) reply else .ok (bset, true)

/-- The `memmove` of `kvs_insert`, and the write of the key. -/
def openGap (t : Table K) (idx : Nat) (key : K) : Except Fault (Table K) := do
  let keys ← accessed (Cells.move t.keys (idx + 1) idx (t.count - idx))
  let keys ← accessed (Cells.store keys idx key)
  return { t with count := t.count + 1, keys := keys }

/-- `kvs_insert`, with `true` for 0. -/
def kvsInsert (bset : Ptr K) (idx : Nat) (key : K) (reply : ReallocReply) :
    Except Fault (Ptr K × Bool) := do
  let (bset, ok) ← makeRoom c bset reply
  if ok then
    match bset with
    | .null => .error .nullMap
    | .dangling => .error .danglingMap
    | .live t => return (.live (← openGap t idx key), true)
  else return (bset, false)

/-- `kvs_erase`. -/
def kvsErase (t : Table K) (idx : Nat) : Except Fault (Table K) := do
  let keys ← accessed (Cells.move t.keys idx (idx + 1) (t.count - 1 - idx))
  return { t with count := t.count - 1, keys := keys }

/-- A callback of `retain`: from the key and what `user` points to, its answer and
what it leaves there. -/
abbrev OnElement (K U : Type) := K → U → Int × U

/-- The loop of `retain`. -/
def retainLoop (onElement : OnElement K U) :
    Nat → Nat → Table K → U → Except Fault (Table K × Int × U)
  | 0, _, t, user => .ok (t, 0, user)
  | fuel + 1, i, t, user =>
      if i ≠ t.count then do
        let key ← accessed (Cells.load t.keys i)
        let (result, user) := onElement key user
        if result < 0 then return (t, result, user)
        else if result ≠ 0 then retainLoop onElement fuel i (← kvsErase t i) user
        else retainLoop onElement fuel (i + 1) t user
      else .ok (t, 0, user)

/-- `retain`. -/
def retain (bset : Ptr K) (onElement : OnElement K U) (user : U) :
    Except Fault (Ptr K × Int × U) :=
  match bset with
  | .null => .ok (.null, 0, user)
  | .dangling => .error .danglingMap
  | .live t => do
      let (t, result, user) ← retainLoop onElement t.count 0 t user
      return (.live t, result, user)

/-- `compact`. -/
def compact (bset : Ptr K) (reply : ReallocReply) : Except Fault (Ptr K) := do
  let (bset, _) ← kvsRealloc c bset (oldTable bset).count reply
  return bset

/-- The turns of `bset_for_each` that are left, from an index on. -/
def forEachFrom (t : Table K) : Nat → Nat → Except Fault (List K)
  | 0, _ => .ok []
  | turns + 1, idx => do
      let key ← accessed (Cells.load t.keys idx)
      return key :: (← forEachFrom t turns (idx + 1))

/-- The keys that `bset_for_each` visits. -/
def forEach (bset : Ptr K) : Except Fault (List K) :=
  match bset with
  | .null => .ok []
  | .dangling => .error .danglingMap
  | .live t => forEachFrom t t.count 0

section Search

variable [LinearOrder K]

/-- `lower_bound`. -/
def lowerBound (bset : Ptr K) (key : K) : Except Fault Nat :=
  match bset with
  | .null => .ok 0
  | .dangling => .error .danglingMap
  | .live t => BmapArrays.lowerBoundLoop t.keys key t.count 0 t.count

/-- The key is the one at the index that the search has found. -/
def hasKey (bset : Ptr K) (idx : Nat) (key : K) : Except Fault Bool :=
  match bset with
  | .null => .ok false
  | .dangling => .error .danglingMap
  | .live t =>
      if idx < t.count then do
        let k ← accessed (Cells.load t.keys idx)
        return decide (key = k)
      else .ok false

/-- `insert`. -/
def insert (bset : Ptr K) (key : K) (reply : ReallocReply) :
    Except Fault (Ptr K × BmapStatus) := do
  let idx ← lowerBound bset key
  if ← hasKey bset idx key then return (bset, .present)
  else do
    let (bset, ok) ← kvsInsert c bset idx key reply
    if ok then return (bset, .new) else return (bset, .oom)

/-- `erase`. -/
def erase (bset : Ptr K) (key : K) : Except Fault (Ptr K × Bool) := do
  let idx ← lowerBound bset key
  if ← hasKey bset idx key then
    match bset with
    | .live t => return (.live (← kvsErase t idx), true)
    | _ => return (bset, false)
  else return (bset, false)

/-- `find`. -/
def find (bset : Ptr K) (key : K) : Except Fault Bool := do
  let idx ← lowerBound bset key
  hasKey bset idx key

end Search

/-! ## What the block holds -/

/-- The block holds the keys, and has room up to the capacity. -/
structure Stored (c : Layout) (t : Table K) (keys : List K) : Prop where
  count : t.count = keys.length
  holds : Cells.Holds t.keys keys
  pos : 0 < t.capacity
  fits : t.capacity < 2 ^ (c.bits - 1)
  count_le : (keys.length : Int) ≤ t.capacity
  room : t.capacity ≤ t.keys.length

variable {c}

/-- Erasing a slot takes its key out of the list. -/
theorem kvsErase_stored {t : Table K} {before behind : List K} {key : K}
    (h : Stored c t (before ++ key :: behind)) :
    ∃ t', kvsErase t before.length = .ok t' ∧ Stored c t' (before ++ behind) := by
  have hlen : t.count = before.length + behind.length + 1 := by
    rw [h.count, List.length_append, List.length_cons]
    omega
  have hcount := h.count_le
  have hroom := h.room
  rw [List.length_append, List.length_cons] at hcount
  obtain ⟨keys, hmove, hholds, hlenKeys⟩ := h.holds.erase
  refine ⟨{ t with count := t.count - 1, keys := keys }, ?_, ?_⟩
  · rw [kvsErase, show t.count - 1 - before.length = behind.length by omega, hmove]
    rfl
  · exact
      { count := by
          show t.count - 1 = _
          rw [hlen, List.length_append]
          omega
        holds := hholds
        pos := h.pos
        fits := h.fits
        count_le := by
          show _ ≤ t.capacity
          rw [List.length_append]
          omega
        room := by
          show t.capacity ≤ keys.length
          omega }

/-- What `retain` is for: the callback sees the keys in order.  Those it answers with
0 are kept; a negative answer ends it, with that key and all behind it still
there. -/
def retained (onElement : OnElement K U) : List K → U → List K × Int × U
  | [], user => ([], 0, user)
  | key :: rest, user =>
      let (result, user) := onElement key user
      if result < 0 then (key :: rest, result, user)
      else
        let (kept, last, user) := retained onElement rest user
        (if result = 0 then key :: kept else kept, last, user)

/-- What is retained is a sublist of the keys. -/
theorem retained_sublist (onElement : OnElement K U) (keys : List K) (user : U) :
    (retained onElement keys user).1.Sublist keys := by
  induction keys generalizing user with
  | nil => exact .slnil
  | cons key rest ih =>
      simp only [retained]
      by_cases hneg : (onElement key user).1 < 0
      · rw [if_pos hneg]
      · rw [if_neg hneg]
        dsimp only
        by_cases hkeep : (onElement key user).1 = 0
        · rw [if_pos hkeep]
          exact (ih _).cons_cons key
        · rw [if_neg hkeep]
          exact (ih _).cons key

/-- The loop has kept the keys before its index, and does to the others what
`retained` says. -/
theorem retainLoop_stored (onElement : OnElement K U) (rest : List K) :
    ∀ (kept : List K) {t : Table K} (user : U), Stored c t (kept ++ rest) →
      ∃ t', retainLoop onElement rest.length kept.length t user =
          .ok (t', (retained onElement rest user).2) ∧
        Stored c t' (kept ++ (retained onElement rest user).1) := by
  induction rest with
  | nil =>
      intro kept t user h
      exact ⟨t, rfl, h⟩
  | cons key rest ih =>
      intro kept t user h
      have hcount : kept.length ≠ t.count := by
        rw [h.count, List.length_append, List.length_cons]
        omega
      have hkey : Cells.load t.keys kept.length = some key := by
        rw [h.holds.load (by simp)]
        simp
      rw [List.length_cons, retainLoop, if_pos hcount, hkey]
      simp only [BmapArrays.accessed_some, ok_bind, retained]
      by_cases hneg : (onElement key user).1 < 0
      · rw [if_pos hneg, if_pos hneg]
        exact ⟨t, rfl, h⟩
      · rw [if_neg hneg, if_neg hneg]
        dsimp only
        by_cases hkeep : (onElement key user).1 = 0
        · rw [if_neg (by simpa using hkeep), if_pos hkeep]
          have hnext := ih (kept ++ [key]) (onElement key user).2 (by rwa [List.append_assoc])
          rw [List.length_append, List.length_singleton] at hnext
          simpa only [List.append_assoc, List.singleton_append] using hnext
        · rw [if_pos (by simpa using hkeep), if_neg hkeep]
          obtain ⟨t', herase, herased⟩ := kvsErase_stored h
          rw [herase]
          exact ih kept (onElement key user).2 herased

/-- The turns that are left visit the keys that are left. -/
theorem forEachFrom_eq {t : Table K} {keys : List K} (h : Stored c t keys) {turns idx : Nat}
    (hturns : idx + turns = keys.length) : forEachFrom t turns idx = .ok (keys.drop idx) := by
  induction turns generalizing idx with
  | zero => rw [List.drop_of_length_le (by omega)]; rfl
  | succ turns ih =>
      have hin : idx < keys.length := by omega
      rw [forEachFrom, h.holds.load hin, List.getElem?_eq_getElem hin]
      simp only [BmapArrays.accessed_some, ok_bind, ih (show idx + 1 + turns = keys.length by omega)]
      rw [List.drop_eq_getElem_cons hin]
      rfl

/-- The request for a capacity is as large as it takes, and is granted. -/
def Succeeds (c : Layout) (newCapacity : Int) (reply : ReallocReply) : Prop :=
  c.header + c.sizeofKey * newCapacity ≤ keysBytes c newCapacity ∧ reply ≠ .refused

instance (newCapacity : Int) (reply : ReallocReply) : Decidable (Succeeds c newCapacity reply) :=
  inferInstanceAs (Decidable (_ ∧ _))

/-- The keys that a pointer stands for. -/
def Holding (c : Layout) : Ptr K → List K → Prop
  | .null, keys => keys = []
  | .live t, keys => Stored c t keys
  | .dangling, _ => False

/-- **Growing keeps the keys.** -/
theorem kvsRealloc_stored {bset : Ptr K} {keys : List K} (h : Holding c bset keys)
    {newCapacity : Int} {reply : ReallocReply} (hpos : 0 < newCapacity)
    (hfits : newCapacity < 2 ^ (c.bits - 1)) (hroom : keys.length ≤ newCapacity)
    (hsucceeds : Succeeds c newCapacity reply) :
    ∃ t, kvsRealloc c bset newCapacity reply = .ok (.live t, true) ∧ Stored c t keys ∧
      t.capacity = newCapacity := by
  obtain ⟨hexact, hreply⟩ := hsucceeds
  have hsize := c.sizeofKey_pos
  have hbits : 0 < c.bits := Nat.lt_trans (by decide) c.fits
  have hdata : wrapInt c.bits (c.sizeofKey * newCapacity) = c.sizeofKey * newCapacity := by
    have hlt := wrapInt_lt hbits (c.sizeofKey * newCapacity)
    rw [keysBytes] at hexact
    exact wrapInt_of_lt hbits (by positivity) (by omega)
  have hcells : (c.sizeofKey * newCapacity / c.sizeofKey : Int) = newCapacity :=
    Int.mul_ediv_cancel_left _ (by omega)
  have hanswer : reallocAnswer (keysBytes c newCapacity) reply = reply :=
    BmapArrays.reallocAnswer_of_nonneg (by rw [keysBytes, hdata]; positivity) _
  have hheader : ¬ keysBytes c newCapacity < c.header := by
    rw [keysBytes, hdata]
    have : (0 : Int) ≤ c.sizeofKey * newCapacity := by positivity
    omega
  have hold : (oldTable bset).count = keys.length ∧ Cells.Holds (oldTable bset).keys keys := by
    cases bset with
    | dangling => exact h.elim
    | null =>
        rw [show keys = [] from h]
        exact ⟨rfl, Cells.holds_nil _⟩
    | live t => exact ⟨Stored.count h, Stored.holds h⟩
  obtain ⟨hcount, hholds⟩ := hold
  refine ⟨{ count := (oldTable bset).count
            capacity := newCapacity
            keys := Cells.resize (oldTable bset).keys newCapacity.toNat }, ?_, ?_, rfl⟩
  · have hne : newCapacity ≠ 0 := by omega
    cases bset with
    | dangling => exact h.elim
    | null => simp only [kvsRealloc, if_neg hne, if_neg hheader, hanswer, hdata, hcells]
    | live t => simp only [kvsRealloc, if_neg hne, if_neg hheader, hanswer, hdata, hcells]
  · exact
      { count := hcount
        holds := hholds.resize (by omega)
        pos := hpos
        fits := hfits
        count_le := hroom
        room := by
          show newCapacity ≤ (Cells.resize _ _).length
          rw [Cells.length_resize]
          omega }

/-- The grown capacity fits the capacity type. -/
theorem growCapacity_lt {bset : Ptr K} : growCapacity c bset < 2 ^ (c.bits - 1) := by
  cases bset with
  | live t => exact wrapInt_lt (Nat.lt_trans (by decide) c.fits) _
  | null => exact firstCapacity_lt c.fits
  | dangling => exact firstCapacity_lt c.fits

/-- A call that inserts finds room or makes it. -/
def HasRoom (c : Layout) (bset : Ptr K) (reply : ReallocReply) : Prop :=
  isFull bset = true → 0 < growCapacity c bset ∧ Succeeds c (growCapacity c bset) reply

instance (bset : Ptr K) (reply : ReallocReply) : Decidable (HasRoom c bset reply) :=
  inferInstanceAs (Decidable (_ → _ ∧ _))

/-- A full set grows to more than its keys. -/
theorem length_lt_growCapacity {bset : Ptr K} {keys : List K} (h : Holding c bset keys)
    (hfull : isFull bset = true) (hpos : 0 < growCapacity c bset) :
    (keys.length : Int) < growCapacity c bset := by
  cases bset with
  | dangling => exact h.elim
  | null =>
      rw [show keys = [] from h]
      exact (by decide : (0 : Int) < 32)
  | live t =>
      have hstored : Stored c t keys := h
      have hcount : (t.count : Int) = t.capacity := of_decide_eq_true hfull
      rw [← hstored.count, hcount]
      exact lt_wrapInt_double (Nat.lt_trans (by decide) c.fits) hstored.pos hstored.fits (Int.le_of_lt hpos)

/-- With room, one more slot is there and the keys are the same. -/
theorem makeRoom_stored {bset : Ptr K} {keys : List K} (h : Holding c bset keys)
    {reply : ReallocReply} (hroom : HasRoom c bset reply) :
    ∃ t, makeRoom c bset reply = .ok (.live t, true) ∧ Stored c t keys ∧
      (t.count : Int) < t.capacity := by
  rw [makeRoom]
  by_cases hfull : isFull bset = true
  · obtain ⟨hpos, hsucceeds⟩ := hroom hfull
    have hlt := length_lt_growCapacity h hfull hpos
    obtain ⟨t, hrealloc, hstored, hcapacity⟩ :=
      kvsRealloc_stored h hpos growCapacity_lt (Int.le_of_lt hlt) hsucceeds
    refine ⟨t, by rw [if_pos hfull, hrealloc], hstored, ?_⟩
    rw [hstored.count, hcapacity]
    exact hlt
  · rw [if_neg hfull]
    cases bset with
    | dangling => exact h.elim
    | null => exact absurd rfl hfull
    | live t =>
        have hstored : Stored c t keys := h
        have hle := hstored.count_le
        rw [← hstored.count] at hle
        exact ⟨t, rfl, hstored, lt_of_le_of_ne hle fun heq => hfull (decide_eq_true heq)⟩

/-- Opening a gap puts the key between the keys before and behind it. -/
theorem openGap_stored {t : Table K} {before behind : List K}
    (h : Stored c t (before ++ behind)) (hroom : (t.count : Int) < t.capacity) (key : K) :
    ∃ t', openGap t before.length key = .ok t' ∧ Stored c t' (before ++ key :: behind) := by
  have hlen : t.count = before.length + behind.length := by
    rw [h.count, List.length_append]
  have hcells := h.room
  obtain ⟨moved, hmove, hwrite⟩ := h.holds.insert (by
    rw [List.length_append]
    omega)
  obtain ⟨keys, hstore, hholds, hlenKeys⟩ := hwrite key
  refine ⟨{ t with count := t.count + 1, keys := keys }, ?_, ?_⟩
  · rw [openGap, show t.count - before.length = behind.length by omega, hmove]
    simp only [BmapArrays.accessed_some, ok_bind, hstore]
    rfl
  · exact
      { count := by
          show t.count + 1 = _
          rw [hlen, List.length_append, List.length_cons]
          omega
        holds := hholds
        pos := h.pos
        fits := h.fits
        count_le := by
          show _ ≤ t.capacity
          rw [List.length_append, List.length_cons]
          omega
        room := by
          show t.capacity ≤ keys.length
          omega }

/-- `kvs_insert` at a place between the keys. -/
theorem kvsInsert_stored {bset : Ptr K} {before behind : List K}
    (h : Holding c bset (before ++ behind)) {reply : ReallocReply} (hroom : HasRoom c bset reply)
    (key : K) :
    ∃ t, kvsInsert c bset before.length key reply = .ok (.live t, true) ∧
      Stored c t (before ++ key :: behind) := by
  obtain ⟨t, hgrow, hstored, hlt⟩ := makeRoom_stored h hroom
  obtain ⟨t', hgap, hstored'⟩ := openGap_stored hstored hlt key
  refine ⟨t', ?_, hstored'⟩
  rw [kvsInsert, hgrow]
  simp only [ok_bind, if_true, hgap]
  rfl

/-- A call of `compact` whose request is granted. -/
def CompactSucceeds (c : Layout) (bset : Ptr K) (reply : ReallocReply) : Prop :=
  (oldTable bset).count ≠ 0 → Succeeds c (oldTable bset).count reply

instance (bset : Ptr K) (reply : ReallocReply) : Decidable (CompactSucceeds c bset reply) :=
  inferInstanceAs (Decidable (_ → _))

/-- A compaction that gets its memory changes no key. -/
theorem compact_stored {bset : Ptr K} {keys : List K} (h : Holding c bset keys)
    {reply : ReallocReply} (hsucceeds : CompactSucceeds c bset reply) :
    ∃ bset', compact c bset reply = .ok bset' ∧ Holding c bset' keys := by
  have hold : (oldTable bset).count = keys.length ∧
      ((oldTable bset).count : Int) < 2 ^ (c.bits - 1) := by
    cases bset with
    | dangling => exact h.elim
    | null =>
        rw [show keys = [] from h]
        exact ⟨rfl, by show (0 : Int) < _; positivity⟩
    | live t =>
        have hstored : Stored c t keys := h
        have hle := hstored.count_le
        rw [← hstored.count] at hle
        exact ⟨hstored.count, lt_of_le_of_lt hle hstored.fits⟩
  obtain ⟨hcount, hfits⟩ := hold
  rw [compact]
  by_cases hzero : (oldTable bset).count = 0
  · refine ⟨.null, ?_, List.length_eq_zero_iff.mp (hcount.symm.trans hzero)⟩
    rw [hzero]
    cases bset with
    | dangling => exact h.elim
    | null => rfl
    | live t => rfl
  · obtain ⟨t, hrealloc, hstored, -⟩ := kvsRealloc_stored h (by omega) hfits (by omega) (hsucceeds hzero)
    refine ⟨.live t, ?_, hstored⟩
    rw [hrealloc]
    rfl

/-! ## The operations -/

variable [LinearOrder K]

/-- The pointer stands for a sorted array of keys. -/
def Stands (c : Layout) (bset : Ptr K) (m : SortedArray K Unit) : Prop :=
  Holding c bset m.keys

/-- `lower_bound` returns the position the sorted array gives the key. -/
theorem lowerBound_eq {bset : Ptr K} {m : SortedArray K Unit} (h : Stands c bset m) (key : K) :
    lowerBound bset key = .ok (m.lowerBound key) := by
  cases bset with
  | dangling => exact h.elim
  | null =>
      rw [SortedArray.lowerBound, List.map_eq_nil_iff.mp (show m.keys = [] from h)]
      rfl
  | live t =>
      have hstored : Stored c t m.keys := h
      have hcount : t.count = m.entries.length := by
        rw [hstored.count]
        exact List.length_map _
      rw [lowerBound, hcount]
      exact BmapArrays.lowerBoundLoop_eq hstored.holds key (by omega)

/-- The comparison behind the search finds the key exactly when it is in the set. -/
theorem hasKey_eq {bset : Ptr K} {m : SortedArray K Unit} (h : Stands c bset m) (key : K) :
    hasKey bset (m.lowerBound key) key = .ok (m.find key).isSome := by
  cases bset with
  | dangling => exact h.elim
  | null =>
      rw [SortedArray.find, List.map_eq_nil_iff.mp (show m.keys = [] from h)]
      rfl
  | live t =>
      have hstored : Stored c t m.keys := h
      have hcount : t.count = m.entries.length := by
        rw [hstored.count]
        exact List.length_map _
      rw [hasKey, SortedArray.find, hcount]
      by_cases hin : m.lowerBound key < m.entries.length
      · rw [if_pos hin, hstored.holds.load (by rw [← hstored.count, hcount]; exact hin),
          SortedArray.keys, List.getElem?_map, List.getElem?_eq_getElem hin]
        by_cases hkey : m.entries[m.lowerBound key].1 = key
        · simp [hkey]
        · simp [hkey, Ne.symm hkey]
      · rw [if_neg hin, List.getElem?_eq_none (Nat.le_of_not_lt hin)]
        rfl

/-- `find` answers whether the key is in the set. -/
theorem find_eq {bset : Ptr K} {m : SortedArray K Unit} (h : Stands c bset m) (key : K) :
    find bset key = .ok (m.find key).isSome := by
  rw [find, lowerBound_eq h]
  exact hasKey_eq h key

/-- Inserting a key of the set changes nothing. -/
theorem insert_present {bset : Ptr K} {m : SortedArray K Unit} (h : Stands c bset m) {key : K}
    (hfind : m.find key = some ()) (reply : ReallocReply) :
    insert c bset key reply = .ok (bset, .present) := by
  rw [insert, lowerBound_eq h]
  simp only [ok_bind, hasKey_eq h, hfind]
  rfl

/-- Inserting a new key puts it at its place. -/
theorem insert_absent {bset : Ptr K} {m : SortedArray K Unit} (h : Stands c bset m) {key : K}
    (hfind : m.find key = none) {reply : ReallocReply} (hroom : HasRoom c bset reply) :
    ∃ bset', insert c bset key reply = .ok (bset', .new) ∧ Stands c bset' (m.insert key ()) := by
  obtain ⟨before, behind, hentries, hidx, -, -⟩ := m.exists_split key
  have hkeys : m.keys = before.map Prod.fst ++ behind.map Prod.fst := by
    rw [SortedArray.keys, hentries, List.map_append]
  have hholding : Holding c bset m.keys := h
  rw [hkeys] at hholding
  obtain ⟨t, hinsert, hstored⟩ := kvsInsert_stored hholding hroom key
  rw [List.length_map, ← hidx] at hinsert
  refine ⟨.live t, ?_, ?_⟩
  · rw [insert, lowerBound_eq h]
    simp only [ok_bind, hasKey_eq h, hfind, hinsert]
    rfl
  · show Stored c t (m.insert key ()).keys
    rw [SortedArray.keys, BmapArrays.entries_insert_eq hfind hentries hidx, List.map_append]
    exact hstored

/-- `erase` removes the key and answers whether it was there. -/
theorem erase_eq {bset : Ptr K} {m : SortedArray K Unit} (h : Stands c bset m) (key : K) :
    ∃ bset', erase bset key = .ok (bset', (m.find key).isSome) ∧ Stands c bset' (m.erase key) := by
  rw [erase, lowerBound_eq h]
  simp only [ok_bind, hasKey_eq h]
  cases hfind : m.find key with
  | none => exact ⟨bset, rfl, by rw [SortedArray.erase_of_find_none hfind]; exact h⟩
  | some v =>
      obtain ⟨before, behind, hentries, hidx⟩ := SortedArray.exists_split_of_find hfind
      have hkeys : m.keys = before.map Prod.fst ++ key :: behind.map Prod.fst := by
        rw [SortedArray.keys, hentries, List.map_append, List.map_cons]
      cases bset with
      | dangling => exact h.elim
      | null =>
          rw [show m.keys = [] from h] at hkeys
          simp at hkeys
      | live t =>
          have hstored : Stored c t m.keys := h
          rw [hkeys] at hstored
          obtain ⟨t', herase, hstored'⟩ := kvsErase_stored hstored
          rw [List.length_map, ← hidx] at herase
          refine ⟨.live t', ?_, ?_⟩
          · simp only [Option.isSome_some, if_true, herase]
            rfl
          · show Stored c t' (m.erase key).keys
            rw [SortedArray.keys, BmapArrays.entries_erase_eq hfind hentries hidx, List.map_append]
            exact hstored'

/-- The sorted array of keys in order. -/
def ofKeys (keys : List K) (hsorted : keys.Pairwise (· < ·)) : SortedArray K Unit where
  entries := keys.map fun key => (key, ())
  sorted := List.pairwise_map.mpr hsorted

/-- The set of a sorted list has the list as its keys. -/
theorem keys_ofKeys (keys : List K) (hsorted : keys.Pairwise (· < ·)) :
    (ofKeys keys hsorted).keys = keys := by
  rw [SortedArray.keys, ofKeys, List.map_map]
  exact List.map_id keys

/-- `retain` keeps the keys the callback keeps, in their order. -/
theorem retain_eq {bset : Ptr K} {m : SortedArray K Unit} (h : Stands c bset m)
    (onElement : OnElement K U) (user : U) :
    ∃ bset', retain bset onElement user = .ok (bset', (retained onElement m.keys user).2) ∧
      Holding c bset' (retained onElement m.keys user).1 := by
  cases bset with
  | dangling => exact h.elim
  | null =>
      rw [show m.keys = [] from h]
      exact ⟨.null, rfl, rfl⟩
  | live t =>
      have hstored : Stored c t m.keys := h
      obtain ⟨t', hloop, hstored'⟩ :=
        retainLoop_stored onElement m.keys [] user hstored
      rw [List.length_nil] at hloop
      refine ⟨.live t', ?_, hstored'⟩
      rw [retain, hstored.count, hloop]
      rfl

/-- **Iterating visits the keys in order.** -/
theorem forEach_eq {bset : Ptr K} {m : SortedArray K Unit} (h : Stands c bset m) :
    forEach bset = .ok m.keys := by
  cases bset with
  | dangling => exact h.elim
  | null =>
      rw [show m.keys = [] from h]
      rfl
  | live t =>
      have hstored : Stored c t m.keys := h
      rw [forEach, hstored.count]
      exact forEachFrom_eq hstored (Nat.zero_add _)

/-! ## Sequences of calls -/

inductive BsetOp (K U : Type) where
  | insert (key : K)
  | erase (key : K)
  | find (key : K)
  | retain (onElement : OnElement K U) (user : U)
  | compact

/-- What a call returns. -/
inductive BsetReply (U : Type) where
  | status (status : BmapStatus)
  | found (found : Bool)
  | retained (result : Int) (user : U)
  | done

/-- One call, with the answer of `mem_realloc` in it. -/
def call (c : Layout) (bset : Ptr K) :
    BsetOp K U × ReallocReply → Except Fault (BsetReply U × Ptr K)
  | (.insert key, reply) => do
      let (bset, status) ← insert c bset key reply
      return (.status status, bset)
  | (.erase key, _) => do
      let (bset, found) ← erase bset key
      return (.found found, bset)
  | (.find key, _) => do
      let found ← find bset key
      return (.found found, bset)
  | (.retain onElement user, _) => do
      let (bset, result, user) ← retain bset onElement user
      return (.retained result user, bset)
  | (.compact, reply) => do
      let bset ← compact c bset reply
      return (.done, bset)

/-- The allocations of a call succeed. -/
def Allocates (c : Layout) (bset : Ptr K) : BsetOp K U × ReallocReply → Prop
  | (.insert key, reply) => find bset key = .ok false → HasRoom c bset reply
  | (.compact, reply) => CompactSucceeds c bset reply
  | (.erase _, _) => True
  | (.find _, _) => True
  | (.retain _ _, _) => True

instance (bset : Ptr K) (e : BsetOp K U × ReallocReply) : Decidable (Allocates c bset e) :=
  match e with
  | (.insert key, reply) =>
      inferInstanceAs (Decidable (find bset key = .ok false → HasRoom c bset reply))
  | (.compact, reply) => inferInstanceAs (Decidable (CompactSucceeds c bset reply))
  | (.erase _, _) | (.find _, _) | (.retain _ _, _) => inferInstanceAs (Decidable True)

/-- The elements of a finite set in order. -/
def Lists (s : Set K) (keys : List K) : Prop :=
  keys.Pairwise (· < ·) ∧ ∀ key, key ∈ keys ↔ key ∈ s

/-- What a call answers and does to a finite set. -/
inductive SetCall (s : Set K) : BsetOp K U → BsetReply U → Set K → Prop where
  | insertPresent {key : K} (h : key ∈ s) : SetCall s (.insert key) (.status .present) s
  | insertAbsent {key : K} (h : key ∉ s) :
      SetCall s (.insert key) (.status .new) (Insert.insert key s)
  | erase {key : K} {found : Bool} (h : found = true ↔ key ∈ s) :
      SetCall s (.erase key) (.found found) (s \ {key})
  | find {key : K} {found : Bool} (h : found = true ↔ key ∈ s) :
      SetCall s (.find key) (.found found) s
  | retain {onElement : OnElement K U} {user : U} {keys : List K} {s' : Set K}
      (hlists : Lists s keys) (hkept : Lists s' (retained onElement keys user).1) :
      SetCall s (.retain onElement user)
        (.retained (retained onElement keys user).2.1 (retained onElement keys user).2.2) s'
  | compact : SetCall s .compact .done s

/-- The specification of a call, which does not see the allocator. -/
def setSpec (s : Set K) (e : BsetOp K U × ReallocReply) (reply : BsetReply U) (s' : Set K) : Prop :=
  SetCall s e.1 reply s'

/-- The pointer stands for the finite set. -/
def Means (c : Layout) (bset : Ptr K) (s : Set K) : Prop :=
  ∃ m : SortedArray K Unit, Stands c bset m ∧ {key | key ∈ m.keys} = s

/-- The keys of a set are strictly sorted. -/
theorem keys_sorted (m : SortedArray K Unit) : m.keys.Pairwise (· < ·) :=
  List.pairwise_map.mpr m.sorted

/-- A key is found exactly when it is among the keys. -/
theorem isSome_find_iff (m : SortedArray K Unit) (key : K) :
    (m.find key).isSome = true ↔ key ∈ {k | k ∈ m.keys} := by
  rw [Option.isSome_iff_exists]
  exact SortedArray.mem_keys_iff.symm

/-- One call answers as the set says and leaves an array that means the new set. -/
theorem call_means (bset : Ptr K) (s : Set K) (e : BsetOp K U × ReallocReply)
    (h : Means c bset s) (hallocates : Allocates c bset e) :
    ∃ reply bset' s', call c bset e = .ok (reply, bset') ∧ setSpec s e reply s' ∧
      Means c bset' s' := by
  obtain ⟨m, hstands, rfl⟩ := h
  obtain ⟨op, reply⟩ := e
  cases op with
  | insert key =>
      cases hfind : m.find key with
      | some u =>
          refine ⟨.status .present, bset, _, ?_,
            .insertPresent (SortedArray.mem_keys_iff.mpr ⟨u, hfind⟩), m, hstands, rfl⟩
          rw [call, insert_present hstands hfind]
          rfl
      | none =>
          have hroom := hallocates (by rw [find_eq hstands, hfind]; rfl)
          obtain ⟨bset', hinsert, hstands'⟩ := insert_absent hstands hfind hroom
          refine ⟨.status .new, bset', _, ?_, .insertAbsent (SortedArray.find_eq_none.mp hfind),
            m.insert key (), hstands', ?_⟩
          · rw [call, hinsert]
            rfl
          · ext k
            exact (SortedArray.keys_insert () hfind).mem_iff.trans List.mem_cons
  | erase key =>
      obtain ⟨bset', herase, hstands'⟩ := erase_eq hstands key
      refine ⟨.found (m.find key).isSome, bset', _, ?_, ?_, m.erase key, hstands', rfl⟩
      · rw [call, herase]
        rfl
      · have hset : {k | k ∈ (m.erase key).keys} = {k | k ∈ m.keys} \ {key} := by
          ext k
          exact SortedArray.mem_keys_erase
        rw [hset]
        exact .erase (isSome_find_iff m key)
  | find key =>
      refine ⟨.found (m.find key).isSome, bset, _, ?_, .find (isSome_find_iff m key), m, hstands,
        rfl⟩
      rw [call, find_eq hstands]
      rfl
  | retain onElement user =>
      obtain ⟨bset', hretain, hholding⟩ := retain_eq hstands onElement user
      have hsorted : (retained onElement m.keys user).1.Pairwise (· < ·) :=
        (keys_sorted m).sublist (retained_sublist onElement m.keys user)
      refine ⟨_, bset', {k | k ∈ (retained onElement m.keys user).1}, ?_,
        .retain ⟨keys_sorted m, fun _ => Iff.rfl⟩ ⟨hsorted, fun _ => Iff.rfl⟩,
        ofKeys _ hsorted, ?_, ?_⟩
      · rw [call, hretain]
        rfl
      · show Holding c bset' (ofKeys _ hsorted).keys
        rw [keys_ofKeys]
        exact hholding
      · rw [keys_ofKeys]
  | compact =>
      obtain ⟨bset', hcompact, hstands'⟩ := compact_stored hstands hallocates
      refine ⟨.done, bset', _, ?_, .compact, m, hstands', rfl⟩
      rw [call, hcompact]
      rfl

/-- The calls take place, with the answers of a finite set, and leave a set that is
iterated in order. -/
def RunsAsSet (c : Layout) (events : List (BsetOp K U × ReallocReply)) : Prop :=
  ∃ replies bset s keys, Run.answers (call c) .null events = .ok (replies, bset) ∧
    Run.SpecRun setSpec ∅ events replies s ∧ Lists s keys ∧ forEach bset = .ok keys

/-- **A set refines a sorted finite set** over every sequence of calls from the null
pointer on. -/
theorem calls_refine {events : List (BsetOp K U × ReallocReply)}
    (hallocates : Run.Meets (Run.stepOf (call c)) (Allocates c) .null events) :
    RunsAsSet c events := by
  have hstart : Means c (.null : Ptr K) ∅ := by
    refine ⟨SortedArray.empty, rfl, ?_⟩
    ext k
    simp [SortedArray.empty, SortedArray.keys]
  obtain ⟨replies, bset, s, hrun, hspec, m, hstands, rfl⟩ :=
    Run.answers_refine call_means hstart hallocates
  exact ⟨replies, bset, _, m.keys, hrun, hspec, ⟨keys_sorted m, fun _ => Iff.rfl⟩,
    forEach_eq hstands⟩

end Clither.Bset

namespace Clither

/-- **Maps and sets of `bmap.h` and `bset.h`** answer as sorted finite maps and sets
do, over every sequence of calls whose allocations succeed. -/
theorem sorted_containers_refine {K V U : Type} [LinearOrder K] (c : KvsLayout) (d : Bset.Layout)
    (mapEvents : List (BmapArrays.BmapOp K V U × KvsReplies))
    (setEvents : List (Bset.BsetOp K U × ReallocReply))
    (hmap : Run.Meets (Run.stepOf (BmapArrays.call c)) (BmapArrays.Allocates c) .null mapEvents)
    (hset : Run.Meets (Run.stepOf (Bset.call d)) (Bset.Allocates d) .null setEvents) :
    BmapArrays.RunsAsMap c mapEvents ∧ Bset.RunsAsSet d setEvents :=
  ⟨BmapArrays.calls_refine hmap, Bset.calls_refine hset⟩

/-- The layout of the set of the tests. -/
def objBset : Bset.Layout where
  bits := 16
  header := 4
  sizeofKey := 2
  fits := KvsLayout.fits_int16
  sizeofKey_pos := ElemType.size_pos .uint16

/-- Insertions out of order, an update, a callback that erases one entry and writes
to the others, and a block that shrinks. -/
def mapSample : List (BmapArrays.BmapOp Nat Nat Nat × KvsReplies) :=
  [(.emplaceNew 5 50, moving), (.emplaceNew 3 30, moving), (.emplaceOrGet 5 51, moving),
    (.insertUpdate 3 31, moving), (.emplaceNew 4 40, moving),
    (.retain (fun key value seen => (if key = 4 then 1 else 0, value + 1, seen + 1)) 0, moving),
    (.compact, moving), (.find 5, moving), (.erase 3, moving)]

def setSample : List (Bset.BsetOp Nat Nat × ReallocReply) :=
  [(.insert 5, .moved), (.insert 3, .inPlace), (.insert 5, .moved),
    (.retain (fun key seen => (if key = 5 then -1 else 1, seen + 1)) 0, .moved),
    (.compact, .inPlace), (.find 5, .moved), (.erase 5, .moved), (.compact, .moved)]

/-- A list of calls on each container, with inserts, erases and a retain. -/
theorem sorted_containers_refine_sample :
    BmapArrays.RunsAsMap objBmap mapSample ∧ Bset.RunsAsSet objBset setSample :=
  sorted_containers_refine objBmap objBset mapSample setSample (by decide) (by decide)

end Clither
