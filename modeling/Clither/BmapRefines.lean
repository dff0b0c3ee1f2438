import Clither.BmapStored
import Clither.Lib.Run
import Mathlib.Logic.Function.Basic

/-!
# The two arrays are a sorted finite map

`Stands` says that a pointer stands for a sorted array.  Each function of
`BMAP_DEFINE` has one lemma: on a pointer that stands for a map it does what the
operation does to the map.

`MapCall` is the specification, in terms of the map as a function from keys to
values, and `bmap_calls_refine` follows every sequence of calls.
-/

namespace Clither.BmapArrays

variable {K V U : Type} [LinearOrder K] {c : KvsLayout}

/-- The pointer stands for the map, and `sizes` holds of the capacity and the number
of values that the block has room for. -/
def Stands (c : KvsLayout) (sizes : Int → Nat → Prop) : Ptr K V → SortedArray K V → Prop
  | .null, m => m.entries = []
  | .live t, m => ∃ cap n, sizes cap n ∧ Stored c cap n t m.entries
  | .dangling, _ => False

variable {sizes : Int → Nat → Prop}

/-! ## Searching -/

/-- The search over the stored keys is the search over the entries they stand for. -/
theorem lowerBoundLoop_eq {keys : List (Option K)} {entries : List (K × V)}
    (h : Cells.Holds keys (entries.map Prod.fst)) (key : K) {fuel found len : Nat}
    (hlen : found + len ≤ entries.length) :
    lowerBoundLoop keys key fuel found len =
      .ok (SortedArray.lowerBoundLoop entries key fuel found len) := by
  induction fuel generalizing found len with
  | zero => rfl
  | succ fuel ih =>
      rw [lowerBoundLoop, SortedArray.lowerBoundLoop]
      by_cases hpos : len > 0
      · have hin : found + len / 2 < entries.length := by omega
        have hload : Cells.load keys (found + len / 2) = some entries[found + len / 2].1 := by
          rw [h.load (by rw [List.length_map]; exact hin), List.getElem?_map,
            List.getElem?_eq_getElem hin]
          rfl
        rw [if_pos hpos, if_pos hpos]
        dsimp only
        rw [hload, List.getElem?_eq_getElem hin]
        dsimp only
        by_cases hless : entries[found + len / 2].1 < key
        · rw [if_pos hless, if_pos hless, ih (by omega)]
        · rw [if_neg hless, if_neg hless, ih (by omega)]
      · rw [if_neg hpos, if_neg hpos]

/-- `lower_bound` returns the position the sorted array gives the key. -/
theorem lowerBound_eq {bmap : Ptr K V} {m : SortedArray K V} (h : Stands c sizes bmap m) (key : K) :
    lowerBound bmap key = .ok (m.lowerBound key) := by
  cases bmap with
  | null =>
      rw [SortedArray.lowerBound, show m.entries = [] from h]
      rfl
  | dangling => exact h.elim
  | live t =>
      obtain ⟨cap, n, hsizes, hstored⟩ := h
      rw [lowerBound, hstored.count]
      exact lowerBoundLoop_eq hstored.keys key (by omega)

/-- The comparison behind the search finds the key exactly when it is mapped. -/
theorem hasKey_eq {bmap : Ptr K V} {m : SortedArray K V} (h : Stands c sizes bmap m) (key : K) :
    hasKey bmap (m.lowerBound key) key = .ok (m.find key).isSome := by
  cases bmap with
  | null =>
      have hnil : m.entries = [] := h
      rw [SortedArray.find, hnil]
      rfl
  | dangling => exact h.elim
  | live t =>
      obtain ⟨cap, n, hsizes, hstored⟩ := h
      rw [hasKey, SortedArray.find, hstored.count]
      by_cases hin : m.lowerBound key < m.entries.length
      · rw [if_pos hin, hstored.keys.load (by rw [List.length_map]; exact hin), List.getElem?_map,
          List.getElem?_eq_getElem hin]
        by_cases hkey : m.entries[m.lowerBound key].1 = key
        · simp [hkey]
        · simp [hkey, Ne.symm hkey]
      · rw [if_neg hin, List.getElem?_eq_none (Nat.le_of_not_lt hin)]
        rfl

/-! ## Growing -/

/-- A byte count that is not negative leaves the allocator's reply alone. -/
theorem reallocAnswer_of_nonneg {bytes : Int} (h : 0 ≤ bytes) (reply : ReallocReply) :
    reallocAnswer bytes reply = reply :=
  if_pos h

/-- A byte count that is as large as the values take has not wrapped. -/
theorem wrapInt_values {newCapacity : Int} (hpos : 0 < newCapacity)
    (h : c.header + c.sizeofValue * newCapacity ≤ valuesBytes c newCapacity) :
    wrapInt c.bits (c.sizeofValue * newCapacity) = c.sizeofValue * newCapacity := by
  have hbits : 0 < c.bits := Nat.lt_trans (by decide) c.fits
  have hlt := wrapInt_lt hbits (c.sizeofValue * newCapacity)
  rw [valuesBytes] at h
  exact wrapInt_of_lt hbits (by positivity) (by omega)

/-- **Growing keeps the entries.** -/
theorem kvsRealloc_stands {bmap : Ptr K V} {m : SortedArray K V} (h : Stands c sizes bmap m)
    {newCapacity : Int} {replies : KvsReplies} (hpos : 0 < newCapacity)
    (hfits : newCapacity < 2 ^ (c.bits - 1)) (hroom : m.entries.length ≤ newCapacity)
    (hsucceeds : Succeeds c newCapacity replies) :
    ∃ t, kvsRealloc c bmap newCapacity replies = .ok (.live t, true) ∧
      Stored c newCapacity newCapacity.toNat t m.entries := by
  obtain ⟨hexact, hvalues, hkeys⟩ := hsucceeds
  have hsize := c.sizeofValue_pos
  have hdata := wrapInt_values hpos hexact
  have hcells : (c.sizeofValue * newCapacity / c.sizeofValue : Int) = newCapacity :=
    Int.mul_ediv_cancel_left _ (by omega)
  have hvaluesAnswer : reallocAnswer (valuesBytes c newCapacity) replies.values = replies.values :=
    reallocAnswer_of_nonneg (by rw [valuesBytes, hdata]; positivity) _
  have hkeysAnswer : reallocAnswer (keysBytes c newCapacity) replies.keys = replies.keys :=
    reallocAnswer_of_nonneg (by rw [keysBytes]; positivity) _
  have hheader : ¬ valuesBytes c newCapacity < c.header := by
    rw [valuesBytes, hdata]
    have : (0 : Int) ≤ c.sizeofValue * newCapacity := by positivity
    omega
  have hold : (oldTable bmap).count = m.entries.length ∧
      Cells.Holds (oldTable bmap).keys (m.entries.map Prod.fst) ∧
      Cells.Holds (oldTable bmap).values (m.entries.map Prod.snd) := by
    cases bmap with
    | null =>
        rw [show m.entries = [] from h]
        exact ⟨rfl, Cells.holds_nil _, Cells.holds_nil _⟩
    | dangling => exact h.elim
    | live t =>
        obtain ⟨cap, n, -, hstored⟩ := h
        exact ⟨hstored.count, hstored.keys, hstored.values⟩
  obtain ⟨hcount, hholdsKeys, hholdsValues⟩ := hold
  refine ⟨{ newTable c bmap newCapacity with
    keys := Cells.resize (oldTable bmap).keys newCapacity.toNat }, ?_, ?_⟩
  · have hne : newCapacity ≠ 0 := by omega
    cases bmap with
    | dangling => exact h.elim
    | null =>
        simp only [kvsRealloc, if_neg hne, if_neg hheader, hvaluesAnswer, hkeysAnswer]
    | live t =>
        simp only [kvsRealloc, if_neg hne, if_neg hheader, hvaluesAnswer, hkeysAnswer]
  · exact
      { count := hcount
        keys := hholdsKeys.resize (by rw [List.length_map]; omega)
        values := by
          show Cells.Holds (Cells.resize _ _) _
          rw [hdata, hcells]
          exact hholdsValues.resize (by rw [List.length_map]; omega)
        capacity := rfl
        pos := hpos
        fits := hfits
        count_le := hroom
        keys_room := by
          show newCapacity ≤ (Cells.resize _ _).length
          rw [Cells.length_resize]
          omega
        cells := by
          show (Cells.resize _ _).length = _
          rw [Cells.length_resize, hdata, hcells] }

/-- A doubled capacity that has not become negative has room for one more. -/
theorem lt_growCapacity {bmap : Ptr K V} {m : SortedArray K V} (h : Stands c sizes bmap m)
    (hfull : isFull bmap = true) (hpos : 0 < growCapacity c bmap) :
    (m.entries.length : Int) < growCapacity c bmap := by
  cases bmap with
  | dangling => exact h.elim
  | null =>
      rw [show m.entries = [] from h]
      exact (by decide : (0 : Int) < 32)
  | live t =>
      obtain ⟨cap, n, hsizes, hstored⟩ := h
      have hcount : (t.count : Int) = t.capacity := of_decide_eq_true hfull
      rw [← hstored.count, hcount]
      rw [← hstored.capacity] at hstored
      exact lt_wrapInt_double (Nat.lt_trans (by decide) c.fits) hstored.pos hstored.fits (Int.le_of_lt hpos)

/-- A map that is not full has room for one more entry in the block of the keys. -/
theorem room_of_not_full {bmap : Ptr K V} {m : SortedArray K V} (h : Stands c sizes bmap m)
    (hfull : ¬ isFull bmap = true) :
    ∃ t cap n, bmap = .live t ∧ sizes cap n ∧ Stored c cap n t m.entries ∧
      (t.count : Int) < cap := by
  cases bmap with
  | null => exact absurd rfl hfull
  | dangling => exact h.elim
  | live t =>
      obtain ⟨cap, n, hsizes, hstored⟩ := h
      have hle := hstored.count_le
      rw [← hstored.count] at hle
      refine ⟨t, cap, n, rfl, hsizes, hstored, lt_of_le_of_ne hle fun heq => hfull ?_⟩
      exact decide_eq_true (heq.trans hstored.capacity.symm)

/-- With room, one more slot is there and the table still stands for the entries. -/
theorem makeRoom_stands {bmap : Ptr K V} {m : SortedArray K V} (h : Stands c sizes bmap m)
    {replies : KvsReplies} (hroom : HasRoom c bmap replies) (hample : Ample c sizes bmap) :
    ∃ t cap n, makeRoom c bmap replies = .ok (.live t, true) ∧ sizes cap n ∧
      Stored c cap n t m.entries ∧ (t.count : Int) < cap := by
  rw [makeRoom]
  by_cases hfull : isFull bmap = true
  · obtain ⟨hpos, hsucceeds⟩ := hroom hfull
    have hlt := lt_growCapacity h hfull hpos
    obtain ⟨t, hrealloc, hstored⟩ := kvsRealloc_stands h hpos growCapacity_lt (Int.le_of_lt hlt) hsucceeds
    refine ⟨t, _, _, by rw [if_pos hfull, hrealloc], hample.grown hfull, hstored, ?_⟩
    rw [hstored.count]
    exact hlt
  · rw [if_neg hfull]
    obtain ⟨t, cap, n, rfl, hsizes, hstored, hlt⟩ := room_of_not_full h hfull
    exact ⟨t, cap, n, rfl, hsizes, hstored, hlt⟩

/-- `kvs_emplace` at the place of an absent key, up to the write of the value. -/
theorem kvsEmplace_stored {bmap : Ptr K V} {m : SortedArray K V} (h : Stands c sizes bmap m)
    {replies : KvsReplies} (hroom : HasRoom c bmap replies) (hample : Ample c sizes bmap)
    {before behind : List (K × V)} (hentries : m.entries = before ++ behind) (key : K) :
    ∃ gapped cap n, kvsEmplace c bmap before.length key replies = .ok (.live gapped, true) ∧
      sizes cap n ∧
      ∀ value, ∃ values, Cells.store gapped.values before.length value = some values ∧
        Stored c cap n { gapped with values := values } (before ++ (key, value) :: behind) := by
  obtain ⟨t, cap, n, hgrow, hsizes, hstored, hlt⟩ := makeRoom_stands h hroom hample
  have hle := hample.room cap n hsizes
  rw [hentries] at hstored
  obtain ⟨gapped, hgap, hvalue⟩ := openGap_stored hstored hlt (by omega) key
  refine ⟨gapped, cap, n, ?_, hsizes, hvalue⟩
  rw [kvsEmplace, hgrow]
  simp only [ok_bind, if_true, hgap]
  rfl

/-! ## The operations -/

/-- Where the search points to when the key is absent. -/
theorem entries_insert_eq {m : SortedArray K V} {key : K} {before behind : List (K × V)}
    (habsent : m.find key = none) (hentries : m.entries = before ++ behind)
    (hidx : m.lowerBound key = before.length) (value : V) :
    (m.insert key value).entries = before ++ (key, value) :: behind := by
  rw [SortedArray.insert, dif_pos habsent]
  show SortedArray.insertAt m.entries (m.lowerBound key) (key, value) = _
  rw [SortedArray.insertAt, hentries, hidx, List.take_left, List.drop_left]

/-- Erasing a key takes its entry out of the list. -/
theorem entries_erase_eq {m : SortedArray K V} {key : K} {v : V} {before behind : List (K × V)}
    (hfind : m.find key = some v) (hentries : m.entries = before ++ (key, v) :: behind)
    (hidx : m.lowerBound key = before.length) : (m.erase key).entries = before ++ behind := by
  rw [SortedArray.erase, if_pos (by rw [hfind]; rfl)]
  show m.entries.eraseIdx (m.lowerBound key) = _
  rw [hentries, hidx, List.eraseIdx_append_of_length_le (Nat.le_refl _), Nat.sub_self]
  rfl

/-- Setting a key replaces its entry in place. -/
theorem entries_set_eq {m : SortedArray K V} {key : K} {v : V} {before behind : List (K × V)}
    (hentries : m.entries = before ++ (key, v) :: behind) (value : V) :
    (m.set key value).entries = before ++ (key, value) :: behind := by
  have hsorted := m.sorted
  rw [hentries, List.pairwise_append, List.pairwise_cons] at hsorted
  obtain ⟨-, ⟨hbehind, -⟩, hbefore⟩ := hsorted
  have hother (l : List (K × V)) (h : ∀ e ∈ l, e.1 ≠ key) :
      l.map (fun e => if e.1 = key then (e.1, value) else e) = l := by
    refine (List.map_congr_left fun e he => ?_).trans (List.map_id l)
    rw [if_neg (h e he)]
    rfl
  show m.entries.map _ = _
  rw [hentries, List.map_append, List.map_cons,
    hother before fun e he => ne_of_lt (hbefore e he _ List.mem_cons_self),
    hother behind fun e he => ne_of_gt (hbehind e he)]
  simp

/-- `emplace_new` refuses a key that is mapped and changes nothing. -/
theorem emplaceNew_present {bmap : Ptr K V} {m : SortedArray K V} (h : Stands c sizes bmap m)
    {key : K} {v : V} (hfind : m.find key = some v) (replies : KvsReplies) :
    emplaceNew c bmap key replies = .ok (bmap, .present, none) := by
  rw [emplaceNew, lowerBound_eq h]
  simp only [ok_bind, hasKey_eq h, hfind]
  rfl

/-- `emplace_or_get` returns the slot of a key that is mapped and changes nothing. -/
theorem emplaceOrGet_present {bmap : Ptr K V} {m : SortedArray K V} (h : Stands c sizes bmap m)
    {key : K} {v : V} (hfind : m.find key = some v) (replies : KvsReplies) :
    emplaceOrGet c bmap key replies = .ok (bmap, .present, some (m.lowerBound key)) := by
  rw [emplaceOrGet, lowerBound_eq h]
  simp only [ok_bind, hasKey_eq h, hfind]
  rfl

/-- **A new key** and the write of its value by the caller. -/
theorem emplaceNew_absent {bmap : Ptr K V} {m : SortedArray K V} (h : Stands c sizes bmap m)
    {key : K} (hfind : m.find key = none) {replies : KvsReplies} (hroom : HasRoom c bmap replies)
    (hample : Ample c sizes bmap) :
    ∃ gapped, emplaceNew c bmap key replies = .ok (gapped, .new, some (m.lowerBound key)) ∧
      emplaceOrGet c bmap key replies = .ok (gapped, .new, some (m.lowerBound key)) ∧
      ∀ value, ∃ bmap', writeValue gapped (m.lowerBound key) value = .ok bmap' ∧
        Stands c sizes bmap' (m.insert key value) := by
  obtain ⟨before, behind, hentries, hidx, -, -⟩ := m.exists_split key
  obtain ⟨gapped, cap, n, hemplace, hsizes, hvalue⟩ :=
    kvsEmplace_stored h hroom hample hentries key
  rw [← hidx] at hemplace
  refine ⟨.live gapped, ?_, ?_, ?_⟩
  · rw [emplaceNew, lowerBound_eq h]
    simp only [ok_bind, hasKey_eq h, hfind, hemplace]
    rfl
  · rw [emplaceOrGet, lowerBound_eq h]
    simp only [ok_bind, hasKey_eq h, hfind, hemplace]
    rfl
  · intro value
    obtain ⟨values, hstore, hstored⟩ := hvalue value
    refine ⟨.live { gapped with values := values }, ?_, ?_⟩
    · rw [writeValue, hidx, hstore]
      rfl
    · refine ⟨cap, n, hsizes, ?_⟩
      rw [entries_insert_eq hfind hentries hidx]
      exact hstored

/-- Writing the slot of a mapped key sets its value. -/
theorem writeValue_stands {bmap : Ptr K V} {m : SortedArray K V} (h : Stands c sizes bmap m)
    {key : K} {v : V} (hfind : m.find key = some v) (value : V) :
    ∃ bmap', writeValue bmap (m.lowerBound key) value = .ok bmap' ∧
      Stands c sizes bmap' (m.set key value) := by
  obtain ⟨before, behind, hentries, hidx⟩ := SortedArray.exists_split_of_find hfind
  cases bmap with
  | null =>
      rw [show m.entries = [] from h] at hentries
      simp at hentries
  | dangling => exact h.elim
  | live t =>
      obtain ⟨cap, n, hsizes, hstored⟩ := h
      rw [hentries] at hstored
      obtain ⟨values, hstore, hset⟩ := store_stored hstored value
      refine ⟨.live { t with values := values }, ?_, ?_⟩
      · rw [writeValue, hidx, hstore]
        rfl
      · refine ⟨cap, n, hsizes, ?_⟩
        rw [entries_set_eq hentries]
        exact hset

/-- Reading the slot of a mapped key gives its value. -/
theorem readValue_eq {bmap : Ptr K V} {m : SortedArray K V} (h : Stands c sizes bmap m)
    {key : K} {v : V} (hfind : m.find key = some v) : readValue bmap (m.lowerBound key) = .ok v := by
  obtain ⟨before, behind, hentries, hidx⟩ := SortedArray.exists_split_of_find hfind
  cases bmap with
  | null =>
      rw [show m.entries = [] from h] at hentries
      simp at hentries
  | dangling => exact h.elim
  | live t =>
      obtain ⟨cap, n, hsizes, hstored⟩ := h
      rw [readValue, hidx, hstored.values.load (by rw [hentries]; simp), hentries]
      simp

/-- `find` is the lookup of the sorted array. -/
theorem find_eq {bmap : Ptr K V} {m : SortedArray K V} (h : Stands c sizes bmap m) (key : K) :
    find bmap key = .ok (m.find key) := by
  rw [find, lowerBound_eq h]
  simp only [ok_bind, hasKey_eq h]
  cases hfind : m.find key with
  | none => rfl
  | some v =>
      simp only [Option.isSome_some, if_true, readValue_eq h hfind]
      rfl

/-- `erase` removes the key and answers whether it was there. -/
theorem erase_eq {bmap : Ptr K V} {m : SortedArray K V} (h : Stands c sizes bmap m) (key : K) :
    ∃ bmap', erase bmap key = .ok (bmap', (m.find key).isSome) ∧ Stands c sizes bmap' (m.erase key) := by
  rw [erase, lowerBound_eq h]
  simp only [ok_bind, hasKey_eq h]
  cases hfind : m.find key with
  | none => exact ⟨bmap, rfl, by rw [SortedArray.erase_of_find_none hfind]; exact h⟩
  | some v =>
      obtain ⟨before, behind, hentries, hidx⟩ := SortedArray.exists_split_of_find hfind
      cases bmap with
      | null =>
          rw [show m.entries = [] from h] at hentries
          simp at hentries
      | dangling => exact h.elim
      | live t =>
          obtain ⟨cap, n, hsizes, hstored⟩ := h
          rw [hentries] at hstored
          obtain ⟨t', herase, hstored'⟩ := kvsErase_stored hstored
          refine ⟨.live t', ?_, ?_⟩
          · simp only [Option.isSome_some, if_true, hidx, herase]
            rfl
          · refine ⟨cap, n, hsizes, ?_⟩
            rw [entries_erase_eq hfind hentries hidx]
            exact hstored'

/-! ## Retaining -/

/-- The sorted array after `retain`. -/
def retainedArray (onElement : OnElement K V U) (m : SortedArray K V) (user : U) :
    SortedArray K V where
  entries := (retained onElement m.entries user).1
  sorted := by
    have hkeys : (m.entries.map Prod.fst).Pairwise (· < ·) := List.pairwise_map.mpr m.sorted
    exact List.pairwise_map.mp (hkeys.sublist (keys_retained_sublist onElement m.entries user))

/-- `retain` keeps the entries the callback keeps, in their order. -/
theorem retain_eq {bmap : Ptr K V} {m : SortedArray K V} (h : Stands c sizes bmap m)
    (onElement : OnElement K V U) (user : U) :
    ∃ bmap', retain bmap onElement user =
        .ok (bmap', (retained onElement m.entries user).2) ∧
      Stands c sizes bmap' (retainedArray onElement m user) := by
  cases bmap with
  | null =>
      have hnil : m.entries = [] := h
      refine ⟨.null, by rw [hnil]; rfl, ?_⟩
      show (retained onElement m.entries user).1 = []
      rw [hnil]
      rfl
  | dangling => exact h.elim
  | live t =>
      obtain ⟨cap, n, hsizes, hstored⟩ := h
      obtain ⟨t', hloop, hstored'⟩ := retainLoop_stored onElement m.entries [] user hstored
      refine ⟨.live t', ?_, cap, n, hsizes, hstored'⟩
      rw [retain, hstored.count]
      rw [List.length_nil] at hloop
      rw [hloop]
      rfl

/-! ## Compacting and iterating -/

/-- A call of `compact` whose requests are granted. -/
def CompactSucceeds (c : KvsLayout) (bmap : Ptr K V) (replies : KvsReplies) : Prop :=
  (oldTable bmap).count ≠ 0 → Succeeds c (oldTable bmap).count replies

instance (bmap : Ptr K V) (replies : KvsReplies) : Decidable (CompactSucceeds c bmap replies) :=
  inferInstanceAs (Decidable (_ → _))

/-- A compaction that gets its memory changes no entry. -/
theorem compact_eq {bmap : Ptr K V} {m : SortedArray K V} (h : Stands c sizes bmap m)
    {replies : KvsReplies} (hsucceeds : CompactSucceeds c bmap replies)
    (hsizes : sizes (oldTable bmap).count (oldTable bmap).count) :
    ∃ bmap', compact c bmap replies = .ok bmap' ∧ Stands c sizes bmap' m := by
  have hold : (oldTable bmap).count = m.entries.length ∧
      ((oldTable bmap).count : Int) < 2 ^ (c.bits - 1) := by
    cases bmap with
    | null =>
        rw [show m.entries = [] from h]
        exact ⟨rfl, by show (0 : Int) < _; positivity⟩
    | dangling => exact h.elim
    | live t =>
        obtain ⟨cap, n, -, hstored⟩ := h
        have hle := hstored.count_le
        rw [← hstored.count] at hle
        exact ⟨hstored.count, lt_of_le_of_lt hle hstored.fits⟩
  obtain ⟨hcount, hfits⟩ := hold
  rw [compact]
  by_cases hzero : (oldTable bmap).count = 0
  · refine ⟨.null, ?_, List.length_eq_zero_iff.mp (hcount.symm.trans hzero)⟩
    rw [hzero]
    cases bmap with
    | dangling => exact h.elim
    | null => rfl
    | live t => rfl
  · obtain ⟨t, hrealloc, hstored⟩ := kvsRealloc_stands h (by omega) hfits (by omega) (hsucceeds hzero)
    refine ⟨.live t, ?_, _, _, hsizes, hstored⟩
    rw [hrealloc]
    rfl

/-- **Iterating visits the entries in order.** -/
theorem forEach_eq {bmap : Ptr K V} {m : SortedArray K V} (h : Stands c sizes bmap m) :
    forEach bmap = .ok m.entries := by
  cases bmap with
  | null =>
      rw [show m.entries = [] from h]
      rfl
  | dangling => exact h.elim
  | live t =>
      obtain ⟨cap, n, hsizes, hstored⟩ := h
      rw [forEach, hstored.count]
      exact forEachFrom_eq hstored (Nat.zero_add _)

/-! ## Sequences of calls -/

/-- The calls of a map; the caller of `emplace_new` and `emplace_or_get` initialises
a new value at once. -/
inductive BmapOp (K V U : Type) where
  | emplaceNew (key : K) (value : V)
  | emplaceOrGet (key : K) (value : V)
  | insertUpdate (key : K) (value : V)
  | erase (key : K)
  | find (key : K)
  | retain (onElement : OnElement K V U) (user : U)
  | compact

/-- What a call returns. -/
inductive BmapReply (V U : Type) where
  | status (status : BmapStatus)
  | value (status : BmapStatus) (value : Option V)
  | erased (found : Bool)
  | found (value : Option V)
  | retained (result : Int) (user : U)
  | done

/-- One call, with the answers of `mem_realloc` in it. -/
def call (c : KvsLayout) (bmap : Ptr K V) :
    BmapOp K V U × KvsReplies → Except Fault (BmapReply V U × Ptr K V)
  | (.emplaceNew key value, replies) => do
      let (bmap, status) ← insertNew c bmap key value replies
      return (.status status, bmap)
  | (.emplaceOrGet key value, replies) => do
      let (bmap, status, value) ← getOrInsert c bmap key value replies
      return (.value status value, bmap)
  | (.insertUpdate key value, replies) => do
      let (bmap, status) ← insertUpdate c bmap key value replies
      return (.status status, bmap)
  | (.erase key, _) => do
      let (bmap, found) ← erase bmap key
      return (.erased found, bmap)
  | (.find key, _) => do
      let value ← find bmap key
      return (.found value, bmap)
  | (.retain onElement user, _) => do
      let (bmap, result, user) ← retain bmap onElement user
      return (.retained result user, bmap)
  | (.compact, replies) => do
      let bmap ← compact c bmap replies
      return (.done, bmap)

/-- The allocations of a call succeed. -/
def Allocates (c : KvsLayout) (bmap : Ptr K V) : BmapOp K V U × KvsReplies → Prop
  | (.emplaceNew key _, replies) => find bmap key = .ok none → HasRoom c bmap replies
  | (.emplaceOrGet key _, replies) => find bmap key = .ok none → HasRoom c bmap replies
  | (.insertUpdate key _, replies) => find bmap key = .ok none → HasRoom c bmap replies
  | (.compact, replies) => CompactSucceeds c bmap replies
  | (.erase _, _) => True
  | (.find _, _) => True
  | (.retain _ _, _) => True

instance (bmap : Ptr K V) [DecidableEq V] (e : BmapOp K V U × KvsReplies) :
    Decidable (Allocates c bmap e) :=
  match e with
  | (.emplaceNew key _, replies) | (.emplaceOrGet key _, replies) | (.insertUpdate key _, replies) =>
      inferInstanceAs (Decidable (find bmap key = .ok none → HasRoom c bmap replies))
  | (.compact, replies) => inferInstanceAs (Decidable (CompactSucceeds c bmap replies))
  | (.erase _, _) | (.find _, _) | (.retain _ _, _) => inferInstanceAs (Decidable True)

/-! ## The specification -/

/-- The entries of a finite map in the order of the keys. -/
def Lists (m : K → Option V) (entries : List (K × V)) : Prop :=
  entries.Pairwise (fun e e' => e.1 < e'.1) ∧ ∀ key value, (key, value) ∈ entries ↔ m key = some value

/-- What a call answers and does to a finite map. -/
inductive MapCall (m : K → Option V) : BmapOp K V U → BmapReply V U → (K → Option V) → Prop where
  | emplaceNewPresent {key : K} {value old : V} (h : m key = some old) :
      MapCall m (.emplaceNew key value) (.status .present) m
  | emplaceNewAbsent {key : K} {value : V} (h : m key = none) :
      MapCall m (.emplaceNew key value) (.status .new) (Function.update m key (some value))
  | emplaceOrGetPresent {key : K} {value old : V} (h : m key = some old) :
      MapCall m (.emplaceOrGet key value) (.value .present (some old)) m
  | emplaceOrGetAbsent {key : K} {value : V} (h : m key = none) :
      MapCall m (.emplaceOrGet key value) (.value .new (some value))
        (Function.update m key (some value))
  | insertUpdatePresent {key : K} {value old : V} (h : m key = some old) :
      MapCall m (.insertUpdate key value) (.status .present) (Function.update m key (some value))
  | insertUpdateAbsent {key : K} {value : V} (h : m key = none) :
      MapCall m (.insertUpdate key value) (.status .new) (Function.update m key (some value))
  | erase {key : K} :
      MapCall m (.erase key) (.erased (m key).isSome) (Function.update m key none)
  | find {key : K} : MapCall m (.find key) (.found (m key)) m
  | retain {onElement : OnElement K V U} {user : U} {entries : List (K × V)} {m' : K → Option V}
      (hlists : Lists m entries) (hkept : Lists m' (retained onElement entries user).1) :
      MapCall m (.retain onElement user)
        (.retained (retained onElement entries user).2.1 (retained onElement entries user).2.2) m'
  | compact : MapCall m .compact .done m

/-- The lookup of a sorted array is the one its entries list. -/
theorem lists_find (m : SortedArray K V) : Lists m.find m.entries :=
  ⟨m.sorted, fun _ _ => SortedArray.find_eq_some.symm⟩

/-- Inserting a new key updates the map at it. -/
theorem find_insert_eq {m : SortedArray K V} {key : K} (hfind : m.find key = none) (value : V) :
    (m.insert key value).find = Function.update m.find key (some value) := by
  funext k
  rw [SortedArray.find_insert value hfind, Function.update_apply]

/-- Setting a mapped key updates the map at it. -/
theorem find_set_eq {m : SortedArray K V} {key : K} {v : V} (hfind : m.find key = some v)
    (value : V) : (m.set key value).find = Function.update m.find key (some value) := by
  funext k
  rw [SortedArray.find_set value hfind, Function.update_apply]

/-- Erasing a key makes the map undefined at it. -/
theorem find_erase_eq (m : SortedArray K V) (key : K) :
    (m.erase key).find = Function.update m.find key none := by
  funext k
  rw [SortedArray.find_erase, Function.update_apply]

/-- The entry that a call inserts when its key is absent. -/
def inserted : BmapOp K V U → Option (K × V)
  | .emplaceNew key value => some (key, value)
  | .emplaceOrGet key value => some (key, value)
  | .insertUpdate key value => some (key, value)
  | _ => none

/-- A call that asks for no memory. -/
def Quiet (m : SortedArray K V) (op : BmapOp K V U) : Prop :=
  (∀ key value, inserted op = some (key, value) → m.find key ≠ none) ∧ op ≠ .compact

/-- **Step lemma for the calls that ask for no memory.** -/
theorem call_quiet {bmap : Ptr K V} {m : SortedArray K V} (h : Stands c sizes bmap m)
    {e : BmapOp K V U × KvsReplies} (hquiet : Quiet m e.1) :
    ∃ reply bmap' m', call c bmap e = .ok (reply, bmap') ∧ MapCall m.find e.1 reply m'.find ∧
      Stands c sizes bmap' m' := by
  obtain ⟨op, replies⟩ := e
  obtain ⟨hpresent, hcompact⟩ := hquiet
  cases op with
  | emplaceNew key value =>
      obtain ⟨old, hfind⟩ := Option.ne_none_iff_exists'.mp (hpresent key value rfl)
      refine ⟨_, bmap, m, ?_, .emplaceNewPresent hfind, h⟩
      rw [call, insertNew, emplaceNew_present h hfind]
      rfl
  | emplaceOrGet key value =>
      obtain ⟨old, hfind⟩ := Option.ne_none_iff_exists'.mp (hpresent key value rfl)
      refine ⟨_, bmap, m, ?_, .emplaceOrGetPresent hfind, h⟩
      rw [call, getOrInsert, emplaceOrGet_present h hfind]
      simp only [ok_bind, readValue_eq h hfind]
      rfl
  | insertUpdate key value =>
      obtain ⟨old, hfind⟩ := Option.ne_none_iff_exists'.mp (hpresent key value rfl)
      obtain ⟨bmap', hvalue, hstands⟩ := writeValue_stands h hfind value
      refine ⟨.status .present, bmap', m.set key value, ?_, ?_, hstands⟩
      · rw [call, insertUpdate, emplaceOrGet_present h hfind]
        simp only [ok_bind, hvalue]
        rfl
      · rw [find_set_eq hfind]
        exact .insertUpdatePresent hfind
  | erase key =>
      obtain ⟨bmap', herase, hstands⟩ := erase_eq h key
      refine ⟨.erased (m.find key).isSome, bmap', m.erase key, ?_, ?_, hstands⟩
      · rw [call, herase]
        rfl
      · rw [find_erase_eq]
        exact .erase
  | find key =>
      refine ⟨_, bmap, m, ?_, .find, h⟩
      rw [call, find_eq h]
      rfl
  | retain onElement user =>
      obtain ⟨bmap', hretain, hstands⟩ := retain_eq h onElement user
      refine ⟨_, bmap', retainedArray onElement m user, ?_,
        .retain (lists_find m) (lists_find (retainedArray onElement m user)), hstands⟩
      rw [call, hretain]
      rfl
  | compact => exact absurd rfl hcompact

/-- **Step lemma for the calls that insert.** -/
theorem call_inserts {bmap : Ptr K V} {m : SortedArray K V} (h : Stands c sizes bmap m)
    {op : BmapOp K V U} {key : K} {value : V} (hop : inserted op = some (key, value))
    (hfind : m.find key = none) {replies : KvsReplies} (hroom : HasRoom c bmap replies)
    (hample : Ample c sizes bmap) :
    ∃ reply bmap', call c bmap (op, replies) = .ok (reply, bmap') ∧
      MapCall m.find op reply (m.insert key value).find ∧
      Stands c sizes bmap' (m.insert key value) := by
  obtain ⟨gapped, hnew, hget, hwrite⟩ := emplaceNew_absent h hfind hroom hample
  obtain ⟨bmap', hvalue, hstands⟩ := hwrite value
  rw [find_insert_eq hfind]
  cases op with
  | emplaceNew key value =>
      cases hop
      refine ⟨.status .new, bmap', ?_, .emplaceNewAbsent hfind, hstands⟩
      rw [call, insertNew, hnew]
      simp only [ok_bind, hvalue]
      rfl
  | emplaceOrGet key value =>
      cases hop
      refine ⟨.value .new (some value), bmap', ?_, .emplaceOrGetAbsent hfind, hstands⟩
      rw [call, getOrInsert, hget]
      simp only [ok_bind, hvalue]
      rfl
  | insertUpdate key value =>
      cases hop
      refine ⟨.status .new, bmap', ?_, .insertUpdateAbsent hfind, hstands⟩
      rw [call, insertUpdate, hget]
      simp only [ok_bind, hvalue]
      rfl
  | erase key => cases hop
  | find key => cases hop
  | retain onElement user => cases hop
  | compact => cases hop

/-- A call that inserts may ask for memory when it does not find its key. -/
theorem hasRoom_of_allocates {bmap : Ptr K V} {op : BmapOp K V U} {key : K} {value : V}
    (hop : inserted op = some (key, value)) {replies : KvsReplies}
    (h : Allocates c bmap (op, replies)) (hfind : find bmap key = .ok none) :
    HasRoom c bmap replies := by
  cases op with
  | emplaceNew key value =>
      cases hop
      exact h hfind
  | emplaceOrGet key value =>
      cases hop
      exact h hfind
  | insertUpdate key value =>
      cases hop
      exact h hfind
  | erase key => cases hop
  | find key => cases hop
  | retain onElement user => cases hop
  | compact => cases hop

/-- **Step lemma.** -/
theorem call_refines {bmap : Ptr K V} {m : SortedArray K V} (h : Stands c Roomy bmap m)
    {e : BmapOp K V U × KvsReplies} (hallocates : Allocates c bmap e) :
    ∃ reply bmap' m', call c bmap e = .ok (reply, bmap') ∧ MapCall m.find e.1 reply m'.find ∧
      Stands c Roomy bmap' m' := by
  obtain ⟨op, replies⟩ := e
  by_cases hcompact : op = .compact
  · subst hcompact
    obtain ⟨bmap', hcompact, hstands⟩ := compact_eq h hallocates (Int.le_refl _)
    refine ⟨_, bmap', m, ?_, .compact, hstands⟩
    rw [call, hcompact]
    rfl
  · by_cases hpresent : ∀ key value, inserted op = some (key, value) → m.find key ≠ none
    · exact call_quiet h ⟨hpresent, hcompact⟩
    · push Not at hpresent
      obtain ⟨key, value, hop, hfind⟩ := hpresent
      have hroom := hasRoom_of_allocates hop hallocates (by rw [find_eq h, hfind])
      obtain ⟨reply, bmap', hcall, hspec, hstands⟩ :=
        call_inserts h hop hfind hroom (ample_roomy hroom)
      exact ⟨reply, bmap', _, hcall, hspec, hstands⟩

/-- The specification of a call, which does not see the allocator. -/
def mapSpec (m : K → Option V) (e : BmapOp K V U × KvsReplies) (reply : BmapReply V U)
    (m' : K → Option V) : Prop :=
  MapCall m e.1 reply m'

/-- The pointer stands for the finite map. -/
def Means (c : KvsLayout) (bmap : Ptr K V) (m : K → Option V) : Prop :=
  ∃ a : SortedArray K V, Stands c Roomy bmap a ∧ a.find = m

/-- One call answers as the map says and leaves a table that means the new map. -/
theorem call_means (bmap : Ptr K V) (m : K → Option V) (e : BmapOp K V U × KvsReplies)
    (h : Means c bmap m) (hallocates : Allocates c bmap e) :
    ∃ reply bmap' m', call c bmap e = .ok (reply, bmap') ∧ mapSpec m e reply m' ∧
      Means c bmap' m' := by
  obtain ⟨a, hstands, rfl⟩ := h
  obtain ⟨reply, bmap', a', hcall, hspec, hstands'⟩ := call_refines hstands hallocates
  exact ⟨reply, bmap', a'.find, hcall, hspec, a', hstands', rfl⟩

/-- The calls take place, with the answers of a finite map, and leave a map that is
iterated in the order of the keys. -/
def RunsAsMap (c : KvsLayout) (events : List (BmapOp K V U × KvsReplies)) : Prop :=
  ∃ replies bmap m entries, Run.answers (call c) .null events = .ok (replies, bmap) ∧
    Run.SpecRun mapSpec (fun _ => none) events replies m ∧ Lists m entries ∧
    forEach bmap = .ok entries

/-- **A map refines a sorted finite map** over every sequence of calls from the null
pointer on. -/
theorem calls_refine {events : List (BmapOp K V U × KvsReplies)}
    (hallocates : Run.Meets (Run.stepOf (call c)) (Allocates c) .null events) :
    RunsAsMap c events := by
  have hstart : Means c (.null : Ptr K V) fun _ => none := ⟨SortedArray.empty, rfl, rfl⟩
  obtain ⟨replies, bmap, m, hrun, hspec, a, hstands, rfl⟩ :=
    Run.answers_refine call_means hstart hallocates
  exact ⟨replies, bmap, a.find, a.entries, hrun, hspec, lists_find a, forEach_eq hstands⟩

end Clither.BmapArrays
