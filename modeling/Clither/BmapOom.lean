import Clither.BmapRefines

/-!
# Maps that run out of memory

Growing is two requests, one after the other.  `KvsReallocs` lists what can come of
them, and `HalfGrows` is the case where the caller is told `BMAP_OOM` although the
first block is no longer what it was: it has moved, or it has another capacity, or
it has been given back.

A call that runs out of memory in any other way leaves the map alone, and one that
grows half never does: `everySafe_iff_growsWhole` says this of all calls from the
null pointer on.
-/

namespace Clither.BmapArrays

open Faults (bind_eq_ok)

variable {K V U : Type} {c : KvsLayout}

/-! ## The two requests -/

/-- A request that was answered was not negative and was not refused. -/
theorem of_answer_ne_refused {bytes : Int} {reply : ReallocReply}
    (h : reallocAnswer bytes reply ≠ .refused) : 0 ≤ bytes ∧ reply ≠ .refused := by
  rw [reallocAnswer] at h
  split_ifs at h with hbytes
  · exact ⟨hbytes, h⟩
  · exact absurd rfl h

/-- What comes of the two requests. -/
inductive KvsReallocs (c : KvsLayout) (bmap : Ptr K V) (newCapacity : Int) (replies : KvsReplies) :
    Ptr K V × Bool → Prop where
  | refused (hvalues : reallocAnswer (valuesBytes c newCapacity) replies.values = .refused) :
      KvsReallocs c bmap newCapacity replies
        (bmap.afterRefusal (valuesBytes c newCapacity), false)
  | half (hvalues : reallocAnswer (valuesBytes c newCapacity) replies.values ≠ .refused)
      (hheader : c.header ≤ valuesBytes c newCapacity)
      (hkeys : reallocAnswer (keysBytes c newCapacity) replies.keys = .refused) :
      KvsReallocs c bmap newCapacity replies
        (halfGrown bmap (reallocAnswer (valuesBytes c newCapacity) replies.values)
          (newTable c bmap newCapacity), false)
  | whole (hvalues : reallocAnswer (valuesBytes c newCapacity) replies.values ≠ .refused)
      (hheader : c.header ≤ valuesBytes c newCapacity)
      (hkeys : reallocAnswer (keysBytes c newCapacity) replies.keys ≠ .refused) :
      KvsReallocs c bmap newCapacity replies
        (.live { newTable c bmap newCapacity with
          keys := Cells.resize (oldTable bmap).keys newCapacity.toNat }, true)

/-- The requests of a capacity other than 0. -/
theorem kvsRealloc_eq {bmap : Ptr K V} {newCapacity : Int} {replies : KvsReplies}
    (hlive : bmap ≠ .dangling) (hne : newCapacity ≠ 0) :
    kvsRealloc c bmap newCapacity replies =
      if reallocAnswer (valuesBytes c newCapacity) replies.values = .refused then
        .ok (bmap.afterRefusal (valuesBytes c newCapacity), false)
      else if valuesBytes c newCapacity < c.header then .error .outOfBlock
      else if reallocAnswer (keysBytes c newCapacity) replies.keys = .refused then
        .ok (halfGrown bmap (reallocAnswer (valuesBytes c newCapacity) replies.values)
          (newTable c bmap newCapacity), false)
      else
        .ok (.live { newTable c bmap newCapacity with
          keys := Cells.resize (oldTable bmap).keys newCapacity.toNat }, true) := by
  cases bmap with
  | dangling => exact absurd rfl hlive
  | null =>
      simp only [kvsRealloc, if_neg hne]
      cases reallocAnswer (valuesBytes c newCapacity) replies.values <;>
        cases reallocAnswer (keysBytes c newCapacity) replies.keys <;> rfl
  | live t =>
      simp only [kvsRealloc, if_neg hne]
      cases reallocAnswer (valuesBytes c newCapacity) replies.values <;>
        cases reallocAnswer (keysBytes c newCapacity) replies.keys <;> rfl

/-- What a reallocation can do: nothing, move only the values, or move both arrays. -/
theorem kvsRealloc_cases {bmap : Ptr K V} {newCapacity : Int} {replies : KvsReplies}
    {r : Ptr K V × Bool} (hlive : bmap ≠ .dangling) (hne : newCapacity ≠ 0)
    (h : kvsRealloc c bmap newCapacity replies = .ok r) :
    KvsReallocs c bmap newCapacity replies r := by
  rw [kvsRealloc_eq hlive hne] at h
  split_ifs at h with hvalues hheader hkeys
  · cases h
    exact .refused hvalues
  · cases h
    exact .half hvalues (Int.not_lt.mp hheader) hkeys
  · cases h
    exact .whole hvalues (Int.not_lt.mp hheader) hkeys

/-- The first block is given back, or it grows and the second one does not. -/
def HalfGrows (c : KvsLayout) (newCapacity : Int) (replies : KvsReplies) : Prop :=
  if reallocAnswer (valuesBytes c newCapacity) replies.values = .refused then
    valuesBytes c newCapacity = 0
  else
    c.header ≤ valuesBytes c newCapacity ∧
      reallocAnswer (keysBytes c newCapacity) replies.keys = .refused

/-- A map that is not `NULL` does not grow by half. -/
def GrowsWhole (c : KvsLayout) (bmap : Ptr K V) (replies : KvsReplies) : Prop :=
  bmap ≠ .null → isFull bmap = true → ¬ HalfGrows c (growCapacity c bmap) replies

/-- The bytes of the values are counted in the index type. -/
def Counted (c : KvsLayout) (_ : Int) (n : Nat) : Prop :=
  (c.sizeofValue * n : Int) < 2 ^ (c.bits - 1)

variable {cap : Int} {n : Nat}

/-- The capacity that a map grows to is another one, and not 0. -/
theorem growCapacity_ne {t : Table K V} {entries : List (K × V)} (h : Stored c cap n t entries) :
    growCapacity c (.live t) ≠ 0 ∧ growCapacity c (.live t) ≠ cap := by
  have hpos := h.pos
  have hgrow : growCapacity c (.live t) = wrapInt c.bits (2 * cap) := by
    rw [growCapacity, h.capacity]
  rw [hgrow]
  by_cases hneg : wrapInt c.bits (2 * cap) < 0
  · omega
  · have hlt := lt_wrapInt_double (Nat.lt_trans (by decide) c.fits) hpos h.fits
      (Int.not_lt.mp hneg)
    omega

/-- A new block has the first capacity, and no entries. -/
theorem newTable_null_stored (hheader : c.header ≤ valuesBytes c 32) :
    ∃ n, Counted c 32 n ∧ Stored c 32 n
      { newTable c (.null : Ptr K V) 32 with keys := Cells.resize ([] : List (Option K)) 32 }
      ([] : List (K × V)) := by
  have hbits : 0 < c.bits := Nat.lt_trans (by decide) c.fits
  have hsize := c.sizeofValue_pos
  have hlt := wrapInt_lt hbits (c.sizeofValue * 32)
  rw [valuesBytes] at hheader
  refine ⟨(wrapInt c.bits (c.sizeofValue * 32) / c.sizeofValue).toNat, ?_, ?_⟩
  · have hdata : 0 ≤ wrapInt c.bits (c.sizeofValue * 32) := by omega
    have hmul := Int.mul_ediv_self_le (x := wrapInt c.bits (c.sizeofValue * 32))
      (k := c.sizeofValue) (by omega)
    rw [Counted, Int.toNat_of_nonneg (Int.ediv_nonneg hdata (by omega))]
    omega
  · exact
      { count := rfl
        keys := Cells.holds_nil _
        values := Cells.holds_nil _
        capacity := rfl
        pos := by decide
        fits := firstCapacity_lt c.fits
        count_le := by simp
        keys_room := by
          show (32 : Int) ≤ (Cells.resize [] 32).length
          rw [Cells.length_resize]
          rfl
        cells := Cells.length_resize _ _ }

/-- The request for a doubled capacity is as large as it takes, or less than a
header. -/
theorem valuesBytes_double {t : Table K V} {entries : List (K × V)} (h : Stored c cap n t entries)
    (hcounted : Counted c cap n) (hfull : isFull (.live t) = true)
    (hpos : 0 < growCapacity c (.live t))
    (hheader : c.header ≤ valuesBytes c (growCapacity c (.live t))) :
    c.header + c.sizeofValue * growCapacity c (.live t) ≤
      valuesBytes c (growCapacity c (.live t)) := by
  have hbits : 0 < c.bits := Nat.lt_trans (by decide) c.fits
  have hcap := h.pos
  have hcount : (t.count : Int) = t.capacity := of_decide_eq_true hfull
  have hle : cap ≤ n := by
    have hlen := h.values.length_le
    rw [List.length_map, h.cells, ← h.count] at hlen
    rw [← h.capacity, ← hcount]
    omega
  have hgrow : growCapacity c (.live t) = wrapInt c.bits (2 * cap) := by
    rw [growCapacity, h.capacity]
  rw [hgrow] at hpos hheader ⊢
  have hfits := h.fits
  rcases wrapInt_eq_or_neg hbits (show 0 ≤ 2 * cap by omega) (by omega) with hexact | hneg
  · rw [hexact, valuesBytes] at hheader ⊢
    have hbytes : (c.sizeofValue * (2 * cap) : Int) < 2 * 2 ^ (c.bits - 1) := by
      have hmul : (c.sizeofValue * cap : Int) ≤ c.sizeofValue * n :=
        mul_le_mul_of_nonneg_left hle (by positivity)
      rw [Counted] at hcounted
      linarith
    rcases wrapInt_eq_or_neg hbits (show (0 : Int) ≤ c.sizeofValue * (2 * cap) by positivity) hbytes
      with hvalues | hwrapped
    · rw [hvalues]
    · omega
  · omega

/-- The first block after a request for as many values as there are. -/
theorem newTable_count_stored {t : Table K V} {entries : List (K × V)}
    (h : Stored c cap n t entries) (hcounted : Counted c cap n) (hpos : t.count ≠ 0) :
    Counted c t.count t.count ∧
      c.header + c.sizeofValue * (t.count : Int) ≤ valuesBytes c t.count ∧
      Stored c t.count t.count (newTable c (.live t) t.count) entries := by
  have hbits : 0 < c.bits := Nat.lt_trans (by decide) c.fits
  have hsize := c.sizeofValue_pos
  have hle : t.count ≤ n := by
    have hlen := h.values.length_le
    rwa [List.length_map, h.cells, ← h.count] at hlen
  have hbytes : (c.sizeofValue * t.count : Int) < 2 ^ (c.bits - 1) := by
    have hmul : (c.sizeofValue * t.count : Int) ≤ c.sizeofValue * n :=
      mul_le_mul_of_nonneg_left (by omega) (by positivity)
    rw [Counted] at hcounted
    omega
  have hdata : wrapInt c.bits (c.sizeofValue * (t.count : Int)) = c.sizeofValue * t.count :=
    wrapInt_of_lt hbits (by positivity) hbytes
  have hcells : (wrapInt c.bits (c.sizeofValue * (t.count : Int)) / c.sizeofValue).toNat = t.count := by
    rw [hdata, Int.mul_ediv_cancel_left _ (by omega)]
    rfl
  have hcap := h.count_le
  have hkeysRoom := h.keys_room
  rw [← h.count] at hcap
  refine ⟨hbytes, by rw [valuesBytes, hdata], ?_⟩
  exact
    { count := h.count
      keys := h.keys
      values := by
        show Cells.Holds (Cells.resize t.values _) _
        rw [hcells]
        exact h.values.resize (by rw [List.length_map, h.count])
      capacity := rfl
      pos := by omega
      fits := lt_of_le_of_lt hcap h.fits
      count_le := by rw [h.count]
      keys_room := by
        show (t.count : Int) ≤ t.keys.length
        omega
      cells := by
        show (Cells.resize t.values _).length = _
        rw [Cells.length_resize, hcells] }

/-- An access is a value exactly when the cell is there. -/
theorem accessed_eq_ok {β : Type} {x : Option β} {b : β} : accessed x = .ok b ↔ x = some b := by
  cases x with
  | none => simp [accessed]
  | some b' => simp

/-- A gap and a value that are written are inside of the block of the values. -/
theorem count_lt_of_openGap {t gapped : Table K V} {entries : List (K × V)}
    (h : Stored c cap n t entries) {idx : Nat} {key : K} {value : V} {bmap : Ptr K V}
    (hidx : idx ≤ t.count) (hgap : openGap t idx key = .ok gapped)
    (hwrite : writeValue (.live gapped) idx value = .ok bmap) : t.count < n := by
  simp only [openGap, bind_eq_ok, accessed_eq_ok, pure_eq_ok, Except.ok.injEq] at hgap
  obtain ⟨keys, -, values, hmove, keys', -, rfl⟩ := hgap
  simp only [writeValue, bind_eq_ok, accessed_eq_ok] at hwrite
  obtain ⟨values', hstore, -⟩ := hwrite
  rw [← h.cells]
  exact Cells.lt_of_insert hidx hmove hstore

/-- A map that is not full needs no memory. -/
theorem kvsEmplace_of_not_full {bmap b : Ptr K V} (hfull : isFull bmap = false) {idx : Nat} {key : K}
    {replies : KvsReplies} {granted : Bool}
    (h : kvsEmplace c bmap idx key replies = .ok (b, granted)) : granted = true := by
  rw [kvsEmplace, makeRoom, hfull] at h
  cases bmap with
  | null => cases h
  | dangling => cases h
  | live t =>
      simp only [Bool.false_eq_true, if_false, ok_bind, if_true, bind_eq_ok, pure_eq_ok] at h
      obtain ⟨gapped, -, hr⟩ := h
      cases hr
      rfl

/-- What becomes of a full map that grows by half. -/
theorem makeRoom_half {t : Table K V} {entries : List (K × V)} (h : Stored c cap n t entries)
    (hfull : isFull (.live t) = true) {replies : KvsReplies}
    (hhalf : HalfGrows c (growCapacity c (.live t)) replies) :
    ∃ b, makeRoom c (.live t) replies = .ok (b, false) ∧
      (b = .dangling ∨ b = .live (newTable c (.live t) (growCapacity c (.live t)))) := by
  rw [makeRoom, if_pos hfull, kvsRealloc_eq (fun hdangling => by cases hdangling)
    (growCapacity_ne h).1]
  rw [HalfGrows] at hhalf
  split_ifs at hhalf with hvalues
  · exact ⟨_, if_pos hvalues, .inl (if_pos hhalf)⟩
  · obtain ⟨hheader, hkeys⟩ := hhalf
    rw [if_neg hvalues, if_neg (by omega), if_pos hkeys]
    refine ⟨_, rfl, ?_⟩
    by_cases hmoved :
        reallocAnswer (valuesBytes c (growCapacity c (.live t))) replies.values = .moved
    · exact .inl (if_pos hmoved)
    · exact .inr (if_neg hmoved)

/-! ## Making room -/

variable [LinearOrder K]

/-- A map that stands for an array does not dangle. -/
theorem ne_dangling {sizes : Int → Nat → Prop} {bmap : Ptr K V} {m : SortedArray K V}
    (h : Stands c sizes bmap m) : bmap ≠ .dangling := by
  rintro rfl
  exact h

/-- The grown capacity is never zero. -/
theorem growCapacity_ne_zero {sizes : Int → Nat → Prop} {bmap : Ptr K V} {m : SortedArray K V}
    (h : Stands c sizes bmap m) : growCapacity c bmap ≠ 0 := by
  cases bmap with
  | dangling => exact h.elim
  | null => exact (by decide : (32 : Int) ≠ 0)
  | live t =>
      obtain ⟨cap, n, -, hstored⟩ := h
      exact (growCapacity_ne hstored).1

/-- **A request that is refused leaves the pointer and the block alone**, unless the
map grows by half. -/
theorem makeRoom_refused {sizes : Int → Nat → Prop} {bmap bmap' : Ptr K V} {m : SortedArray K V}
    (h : Stands c sizes bmap m) {replies : KvsReplies} (hwhole : GrowsWhole c bmap replies)
    (hroom : makeRoom c bmap replies = .ok (bmap', false)) : bmap' = bmap ∧ isFull bmap = true := by
  rw [makeRoom] at hroom
  by_cases hfull : isFull bmap = true
  · rw [if_pos hfull] at hroom
    refine ⟨?_, hfull⟩
    have hcases := kvsRealloc_cases (ne_dangling h) (growCapacity_ne_zero h) hroom
    cases bmap with
    | dangling => exact h.elim
    | null =>
        cases hcases with
        | refused hvalues => rfl
        | half hvalues hheader hkeys => rfl
    | live t =>
        have hhalf := hwhole (fun hnull => by cases hnull) hfull
        cases hcases with
        | refused hvalues =>
            rw [HalfGrows, if_pos hvalues] at hhalf
            exact if_neg hhalf
        | half hvalues hheader hkeys =>
            rw [HalfGrows, if_neg hvalues] at hhalf
            exact absurd ⟨hheader, hkeys⟩ hhalf
  · rw [if_neg hfull] at hroom
    cases hroom

/-- **Room that is granted is room for one more entry** in the block of the keys. -/
theorem makeRoom_granted {bmap bmap' : Ptr K V} {m : SortedArray K V}
    (h : Stands c (Counted c) bmap m) {replies : KvsReplies}
    (hroom : makeRoom c bmap replies = .ok (bmap', true)) :
    ∃ t cap n, bmap' = .live t ∧ Counted c cap n ∧ Stored c cap n t m.entries ∧
      (t.count : Int) < cap := by
  rw [makeRoom] at hroom
  by_cases hfull : isFull bmap = true
  · rw [if_pos hfull] at hroom
    have hcases := kvsRealloc_cases (ne_dangling h) (growCapacity_ne_zero h) hroom
    cases bmap with
    | dangling => exact h.elim
    | null =>
        cases hcases with
        | whole hvalues hheader hkeys =>
            obtain ⟨n, hcounted, hstored⟩ := newTable_null_stored (K := K) (V := V) hheader
            rw [show m.entries = [] from h]
            exact ⟨_, 32, n, rfl, hcounted, hstored, (by decide : (0 : Int) < 32)⟩
    | live t =>
        obtain ⟨cap, n, hcounted, hstored⟩ := id h
        cases hcases with
        | whole hvalues hheader hkeys =>
            have hsize := c.sizeofKey_pos
            have hbytes := (of_answer_ne_refused hkeys).1
            have hpos : 0 < growCapacity c (.live t) := by
              rw [keysBytes] at hbytes
              have hnonneg := nonneg_of_mul_nonneg_right hbytes (by omega)
              have hne := growCapacity_ne_zero h
              omega
            have hlarge := valuesBytes_double hstored hcounted hfull hpos hheader
            have hlt := lt_growCapacity h hfull hpos
            obtain ⟨t', hrealloc, hgrown⟩ := kvsRealloc_stands h hpos growCapacity_lt
              (Int.le_of_lt hlt)
              ⟨hlarge, (of_answer_ne_refused hvalues).2, (of_answer_ne_refused hkeys).2⟩
            rw [hrealloc] at hroom
            cases hroom
            refine ⟨_, _, _, rfl, ?_, hgrown, ?_⟩
            · rw [Counted, Int.toNat_of_nonneg (Int.le_of_lt hpos), ← wrapInt_values hpos hlarge]
              exact wrapInt_lt (Nat.lt_trans (by decide) c.fits) _
            · rw [hgrown.count]
              exact hlt
  · rw [if_neg hfull] at hroom
    cases hroom
    exact room_of_not_full h hfull

/-! ## Calls that insert -/

/-- The replies of a call that ran out of memory. -/
def RanOut : BmapReply V U → Prop
  | .status .oom => True
  | .value .oom _ => True
  | _ => False

/-- A call that does what the map does did not run out of memory. -/
theorem not_ranOut_of_mapCall {m m' : K → Option V} {op : BmapOp K V U} {reply : BmapReply V U}
    (h : MapCall m op reply m') : ¬ RanOut reply := by
  cases h <;> exact id

/-- What a call does that does not find its key. -/
theorem call_absent {sizes : Int → Nat → Prop} {bmap : Ptr K V} {m : SortedArray K V}
    (h : Stands c sizes bmap m) {op : BmapOp K V U} {key : K} {value : V}
    (hop : inserted op = some (key, value)) (hfind : m.find key = none) (replies : KvsReplies) :
    ∃ new oom : BmapReply V U, ¬ RanOut new ∧ RanOut oom ∧
      call c bmap (op, replies) =
        (kvsEmplace c bmap (m.lowerBound key) key replies >>= fun r =>
          if r.2 then writeValue r.1 (m.lowerBound key) value >>= fun b => .ok (new, b)
          else .ok (oom, r.1)) := by
  cases op with
  | emplaceNew key value =>
      cases hop
      refine ⟨.status .new, .status .oom, id, trivial, ?_⟩
      rw [call, insertNew, emplaceNew, lowerBound_eq h]
      simp only [ok_bind, hasKey_eq h, hfind]
      cases kvsEmplace c bmap (m.lowerBound key) key replies with
      | error f => rfl
      | ok r =>
          obtain ⟨b, granted⟩ := r
          cases granted with
          | false => rfl
          | true =>
              show (writeValue b _ value >>= _) >>= _ = writeValue b _ value >>= _
              cases writeValue b (m.lowerBound key) value <;> rfl
  | emplaceOrGet key value =>
      cases hop
      refine ⟨.value .new (some value), .value .oom none, id, trivial, ?_⟩
      rw [call, getOrInsert, emplaceOrGet, lowerBound_eq h]
      simp only [ok_bind, hasKey_eq h, hfind]
      cases kvsEmplace c bmap (m.lowerBound key) key replies with
      | error f => rfl
      | ok r =>
          obtain ⟨b, granted⟩ := r
          cases granted with
          | false => rfl
          | true =>
              show (writeValue b _ value >>= _) >>= _ = writeValue b _ value >>= _
              cases writeValue b (m.lowerBound key) value <;> rfl
  | insertUpdate key value =>
      cases hop
      refine ⟨.status .new, .status .oom, id, trivial, ?_⟩
      rw [call, insertUpdate, emplaceOrGet, lowerBound_eq h]
      simp only [ok_bind, hasKey_eq h, hfind]
      cases kvsEmplace c bmap (m.lowerBound key) key replies with
      | error f => rfl
      | ok r =>
          obtain ⟨b, granted⟩ := r
          cases granted with
          | false => rfl
          | true =>
              show (writeValue b _ value >>= _) >>= _ = writeValue b _ value >>= _
              cases writeValue b (m.lowerBound key) value <;> rfl
  | erase key => cases hop
  | find key => cases hop
  | retain onElement user => cases hop
  | compact => cases hop

/-- A call that gets no room runs out of memory. -/
theorem call_no_room {sizes : Int → Nat → Prop} {bmap bmap' : Ptr K V} {m : SortedArray K V}
    (h : Stands c sizes bmap m) {op : BmapOp K V U} {key : K} {value : V}
    (hop : inserted op = some (key, value)) (hfind : m.find key = none) {replies : KvsReplies}
    (hroom : makeRoom c bmap replies = .ok (bmap', false)) :
    ∃ reply, RanOut reply ∧ call c bmap (op, replies) = .ok (reply, bmap') := by
  obtain ⟨new, oom, -, hout, hcall⟩ := call_absent h hop hfind replies
  refine ⟨oom, hout, ?_⟩
  rw [hcall, kvsEmplace, hroom]
  rfl

/-- A call that gets room does not, and writes the entry in it. -/
theorem call_room {sizes : Int → Nat → Prop} {bmap bmap' : Ptr K V} {m : SortedArray K V}
    (h : Stands c sizes bmap m) {op : BmapOp K V U} {key : K} {value : V}
    (hop : inserted op = some (key, value)) (hfind : m.find key = none) {replies : KvsReplies}
    {t : Table K V} (hroom : makeRoom c bmap replies = .ok (.live t, true))
    {reply : BmapReply V U} (hcall : call c bmap (op, replies) = .ok (reply, bmap')) :
    ¬ RanOut reply ∧ ∃ gapped, openGap t (m.lowerBound key) key = .ok gapped ∧
      writeValue (.live gapped) (m.lowerBound key) value = .ok bmap' := by
  obtain ⟨new, oom, hnew, -, habsent⟩ := call_absent h hop hfind replies
  rw [habsent, kvsEmplace, hroom] at hcall
  simp only [ok_bind, if_true, bind_eq_ok, pure_eq_ok] at hcall
  obtain ⟨r, ⟨gapped, hgap, hr⟩, hwrite⟩ := hcall
  cases hr
  simp only [if_true, bind_eq_ok, Except.ok.injEq] at hwrite
  obtain ⟨b, hwrite, hreply⟩ := hwrite
  cases hreply
  exact ⟨hnew, gapped, hgap, hwrite⟩

/-- An insert that got its room inserts and reports no shortage. -/
theorem call_room_stands {bmap bmap' : Ptr K V} {m : SortedArray K V}
    (h : Stands c (Counted c) bmap m) {op : BmapOp K V U} {key : K} {value : V}
    (hop : inserted op = some (key, value)) (hfind : m.find key = none) {replies : KvsReplies}
    {b : Ptr K V} (hroom : makeRoom c bmap replies = .ok (b, true)) {reply : BmapReply V U}
    (hcall : call c bmap (op, replies) = .ok (reply, bmap')) :
    ¬ RanOut reply ∧ Stands c (Counted c) bmap' (m.insert key value) := by
  obtain ⟨t, cap, n, rfl, hcounted, hstored, hlt⟩ := makeRoom_granted h hroom
  obtain ⟨hnew, gapped, hgap, hwrite⟩ := call_room h hop hfind hroom hcall
  obtain ⟨before, behind, hentries, hidx, -, -⟩ := m.exists_split key
  rw [hidx] at hgap hwrite
  have hle : before.length ≤ t.count := by
    rw [hstored.count, hentries, List.length_append]
    omega
  have hinside := count_lt_of_openGap hstored hle hgap hwrite
  rw [hentries] at hstored
  obtain ⟨gapped', hgap', hvalues⟩ := openGap_stored hstored hlt hinside key
  obtain rfl : gapped' = gapped := Except.ok.inj (hgap'.symm.trans hgap)
  obtain ⟨values, hstore, hwritten⟩ := hvalues value
  rw [writeValue, hstore] at hwrite
  cases hwrite
  refine ⟨hnew, cap, n, hcounted, ?_⟩
  rw [entries_insert_eq hfind hentries hidx]
  exact hwritten

/-! ## Steps -/

/-- The pointer stands for a map, or its block has been given back. -/
def Sound (c : KvsLayout) (bmap : Ptr K V) : Prop :=
  bmap = .dangling ∨ ∃ m, Stands c (Counted c) bmap m

/-- A call that has to grow the map does not grow it by half. -/
def CallGrowsWhole (c : KvsLayout) (bmap : Ptr K V) (e : BmapOp K V U × KvsReplies) : Prop :=
  ∀ key value, inserted e.1 = some (key, value) → find bmap key = .ok none → GrowsWhole c bmap e.2

/-- A compaction leaves the map sound, with or without memory. -/
theorem compact_sound {bmap bmap' : Ptr K V} {m : SortedArray K V}
    (h : Stands c (Counted c) bmap m) {replies : KvsReplies}
    (hcompact : compact c bmap replies = .ok bmap') : Sound c bmap' := by
  simp only [compact, bind_eq_ok, pure_eq_ok] at hcompact
  obtain ⟨r, hrealloc, hr⟩ := hcompact
  cases hr
  cases bmap with
  | dangling => exact h.elim
  | null =>
      cases hrealloc
      exact .inr ⟨m, h⟩
  | live t =>
      by_cases hzero : t.count = 0
      · rw [oldTable, hzero] at hrealloc
        cases hrealloc
        exact .inr ⟨SortedArray.empty, rfl⟩
      · obtain ⟨cap, n, hcounted, hstored⟩ := id h
        obtain ⟨hcounted', hlarge, hnew⟩ := newTable_count_stored hstored hcounted hzero
        have hne : (t.count : Int) ≠ 0 := by omega
        cases kvsRealloc_cases (ne_dangling h) hne hrealloc with
        | refused hvalues =>
            by_cases hbytes : valuesBytes c t.count = 0
            · exact .inl (if_pos hbytes)
            · refine .inr ⟨m, ?_⟩
              have hsame : BlockPtr.afterRefusal (.live t) (valuesBytes c t.count) = .live t :=
                if_neg hbytes
              dsimp only
              rwa [hsame]
        | half hvalues hheader hkeys =>
            by_cases hmoved : reallocAnswer (valuesBytes c t.count) replies.values = .moved
            · exact .inl (if_pos hmoved)
            · refine .inr ⟨m, ?_⟩
              have hsame : halfGrown (.live t) (reallocAnswer (valuesBytes c t.count) replies.values)
                  (newTable c (.live t) t.count) = .live (newTable c (.live t) t.count) :=
                if_neg hmoved
              dsimp only
              rw [hsame]
              exact ⟨_, _, hcounted', hnew⟩
        | whole hvalues hheader hkeys =>
            have hfits : (t.count : Int) < 2 ^ (c.bits - 1) := hnew.fits
            obtain ⟨t', hrealloc', hstored'⟩ := kvsRealloc_stands h (by omega) hfits
              (by rw [hstored.count])
              ⟨hlarge, (of_answer_ne_refused hvalues).2, (of_answer_ne_refused hkeys).2⟩
            rw [show (oldTable (.live t)).count = t.count from rfl, hrealloc'] at hrealloc
            cases hrealloc
            exact .inr ⟨m, _, _, hcounted', hstored'⟩

/-- **What a call can do.**  It leaves a sound pointer and does not run out of memory,
or it inserts and gets no room. -/
theorem call_cases {bmap bmap' : Ptr K V} {m : SortedArray K V} (h : Stands c (Counted c) bmap m)
    {op : BmapOp K V U} {replies : KvsReplies} {reply : BmapReply V U}
    (hcall : call c bmap (op, replies) = .ok (reply, bmap')) :
    (¬ RanOut reply ∧ Sound c bmap') ∨
      (RanOut reply ∧ ∃ key value, inserted op = some (key, value) ∧ m.find key = none ∧
        makeRoom c bmap replies = .ok (bmap', false)) := by
  by_cases hcompact : op = .compact
  · subst hcompact
    simp only [call, bind_eq_ok, pure_eq_ok] at hcall
    obtain ⟨b, hcompact, hb⟩ := hcall
    cases hb
    exact .inl ⟨id, compact_sound h hcompact⟩
  by_cases hpresent : ∀ key value, inserted op = some (key, value) → m.find key ≠ none
  · obtain ⟨reply', b, m', hquiet, hspec, hstands⟩ :=
      call_quiet h (e := (op, replies)) ⟨hpresent, hcompact⟩
    rw [hquiet] at hcall
    cases hcall
    exact .inl ⟨not_ranOut_of_mapCall hspec, .inr ⟨m', hstands⟩⟩
  push Not at hpresent
  obtain ⟨key, value, hop, hfind⟩ := hpresent
  cases hroom : makeRoom c bmap replies with
  | error f =>
      obtain ⟨new, oom, -, -, habsent⟩ := call_absent h hop hfind replies
      rw [habsent, kvsEmplace, hroom] at hcall
      cases hcall
  | ok r =>
      obtain ⟨b, granted⟩ := r
      cases granted with
      | true =>
          obtain ⟨hnew, hstands⟩ := call_room_stands h hop hfind hroom hcall
          exact .inl ⟨hnew, .inr ⟨_, hstands⟩⟩
      | false =>
          obtain ⟨reply', hout, hcall'⟩ := call_no_room h hop hfind hroom
          rw [hcall'] at hcall
          cases hcall
          exact .inr ⟨hout, key, value, hop, hfind, rfl⟩

/-- A call that does not grow the map by half leaves a sound pointer. -/
theorem call_sound {bmap bmap' : Ptr K V} (h : Sound c bmap) {e : BmapOp K V U × KvsReplies}
    (hwhole : CallGrowsWhole c bmap e) (hstep : Run.stepOf (call c) bmap e = .ok bmap') :
    Sound c bmap' := by
  obtain ⟨op, replies⟩ := e
  obtain ⟨reply, hcall⟩ := Run.stepOf_eq_ok.mp hstep
  rcases h with rfl | ⟨m, h⟩
  · cases op <;> cases hcall
  · rcases call_cases h hcall with ⟨-, hsound⟩ | ⟨-, key, value, hop, hfind, hroom⟩
    · exact hsound
    · have hmap := hwhole key value hop (by rw [find_eq h, hfind])
      exact .inr ⟨m, by rwa [(makeRoom_refused h hmap hroom).1]⟩

/-! ## Harmless failures -/

/-- The map is still the one it was, and both blocks have room up to its capacity. -/
structure Untouched (t t' : Table K V) : Prop where
  count : t'.count = t.count
  keys : t'.keys.take t.count = t.keys.take t.count
  values : t'.values.take t.count = t.values.take t.count
  keys_room : t'.capacity ≤ t'.keys.length
  values_room : t'.capacity ≤ t'.values.length

/-- The pointer still refers to the map it referred to. -/
def LeavesMap : Ptr K V → Ptr K V → Prop
  | .null, .null => True
  | .live t, .live t' => Untouched t t'
  | _, _ => False

/-- Every sequence of calls is answered from the second pointer on as it is from the
first. -/
def SameAnswers (U : Type) (c : KvsLayout) (bmap bmap' : Ptr K V) : Prop :=
  ∀ events : List (BmapOp K V U × KvsReplies),
    (Run.answers (call c) bmap' events).map Prod.fst =
      (Run.answers (call c) bmap events).map Prod.fst

/-- If the call runs out of memory, it leaves the map as it was, and nothing later is
different. -/
def OomHarmless (c : KvsLayout) (bmap : Ptr K V) (e : BmapOp K V U × KvsReplies)
    (bmap' : Ptr K V) : Prop :=
  ∀ reply, call c bmap e = .ok (reply, bmap') → RanOut reply →
    LeavesMap bmap bmap' ∧ SameAnswers U c bmap bmap'

/-- The map that was there is left. -/
theorem leavesMap_self {bmap : Ptr K V} {m : SortedArray K V} (h : Stands c (Counted c) bmap m)
    (hfull : isFull bmap = true) : LeavesMap bmap bmap := by
  cases bmap with
  | dangling => exact h.elim
  | null => trivial
  | live t =>
      obtain ⟨cap, n, -, hstored⟩ := h
      have hcount : (t.count : Int) = t.capacity := of_decide_eq_true hfull
      have hkeys := hstored.keys_room
      have hvalues := hstored.values.length_le
      rw [List.length_map, ← hstored.count] at hvalues
      exact
        { count := rfl
          keys := rfl
          values := rfl
          keys_room := by rw [hstored.capacity]; exact hkeys
          values_room := by omega }

/-- A call that does not stop halfway through a growth is harmless. -/
theorem oomHarmless_of_growsWhole {bmap bmap' : Ptr K V} (h : Sound c bmap)
    {e : BmapOp K V U × KvsReplies} (hwhole : CallGrowsWhole c bmap e) :
    OomHarmless c bmap e bmap' := by
  obtain ⟨op, replies⟩ := e
  intro reply hcall hout
  rcases h with rfl | ⟨m, h⟩
  · cases op <;> cases hcall
  · rcases call_cases h hcall with ⟨hnot, -⟩ | ⟨-, key, value, hop, hfind, hroom⟩
    · exact absurd hout hnot
    · have hmap := hwhole key value hop (by rw [find_eq h, hfind])
      obtain ⟨rfl, hfull⟩ := makeRoom_refused h hmap hroom
      exact ⟨leavesMap_self h hfull, fun _ => rfl⟩

/-! ## Growing by half -/

/-- `emplace_new` and `emplace_or_get` differ in what they hand out for a key that is there. -/
def emplaceAs (c : KvsLayout) (there : Nat → Option Nat) (bmap : Ptr K V) (key : K)
    (replies : KvsReplies) : Except Fault (Ptr K V × BmapStatus × Option Nat) := do
  let idx ← lowerBound bmap key
  if ← hasKey bmap idx key then return (bmap, .present, there idx)
  else do
    let (bmap, ok) ← kvsEmplace c bmap idx key replies
    if ok then return (bmap, .new, some idx) else return (bmap, .oom, none)

/-- `insert_new` and `insert_update` write the value where there is something to write to. -/
def insertAs (c : KvsLayout) (there : Nat → Option Nat) (bmap : Ptr K V) (key : K) (value : V)
    (replies : KvsReplies) : Except Fault (Ptr K V × BmapStatus) := do
  let (bmap, status, slot) ← emplaceAs c there bmap key replies
  match slot with
  | some idx => return (← writeValue bmap idx value, status)
  | none => return (bmap, status)

/-- `insert_new` has no slot to write for a key that is there. -/
theorem insertNew_eq (bmap : Ptr K V) (key : K) (value : V) (replies : KvsReplies) :
    insertNew c bmap key value replies = insertAs c (fun _ => none) bmap key value replies :=
  rfl

/-- `insert_update` writes the slot of a key that is there. -/
theorem insertUpdate_eq (bmap : Ptr K V) (key : K) (value : V) (replies : KvsReplies) :
    insertUpdate c bmap key value replies = insertAs c some bmap key value replies :=
  rfl

/-- A map that is not full does not run out of memory on an emplace. -/
theorem emplaceAs_status {there : Nat → Option Nat} {bmap b : Ptr K V} (hfull : isFull bmap = false)
    {key : K} {replies : KvsReplies} {status : BmapStatus} {slot : Option Nat}
    (h : emplaceAs c there bmap key replies = .ok (b, status, slot)) : status ≠ .oom := by
  rw [emplaceAs] at h
  obtain ⟨idx, -, h⟩ := bind_eq_ok.mp h
  obtain ⟨found, -, h⟩ := bind_eq_ok.mp h
  cases found with
  | true =>
      cases h
      decide
  | false =>
      obtain ⟨⟨b', granted⟩, hemplace, h⟩ := bind_eq_ok.mp h
      obtain rfl := kvsEmplace_of_not_full hfull hemplace
      cases h
      decide

/-- Nor on an insert. -/
theorem insertAs_status {there : Nat → Option Nat} {bmap b : Ptr K V} (hfull : isFull bmap = false)
    {key : K} {value : V} {replies : KvsReplies} {status : BmapStatus}
    (h : insertAs c there bmap key value replies = .ok (b, status)) : status ≠ .oom := by
  rw [insertAs] at h
  obtain ⟨⟨b', status', slot⟩, hemplace, h⟩ := bind_eq_ok.mp h
  have hstatus := emplaceAs_status hfull hemplace
  cases slot with
  | none =>
      cases h
      exact hstatus
  | some idx =>
      obtain ⟨b'', -, h⟩ := bind_eq_ok.mp h
      cases h
      exact hstatus

/-- Nor on `get_or_insert`. -/
theorem getOrInsert_status {bmap b : Ptr K V} (hfull : isFull bmap = false) {key : K} {value : V}
    {replies : KvsReplies} {status : BmapStatus} {got : Option V}
    (h : getOrInsert c bmap key value replies = .ok (b, status, got)) : status ≠ .oom := by
  rw [getOrInsert] at h
  obtain ⟨⟨b', status', slot⟩, hget, h⟩ := bind_eq_ok.mp h
  have hget : emplaceAs c some bmap key replies = .ok (b', status', slot) := hget
  have hstatus := emplaceAs_status hfull hget
  cases slot with
  | none =>
      cases status' <;> cases h <;> exact hstatus
  | some idx =>
      cases status' with
      | oom => exact absurd rfl hstatus
      | new =>
          obtain ⟨b'', -, h⟩ := bind_eq_ok.mp h
          cases h
          exact hstatus
      | present =>
          obtain ⟨v, -, h⟩ := bind_eq_ok.mp h
          cases h
          exact hstatus

/-- A map that is not full does not run out of memory. -/
theorem not_ranOut_of_not_full {bmap b : Ptr K V} (hfull : isFull bmap = false)
    {op : BmapOp K V U} {replies : KvsReplies} {reply : BmapReply V U}
    (hcall : call c bmap (op, replies) = .ok (reply, b)) : ¬ RanOut reply := by
  cases op with
  | emplaceNew key value =>
      obtain ⟨⟨b', status⟩, hnew, h⟩ := bind_eq_ok.mp hcall
      rw [insertNew_eq] at hnew
      have hstatus := insertAs_status hfull hnew
      cases h
      cases status <;> first | exact id | exact absurd rfl hstatus
  | emplaceOrGet key value =>
      obtain ⟨⟨b', status, got⟩, hget, h⟩ := bind_eq_ok.mp hcall
      have hstatus := getOrInsert_status hfull hget
      cases h
      cases status <;> first | exact id | exact absurd rfl hstatus
  | insertUpdate key value =>
      obtain ⟨⟨b', status⟩, hupdate, h⟩ := bind_eq_ok.mp hcall
      rw [insertUpdate_eq] at hupdate
      have hstatus := insertAs_status hfull hupdate
      cases h
      cases status <;> first | exact id | exact absurd rfl hstatus
  | erase key =>
      obtain ⟨r, -, h⟩ := bind_eq_ok.mp hcall
      cases h
      exact id
  | find key =>
      obtain ⟨r, -, h⟩ := bind_eq_ok.mp hcall
      cases h
      exact id
  | retain onElement user =>
      obtain ⟨r, -, h⟩ := bind_eq_ok.mp hcall
      cases h
      exact id
  | compact =>
      obtain ⟨r, -, h⟩ := bind_eq_ok.mp hcall
      cases h
      exact id

/-- The replies that grant nothing. -/
def noMemory : KvsReplies where
  values := .refused
  keys := .refused

/-- **A map that grows by half is not left alone.** -/
theorem not_oomHarmless_of_halfGrows {t : Table K V} {m : SortedArray K V}
    (h : Stands c (Counted c) (.live t) m) (hfull : isFull (.live t) = true) {op : BmapOp K V U}
    {key : K} {value : V} (hop : inserted op = some (key, value)) (hfind : m.find key = none)
    {replies : KvsReplies} (hhalf : HalfGrows c (growCapacity c (.live t)) replies) :
    ∃ b, Run.stepOf (call c) (.live t) (op, replies) = .ok b ∧
      ¬ OomHarmless c (.live t) (op, replies) b := by
  obtain ⟨cap, n, -, hstored⟩ := id h
  obtain ⟨b, hroom, hb⟩ := makeRoom_half hstored hfull hhalf
  obtain ⟨reply, hout, hcall⟩ := call_no_room h hop hfind hroom
  refine ⟨b, Run.stepOf_eq_ok.mpr ⟨reply, hcall⟩, fun hharmless => ?_⟩
  obtain ⟨hleaves, hsame⟩ := hharmless reply hcall hout
  rcases hb with rfl | rfl
  · exact hleaves
  · -- the same call without any memory is answered differently
    obtain ⟨b, hroom'⟩ : ∃ b, makeRoom c (.live t) noMemory = .ok (b, false) := by
      rw [makeRoom, if_pos hfull, kvsRealloc_eq (fun hdangling => by cases hdangling)
        (growCapacity_ne hstored).1, if_pos (by rw [reallocAnswer]; exact ite_self _)]
      exact ⟨_, rfl⟩
    obtain ⟨before, hbefore, hcallBefore⟩ := call_no_room h hop hfind hroom'
    have hnotFull : isFull (.live (newTable c (.live t) (growCapacity c (.live t)))) = false := by
      have hcount : (t.count : Int) = t.capacity := of_decide_eq_true hfull
      have hne := (growCapacity_ne hstored).2
      refine decide_eq_false fun heq => hne ?_
      rw [← hstored.capacity, ← hcount]
      exact heq.symm
    have hanswers := hsame [(op, noMemory)]
    rw [Run.answers, Run.answers, hcallBefore] at hanswers
    cases hafter : call c (.live (newTable c (.live t) (growCapacity c (.live t)))) (op, noMemory) with
    | error f =>
        rw [hafter] at hanswers
        cases hanswers
    | ok r =>
        obtain ⟨after, b'⟩ := r
        rw [hafter] at hanswers
        cases hanswers
        exact not_ranOut_of_not_full hnotFull hafter hbefore

/-- **Exact step.** -/
theorem oomHarmless_iff_growsWhole {bmap : Ptr K V} (h : Sound c bmap)
    (e : BmapOp K V U × KvsReplies) :
    (∀ bmap', Run.stepOf (call c) bmap e = .ok bmap' → OomHarmless c bmap e bmap') ↔
      CallGrowsWhole c bmap e := by
  refine ⟨fun hall key value hop hfind hnull hfull hhalf => ?_,
    fun hwhole bmap' _ => oomHarmless_of_growsWhole h hwhole⟩
  rcases h with rfl | ⟨m, h⟩
  · cases hfull
  · cases bmap with
    | null => exact hnull rfl
    | dangling => exact h
    | live t =>
        rw [find_eq h] at hfind
        obtain ⟨b, hstep, hharm⟩ :=
          not_oomHarmless_of_halfGrows h hfull hop (Except.ok.inj hfind) hhalf
        exact hharm (hall b hstep)

end Clither.BmapArrays

namespace Clither

open BmapArrays

/-- **Running out of memory is harmless exactly when no map grows by half.** -/
theorem oom_harmless_iff_growsWhole {K V U : Type} [LinearOrder K] (c : KvsLayout)
    (events : List (BmapOp K V U × KvsReplies)) :
    Run.EverySafe (Run.stepOf (call c)) (OomHarmless c) (fun _ => True) .null events ↔
      Run.Meets (Run.stepOf (call c)) (CallGrowsWhole c) .null events := by
  have hnull : Sound c (.null : Ptr K V) := .inr ⟨SortedArray.empty, rfl⟩
  refine Run.everySafe_iff_meets_of_keeps
    (fun bmap e bmap' h hwhole hstep => call_sound h hwhole hstep) (fun bmap e h => ?_) hnull
  rw [← oomHarmless_iff_growsWhole h e]
  exact ⟨fun hsafe => hsafe.2, fun hall => ⟨fun _ _ => trivial, hall⟩⟩

/-- As many insertions as the first capacity has room for. -/
def filling : List (BmapOp Nat Nat Unit × KvsReplies) :=
  (List.range 32).map fun i => (.emplaceNew i i, moving)

/-- The map after them. -/
def filled : Ptr Nat Nat :=
  .live { count := 32
          capacity := 32
          keys := (List.range 32).map some
          values := (List.range 32).map some }

/-- The first block moves, and there is no second one. -/
def halfMoved : KvsReplies where
  values := .moved
  keys := .refused

/-- After filling the map, a growth that moves only the values leaves a dangling pointer. -/
theorem not_oom_harmless_filled :
    ¬ Run.EverySafe (Run.stepOf (call objBmap)) (OomHarmless objBmap) (fun _ => True) .null
      (filling ++ [(.emplaceNew 32 32, halfMoved)]) := by
  intro h
  have hrun : Run.run (Run.stepOf (call objBmap)) .null filling = .ok filled := by decide +kernel
  have hcall : call objBmap filled ((.emplaceNew 32 32, halfMoved) : BmapOp Nat Nat Unit × _) =
      .ok (.status .oom, .dangling) := by rfl
  have hharmless :=
    Run.effect_of_everySafe h hrun (Run.stepOf_eq_ok.mpr ⟨.status .oom, hcall⟩)
  exact (hharmless (.status .oom) hcall trivial).1

end Clither
