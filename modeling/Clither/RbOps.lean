import Clither.Rb

/-!
# The functions of the ring buffer

`put_realloc` and `emplace_realloc` double the capacity when the buffer is
full.  The doubled capacity is a value of the index type, so that the largest
one comes out negative: `resize` then asks for a negative number of bytes and
fails.  `rbHasSpace` is the test that decides, and `rbPutRealloc_spec` says
that an insertion appends exactly when it holds.
-/

namespace Clither

variable {c : RbInstance} {α : Type}

/-- `rb_for_each`. -/
def rbToList : Rb c α → List α
  | none => []
  | some r => r.toList

/-- `rb_count`. -/
def rbCount : Rb c α → Nat
  | none => 0
  | some r => r.count

/-- The request of `resize` for `elems` elements. -/
def rbRequest (c : RbInstance) (elems : Int) : Int :=
  8 + c.sizeofElem * elems

/-- The number of elements that `put_realloc` and `emplace_realloc` ask for
when there is no space, in the index type. -/
def rbGrowElems : Rb c α → Int
  | none => wrapInt c.bits 16
  | some r => wrapInt c.bits (2 * r.capacity)

/-- A doubled capacity that is granted is one the index type can hold. -/
theorem fits_of_granted {mem : Alloc} {r : Ring c α}
    (h : granted mem (rbRequest c (rbGrowElems (some r))) = true) :
    r.logCapacity + 1 + 1 < c.bits := by
  by_contra hge
  have hfits := r.fits
  obtain ⟨b, hb⟩ : ∃ b, c.bits = b + 1 := ⟨c.bits - 1, by omega⟩
  have hbk : r.logCapacity + 1 = b := by omega
  have helems : rbGrowElems (some r) = -2 ^ b := by
    have hdouble : (2 * r.capacity : Int) = 2 ^ b := by
      rw [← hbk, Ring.capacity]
      push_cast
      ring
    rw [rbGrowElems, hdouble, hb, wrapInt_two_pow_eq_neg]
  have hsmall : (32 : Int) ≤ 2 ^ b := by
    have : 2 ^ 5 ≤ 2 ^ b := Nat.pow_le_pow_right (by decide) (by have := c.fits; omega)
    exact_mod_cast this
  have hpos := c.sizeofElem_pos
  have hnonneg := nonneg_of_granted h
  rw [rbRequest, helems] at hnonneg
  nlinarith

/-- Whether `put_realloc` and `emplace_realloc` find or make space. -/
def rbHasSpace (mem : Alloc) : Rb c α → Bool
  | none => granted mem (rbRequest c (rbGrowElems (none : Rb c α)))
  | some r => !r.isFull || granted mem (rbRequest c (rbGrowElems (some r)))

/-- `put_realloc`, and `emplace_realloc` with the write its caller makes at
once; `none` for -1 and `NULL`. -/
def rbPutRealloc (mem : Alloc) (rb : Rb c α) (elem : α) : Option (Rb c α) :=
  match rb with
  | none =>
      if granted mem (rbRequest c (rbGrowElems (none : Rb c α))) then
        some (some (Ring.empty.push elem))
      else none
  | some r =>
      if r.isFull then
        if h : granted mem (rbRequest c (rbGrowElems (some r))) = true then
          some (some ((r.widen (r.logCapacity + 1) (Nat.lt_succ_self _)
            (fits_of_granted h)).push elem))
        else none
      else some (some (r.push elem))

/-- `take`. -/
def rbTake (rb : Rb c α) : Except Fault (α × Rb c α) :=
  match rb with
  | none => .error .empty
  | some r =>
      if h : r.isEmpty = false then
        match r.peek 0 with
        | some elem => .ok (elem, some (r.drop h))
        | none => .error .empty
      else .error .empty

/-- `takew`. -/
def rbTakew (rb : Rb c α) : Except Fault (α × Rb c α) :=
  match rb with
  | none => .error .empty
  | some r =>
      if h : r.isEmpty = false then
        match r.peek (r.count - 1) with
        | some elem => .ok (elem, some (r.dropw h))
        | none => .error .empty
      else .error .empty

/-- `rb_peek`, with the assertion that the index is in range. -/
def rbPeek (rb : Rb c α) (idx : Nat) : Except Fault α :=
  match rb with
  | none => .error .empty
  | some r =>
      if idx < r.count then
        match r.peek idx with
        | some elem => .ok elem
        | none => .error .empty
      else .error .empty

/-- `rb_peek_read`. -/
def rbPeekRead (rb : Rb c α) : Except Fault α :=
  rbPeek rb 0

/-- `rb_peek_write`. -/
def rbPeekWrite (rb : Rb c α) : Except Fault α :=
  rbPeek rb (rbCount rb - 1)

/-- Write through the pointer that `rb_peek` returned. -/
def rbSet (rb : Rb c α) (idx : Nat) (elem : α) : Rb c α :=
  rb.map (·.set idx elem)

/-- Write through the pointer that `rb_peek_write` returned. -/
def rbSetWrite (rb : Rb c α) (elem : α) : Rb c α :=
  rbSet rb (rbCount rb - 1) elem

/-- The NULL buffer has no element. -/
@[simp] theorem rbToList_none : rbToList (none : Rb c α) = [] := rfl

/-- The list is as long as `rb_count`. -/
@[simp] theorem length_rbToList (rb : Rb c α) : (rbToList rb).length = rbCount rb := by
  cases rb with
  | none => rfl
  | some r => exact r.length_toList

/-- A widened buffer is not full. -/
theorem isFull_widen (r : Ring c α) (hfits : r.logCapacity + 1 + 1 < c.bits) :
    (r.widen (r.logCapacity + 1) (Nat.lt_succ_self _) hfits).isFull = false := by
  have hlt := r.count_lt
  rw [← Bool.not_eq_true, Ring.isFull_iff, Ring.toList_widen, Ring.length_toList]
  simp only [Ring.capacity, Ring.widen, pow_succ] at *
  omega

/-- **Putting appends**, exactly when there is space or it can be made. -/
theorem rbPutRealloc_spec (mem : Alloc) (rb : Rb c α) (elem : α) :
    (rbHasSpace mem rb = false ∧ rbPutRealloc mem rb elem = none) ∨
    (rbHasSpace mem rb = true ∧ ∃ rb', rbPutRealloc mem rb elem = some rb' ∧
      rbToList rb' = rbToList rb ++ [elem]) := by
  cases rb with
  | none =>
      by_cases h : granted mem (rbRequest c (rbGrowElems (none : Rb c α))) = true
      · refine Or.inr ⟨h, some (Ring.empty.push elem), by rw [rbPutRealloc, if_pos h], ?_⟩
        exact (Ring.toList_push Ring.isFull_empty elem).trans (by rw [Ring.toList_empty]; rfl)
      · exact Or.inl ⟨Bool.eq_false_of_not_eq_true h, by rw [rbPutRealloc, if_neg h]⟩
  | some r =>
      by_cases hfull : r.isFull = true
      · by_cases h : granted mem (rbRequest c (rbGrowElems (some r))) = true
        · refine Or.inr ⟨by simp [rbHasSpace, h], _, by rw [rbPutRealloc, if_pos hfull, dif_pos h],
            ?_⟩
          exact (Ring.toList_push (isFull_widen r (fits_of_granted h)) elem).trans (by simp [rbToList])
        · refine Or.inl ⟨by simp [rbHasSpace, hfull, h], ?_⟩
          rw [rbPutRealloc, if_pos hfull, dif_neg h]
      · refine Or.inr ⟨by simp [rbHasSpace, hfull], _, by rw [rbPutRealloc, if_neg hfull], ?_⟩
        exact Ring.toList_push (by simpa using hfull) elem

/-- A put that got its memory adds at the end. -/
theorem rbToList_rbPutRealloc {mem : Alloc} {rb rb' : Rb c α} {elem : α}
    (h : rbPutRealloc mem rb elem = some rb') : rbToList rb' = rbToList rb ++ [elem] := by
  rcases rbPutRealloc_spec mem rb elem with ⟨-, hnone⟩ | ⟨-, rb₂, hsome, hlist⟩
  · rw [hnone] at h
    cases h
  · obtain rfl := Option.some.inj (h.symm.trans hsome)
    exact hlist

/-- With memory for every request a buffer holds up to `2 ^ (bits - 2) - 1`
elements. -/
theorem rbHasSpace_unlimited (rb : Rb c α) :
    rbHasSpace Alloc.unlimited rb = decide (rbCount rb + 1 < 2 ^ (c.bits - 2)) := by
  have hbits := c.fits
  have hgrant {elems : Int} (h : 0 ≤ elems) :
      granted Alloc.unlimited (rbRequest c elems) = true := by
    have hnonneg : 0 ≤ rbRequest c elems := by
      rw [rbRequest]
      positivity
    rw [granted, decide_eq_true hnonneg]
    rfl
  cases rb with
  | none =>
      have hsmall : (16 : Int) < 2 ^ (c.bits - 1) := by
        have : 2 ^ 4 < 2 ^ (c.bits - 1) := Nat.pow_lt_pow_right (by decide) (by omega)
        exact_mod_cast this
      have hroom : 2 ^ 1 < 2 ^ (c.bits - 2) := Nat.pow_lt_pow_right (by decide) (by omega)
      rw [rbHasSpace, hgrant (by rw [rbGrowElems, wrapInt_of_lt (by omega) (by decide) hsmall]
                                 decide)]
      exact (decide_eq_true (Nat.lt_of_succ_lt hroom)).symm
  | some r =>
      have hlt := r.count_lt
      have hcapacity : r.capacity ≤ 2 ^ (c.bits - 2) :=
        Nat.pow_le_pow_right (by decide) (by have := r.fits; omega)
      have hfull := r.isFull_iff
      rw [Ring.length_toList] at hfull
      by_cases hisFull : r.isFull = true
      · by_cases hlast : r.logCapacity + 2 < c.bits
        · have hbound : (2 * r.capacity : Int) < 2 ^ (c.bits - 1) := by
            have h : 2 ^ (r.logCapacity + 1) < 2 ^ (c.bits - 1) :=
              Nat.pow_lt_pow_right (by decide) (by omega)
            rw [pow_succ'] at h
            exact_mod_cast h
          have hless : r.capacity < 2 ^ (c.bits - 2) :=
            Nat.pow_lt_pow_right (by decide) (by omega)
          rw [rbHasSpace, hgrant (by rw [rbGrowElems, wrapInt_of_lt (by omega) (by positivity) hbound]
                                     positivity), Bool.or_true]
          exact (decide_eq_true (by rw [rbCount]; have := hfull.mp hisFull; omega)).symm
        · have hno : granted Alloc.unlimited (rbRequest c (rbGrowElems (some r))) = false := by
            rw [← Bool.not_eq_true]
            intro hyes
            have := fits_of_granted hyes
            omega
          have hcap : r.capacity = 2 ^ (c.bits - 2) := by
            have := r.fits
            rw [Ring.capacity, show r.logCapacity = c.bits - 2 by omega]
          rw [rbHasSpace, hisFull, hno]
          have := hfull.mp hisFull
          exact (decide_eq_false (by rw [rbCount]; omega)).symm
      · have hne : r.count + 1 ≠ r.capacity := fun h => hisFull (hfull.mpr h)
        rw [rbHasSpace, Bool.eq_false_of_not_eq_true hisFull]
        exact (decide_eq_true (by rw [rbCount]; omega)).symm

/-- `rb_peek` reads the list, and finds nothing past its end. -/
theorem rbPeek_eq (rb : Rb c α) (idx : Nat) :
    rbPeek rb idx =
      match (rbToList rb)[idx]? with
      | some elem => .ok elem
      | none => .error .empty := by
  cases rb with
  | none => rfl
  | some r =>
      simp only [rbPeek, rbToList, Ring.getElem?_toList]
      by_cases h : idx < r.count
      · rw [if_pos h, if_pos h]
      · rw [if_neg h, if_neg h]

/-- What the list has at an index is what `rb_peek` reads there. -/
theorem rbPeek_of_getElem? {rb : Rb c α} {idx : Nat} {elem : α}
    (h : (rbToList rb)[idx]? = some elem) : rbPeek rb idx = .ok elem := by
  rw [rbPeek_eq, h]

/-- `rb_peek_write` reads the last element. -/
theorem rbPeekWrite_of_concat {rb : Rb c α} {init : List α} {elem : α}
    (h : rbToList rb = init ++ [elem]) : rbPeekWrite rb = .ok elem := by
  have hlen := length_rbToList rb
  rw [h, List.length_append, List.length_singleton] at hlen
  apply rbPeek_of_getElem?
  rw [h, ← hlen]
  simp

/-- `rb_peek_write` finds nothing in an empty buffer. -/
theorem rbPeekWrite_of_nil {rb : Rb c α} (h : rbToList rb = []) :
    rbPeekWrite rb = .error .empty := by
  rw [rbPeekWrite, rbPeek_eq, h]
  rfl

/-- `rb_take` takes the first element. -/
theorem rbTake_of_cons {rb : Rb c α} {elem : α} {rest : List α} (h : rbToList rb = elem :: rest) :
    ∃ rb', rbTake rb = .ok (elem, rb') ∧ rbToList rb' = rest := by
  cases rb with
  | none => cases h
  | some r =>
      have hne : r.isEmpty = false := by
        rw [← Bool.not_eq_true, Ring.isEmpty_iff]
        intro hnil
        cases h.symm.trans hnil
      have hpos : 0 < r.count := by
        rw [← r.length_toList, show r.toList = elem :: rest from h]
        simp
      refine ⟨some (r.drop hne), ?_, ?_⟩
      · rw [rbTake, dif_pos hne, r.peek_eq hpos, show r.toList = elem :: rest from h]
        rfl
      · exact (Ring.toList_drop hne).trans (by rw [show r.toList = elem :: rest from h]; rfl)

/-- `rb_take` finds nothing in an empty buffer. -/
theorem rbTake_of_nil {rb : Rb c α} (h : rbToList rb = []) : rbTake rb = .error .empty := by
  cases rb with
  | none => rfl
  | some r =>
      have hempty : r.isEmpty = true := r.isEmpty_iff.mpr h
      rw [rbTake, dif_neg (by simp [hempty])]

/-- `rb_takew` takes the last element. -/
theorem rbTakew_of_concat {rb : Rb c α} {init : List α} {elem : α}
    (h : rbToList rb = init ++ [elem]) :
    ∃ rb', rbTakew rb = .ok (elem, rb') ∧ rbToList rb' = init := by
  cases rb with
  | none => simp at h
  | some r =>
      have hlist : r.toList = init ++ [elem] := h
      have hne : r.isEmpty = false := by
        rw [← Bool.not_eq_true, Ring.isEmpty_iff, hlist]
        simp
      have hcount : r.count = init.length + 1 := by
        rw [← r.length_toList, hlist]
        simp
      refine ⟨some (r.dropw hne), ?_, ?_⟩
      · rw [rbTakew, dif_pos hne, r.peek_eq (by omega), hlist, hcount]
        simp
      · exact (Ring.toList_dropw hne).trans (by rw [hlist, List.dropLast_concat])

/-- `rb_takew` finds nothing in an empty buffer. -/
theorem rbTakew_of_nil {rb : Rb c α} (h : rbToList rb = []) : rbTakew rb = .error .empty := by
  cases rb with
  | none => rfl
  | some r =>
      have hempty : r.isEmpty = true := r.isEmpty_iff.mpr h
      rw [rbTakew, dif_neg (by simp [hempty])]

/-- Writing through a peeked pointer replaces one element. -/
theorem rbToList_set {rb : Rb c α} {idx : Nat} (hidx : idx < rbCount rb) (elem : α) :
    rbToList (rbSet rb idx elem) = (rbToList rb).set idx elem := by
  cases rb with
  | none => rfl
  | some r => exact Ring.toList_set hidx elem

/-- Writing through `rb_peek_write` replaces the last element. -/
theorem rbToList_setWrite {rb : Rb c α} {init : List α} {old : α}
    (h : rbToList rb = init ++ [old]) (elem : α) :
    rbToList (rbSetWrite rb elem) = init ++ [elem] := by
  have hcount : rbCount rb = init.length + 1 := by
    rw [← length_rbToList, h]
    simp
  rw [rbSetWrite, rbToList_set (by omega), h, hcount]
  simp

/-! ## Membership -/

/-- The element that a peek has found. -/
theorem mem_of_rbPeek {rb : Rb c α} {idx : Nat} {elem : α}
    (h : rbPeek rb idx = .ok elem) : idx < rbCount rb ∧ elem ∈ rbToList rb := by
  rw [rbPeek_eq] at h
  cases hget : (rbToList rb)[idx]? with
  | none =>
      rw [hget] at h
      cases h
  | some found =>
      rw [hget] at h
      cases h
      obtain ⟨hlt, hmem⟩ := List.getElem?_eq_some_iff.mp hget
      exact ⟨length_rbToList rb ▸ hlt, hmem ▸ List.getElem_mem hlt⟩

/-- After a write, the elements are the old ones and the new one. -/
theorem mem_rbSet {rb : Rb c α} {idx : Nat} {elem found : α}
    (hidx : idx < rbCount rb) (h : found ∈ rbToList (rbSet rb idx elem)) :
    found ∈ rbToList rb ∨ found = elem := by
  rw [rbToList_set hidx] at h
  exact List.mem_or_eq_of_mem_set h

/-- What is left after a take was there before. -/
theorem mem_of_rbTake {rb rb' : Rb c α} {elem found : α}
    (h : rbTake rb = .ok (elem, rb')) (hfound : found ∈ rbToList rb') : found ∈ rbToList rb := by
  cases hlist : rbToList rb with
  | nil => cases (rbTake_of_nil hlist).symm.trans h
  | cons first rest =>
      obtain ⟨rb₂, htake, hrest⟩ := rbTake_of_cons hlist
      cases htake.symm.trans h
      rw [hrest] at hfound
      exact List.mem_cons_of_mem _ hfound

/-- The buffer after putting the elements of a list. -/
def rbOfList {c : RbInstance} {β : Type} (elems : List β) : Rb c β :=
  elems.foldl (fun rb elem => (rbPutRealloc Alloc.unlimited rb elem).getD rb) none

end Clither
