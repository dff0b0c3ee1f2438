import Clither.Mem

/-!
# The vector

`VEC_DECLARE` generates a growing array.  The first 32 elements are allocated
at once and the capacity doubles from there, in a 16-bit `capacity`.  The null
pointer is the vector of capacity 0.  The elements are kept as a list; the
memory behind `count` is never read.
-/

namespace Clither

/-- The arguments of one `VEC_DECLARE` with 16 bits: the offset of `data` and
`sizeof(T)`. -/
structure VecInstance where
  header : Nat
  sizeofElem : Nat
  header_lt : header < 2 ^ 15
  sizeofElem_pos : 0 < sizeofElem

/-- Where the first element stands behind the two counters of 16 bits: pointers are aligned. -/
def ElemType.vecHeader : ElemType → Nat
  | pointer => 8
  | resourceSnakePart => 8
  | _ => 4

theorem ElemType.vecHeader_lt (t : ElemType) : t.vecHeader < 2 ^ 15 := by
  cases t <;> decide

structure Vec (c : VecInstance) (α : Type) where
  capacity : Nat
  items : List α
  /-- The capacities that doubling reaches. -/
  capacity_eq : capacity = 0 ∨ ∃ j, j ≤ 9 ∧ capacity = 2 ^ (j + 5)
  length_le : items.length ≤ capacity
  deriving DecidableEq

variable {c : VecInstance} {α : Type}

/-- `vec_init`. -/
def vecInit : Vec c α where
  capacity := 0
  items := []
  capacity_eq := Or.inl rfl
  length_le := Nat.le_refl 0

/-- The capacity that `emplace` asks for when the vector is full. -/
def vecGrowElems (v : Vec c α) : Int :=
  if v.capacity = 0 then 32 else wrapInt 16 (2 * v.capacity)

/-- The request of `realloc` for `elems` elements. -/
def vecRequest (c : VecInstance) (elems : Int) : Int :=
  c.header + c.sizeofElem * elems

/-- Whether `emplace` finds or makes space. -/
def vecHasSpace (mem : Alloc) (v : Vec c α) : Bool :=
  decide (v.items.length ≠ v.capacity) || granted mem (vecRequest c (vecGrowElems v))

/-- The capacity doubles up to the largest power of two of the index type. -/
theorem vecGrowElems_cases (v : Vec c α) :
    (∃ j, j ≤ 9 ∧ vecGrowElems v = (2 ^ (j + 5) : Nat) ∧ v.capacity < 2 ^ (j + 5)) ∨
    (v.capacity = 2 ^ 14 ∧ vecGrowElems v = -2 ^ 15) := by
  rcases v.capacity_eq with hzero | ⟨j, hj, hcap⟩
  · exact Or.inl ⟨0, by decide, by rw [vecGrowElems, if_pos hzero]; rfl, by omega⟩
  · have hpos : v.capacity ≠ 0 := by
      rw [hcap]
      exact (Nat.two_pow_pos _).ne'
    have hdouble : (2 * v.capacity : Int) = 2 ^ (j + 6) := by
      rw [hcap]
      push_cast
      ring
    rw [vecGrowElems, if_neg hpos, hdouble]
    by_cases hlast : j = 9
    · subst hlast
      exact Or.inr ⟨hcap, wrapInt_two_pow_eq_neg⟩
    · refine Or.inl ⟨j + 1, by omega, ?_, ?_⟩
      · have hfits : (2 : Int) ^ (j + 6) < 2 ^ 15 := by
          exact_mod_cast Nat.pow_lt_pow_right (by decide) (by omega)
        rw [wrapInt_of_lt (by decide) (by positivity) (by simpa using hfits)]
        push_cast
        ring
      · rw [hcap]
        exact Nat.pow_lt_pow_right (by decide) (by omega)

/-- The last doubling asks for a negative number of bytes. -/
theorem vecRequest_neg (c : VecInstance) : vecRequest c (-2 ^ 15) < 0 := by
  have hheader : (c.header : Int) < 2 ^ 15 := by exact_mod_cast c.header_lt
  have hpos : (0 : Int) < c.sizeofElem := by exact_mod_cast c.sizeofElem_pos
  unfold vecRequest
  nlinarith

/-- A growth that is granted goes to the next power of two. -/
theorem vecGrowElems_of_granted {mem : Alloc} {v : Vec c α}
    (h : granted mem (vecRequest c (vecGrowElems v)) = true) :
    ∃ j, j ≤ 9 ∧ vecGrowElems v = (2 ^ (j + 5) : Nat) ∧ v.capacity < 2 ^ (j + 5) := by
  rcases vecGrowElems_cases v with hfits | ⟨-, hneg⟩
  · exact hfits
  · rw [hneg, granted_eq_false_of_neg (vecRequest_neg c)] at h
    cases h

/-- `push`, which leaves the vector alone when it fails.  The callers ignore
its return value. -/
def vecPush (mem : Alloc) (v : Vec c α) (elem : α) : Vec c α :=
  if hfull : v.items.length = v.capacity then
    if hgrant : granted mem (vecRequest c (vecGrowElems v)) = true then
      { capacity := (vecGrowElems v).toNat
        items := v.items ++ [elem]
        capacity_eq := by
          obtain ⟨j, hj, helems, -⟩ := vecGrowElems_of_granted hgrant
          exact Or.inr ⟨j, hj, by rw [helems, Int.toNat_natCast]⟩
        length_le := by
          obtain ⟨j, -, helems, hlt⟩ := vecGrowElems_of_granted hgrant
          rw [helems, Int.toNat_natCast, List.length_append, hfull]
          exact hlt }
    else v
  else
    { capacity := v.capacity
      items := v.items ++ [elem]
      capacity_eq := v.capacity_eq
      length_le := by
        have := v.length_le
        rw [List.length_append, List.length_singleton]
        omega }

/-- Forget the newest element: `count` goes down and the memory stays. -/
def Vec.shrink (v : Vec c α) : Vec c α where
  capacity := v.capacity
  items := v.items.dropLast
  capacity_eq := v.capacity_eq
  length_le := by
    have := v.length_le
    rw [List.length_dropLast]
    omega

/-- `clear`. -/
def Vec.clear (v : Vec c α) : Vec c α where
  capacity := v.capacity
  items := []
  capacity_eq := v.capacity_eq
  length_le := Nat.zero_le _

/-- `pop`, with the assertion that there is an element. -/
def vecPop (v : Vec c α) : Except Fault (Vec c α) :=
  match v.items with
  | [] => .error .empty
  | _ :: _ => .ok v.shrink

/-- The loop of `retain`.  The callback gets an element and answers with what
stays of it; an error of the callback ends the loop. -/
def retainLoop {σ : Type} (onElement : σ → α → Option (σ × Option α)) :
    σ → List α → Option (σ × List α)
  | user, [] => some (user, [])
  | user, elem :: rest =>
      match onElement user elem with
      | none => none
      | some (user, kept) =>
          match retainLoop onElement user rest with
          | none => none
          | some (user, rest) => some (user, kept.toList ++ rest)

/-- The same loop over the indices of the array.  Erasing an element moves the
elements behind it, and the index stays. -/
def retainInPlace {σ : Type} (onElement : σ → α → Option (σ × Option α)) (user : σ)
    (elems : List α) (i : Nat) : Option (σ × List α) :=
  if hi : i < elems.length then
    match onElement user elems[i] with
    | none => none
    | some (user, some elem) => retainInPlace onElement user (elems.set i elem) (i + 1)
    | some (user, none) => retainInPlace onElement user (elems.eraseIdx i) i
  else some (user, elems)
termination_by elems.length - i
decreasing_by
  · rw [List.length_set]
    omega
  · rw [List.length_eraseIdx_of_lt hi]
    omega

/-- **Erasing while iterating skips no element.** -/
theorem retainInPlace_eq {σ : Type} (onElement : σ → α → Option (σ × Option α)) (user : σ)
    (before elems : List α) :
    retainInPlace onElement user (before ++ elems) before.length =
      (retainLoop onElement user elems).map fun (user, kept) => (user, before ++ kept) := by
  induction elems generalizing user before with
  | nil =>
      rw [retainInPlace, List.append_nil, dif_neg (Nat.lt_irrefl _)]
      simp [retainLoop]
  | cons elem rest ih =>
      have hlt : before.length < (before ++ elem :: rest).length := by simp
      have hget : (before ++ elem :: rest)[before.length] = elem := by simp
      rw [retainInPlace, dif_pos hlt, hget, retainLoop]
      cases onElement user elem with
      | none => rfl
      | some r =>
          obtain ⟨user', stays⟩ := r
          cases stays with
          | some elem' =>
              have hset : (before ++ elem :: rest).set before.length elem' =
                  (before ++ [elem']) ++ rest := by simp
              have hlen : before.length + 1 = (before ++ [elem']).length := by simp
              dsimp only
              rw [hset, hlen, ih]
              cases retainLoop onElement user' rest <;> simp
          | none =>
              have herase : (before ++ elem :: rest).eraseIdx before.length = before ++ rest := by
                rw [List.eraseIdx_append_of_length_le (Nat.le_refl _), Nat.sub_self,
                  List.eraseIdx_zero, List.tail_cons]
              dsimp only
              rw [herase, ih]
              cases retainLoop onElement user' rest <;> simp

/-- The loop in place is the loop over the list. -/
theorem retainInPlace_zero {σ : Type} (onElement : σ → α → Option (σ × Option α)) (user : σ)
    (elems : List α) : retainInPlace onElement user elems 0 = retainLoop onElement user elems := by
  have h := retainInPlace_eq onElement user [] elems
  rw [List.nil_append, List.length_nil] at h
  rw [h]
  cases retainLoop onElement user elems <;> rfl

/-- What the callback keeps of its argument holds at the end. -/
theorem retainLoop_invariant {σ : Type} {onElement : σ → α → Option (σ × Option α)}
    {inv : σ → Prop}
    (keeps : ∀ user elem user' kept, inv user → onElement user elem = some (user', kept) → inv user')
    {user user' : σ} {elems kept : List α} (hinv : inv user)
    (h : retainLoop onElement user elems = some (user', kept)) : inv user' := by
  induction elems generalizing user kept with
  | nil =>
      cases h
      exact hinv
  | cons elem rest ih =>
      simp only [retainLoop] at h
      split at h
      · cases h
      · next user₁ stays hone =>
          split at h
          · cases h
          · next user₂ rest' hrest =>
              cases h
              exact ih (keeps user elem user₁ stays hinv hone) hrest

/-- A callback that never fails on the elements it is given. -/
theorem retainLoop_total {σ : Type} {onElement : σ → α → Option (σ × Option α)} {p : α → Prop}
    (keeps : ∀ user elem, p elem →
      ∃ user' kept, onElement user elem = some (user', kept) ∧ ∀ x ∈ kept, p x)
    {user : σ} {elems : List α} (h : ∀ x ∈ elems, p x) :
    ∃ user' kept, retainLoop onElement user elems = some (user', kept) ∧ ∀ x ∈ kept, p x := by
  induction elems generalizing user with
  | nil => exact ⟨user, [], rfl, h⟩
  | cons elem rest ih =>
      obtain ⟨helem, hrest⟩ := List.forall_mem_cons.mp h
      obtain ⟨user₁, stays, hone, hstays⟩ := keeps user elem helem
      obtain ⟨user₂, kept, hloop, hkept⟩ := @ih user₁ hrest
      refine ⟨user₂, stays.toList ++ kept, by simp only [retainLoop, hone, hloop], ?_⟩
      intro x hx
      rcases List.mem_append.mp hx with hx | hx
      · exact hstays x (Option.mem_toList.mp hx)
      · exact hkept x hx

/-- Retaining adds no element. -/
theorem length_retainLoop {σ : Type} {onElement : σ → α → Option (σ × Option α)} {user user' : σ}
    {elems kept : List α} (h : retainLoop onElement user elems = some (user', kept)) :
    kept.length ≤ elems.length := by
  induction elems generalizing user kept with
  | nil =>
      cases h
      exact Nat.le_refl 0
  | cons elem rest ih =>
      simp only [retainLoop] at h
      split at h
      · cases h
      · next user₁ stays _ =>
          split at h
          · cases h
          · next user₂ rest' hrest =>
              cases h
              have hlen := ih hrest
              have hone : stays.toList.length ≤ 1 := by cases stays <;> simp
              rw [List.length_append, List.length_cons]
              omega

/-- `retain`, with what the callback has gathered; `none` when it failed. -/
def vecRetain {σ : Type} (onElement : σ → α → Option (σ × Option α)) (user : σ) (v : Vec c α) :
    Option (σ × Vec c α) :=
  match h : retainLoop onElement user v.items with
  | none => none
  | some (user, items) =>
      some (user,
        { capacity := v.capacity
          items := items
          capacity_eq := v.capacity_eq
          length_le := Nat.le_trans (length_retainLoop h) v.length_le })

/-- The vector holds what was retained. -/
theorem items_vecRetain {σ : Type} {onElement : σ → α → Option (σ × Option α)} {user user' : σ}
    {v : Vec c α} {items : List α} (h : retainLoop onElement user v.items = some (user', items)) :
    ∃ v', vecRetain onElement user v = some (user', v') ∧ v'.items = items := by
  unfold vecRetain
  split
  · next hnone =>
      rw [hnone] at h
      cases h
  · next hsome =>
      rw [hsome] at h
      cases h
      exact ⟨_, rfl, rfl⟩

/-- **Pushing appends** if there is space, and does nothing otherwise. -/
theorem items_vecPush (mem : Alloc) (v : Vec c α) (elem : α) :
    (vecPush mem v elem).items =
      if vecHasSpace mem v then v.items ++ [elem] else v.items := by
  unfold vecPush vecHasSpace
  by_cases hfull : v.items.length = v.capacity
  · by_cases hgrant : granted mem (vecRequest c (vecGrowElems v)) = true <;> simp [hfull, hgrant]
  · simp [hfull]

/-- There is space for all of these elements, one after the other. -/
def vecTakesAll (mem : Alloc) : Vec c α → List α → Bool
  | _, [] => true
  | v, elem :: rest => vecHasSpace mem v && vecTakesAll mem (vecPush mem v elem) rest

/-- Pushing what there is space for adds it at the end. -/
theorem items_foldl_vecPush {mem : Alloc} {v : Vec c α} {elems : List α}
    (h : vecTakesAll mem v elems = true) :
    (elems.foldl (vecPush mem) v).items = v.items ++ elems := by
  induction elems generalizing v with
  | nil => exact (List.append_nil _).symm
  | cons elem rest ih =>
      rw [vecTakesAll, Bool.and_eq_true] at h
      rw [List.foldl_cons, ih h.2, items_vecPush, if_pos h.1, List.append_assoc,
        List.singleton_append]

/-- What is in the vector after a push was there or is the new element. -/
theorem mem_vecPush {mem : Alloc} {v : Vec c α} {elem x : α} (h : x ∈ (vecPush mem v elem).items) :
    x ∈ v.items ∨ x = elem := by
  rw [items_vecPush] at h
  split at h
  · simpa using h
  · exact Or.inl h

/-- Popping takes the last element. -/
theorem vecPop_of_concat {v : Vec c α} {init : List α} {elem : α}
    (h : v.items = init ++ [elem]) : ∃ v', vecPop v = .ok v' ∧ v'.items = init := by
  have hitems : v.shrink.items = v.items.dropLast := rfl
  refine ⟨v.shrink, ?_, by rw [hitems, h, List.dropLast_concat]⟩
  unfold vecPop
  split
  · next hnil => simp [h] at hnil
  · rfl

/-- With memory for every request a vector holds up to `2 ^ 14` elements. -/
theorem vecHasSpace_unlimited (v : Vec c α) :
    vecHasSpace Alloc.unlimited v = decide (v.items.length < 2 ^ 14) := by
  have hlen := v.length_le
  rcases vecGrowElems_cases v with ⟨j, hj, helems, hlt⟩ | ⟨hcap, hneg⟩
  · have hbound : 2 ^ (j + 5) ≤ 2 ^ 14 := Nat.pow_le_pow_right (by decide) (by omega)
    have hgrant : granted Alloc.unlimited (vecRequest c (vecGrowElems v)) = true := by
      have hnonneg : 0 ≤ vecRequest c (vecGrowElems v) := by
        rw [helems, vecRequest]
        positivity
      rw [granted, decide_eq_true hnonneg]
      rfl
    rw [vecHasSpace, hgrant, Bool.or_true]
    exact (decide_eq_true (by omega)).symm
  · rw [vecHasSpace, hneg, granted_eq_false_of_neg (vecRequest_neg c), Bool.or_false,
      decide_eq_decide, hcap]
    omega

/-- With enough memory there is space for `2 ^ 14` elements. -/
theorem vecTakesAll_unlimited {v : Vec c α} {elems : List α}
    (h : v.items.length + elems.length ≤ 2 ^ 14) : vecTakesAll Alloc.unlimited v elems = true := by
  induction elems generalizing v with
  | nil => rfl
  | cons elem rest ih =>
      rw [List.length_cons] at h
      have hspace : vecHasSpace Alloc.unlimited v = true := by
        rw [vecHasSpace_unlimited]
        exact decide_eq_true (by omega)
      rw [vecTakesAll, hspace, Bool.true_and]
      refine ih ?_
      rw [items_vecPush, if_pos hspace, List.length_append, List.length_singleton]
      omega

end Clither
