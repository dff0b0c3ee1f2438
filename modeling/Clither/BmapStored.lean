import Clither.BmapArrays

/-!
# What the two blocks of a map hold

`Stored` says that the blocks hold the entries of a list, and how large they are.
The functions that move cells around insert an entry into that list, remove one, or
write the value of one; `retainLoop_stored` puts the last two together.  The order
of the keys plays no part here.
-/

namespace Clither.BmapArrays

variable {K V U : Type} {c : KvsLayout}

/-- The blocks of the table hold the entries.  The block of the keys has room up to the
capacity `cap`, and the other one has room for `n` values. -/
structure Stored (c : KvsLayout) (cap : Int) (n : Nat) (t : Table K V) (entries : List (K × V)) :
    Prop where
  count : t.count = entries.length
  keys : Cells.Holds t.keys (entries.map Prod.fst)
  values : Cells.Holds t.values (entries.map Prod.snd)
  capacity : t.capacity = cap
  pos : 0 < cap
  fits : cap < 2 ^ (c.bits - 1)
  count_le : (entries.length : Int) ≤ cap
  keys_room : cap ≤ t.keys.length
  cells : t.values.length = n

variable {cap : Int} {n : Nat}

@[simp] theorem accessed_some {β : Type} (b : β) : accessed (some b) = .ok b := rfl

/-! ## Moving cells -/

theorem openGap_stored {t : Table K V} {before behind : List (K × V)}
    (h : Stored c cap n t (before ++ behind)) (hroom : (t.count : Int) < cap) (hn : t.count < n)
    (key : K) :
    ∃ gapped, openGap t before.length key = .ok gapped ∧
      ∀ value, ∃ values, Cells.store gapped.values before.length value = some values ∧
        Stored c cap n { gapped with values := values } (before ++ (key, value) :: behind) := by
  have hkeysRoom := h.keys_room
  have hcells := h.cells
  have hlen : t.count = before.length + behind.length := by
    rw [h.count, List.length_append]
  have hkeys := h.keys
  have hvalues := h.values
  rw [List.map_append] at hkeys hvalues
  obtain ⟨movedKeys, hmoveKeys, hwriteKeys⟩ := hkeys.insert (by
    rw [List.length_append, List.length_map, List.length_map]
    omega)
  obtain ⟨movedValues, hmoveValues, hwriteValues⟩ := hvalues.insert (by
    rw [List.length_append, List.length_map, List.length_map]
    omega)
  obtain ⟨keys, hstoreKeys, hholdsKeys, hlenKeys⟩ := hwriteKeys key
  rw [List.length_map, List.length_map] at hmoveKeys hmoveValues
  rw [List.length_map] at hstoreKeys
  refine ⟨{ t with count := t.count + 1, keys := keys, values := movedValues }, ?_, ?_⟩
  · rw [openGap, show t.count - before.length = behind.length by omega, hmoveKeys, hmoveValues]
    simp only [accessed_some, ok_bind, hstoreKeys]
    rfl
  · intro value
    obtain ⟨values, hstoreValues, hholdsValues, hlenValues⟩ := hwriteValues value
    rw [List.length_map] at hstoreValues
    exact ⟨values, hstoreValues,
      { count := by
          show t.count + 1 = _
          rw [hlen, List.length_append, List.length_cons]
          omega
        keys := by
          rw [List.map_append, List.map_cons]
          exact hholdsKeys
        values := by
          rw [List.map_append, List.map_cons]
          exact hholdsValues
        capacity := h.capacity
        pos := h.pos
        fits := h.fits
        count_le := by
          rw [List.length_append, List.length_cons]
          omega
        keys_room := by
          show cap ≤ keys.length
          omega
        cells := by
          show values.length = n
          omega }⟩

theorem kvsErase_stored {t : Table K V} {before behind : List (K × V)} {e : K × V}
    (h : Stored c cap n t (before ++ e :: behind)) :
    ∃ t', kvsErase t before.length = .ok t' ∧ Stored c cap n t' (before ++ behind) := by
  have hlen : t.count = before.length + behind.length + 1 := by
    rw [h.count, List.length_append, List.length_cons]
    omega
  have hkeys := h.keys
  have hvalues := h.values
  have hcount := h.count_le
  have hkeysRoom := h.keys_room
  have hcells := h.cells
  rw [List.length_append, List.length_cons] at hcount
  rw [List.map_append, List.map_cons] at hkeys hvalues
  obtain ⟨keys, hmoveKeys, hholdsKeys, hlenKeys⟩ := hkeys.erase
  obtain ⟨values, hmoveValues, hholdsValues, hlenValues⟩ := hvalues.erase
  rw [List.length_map, List.length_map] at hmoveKeys hmoveValues
  refine ⟨{ t with count := t.count - 1, keys := keys, values := values }, ?_, ?_⟩
  · rw [kvsErase, show t.count - 1 - before.length = behind.length by omega, hmoveKeys, hmoveValues]
    rfl
  · exact
      { count := by
          show t.count - 1 = _
          rw [hlen, List.length_append]
          omega
        keys := by
          rw [List.map_append]
          exact hholdsKeys
        values := by
          rw [List.map_append]
          exact hholdsValues
        capacity := h.capacity
        pos := h.pos
        fits := h.fits
        count_le := by
          rw [List.length_append]
          omega
        keys_room := by
          show cap ≤ keys.length
          omega
        cells := by
          show values.length = n
          omega }

/-- Writing a value leaves the others. -/
theorem store_stored {t : Table K V} {before behind : List (K × V)} {e : K × V}
    (h : Stored c cap n t (before ++ e :: behind)) (value : V) :
    ∃ values, Cells.store t.values before.length value = some values ∧
      Stored c cap n { t with values := values } (before ++ (e.1, value) :: behind) := by
  have hvalues := h.values
  rw [List.map_append, List.map_cons] at hvalues
  obtain ⟨values, hstore, hholds, hlen⟩ := hvalues.store value
  rw [List.length_map] at hstore
  refine ⟨values, hstore, ?_⟩
  exact
    { count := by
        show t.count = _
        rw [h.count]
        simp
      keys := by
        have hkeys := h.keys
        rwa [List.map_append, List.map_cons] at hkeys ⊢
      values := by
        rw [List.map_append, List.map_cons]
        exact hholds
      capacity := h.capacity
      pos := h.pos
      fits := h.fits
      count_le := by
        have := h.count_le
        simpa using this
      keys_room := h.keys_room
      cells := hlen.trans h.cells }

/-! ## Retaining -/

/-- What `retain` is for: the callback sees the entries in the order of the keys.
Those it answers with 0 are kept, with the value it leaves; a negative answer ends
it, with that entry and all behind it still there. -/
def retained (onElement : OnElement K V U) : List (K × V) → U → List (K × V) × Int × U
  | [], user => ([], 0, user)
  | (key, value) :: rest, user =>
      let (result, value, user) := onElement key value user
      if result < 0 then ((key, value) :: rest, result, user)
      else
        let (kept, last, user) := retained onElement rest user
        (if result = 0 then (key, value) :: kept else kept, last, user)

theorem keys_retained_sublist (onElement : OnElement K V U) (entries : List (K × V)) (user : U) :
    ((retained onElement entries user).1.map Prod.fst).Sublist (entries.map Prod.fst) := by
  induction entries generalizing user with
  | nil => exact .slnil
  | cons e rest ih =>
      obtain ⟨key, value⟩ := e
      simp only [retained]
      by_cases hneg : (onElement key value user).1 < 0
      · rw [if_pos hneg]
        exact List.Sublist.refl _
      · rw [if_neg hneg]
        dsimp only
        by_cases hkeep : (onElement key value user).1 = 0
        · rw [if_pos hkeep]
          exact (ih _).cons_cons key
        · rw [if_neg hkeep]
          exact (ih _).cons key

/-- The loop has kept the entries before its index, and does to the others what
`retained` says. -/
theorem retainLoop_stored (onElement : OnElement K V U) (rest : List (K × V)) :
    ∀ (kept : List (K × V)) {t : Table K V} (user : U), Stored c cap n t (kept ++ rest) →
      ∃ t', retainLoop onElement rest.length kept.length t user =
          .ok (t', (retained onElement rest user).2) ∧
        Stored c cap n t' (kept ++ (retained onElement rest user).1) := by
  induction rest with
  | nil =>
      intro kept t user h
      exact ⟨t, rfl, h⟩
  | cons e rest ih =>
      obtain ⟨key, value⟩ := e
      intro kept t user h
      have hcount : kept.length ≠ t.count := by
        rw [h.count, List.length_append, List.length_cons]
        omega
      have hkey : Cells.load t.keys kept.length = some key := by
        rw [h.keys.load (by simp)]
        simp
      have hvalue : Cells.load t.values kept.length = some value := by
        rw [h.values.load (by simp)]
        simp
      obtain ⟨values, hstore, hwritten⟩ := store_stored h (onElement key value user).2.1
      rw [List.length_cons, retainLoop, if_pos hcount, hkey, hvalue]
      simp only [accessed_some, ok_bind, hstore, retained]
      by_cases hneg : (onElement key value user).1 < 0
      · rw [if_pos hneg, if_pos hneg]
        exact ⟨_, rfl, hwritten⟩
      · rw [if_neg hneg, if_neg hneg]
        dsimp only
        by_cases hkeep : (onElement key value user).1 = 0
        · rw [if_neg (by simpa using hkeep), if_pos hkeep]
          have hnext := ih (kept ++ [(key, (onElement key value user).2.1)])
            (onElement key value user).2.2 (by rwa [List.append_assoc])
          rw [List.length_append, List.length_singleton] at hnext
          simpa only [List.append_assoc, List.singleton_append] using hnext
        · rw [if_pos (by simpa using hkeep), if_neg hkeep]
          obtain ⟨t', herase, herased⟩ := kvsErase_stored hwritten
          rw [herase]
          exact ih kept (onElement key value user).2.2 herased

/-! ## Iterating -/

/-- The turns that are left visit the entries that are left. -/
theorem forEachFrom_eq {t : Table K V} {entries : List (K × V)} (h : Stored c cap n t entries)
    {turns idx : Nat} (hturns : idx + turns = entries.length) :
    forEachFrom t turns idx = .ok (entries.drop idx) := by
  induction turns generalizing idx with
  | zero => rw [List.drop_of_length_le (by omega)]; rfl
  | succ turns ih =>
      have hin : idx < entries.length := by omega
      have hkey : Cells.load t.keys idx = some entries[idx].1 := by
        rw [h.keys.load (by rw [List.length_map]; exact hin), List.getElem?_map,
          List.getElem?_eq_getElem hin]
        rfl
      have hvalue : Cells.load t.values idx = some entries[idx].2 := by
        rw [h.values.load (by rw [List.length_map]; exact hin), List.getElem?_map,
          List.getElem?_eq_getElem hin]
        rfl
      rw [forEachFrom, hkey, hvalue]
      simp only [accessed_some, ok_bind, ih (show idx + 1 + turns = entries.length by omega)]
      rw [List.drop_eq_getElem_cons hin]
      rfl

/-! ## Room -/

/-- The requests for a capacity are as large as it takes, and both are granted. -/
def Succeeds (c : KvsLayout) (newCapacity : Int) (replies : KvsReplies) : Prop :=
  c.header + c.sizeofValue * newCapacity ≤ valuesBytes c newCapacity ∧
    replies.values ≠ .refused ∧ replies.keys ≠ .refused

instance (newCapacity : Int) (replies : KvsReplies) :
    Decidable (Succeeds c newCapacity replies) :=
  inferInstanceAs (Decidable (_ ∧ _ ∧ _))

theorem growCapacity_lt {bmap : Ptr K V} : growCapacity c bmap < 2 ^ (c.bits - 1) := by
  cases bmap with
  | live t => exact wrapInt_lt (Nat.lt_trans (by decide) c.fits) _
  | null => exact firstCapacity_lt c.fits
  | dangling => exact firstCapacity_lt c.fits

/-- A call that inserts finds room or makes it. -/
def HasRoom (c : KvsLayout) (bmap : Ptr K V) (replies : KvsReplies) : Prop :=
  isFull bmap = true → 0 < growCapacity c bmap ∧ Succeeds c (growCapacity c bmap) replies

instance (bmap : Ptr K V) (replies : KvsReplies) : Decidable (HasRoom c bmap replies) :=
  inferInstanceAs (Decidable (_ → _ ∧ _))

/-- The sizes of the blocks leave room for the values up to the capacity, also after
growing. -/
structure Ample (c : KvsLayout) (sizes : Int → Nat → Prop) (bmap : Ptr K V) : Prop where
  room : ∀ cap n, sizes cap n → cap ≤ n
  grown : isFull bmap = true → sizes (growCapacity c bmap) (growCapacity c bmap).toNat

/-- There is room for the values up to the capacity. -/
def Roomy (cap : Int) (n : Nat) : Prop := cap ≤ n

theorem ample_roomy {bmap : Ptr K V} {replies : KvsReplies} (hroom : HasRoom c bmap replies) :
    Ample c Roomy bmap where
  room _ _ h := h
  grown hfull := by
    have hpos := (hroom hfull).1
    show growCapacity c bmap ≤ ((growCapacity c bmap).toNat : Int)
    omega

end Clither.BmapArrays
