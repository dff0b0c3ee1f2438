import Clither.BmapRefines

/-!
# How far a map grows

The number of bytes of the values is computed in the index type of the map.  Here
only `emplace_new` is called, with keys that are all different, and no request is
refused.  Then the capacity is 32 times a power of two, and the request for it is
exact as long as the values up to it are counted in the index type: that many
entries can be inserted, and no more.
-/

namespace Clither.BmapArrays

variable {K V : Type} {c : KvsLayout}

/-- The capacity has been doubled from 32 on, there is room for the values, and their
bytes are counted in the index type. -/
def Doubled (c : KvsLayout) (cap : Int) (n : Nat) : Prop :=
  cap ≤ n ∧ (c.sizeofValue * cap : Int) < 2 ^ (c.bits - 1) ∧ ∃ j : Nat, cap = 32 * 2 ^ j

/-- There is a doubled capacity for `n` entries whose values are counted in the index
type. -/
def FitsIndex (c : KvsLayout) (n : Nat) : Prop :=
  ∃ k, n ≤ 32 * 2 ^ k ∧ c.sizeofValue * (32 * 2 ^ k) < 2 ^ (c.bits - 1)

theorem FitsIndex.mono {n n' : Nat} (h : FitsIndex c n') (hle : n ≤ n') : FitsIndex c n := by
  obtain ⟨k, hroom, hbytes⟩ := h
  exact ⟨k, hle.trans hroom, hbytes⟩

/-- The request of a map that has to grow is as large as the new capacity takes. -/
def AsksExactly (c : KvsLayout) (bmap : Ptr K V) : Prop :=
  isFull bmap = true → valuesBytes c (growCapacity c bmap) =
    c.header + c.sizeofValue * growCapacity c bmap

/-- The request for a capacity is exact as long as its bytes are counted in the index
type. -/
theorem valuesBytes_exact_iff {newCapacity : Int} (hpos : 0 ≤ newCapacity) :
    valuesBytes c newCapacity = c.header + c.sizeofValue * newCapacity ↔
      (c.sizeofValue * newCapacity : Int) < 2 ^ (c.bits - 1) := by
  have hbits : 0 < c.bits := Nat.lt_trans (by decide) c.fits
  rw [valuesBytes]
  constructor
  · intro hexact
    have hlt := wrapInt_lt hbits (c.sizeofValue * newCapacity)
    omega
  · intro hfits
    rw [wrapInt_of_lt hbits (by positivity) hfits]

variable {cap : Int} {n : Nat}

/-- A capacity whose values are counted in the index type can be doubled in it when
the values are large. -/
theorem growCapacity_doubled {t : Table K V} {entries : List (K × V)}
    (h : Stored c cap n t entries) (hlarge : 128 < c.sizeofValue)
    (hbytes : (c.sizeofValue * cap : Int) < 2 ^ (c.bits - 1)) :
    growCapacity c (.live t) = 2 * cap := by
  have hpos := h.pos
  have hmul : 2 * cap ≤ c.sizeofValue * cap :=
    Int.mul_le_mul_of_nonneg_right (by omega) (Int.le_of_lt hpos)
  rw [growCapacity, h.capacity]
  exact wrapInt_of_lt (Nat.lt_trans (by decide) c.fits) (by omega) (by omega)

/-- **A request is exact as long as one more entry fits.** -/
theorem asksExactly_iff [LinearOrder K] {bmap : Ptr K V} {m : SortedArray K V}
    (h : Stands c (Doubled c) bmap m) (hlarge : 128 < c.sizeofValue) :
    AsksExactly c bmap ↔ FitsIndex c (m.entries.length + 1) := by
  cases bmap with
  | dangling => exact h.elim
  | null =>
      rw [show m.entries = [] from h]
      have hexact := valuesBytes_exact_iff (c := c) (show (0 : Int) ≤ 32 by decide)
      constructor
      · intro hasks
        have hbytes := hexact.mp (hasks rfl)
        refine ⟨0, by simp, ?_⟩
        zify
        simpa using hbytes
      · rintro ⟨k, -, hbytes⟩ -
        refine hexact.mpr ?_
        have hpow : 1 ≤ 2 ^ k := Nat.one_le_two_pow
        have hle : c.sizeofValue * 32 ≤ c.sizeofValue * (32 * 2 ^ k) :=
          Nat.mul_le_mul_left _ (by omega)
        zify at hbytes hle
        omega
  | live t =>
      obtain ⟨cap, n, ⟨hroom, hbytes, j, rfl⟩, hstored⟩ := h
      have hgrow := growCapacity_doubled hstored hlarge hbytes
      have hexact := valuesBytes_exact_iff (c := c) (show (0 : Int) ≤ 2 * (32 * 2 ^ j) by positivity)
      have hle := hstored.count_le
      by_cases hfull : isFull (.live t) = true
      · have hcount : (t.count : Int) = t.capacity := of_decide_eq_true hfull
        rw [hstored.capacity, hstored.count] at hcount
        rw [AsksExactly, hgrow, hexact]
        constructor
        · intro hasks
          refine ⟨j + 1, ?_, ?_⟩
          · zify
            rw [pow_succ]
            have : (0 : Int) < 2 ^ j := by positivity
            omega
          · zify
            have hdouble := hasks hfull
            rw [pow_succ]
            calc (c.sizeofValue : Int) * (32 * (2 ^ j * 2)) = c.sizeofValue * (2 * (32 * 2 ^ j)) := by ring
              _ < 2 ^ (c.bits - 1) := hdouble
        · rintro ⟨k, hlen, hfits⟩ -
          have hlt : j < k := by
            by_contra hge
            have hpow : 2 ^ k ≤ 2 ^ j := Nat.pow_le_pow_right (by decide) (by omega)
            zify at hlen hpow
            omega
          have hpow : 2 ^ (j + 1) ≤ 2 ^ k := Nat.pow_le_pow_right (by decide) hlt
          have hmul : c.sizeofValue * (32 * 2 ^ (j + 1)) ≤ c.sizeofValue * (32 * 2 ^ k) :=
            Nat.mul_le_mul_left _ (by omega)
          zify at hmul hfits
          calc (c.sizeofValue : Int) * (2 * (32 * 2 ^ j)) = c.sizeofValue * (32 * 2 ^ (j + 1)) := by ring
            _ ≤ c.sizeofValue * (32 * 2 ^ k) := hmul
            _ < 2 ^ (c.bits - 1) := hfits
      · refine iff_of_true (fun hfull' => absurd hfull' hfull) ⟨j, ?_, ?_⟩
        · have hne : (t.count : Int) ≠ t.capacity := fun heq => hfull (decide_eq_true heq)
          rw [hstored.capacity, hstored.count] at hne
          zify
          omega
        · zify
          exact hbytes

/-! ## Inserting -/

/-- A call asks exactly for what it needs, and answers `BMAP_NEW`. -/
def InsertsExactly (c : KvsLayout) [LinearOrder K] (bmap : Ptr K V)
    (e : BmapOp K V Unit × KvsReplies) (bmap' : Ptr K V) : Prop :=
  AsksExactly c bmap ∧ call c bmap e = .ok (.status .new, bmap')

/-- The calls of `emplace_new`, each with the answers of `mem_realloc`. -/
def insertions (inserts : List (K × V × KvsReplies)) : List (BmapOp K V Unit × KvsReplies) :=
  inserts.map fun i => (.emplaceNew i.1 i.2.1, i.2.2)

/-- No request is refused. -/
def Granted (replies : KvsReplies) : Prop :=
  replies.values ≠ .refused ∧ replies.keys ≠ .refused

instance (replies : KvsReplies) : Decidable (Granted replies) :=
  inferInstanceAs (Decidable (_ ∧ _))

variable [LinearOrder K]

/-- The doubled capacity has room. -/
theorem room_of_asksExactly {bmap : Ptr K V} {m : SortedArray K V} (h : Stands c (Doubled c) bmap m)
    (hlarge : 128 < c.sizeofValue) (hasks : AsksExactly c bmap) {replies : KvsReplies}
    (hgranted : Granted replies) : HasRoom c bmap replies ∧ Ample c (Doubled c) bmap := by
  have hgrow : isFull bmap = true →
      0 < growCapacity c bmap ∧ ∃ j : Nat, growCapacity c bmap = 32 * 2 ^ j := by
    intro hfull
    cases bmap with
    | dangling => exact h.elim
    | null => exact ⟨(by decide : (0 : Int) < 32), 0, rfl⟩
    | live t =>
        obtain ⟨cap, n, ⟨hroom, hbytes, j, rfl⟩, hstored⟩ := h
        rw [growCapacity_doubled hstored hlarge hbytes]
        exact ⟨by positivity, j + 1, by ring⟩
  refine ⟨fun hfull => ⟨(hgrow hfull).1, by rw [hasks hfull], hgranted.1, hgranted.2⟩, ?_⟩
  exact
    { room := fun cap n hdoubled => hdoubled.1
      grown := fun hfull => by
        obtain ⟨hpos, hdouble⟩ := hgrow hfull
        refine ⟨by omega, ?_, hdouble⟩
        exact (valuesBytes_exact_iff (Int.le_of_lt hpos)).mp (hasks hfull) }

/-- **Step lemma.** -/
theorem emplaceNew_exact {bmap : Ptr K V} {m : SortedArray K V} (h : Stands c (Doubled c) bmap m)
    (hlarge : 128 < c.sizeofValue) (hasks : AsksExactly c bmap) {key : K}
    (hfind : m.find key = none) (value : V) {replies : KvsReplies} (hgranted : Granted replies) :
    ∃ bmap', call c bmap ((.emplaceNew key value, replies) : BmapOp K V Unit × KvsReplies) =
        .ok (.status .new, bmap') ∧
      Stands c (Doubled c) bmap' (m.insert key value) := by
  obtain ⟨hroom, hample⟩ := room_of_asksExactly h hlarge hasks hgranted
  obtain ⟨gapped, hnew, -, hwrite⟩ := emplaceNew_absent h hfind hroom hample
  obtain ⟨bmap', hvalue, hstands⟩ := hwrite value
  refine ⟨bmap', ?_, hstands⟩
  rw [call, insertNew, hnew]
  simp only [ok_bind, hvalue]
  rfl

theorem length_insert {m : SortedArray K V} {key : K} (hfind : m.find key = none) (value : V) :
    (m.insert key value).entries.length = m.entries.length + 1 :=
  (SortedArray.entries_insert value hfind).length_eq

/-- **Run lemma.** -/
theorem everyStep_insertions_iff (hlarge : 128 < c.sizeofValue)
    {inserts : List (K × V × KvsReplies)} :
    ∀ {bmap : Ptr K V} {m : SortedArray K V}, Stands c (Doubled c) bmap m →
      (∀ i ∈ inserts, m.find i.1 = none) → (inserts.map Prod.fst).Nodup →
      (∀ i ∈ inserts, Granted i.2.2) →
      (Run.EveryStep (Run.stepOf (call c)) (InsertsExactly c) bmap (insertions inserts) ↔
        inserts = [] ∨ FitsIndex c (m.entries.length + inserts.length)) := by
  induction inserts with
  | nil =>
      intro bmap m _ _ _ _
      exact iff_of_true trivial (.inl rfl)
  | cons i inserts ih =>
      obtain ⟨key, value, replies⟩ := i
      intro bmap m h habsent hnodup hgranted
      rw [List.map_cons, List.nodup_cons] at hnodup
      have hfind : m.find key = none := habsent _ List.mem_cons_self
      have hlen : m.entries.length + ((key, value, replies) :: inserts).length =
          m.entries.length + 1 + inserts.length := by
        rw [List.length_cons]
        omega
      by_cases hasks : AsksExactly c bmap
      · obtain ⟨bmap', hcall, hstands⟩ := emplaceNew_exact h hlarge hasks hfind value
          (hgranted _ List.mem_cons_self)
        have hrest := ih hstands
          (fun i hi => by
            rw [SortedArray.find_insert value hfind, if_neg]
            · exact habsent i (List.mem_cons_of_mem _ hi)
            · exact fun heq => hnodup.1 (List.mem_map.mpr ⟨i, hi, heq⟩))
          hnodup.2 (fun i hi => hgranted i (List.mem_cons_of_mem _ hi))
        rw [length_insert hfind] at hrest
        have hone := (asksExactly_iff h hlarge).mp hasks
        have hstep : Run.EveryStep (Run.stepOf (call c)) (InsertsExactly c) bmap
            (insertions ((key, value, replies) :: inserts)) ↔
            Run.EveryStep (Run.stepOf (call c)) (InsertsExactly c) bmap' (insertions inserts) := by
          constructor
          · rintro ⟨b, -, hexact, hlater⟩
            obtain rfl : bmap' = b := congrArg Prod.snd (Except.ok.inj (hcall.symm.trans hexact.2))
            exact hlater
          · intro hlater
            exact ⟨bmap', Run.stepOf_eq_ok.mpr ⟨_, hcall⟩, ⟨hasks, hcall⟩, hlater⟩
        rw [hstep, hrest, hlen]
        constructor
        · rintro (rfl | hfits)
          · exact .inr hone
          · exact .inr hfits
        · rintro (hnil | hfits)
          · cases hnil
          · exact .inr hfits
      · refine iff_of_false ?_ ?_
        · rintro ⟨b, -, hexact, -⟩
          exact hasks hexact.1
        · rintro (hnil | hfits)
          · cases hnil
          · rw [hlen] at hfits
            exact hasks ((asksExactly_iff h hlarge).mpr (hfits.mono (by omega)))

end Clither.BmapArrays

namespace Clither

open BmapArrays

/-- **Large values**: insertions ask exactly for what they need and succeed exactly
when the bytes of all values, up to a doubled capacity, are counted in 16 bits. -/
theorem insertions_exact_iff {K V : Type} [LinearOrder K] (c : KvsLayout) (hbits : c.bits = 16)
    (hlarge : 128 < c.sizeofValue) (inserts : List (K × V × KvsReplies))
    (hnodup : (inserts.map Prod.fst).Nodup) (hgranted : ∀ i ∈ inserts, Granted i.2.2) :
    Run.EveryStep (Run.stepOf (call c)) (InsertsExactly c) .null (insertions inserts) ↔
      inserts = [] ∨
        ∃ k, inserts.length ≤ 32 * 2 ^ k ∧ c.sizeofValue * (32 * 2 ^ k) < 2 ^ 15 := by
  have hstart : Stands c (Doubled c) (.null : Ptr K V) SortedArray.empty := rfl
  have hrun := everyStep_insertions_iff hlarge hstart (fun _ _ => rfl) hnodup hgranted
  rw [FitsIndex, hbits, show (SortedArray.empty : SortedArray K V).entries.length = 0 from rfl,
    Nat.zero_add] at hrun
  exact hrun

/-- The layout of the map of the snakes. -/
def snakeKvs : KvsLayout where
  bits := 16
  header := 16
  sizeofKey := 2
  sizeofValue := 168
  fits := KvsLayout.fits_int16
  sizeofKey_pos := ElemType.size_pos .uint16
  sizeofValue_pos := by decide

/-- The snakes with the ids from 0 on, in the order in which they join. -/
def joinSnakes (n : Nat) : List (Nat × Unit × KvsReplies) :=
  (List.range n).map fun id => (id, (), moving)

/-- The index has place for 128 of them, after two doublings. -/
theorem insertions_exact_doubled :
    Run.EveryStep (Run.stepOf (call snakeKvs)) (InsertsExactly snakeKvs) .null
      (insertions (joinSnakes 128)) :=
  (insertions_exact_iff snakeKvs rfl (by decide) (joinSnakes 128) (by decide +kernel)
    (by decide +kernel)).mpr (.inr ⟨2, by decide +kernel, by decide⟩)

/-- The default limit of players is out of reach. -/
theorem not_insertions_exact_players :
    ¬ Run.EveryStep (Run.stepOf (call snakeKvs)) (InsertsExactly snakeKvs) .null
      (insertions (joinSnakes 600)) := by
  have hstart : Stands snakeKvs (Doubled snakeKvs) (.null : Ptr Nat Unit) SortedArray.empty := rfl
  have hkeys : (joinSnakes 600).map Prod.fst = List.range 600 := by
    rw [joinSnakes, List.map_map]
    exact List.map_id _
  have hlen : (joinSnakes 600).length = 600 := by
    rw [joinSnakes, List.length_map, List.length_range]
  rw [everyStep_insertions_iff (by decide) hstart (fun _ _ => rfl)
    (by rw [hkeys]; exact List.nodup_range) (fun i hi => ?_)]
  · rintro (hnil | ⟨k, hroom, hbytes⟩)
    · rw [hnil] at hlen
      cases hlen
    · rw [hlen] at hroom
      have hcap : 600 ≤ 32 * 2 ^ k := le_trans (Nat.le_add_left _ _) hroom
      have hsmall : 168 * (32 * 2 ^ k) < 2 ^ 15 := hbytes
      omega
  · obtain ⟨id, -, rfl⟩ := List.mem_map.mp hi
    show Granted moving
    decide

end Clither
