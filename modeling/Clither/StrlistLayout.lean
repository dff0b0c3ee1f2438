import Clither.Strlist
import Mathlib.Tactic.Linarith

/-!
# The layout of a string list

`area` are the bytes of the strings and `table` is the table of their spans, and `Layout` says
that the block of a list holds the one at its begin and the other at its end, apart from each
other.  Each function of the list is followed from layout to layout.
-/

namespace Clither

open Cells (At load)

/-! ## Numbers in the block -/

/-- An int takes four bytes. -/
theorem length_intBytes (x : Int) : (intBytes x).length = 4 := rfl

/-- Reading back the bytes of an int gives it again. -/
theorem intOfBytes_intBytes {x : Int} (h0 : 0 ≤ x) (hx : x < 2 ^ 31) :
    intOfBytes (intBytes x) = x := by
  have hbyte (y : Int) : ((UInt8.ofInt y).toNat : Int) = y % 256 := by
    rw [UInt8.ofInt, UInt8.toNat_ofNat']
    omega
  rw [intBytes, intOfBytes]
  rw [hbyte, hbyte, hbyte, hbyte]
  have hsum : x % 256 + 2 ^ 8 * (x / 2 ^ 8 % 256) + 2 ^ 16 * (x / 2 ^ 16 % 256) +
      2 ^ 24 * (x / 2 ^ 24 % 256) = x := by omega
  rw [hsum]
  exact wrapInt_of_lt (by decide : 0 < 32) h0 hx

section

variable {data : Bytes}

/-- `memmove` copies the span as it was before, also where the two overlap. -/
theorem memmove_spec {dst src n : Int} {d s k : Nat} (hdst : dst = d) (hsrc : src = s) (hn : n = k)
    (hd : d + k ≤ data.length) (hs : s + k ≤ data.length) :
    ∃ moved, memmove data dst src n = .ok moved ∧ moved.length = data.length ∧
      ∀ p, load moved p = if d ≤ p ∧ p < d + k then load data (s + (p - d)) else load data p := by
  obtain ⟨moved, hmove, hrest⟩ := Cells.move_spec hd hs
  refine ⟨moved, ?_, hrest⟩
  rw [memmove, if_pos (by omega), hdst, hsrc, hn, Int.toNat_natCast, Int.toNat_natCast,
    Int.toNat_natCast, hmove]
  rfl

/-- `memcpy` writes the bytes and nothing else. -/
theorem memcpy_spec {dst : Int} {d : Nat} {bytes : List UInt8} (hdst : dst = d)
    (hd : d + bytes.length ≤ data.length) :
    ∃ written, memcpy data dst bytes = .ok written ∧ written.length = data.length ∧
      At written d bytes ∧
      ∀ p, p < d ∨ d + bytes.length ≤ p → load written p = load data p := by
  obtain ⟨written, hwrite, hrest⟩ := Cells.write_spec hd
  refine ⟨written, ?_, hrest⟩
  rw [memcpy, if_pos (by omega), hdst, Int.toNat_natCast, hwrite]
  rfl

/-- Writing an int writes its four bytes and nothing else. -/
theorem writeInt_spec {p x : Int} {d : Nat} (hp : p = d) (hd : d + 4 ≤ data.length) :
    ∃ written, writeInt data p x = .ok written ∧ written.length = data.length ∧
      At written d (intBytes x) ∧
      ∀ q, q < d ∨ d + 4 ≤ q → load written q = load data q :=
  memcpy_spec hp hd

/-- Reading an int where its bytes stand gives it. -/
theorem readInt_spec {p x : Int} {d : Nat} (h : At data d (intBytes x)) (hp : p = d) (h0 : 0 ≤ x)
    (hx : x < 2 ^ 31) : readInt data p = .ok x := by
  have hread : Cells.read data d 4 = some (intBytes x) := h.read
  rw [readInt, if_pos (by omega), hp, Int.toNat_natCast, hread]
  show Except.ok (intOfBytes (intBytes x)) = _
  rw [intOfBytes_intBytes h0 hx]

end

/-! ## The two tables -/

/-- The strings, each with its NUL. -/
def area (strs : List (List UInt8)) : List UInt8 :=
  strs.flatMap (· ++ [0])

/-- The spans of strings that begin at `off`, the last one first. -/
def spanTable : Int → List (List UInt8) → List UInt8
  | _, [] => []
  | off, s :: strs => spanTable (off + s.length + 1) strs ++ (intBytes off ++ intBytes s.length)

section

variable {s : List UInt8} {strs l r : List (List UInt8)}

/-- The area of a string is the string and its NUL. -/
theorem area_cons : area (s :: strs) = s ++ [0] ++ area strs :=
  List.flatMap_cons

/-- The areas of two lists lie one after the other. -/
theorem area_append : area (l ++ r) = area l ++ area r :=
  List.flatMap_append

/-- Each string takes one byte more than its length. -/
theorem length_area_cons : (area (s :: strs)).length = s.length + 1 + (area strs).length := by
  rw [area_cons, List.length_append, List.length_append, List.length_singleton]

/-- The lengths of the areas add up. -/
theorem length_area_append : (area (l ++ r)).length = (area l).length + (area r).length := by
  rw [area_append, List.length_append]

/-- Each string has eight bytes in the table. -/
theorem length_spanTable (off : Int) : (spanTable off strs).length = 8 * strs.length := by
  induction strs generalizing off with
  | nil => rfl
  | cons s strs ih =>
      rw [spanTable, List.length_append, ih, List.length_append, length_intBytes, length_intBytes,
        List.length_cons]
      omega

/-- The table grows downwards: later strings come first. -/
theorem spanTable_append (off : Int) :
    spanTable off (l ++ r) = spanTable (off + (area l).length) r ++ spanTable off l := by
  induction l generalizing off with
  | nil => simp [spanTable, area]
  | cons s l ih =>
      have hoff : off + ((area (s :: l)).length : Int) = off + s.length + 1 + (area l).length := by
        rw [length_area_cons]
        push_cast
        ring
      rw [List.cons_append, spanTable, ih, spanTable, hoff, List.append_assoc]

end

/-- What the block of a list holds. -/
structure Layout (l : Strlist) (strs : List (List UInt8)) : Prop where
  count : l.count = strs.length
  used : l.strUsed = (area strs).length
  capacity : l.capacity = l.data.length
  double : ∃ k, l.data.length = 2 ^ (k + 7)
  small : l.data.length ≤ 2 ^ 30
  apart : (area strs).length + 8 * strs.length ≤ l.data.length
  strings : At l.data 0 (area strs)
  spans : At l.data (l.data.length - 8 * strs.length) (spanTable 0 strs)

/-- The layout behind the pointer to a list. -/
def Stored (l : Option Strlist) (strs : List (List UInt8)) : Prop :=
  match l with
  | some l => Layout l strs
  | none => strs = []

/-- The bytes that a list needs for one more string. -/
def bytesNeeded (strs : List (List UInt8)) (strLen : Nat) : Nat :=
  8 * (strs.length + 1) + (area strs).length + strLen + 1

/-- `strlist_count` is the number of strings. -/
theorem Stored.count {l : Option Strlist} {strs : List (List UInt8)} (h : Stored l strs) :
    strlistCount l = strs.length := by
  cases l with
  | none =>
      have hnil : strs = [] := h
      rw [hnil]
      rfl
  | some l =>
      have hlayout : Layout l strs := h
      exact hlayout.count

/-! ## Growing -/

section

variable {strs : List (List UInt8)}

/-- A block that is enlarged, with its table moved to the new end. -/
theorem Layout.enlarge {l : Strlist} (h : Layout l strs) (hcap : l.data.length < 2 ^ 30) :
    ∃ data, memmove (Cells.resize l.data (l.capacity + l.capacity).toNat)
        (l.capacity + l.capacity - 8 * l.count)
        (l.capacity + l.capacity - 8 * l.count - l.capacity) (8 * l.count) = .ok data ∧
      data.length = 2 * l.data.length ∧
      Layout { l with capacity := l.capacity + l.capacity, data := data } strs := by
  have hcount := h.count
  have hcapacity := h.capacity
  have hapart := h.apart
  obtain ⟨k, hk⟩ := h.double
  have hlarge : 2 * l.data.length ≤ 2 ^ 30 := by
    have hexp : k + 7 < 30 := (Nat.pow_lt_pow_iff_right (by decide)).mp (hk ▸ hcap)
    rw [hk, ← Nat.pow_succ']
    exact Nat.pow_le_pow_right (by decide) hexp
  have htwice : (l.capacity + l.capacity).toNat = 2 * l.data.length := by omega
  have hlength := Cells.length_resize l.data (2 * l.data.length)
  rw [htwice]
  have hdst : l.capacity + l.capacity - 8 * l.count =
      (2 * l.data.length - 8 * strs.length : Nat) := by omega
  have hsrc : l.capacity + l.capacity - 8 * l.count - l.capacity =
      (l.data.length - 8 * strs.length : Nat) := by omega
  have hsize : 8 * l.count = (8 * strs.length : Nat) := by omega
  obtain ⟨data, hmove, hdata, hload⟩ := memmove_spec hdst hsrc hsize
    (by omega : _ ≤ (Cells.resize l.data (2 * l.data.length)).length) (by omega)
  rw [hlength] at hdata
  refine ⟨data, hmove, hdata, ?_⟩
  refine ⟨hcount, h.used, ?_, ⟨k + 1, ?_⟩, ?_, ?_, ?_, ?_⟩
  · dsimp only
    omega
  · dsimp only
    rw [hdata, hk, ← Nat.pow_succ']
  · dsimp only
    omega
  · dsimp only
    omega
  · apply h.strings.congr
    intro p _ hp
    rw [hload, if_neg (by omega), Cells.load_resize (by omega) (by omega)]
  · have hold : At (Cells.resize l.data (2 * l.data.length)) (l.data.length - 8 * strs.length)
        (spanTable 0 strs) := by
      apply h.spans.congr
      intro p _ hp
      rw [length_spanTable] at hp
      exact Cells.load_resize (by omega) (by omega)
    dsimp only
    rw [hdata]
    apply hold.moved
    rw [length_spanTable]
    exact hload

/-- Growing doubles the block until the new string fits, and keeps the layout. -/
theorem strlistGrowLoop_layout {l : Strlist} (h : Layout l strs) {strLen : Nat}
    (hfits : bytesNeeded strs strLen ≤ 2 ^ 30) {fuel : Nat}
    (hfuel : 2 ^ 31 ≤ l.data.length * 2 ^ fuel) :
    ∃ l', strlistGrowLoop Alloc.unlimited strs.length strLen fuel (some l) = .ok (some l', 0) ∧
      Layout l' strs ∧ bytesNeeded strs strLen ≤ l'.data.length := by
  induction fuel generalizing l with
  | zero =>
      have hsmall := h.small
      omega
  | succ fuel ih =>
      have hcount := h.count
      have hcapacity := h.capacity
      have hused := h.used
      have hapart := h.apart
      have hneeded : (8 * ((strs.length : Int) + 1)) + l.strUsed + strLen + 1 =
          bytesNeeded strs strLen := by
        rw [bytesNeeded, hused]
        push_cast
        ring
      have hnew : wrapInt 32 (8 * ((strs.length : Int) + 1)) = 8 * ((strs.length : Int) + 1) :=
        wrapInt_of_lt (by decide : 0 < 32) (by omega) (by omega)
      have hold : wrapInt 32 (8 * (strs.length : Int)) = 8 * l.count := by
        rw [hcount]
        exact wrapInt_of_lt (by decide : 0 < 32) (by omega) (by omega)
      have hpos : 0 < l.data.length := by
        obtain ⟨k, hk⟩ := h.double
        rw [hk]
        exact Nat.two_pow_pos _
      rw [strlistGrowLoop, Option.getD_some, hnew, hneeded, hold,
        wrapInt_of_lt (by decide : 0 < 32) (by omega) (by omega : (bytesNeeded strs strLen : Int) < 2 ^ 31)]
      dsimp only
      by_cases hless : l.capacity < bytesNeeded strs strLen
      · obtain ⟨data, hmove, hdata, hlayout⟩ := h.enlarge (by omega)
        have hbig := hlayout.small
        dsimp only at hbig
        have hgranted : granted Alloc.unlimited (wrapInt 32 (l.capacity + l.capacity + 12)) = true := by
          rw [wrapInt_of_lt (by decide : 0 < 32) (by omega) (by omega), granted, Alloc.unlimited, Bool.and_true]
          exact decide_eq_true (by omega)
        rw [if_pos hless, if_neg (by omega : ¬ l.capacity = 0), if_pos hgranted,
          if_neg (by omega : ¬ l.capacity = 0), wrapInt_of_lt (by decide : 0 < 32) (by omega) (by omega), hmove]
        refine ih hlayout (hfuel.trans_eq ?_)
        show l.data.length * 2 ^ (fuel + 1) = data.length * 2 ^ fuel
        rw [hdata, pow_succ]
        ring
      · rw [if_neg hless]
        exact ⟨l, rfl, h, by omega⟩

/-- **Growing** keeps the layout, and makes room for one more string. -/
theorem strlistGrow_stored {l : Option Strlist} (h : Stored l strs) {strLen : Nat}
    (hfits : bytesNeeded strs strLen ≤ 2 ^ 30) :
    ∃ l', strlistGrow Alloc.unlimited l strLen = .ok (some l', 0) ∧ Layout l' strs ∧
      bytesNeeded strs strLen ≤ l'.data.length := by
  cases l with
  | some l =>
      have hlayout : Layout l strs := h
      obtain ⟨k, hk⟩ := hlayout.double
      rw [strlistGrow, h.count]
      refine strlistGrowLoop_layout hlayout hfits ?_
      rw [hk, ← pow_add]
      exact Nat.pow_le_pow_right (by decide) (by omega)
  | none =>
      have hnil : strs = [] := h
      subst hnil
      have hlt : (0 : Int) < wrapInt 32 (wrapInt 32 (8 * (0 + 1)) + 0 + strLen + 1) := by
        have hbytes : 8 * (0 + 1) + 0 + strLen + 1 ≤ 2 ^ 30 := hfits
        rw [show wrapInt 32 (8 * (0 + 1)) = 8 from rfl, wrapInt_of_lt (by decide : 0 < 32)] <;> omega
      have hgranted : granted Alloc.unlimited (wrapInt 32 (0 + 128 + 12)) = true := by decide
      have hfirst : strlistGrow Alloc.unlimited none strLen =
          memmove (Cells.resize [] (0 + 128 : Int).toNat) (wrapInt 32 (0 + 128) - wrapInt 32 (8 * 0))
            (wrapInt 32 (0 + 128) - wrapInt 32 (8 * 0) - 128) (wrapInt 32 (8 * 0)) >>= fun data =>
          strlistGrowLoop Alloc.unlimited 0 strLen 31
            (some { count := 0, strUsed := 0, capacity := wrapInt 32 (0 + 128), data := data }) := by
        rw [strlistGrow, strlistGrowLoop, Option.getD_none]
        exact (if_pos hlt).trans (if_pos hgranted)
      have hsize := Cells.length_resize ([] : Bytes) (0 + 128 : Int).toNat
      obtain ⟨data, hmove, hlength, -⟩ := memmove_spec (d := 128) (s := 0) (k := 0)
        (rfl : wrapInt 32 (0 + 128) - wrapInt 32 (8 * 0) = _)
        (rfl : wrapInt 32 (0 + 128) - wrapInt 32 (8 * 0) - 128 = _) (rfl : wrapInt 32 (8 * 0) = _)
        (show 128 + 0 ≤ (Cells.resize ([] : Bytes) (0 + 128 : Int).toNat).length by
          rw [hsize]
          decide)
        (Nat.zero_le _)
      rw [hsize] at hlength
      have hempty : Layout
          { count := 0, strUsed := 0, capacity := wrapInt 32 (0 + 128), data := data } [] := by
        refine ⟨rfl, rfl, ?_, ⟨0, hlength⟩, ?_, ?_, Cells.at_nil _ _, Cells.at_nil _ _⟩
        · dsimp only
          rw [hlength]
          rfl
        · exact hlength.trans_le (by decide)
        · exact Nat.zero_le _
      obtain ⟨l', hgrow, hrest⟩ := strlistGrowLoop_layout hempty hfits
        (show 2 ^ 31 ≤ data.length * 2 ^ 31 by rw [hlength]; decide)
      refine ⟨l', ?_, hrest⟩
      rw [hfirst, hmove, ok_bind]
      exact hgrow

end

/-! ## Changing the list -/

section

variable {l : Strlist} {str : List UInt8} {a b : List (List UInt8)} {data : Bytes}

/-- The strings around a place, and one in between. -/
theorem at_area (ha : At data 0 (area a)) (hstr : At data (area a).length str)
    (hnul : load data ((area a).length + str.length) = some 0)
    (hb : At data ((area a).length + str.length + 1) (area b)) :
    At data 0 (area (a ++ str :: b)) := by
  rw [area_append, area_cons, Cells.at_append, Cells.at_append, Cells.at_append, Nat.zero_add]
  refine ⟨ha, ⟨hstr, ?_⟩, ?_⟩
  · exact Cells.at_cons.mpr ⟨hnul, Cells.at_nil _ _⟩
  · rw [List.length_append, List.length_singleton, ← Nat.add_assoc]
    exact hb

/-- The spans around a slot, and the one in it. -/
theorem at_spanTable {q : Nat} (hb : At data q (spanTable ((area a).length + str.length + 1) b))
    (hoff : At data (q + 8 * b.length) (intBytes (area a).length))
    (hlen : At data (q + 8 * b.length + 4) (intBytes str.length))
    (ha : At data (q + 8 * b.length + 8) (spanTable 0 a)) :
    At data q (spanTable 0 (a ++ str :: b)) := by
  rw [spanTable_append, spanTable, zero_add, Cells.at_append, Cells.at_append, Cells.at_append,
    length_spanTable, List.length_append, length_spanTable, List.length_append]
  exact ⟨⟨hb, hoff, hlen⟩, ha⟩

/-- What stands around a slot. -/
theorem at_spanTable_append {q : Nat} (h : At data q (spanTable 0 (a ++ b))) :
    At data q (spanTable (area a).length b) ∧ At data (q + 8 * b.length) (spanTable 0 a) := by
  rw [spanTable_append, zero_add, Cells.at_append, length_spanTable] at h
  exact h

/-- The area of a joined list is found in two parts. -/
theorem at_area_append (h : At data 0 (area (a ++ b))) :
    At data 0 (area a) ∧ At data (area a).length (area b) := by
  rw [area_append, Cells.at_append, Nat.zero_add] at h
  exact h

/-- The table of a string is its two ints behind the table of the rest. -/
theorem at_slot {q : Nat} {off : Int} (h : At data q (spanTable off (str :: b))) :
    At data q (spanTable (off + str.length + 1) b) ∧ At data (q + 8 * b.length) (intBytes off) ∧
      At data (q + 8 * b.length + 4) (intBytes str.length) := by
  rw [spanTable, Cells.at_append, Cells.at_append, length_spanTable] at h
  exact ⟨h.1, h.2⟩

/-- **Patching the offsets** of all spans in a table. -/
theorem shiftOffs_spec {delta off : Int} {q : Nat} {span : Int} (h : At data q (spanTable off b))
    (hspan : span = q + 8 * b.length - 8) (hoff : 0 ≤ off) (hdelta : 0 ≤ off + delta)
    (hfits : off + (area b).length < 2 ^ 31) (hmoved : off + delta + (area b).length < 2 ^ 31) :
    ∃ shifted, shiftOffs delta b.length span data = .ok shifted ∧ shifted.length = data.length ∧
      At shifted q (spanTable (off + delta) b) ∧
      ∀ p, p < q ∨ q + 8 * b.length ≤ p → load shifted p = load data p := by
  induction b generalizing off span data with
  | nil => exact ⟨data, rfl, rfl, Cells.at_nil _ _, fun _ _ => rfl⟩
  | cons s b ih =>
      rw [length_area_cons] at hfits hmoved
      obtain ⟨hlater, hslot, hlen⟩ := at_slot h
      have hin := hlen.length_le (by rintro ⟨⟩)
      rw [length_intBytes] at hin
      rw [List.length_cons] at hspan
      have hread := readInt_spec (p := span) hslot (by push_cast at hspan ⊢; omega) hoff (by omega)
      obtain ⟨data₁, hwrite, hlength₁, hnew, hload₁⟩ :=
        writeInt_spec (p := span) (x := off + delta) (d := q + 8 * b.length)
          (by push_cast at hspan ⊢; omega) (by omega : _ ≤ data.length)
      have hlater₁ : At data₁ q (spanTable (off + s.length + 1) b) := by
        apply hlater.congr
        intro p _ hp
        rw [length_spanTable] at hp
        exact hload₁ p (.inl hp)
      have hnext : span - 8 = q + 8 * b.length - 8 := by
        push_cast at hspan
        omega
      obtain ⟨shifted, hshift, hlength, hmovedb, hload⟩ := ih hlater₁ hnext (by omega) (by omega)
        (by push_cast at hfits; omega) (by push_cast at hmoved; omega)
      refine ⟨shifted, ?_, hlength.trans hlength₁, ?_, ?_⟩
      · rw [List.length_cons, shiftOffs, hread, ok_bind,
          wrapInt_of_lt (by decide : 0 < 32) hdelta (by push_cast at hmoved; omega), hwrite, ok_bind]
        exact hshift
      · rw [spanTable, Cells.at_append, Cells.at_append, length_spanTable]
        refine ⟨?_, ?_, ?_⟩
        · rw [show off + delta + s.length + 1 = off + s.length + 1 + delta by ring]
          exact hmovedb
        · exact hnew.congr fun p hp _ => hload p (.inr hp)
        · apply hlen.congr
          intro p hp _
          rw [hload p (.inr (by omega)), hload₁ p (.inr (by omega))]
      · intro p hp
        rw [List.length_cons] at hp
        rw [hload p (by omega), hload₁ p (by omega)]

/-- The slot of a span, counted from the end of the block. -/
theorem Layout.slotPtr_eq (h : Layout l a) {i : Int} {k : Nat} (hi : i = k)
    (hk : 8 * (k + 1) ≤ l.data.length) :
    slotPtr l.capacity i = (l.data.length - 8 * (k + 1) : Nat) := by
  have hcapacity := h.capacity
  rw [slotPtr]
  omega

/-- Around a position the layout splits into the strings before and behind. -/
theorem Layout.around (h : Layout l (a ++ b)) :
    (At l.data 0 (area a) ∧ At l.data (area a).length (area b)) ∧
      At l.data (l.data.length - 8 * (a.length + b.length)) (spanTable (area a).length b) ∧
      At l.data (l.data.length - 8 * a.length) (spanTable 0 a) := by
  have hapart := h.apart
  have hspans := h.spans
  rw [List.length_append] at hapart hspans
  obtain ⟨hb, ha⟩ := at_spanTable_append hspans
  refine ⟨at_area_append h.strings, hb, ?_⟩
  rwa [show l.data.length - 8 * (a.length + b.length) + 8 * b.length = l.data.length - 8 * a.length by
    omega] at ha

/-- A list with one string more, whose parts are in their places. -/
theorem Layout.inserted (h : Layout l (a ++ b))
    (hfits : bytesNeeded (a ++ b) str.length ≤ 2 ^ 30)
    (hroom : bytesNeeded (a ++ b) str.length ≤ l.data.length) (hlength : data.length = l.data.length)
    (hstrings : At data 0 (area (a ++ str :: b)))
    (hspans : At data (l.data.length - 8 * (a.length + b.length + 1)) (spanTable 0 (a ++ str :: b))) :
    Layout
      { l with
        data := data
        strUsed := wrapInt 32 (l.strUsed + str.length + 1)
        count := wrapInt 32 (l.count + 1) } (a ++ str :: b) := by
  have hcount := h.count
  have hused := h.used
  rw [bytesNeeded] at hfits hroom
  rw [List.length_append] at hcount hfits hroom
  rw [length_area_append] at hused hfits hroom
  have hstrs : (a ++ str :: b).length = a.length + b.length + 1 := by
    rw [List.length_append, List.length_cons]
    omega
  have harea : (area (a ++ str :: b)).length =
      (area a).length + (area b).length + str.length + 1 := by
    rw [length_area_append, length_area_cons]
    omega
  refine ⟨?_, ?_, ?_, ?_, ?_, ?_, hstrings, ?_⟩
  · dsimp only
    rw [wrapInt_of_lt (by decide : 0 < 32) (by omega) (by omega), hstrs]
    omega
  · dsimp only
    rw [wrapInt_of_lt (by decide : 0 < 32) (by omega) (by omega), harea]
    omega
  · exact h.capacity.trans (by rw [hlength])
  · exact hlength ▸ h.double
  · exact hlength ▸ h.small
  · dsimp only
    omega
  · dsimp only
    rw [hlength, hstrs]
    exact hspans

/-- **Adding** a string. -/
theorem strlistAdd_layout {l : Option Strlist} {strs : List (List UInt8)} (h : Stored l strs)
    (hfits : bytesNeeded strs str.length ≤ 2 ^ 30) :
    ∃ l', strlistAdd Alloc.unlimited l str = .ok (some l', 0) ∧ Layout l' (strs ++ [str]) := by
  obtain ⟨m, hgrow, hm, hroom⟩ := strlistGrow_stored h hfits
  have hcount := hm.count
  have hused := hm.used
  have hsmall := hm.small
  have hneeded : bytesNeeded strs str.length =
    8 * (strs.length + 1) + (area strs).length + str.length + 1 := rfl
  have hslot := hm.slotPtr_eq hm.count (by omega)
  obtain ⟨d₁, hwrite₁, hlength₁, hoff₁, hload₁⟩ := writeInt_spec (x := m.strUsed) hslot
    (by omega : _ ≤ m.data.length)
  obtain ⟨d₂, hwrite₂, hlength₂, hlen₂, hload₂⟩ := writeInt_spec (x := str.length)
    (by omega : slotPtr m.capacity m.count + 4 = (m.data.length - 8 * (strs.length + 1) + 4 : Nat))
    (by omega : _ ≤ d₁.length)
  have hoff₂ : At d₂ (m.data.length - 8 * (strs.length + 1)) (intBytes m.strUsed) :=
    hoff₁.congr fun p _ hp => hload₂ p (.inl hp)
  have hread₂ := readInt_spec hoff₂ hslot (by omega) (by omega)
  obtain ⟨d₃, hcopy₃, hlength₃, hstr₃, hload₃⟩ := memcpy_spec hused
    (by omega : (area strs).length + str.length ≤ d₂.length)
  have hoff₃ : At d₃ (m.data.length - 8 * (strs.length + 1)) (intBytes m.strUsed) :=
    hoff₂.congr fun p hp _ => hload₃ p (.inr (by omega))
  have hread₃ := readInt_spec hoff₃ hslot (by omega) (by omega)
  obtain ⟨d₄, hcopy₄, hlength₄, hnul₄, hload₄⟩ := memcpy_spec
    (by omega : m.strUsed + str.length = ((area strs).length + str.length : Nat))
    (by rw [List.length_singleton]; omega :
      (area strs).length + str.length + [(0 : UInt8)].length ≤ d₃.length)
  rw [List.length_singleton] at hload₄
  -- the table and the strings are kept, and what is new stands between them
  have hkept (p : Nat) (hp : p < (area strs).length ∨ m.data.length - 8 * strs.length ≤ p) :
      load d₄ p = load m.data p := by
    rw [hload₄ p (by omega), hload₃ p (by omega), hload₂ p (by omega), hload₁ p (by omega)]
  have hm' : Layout m (strs ++ []) := by rwa [List.append_nil]
  refine ⟨_, ?_, hm'.inserted (by rwa [List.append_nil]) (by rwa [List.append_nil])
    (by omega : d₄.length = m.data.length) (at_area ?_ ?_ ?_ (Cells.at_nil _ _))
    (at_spanTable (Cells.at_nil _ _) ?_ ?_ ?_)⟩
  · rw [strlistAdd, hgrow, ok_bind]
    dsimp only
    rw [if_neg (by decide), hwrite₁, ok_bind, hwrite₂, ok_bind, hread₂, ok_bind, hcopy₃, ok_bind,
      hread₃, ok_bind, hcopy₄]
    rfl
  · exact hm.strings.congr fun p _ hp => hkept p (.inl (by omega))
  · exact hstr₃.congr fun p _ hp => hload₄ p (.inl hp)
  · exact (Cells.at_cons.mp hnul₄).1
  · rw [← hused]
    exact hoff₃.congr fun p hp _ => hload₄ p (.inr (by omega))
  · apply hlen₂.congr
    intro p hp _
    rw [hload₄ p (.inr (by omega)), hload₃ p (.inr (by omega))]
  · have hplace : m.data.length - 8 * (strs.length + ([] : List (List UInt8)).length + 1) +
        8 * ([] : List (List UInt8)).length + 8 = m.data.length - 8 * strs.length := by
      rw [List.length_nil]
      omega
    rw [hplace]
    exact hm.spans.congr fun p hp _ => hkept p (.inr hp)

/-- The bytes after a list of strings and its spans have been moved: the strings stand at `d`,
the spans, whose offsets start with `off`, at `q`, and the other bytes are as they were. -/
structure MovedTo (data moved : Bytes) (strs : List (List UInt8)) (d q : Nat) (off : Int) : Prop where
  length : moved.length = data.length
  strings : At moved d (area strs)
  spans : At moved q (spanTable off strs)
  frame : ∀ p, p < d ∨ d + (area strs).length ≤ p → p < q ∨ q + 8 * strs.length ≤ p →
    load moved p = load data p

/-- The strings move from `s` to `d` below the table, and their spans from `r` to `q` in it. -/
structure MovesInside (data : Bytes) (strs : List (List UInt8)) (s d r q : Nat) : Prop where
  source : s + (area strs).length ≤ data.length
  below : d + (area strs).length ≤ r
  below' : d + (area strs).length ≤ q
  spans : r + 8 * strs.length ≤ data.length
  spans' : q + 8 * strs.length ≤ data.length

/-- **Moving strings**, their spans, and then the offsets by `delta`, as both `strlist_insert` and
`strlist_erase` do with what lies behind the string. -/
theorem moveBehind_spec {dst src size dst' src' size' span delta off : Int} {s d r q : Nat}
    {strs : List (List UInt8)} (hstrs : At data s (area strs)) (hspans : At data r (spanTable off strs))
    (hdst : dst = d) (hsrc : src = s) (hsize : size = ((area strs).length : Nat))
    (hdst' : dst' = q) (hsrc' : src' = r) (hsize' : size' = (8 * strs.length : Nat))
    (hspan : span = q + 8 * strs.length - 8) (hinside : MovesInside data strs s d r q)
    (hoff : 0 ≤ off) (hdelta : 0 ≤ off + delta) (hfits : off + (area strs).length < 2 ^ 31)
    (hmoved : off + delta + (area strs).length < 2 ^ 31) :
    ∃ moved, (do
        let data ← memmove data dst src size
        let data ← memmove data dst' src' size'
        shiftOffs delta strs.length span data) = .ok moved ∧
      MovedTo data moved strs d q (off + delta) := by
  have hbelow := hinside.below
  have hbelow' := hinside.below'
  have hr := hinside.spans
  have hq := hinside.spans'
  have htable (off : Int) : (spanTable off strs).length = 8 * strs.length := length_spanTable off
  obtain ⟨d₁, hmove₁, hlength₁, hload₁⟩ := memmove_spec hdst hsrc hsize
    (by omega : _ ≤ data.length) hinside.source
  have hstrs₁ := hstrs.moved hload₁
  have hspans₁ : At d₁ r (spanTable off strs) := by
    apply hspans.congr
    intro p hp _
    rw [hload₁, if_neg (by omega)]
  obtain ⟨d₂, hmove₂, hlength₂, hload₂⟩ := memmove_spec hdst' hsrc' hsize'
    (by omega : _ ≤ d₁.length) (by omega)
  have hspans₂ := hspans₁.moved (by rw [htable]; exact hload₂)
  obtain ⟨d₃, hshift, hlength₃, hspans₃, hload₃⟩ :=
    shiftOffs_spec hspans₂ hspan hoff hdelta hfits hmoved
  refine ⟨d₃, ?_, by omega, ?_, hspans₃, ?_⟩
  · rw [hmove₁, ok_bind, hmove₂, ok_bind]
    exact hshift
  · apply hstrs₁.congr
    intro p _ hp
    rw [hload₃ p (by omega), hload₂, if_neg (by omega)]
  · intro p hp hp'
    rw [hload₃ p hp', hload₂, if_neg (by omega), hload₁, if_neg (by omega)]

/-- The block with space for a string of `n` bytes between `a` and `b`: the offset of the new
string is set, and the byte behind it is the one that was there. -/
structure SpaceMade (l : Strlist) (data : Bytes) (a b : List (List UInt8)) (n : Nat) : Prop where
  length : data.length = l.data.length
  before : At data 0 (area a)
  behind : At data ((area a).length + n + 1) (area b)
  spansBehind : At data (l.data.length - 8 * (a.length + b.length + 1))
    (spanTable ((area a).length + n + 1) b)
  offset : At data (l.data.length - 8 * (a.length + 1)) (intBytes (area a).length)
  spansBefore : At data (l.data.length - 8 * a.length) (spanTable 0 a)
  byte : load data ((area a).length + n) = load l.data ((area a).length + n)

/-- For a string that comes last only the offset is written. -/
theorem makeSpace_last (h : Layout l a) {n : Nat} (hroom : bytesNeeded a n ≤ l.data.length) :
    ∃ data, strlistMakeSpace l a.length n = .ok data ∧ SpaceMade l data a [] n := by
  have hcount := h.count
  have hused := h.used
  rw [bytesNeeded] at hroom
  have hlast : ¬ (a.length : Int) < l.count := by omega
  rw [strlistMakeSpace, if_neg hlast]
  obtain ⟨data, hwrite, hlength, hoff, hload⟩ := writeInt_spec (x := l.strUsed)
    (h.slotPtr_eq (rfl : (a.length : Int) = (a.length : Nat)) (by omega))
    (by omega : _ ≤ l.data.length)
  refine ⟨data, hwrite, hlength, ?_, Cells.at_nil _ _, Cells.at_nil _ _, ?_, ?_, ?_⟩
  · exact h.strings.congr fun p _ hp => hload p (by omega)
  · rwa [hused] at hoff
  · exact h.spans.congr fun p hp _ => hload p (by omega)
  · exact hload _ (by omega)

/-- For a string before another one, what lies behind it is moved. -/
theorem makeSpace_before {s : List UInt8} (h : Layout l (a ++ s :: b)) {n : Nat}
    (hroom : bytesNeeded (a ++ s :: b) n ≤ l.data.length) :
    ∃ data, strlistMakeSpace l a.length n = .ok data ∧ SpaceMade l data a (s :: b) n := by
  have hcount := h.count
  have hused := h.used
  have hsmall := h.small
  rw [bytesNeeded] at hroom
  rw [List.length_append, List.length_cons] at hcount hroom
  rw [length_area_append] at hused hroom
  obtain ⟨⟨ha, hb⟩, hspansb, hspansa⟩ := h.around
  rw [List.length_cons] at hspansb
  have hslot := h.slotPtr_eq (rfl : (a.length : Int) = (a.length : Nat)) (by omega)
  have hless : (a.length : Int) < l.count := by omega
  rw [strlistMakeSpace, if_pos hless]
  have hoffset : At l.data (l.data.length - 8 * (a.length + 1)) (intBytes (area a).length) := by
    have hslota := (at_slot hspansb).2.1
    rwa [show l.data.length - 8 * (a.length + (b.length + 1)) + 8 * b.length =
      l.data.length - 8 * (a.length + 1) by omega] at hslota
  have hread := readInt_spec hoffset hslot (by omega) (by omega)
  have hdst : ((area a).length : Int) + n + 1 = ((area a).length + n + 1 : Nat) := by omega
  have hsize : l.strUsed - ((area a).length : Int) = ((area (s :: b)).length : Nat) := by omega
  have hdst' := h.slotPtr_eq (i := l.count) (k := a.length + (b.length + 1)) (by omega) (by omega)
  have hsrc' := h.slotPtr_eq (i := l.count - 1) (k := a.length + b.length) (by omega) (by omega)
  have hsize' : 8 * (l.count - a.length) = (8 * (s :: b).length : Nat) := by
    rw [List.length_cons]
    omega
  have hspan : slotPtr l.capacity a.length - 8 =
      (l.data.length - 8 * (a.length + (b.length + 1) + 1) : Nat) +
        8 * ((s :: b).length : Nat) - 8 := by
    rw [hslot, List.length_cons]
    omega
  obtain ⟨data, hmove, hmoved⟩ := moveBehind_spec hb hspansb hdst rfl hsize hdst' hsrc' hsize'
    hspan ⟨by omega, by omega, by omega, by rw [List.length_cons]; omega,
      by rw [List.length_cons]; omega⟩ (Int.natCast_nonneg _)
    (by omega : 0 ≤ ((area a).length : Int) + (n + 1)) (by omega) (by omega)
  have hkept (p : Nat) (hp : p < (area a).length + n + 1 ∨
      l.data.length - 8 * (a.length + 1) ≤ p) : load data p = load l.data p := by
    refine hmoved.frame p (by omega) ?_
    rw [List.length_cons]
    omega
  refine ⟨data, ?_, hmoved.length, ?_, hmoved.strings, ?_, ?_, ?_, hkept _ (by omega)⟩
  · have htimes : (l.count - (a.length : Int)).toNat = (s :: b).length := by
      rw [List.length_cons]
      omega
    rw [hread, ok_bind, htimes]
    exact hmove
  · exact ha.congr fun p _ hp => hkept p (by omega)
  · rw [List.length_cons, add_assoc ((area a).length : Int)]
    exact hmoved.spans
  · exact hoffset.congr fun p hp _ => hkept p (by omega)
  · exact hspansa.congr fun p hp _ => hkept p (by omega)

/-- **Making space** for a string. -/
theorem makeSpace_spec (h : Layout l (a ++ b)) {n : Nat}
    (hroom : bytesNeeded (a ++ b) n ≤ l.data.length) :
    ∃ data, strlistMakeSpace l a.length n = .ok data ∧ SpaceMade l data a b n := by
  cases b with
  | nil =>
      rw [List.append_nil] at h hroom
      exact makeSpace_last h hroom
  | cons s b => exact makeSpace_before h hroom

/-- **Inserting** a string leaves the byte behind it as it is in the block that has been grown,
and the list is in order when that is a NUL. -/
theorem strlistInsert_spec {l : Option Strlist} (h : Stored l (a ++ b))
    (hfits : bytesNeeded (a ++ b) str.length ≤ 2 ^ 30) :
    ∃ m l', strlistGrow Alloc.unlimited l str.length = .ok (some m, 0) ∧
      strlistInsert Alloc.unlimited l a.length str = .ok (some l', 0) ∧
      load l'.data ((area a).length + str.length) = load m.data ((area a).length + str.length) ∧
      (load m.data ((area a).length + str.length) = some 0 → Layout l' (a ++ str :: b)) := by
  obtain ⟨m, hgrow, hm, hroom⟩ := strlistGrow_stored h hfits
  have hsmall := hm.small
  have hneeded := hroom
  rw [bytesNeeded, List.length_append, length_area_append] at hneeded
  obtain ⟨d₁, hspace, hlength₁, ha, hb, hspansb, hoff, hspansa, hbyte⟩ := makeSpace_spec hm hroom
  have hslot := hm.slotPtr_eq (rfl : (a.length : Int) = (a.length : Nat)) (by omega)
  have hread := readInt_spec hoff hslot (by omega) (by omega)
  obtain ⟨d₂, hcopy, hlength₂, hstr₂, hload₂⟩ := memcpy_spec
    (rfl : ((area a).length : Int) = ((area a).length : Nat))
    (by omega : (area a).length + str.length ≤ d₁.length)
  obtain ⟨d₃, hwrite, hlength₃, hlen₃, hload₃⟩ := writeInt_spec (x := str.length)
    (by omega : slotPtr m.capacity a.length + 4 = (m.data.length - 8 * (a.length + 1) + 4 : Nat))
    (by omega : _ ≤ d₂.length)
  have hkept (p : Nat) (hp : p < (area a).length ∨
      (area a).length + str.length ≤ p ∧ p < m.data.length - 8 * (a.length + 1) + 4 ∨
        m.data.length - 8 * a.length ≤ p) : load d₃ p = load d₁ p := by
    rw [hload₃ p (by omega), hload₂ p (by omega)]
  have hlast : load d₃ ((area a).length + str.length) =
      load m.data ((area a).length + str.length) := by
    rw [hkept _ (by omega), hbyte]
  let l' : Strlist :=
    { m with
      data := d₃
      strUsed := wrapInt 32 (m.strUsed + str.length + 1)
      count := wrapInt 32 (m.count + 1) }
  refine ⟨m, l', hgrow, ?_, hlast, fun hnul => ?_⟩
  · rw [strlistInsert, hgrow, ok_bind]
    dsimp only
    rw [if_neg (by decide), hspace, ok_bind, hread, ok_bind, hcopy, ok_bind, hwrite]
    rfl
  · have hplace : m.data.length - 8 * (a.length + b.length + 1) + 8 * b.length =
        m.data.length - 8 * (a.length + 1) := by omega
    have hbehind : m.data.length - 8 * (a.length + 1) + 8 = m.data.length - 8 * a.length := by omega
    refine hm.inserted hfits hroom (by omega : d₃.length = m.data.length)
      (at_area ?_ ?_ (hlast.trans hnul) ?_) (at_spanTable ?_ ?_ ?_ ?_)
    · exact ha.congr fun p _ hp => hkept p (by omega)
    · exact hstr₂.congr fun p _ hp => hload₃ p (by omega)
    · exact hb.congr fun p _ hp => hkept p (by omega)
    · apply hspansb.congr
      intro p _ hp
      rw [length_spanTable] at hp
      exact hkept p (by omega)
    · rw [hplace]
      apply hoff.congr
      intro p _ hp
      rw [length_intBytes] at hp
      exact hkept p (by omega)
    · rw [hplace]
      exact hlen₃
    · rw [hplace, hbehind]
      exact hspansa.congr fun p hp _ => hkept p (by omega)

/-- The block without the string between `a` and `b`. -/
structure GapFilled (l : Strlist) (data : Bytes) (a b : List (List UInt8)) : Prop where
  length : data.length = l.data.length
  strings : At data 0 (area (a ++ b))
  spans : At data (l.data.length - 8 * (a.length + b.length)) (spanTable 0 (a ++ b))

/-- Behind the last string there is nothing to move. -/
theorem fillGap_last (h : Layout l (a ++ [str])) :
    ∃ data, strlistFillGap l a.length (str.length + 1) = .ok data ∧ GapFilled l data a [] := by
  have hcount := h.count
  rw [List.length_append, List.length_singleton] at hcount
  obtain ⟨⟨ha, -⟩, -, hspansa⟩ := h.around
  have hlast : ¬ (a.length : Int) < l.count - 1 := by omega
  rw [strlistFillGap, if_neg hlast]
  refine ⟨l.data, rfl, rfl, ?_, ?_⟩
  · rwa [List.append_nil]
  · rwa [List.append_nil, List.length_nil, Nat.add_zero]

/-- What lies behind the string is moved into the gap. -/
theorem fillGap_before {s : List UInt8} (h : Layout l (a ++ str :: s :: b)) :
    ∃ data, strlistFillGap l a.length (str.length + 1) = .ok data ∧
      GapFilled l data a (s :: b) := by
  have hcount := h.count
  have hused := h.used
  have hsmall := h.small
  have hapart := h.apart
  rw [List.length_append, List.length_cons, List.length_cons] at hcount hapart
  rw [length_area_append, length_area_cons] at hused hapart
  obtain ⟨⟨ha, hbehind⟩, hspansb, hspansa⟩ := h.around
  rw [List.length_cons, List.length_cons] at hspansb
  have hslot := h.slotPtr_eq (rfl : (a.length : Int) = (a.length : Nat)) (by omega)
  have hless : (a.length : Int) < l.count - 1 := by omega
  rw [strlistFillGap, if_pos hless]
  obtain ⟨hlater, hoff, -⟩ := at_slot hspansb
  have hplace : l.data.length - 8 * (a.length + (b.length + 1 + 1)) + 8 * (s :: b).length =
      l.data.length - 8 * (a.length + 1) := by
    rw [List.length_cons]
    omega
  rw [hplace] at hoff
  have hread := readInt_spec hoff hslot (by omega) (by omega)
  have hb : At l.data ((area a).length + str.length + 1) (area (s :: b)) := by
    rw [area_cons, Cells.at_append, List.length_append, List.length_singleton,
      ← Nat.add_assoc] at hbehind
    exact hbehind.2
  have hsrc : ((area a).length : Int) + (str.length + 1) =
      ((area a).length + str.length + 1 : Nat) := by omega
  have hsize : l.strUsed - ((area a).length : Int) - (str.length + 1) =
      ((area (s :: b)).length : Nat) := by omega
  have hdst' := h.slotPtr_eq (i := l.count - 2) (k := a.length + b.length) (by omega) (by omega)
  have hsrc' := h.slotPtr_eq (i := l.count - 1) (k := a.length + (b.length + 1)) (by omega)
    (by omega)
  have hsize' : 8 * (l.count - a.length - 1) = (8 * (s :: b).length : Nat) := by
    rw [List.length_cons]
    omega
  have hspan : slotPtr l.capacity a.length = (l.data.length - 8 * (a.length + b.length + 1) : Nat) +
      8 * ((s :: b).length : Nat) - 8 := by
    rw [hslot, List.length_cons]
    omega
  have hback : ((area a).length : Int) + str.length + 1 + -(str.length + 1) =
      (area a).length := by ring
  obtain ⟨data, hmove, hmoved⟩ := moveBehind_spec hb hlater
    (rfl : ((area a).length : Int) = ((area a).length : Nat)) hsrc hsize hdst' hsrc' hsize' hspan
    ⟨by omega, by omega, by omega, by rw [List.length_cons]; omega,
      by rw [List.length_cons]; omega⟩ (by omega)
    (by rw [hback]; exact Int.natCast_nonneg _) (by omega) (by rw [hback]; omega)
  have hspansb' := hmoved.spans
  rw [hback] at hspansb'
  have hkept (p : Nat) (hp : p < (area a).length ∨ l.data.length - 8 * a.length ≤ p) :
      load data p = load l.data p := by
    refine hmoved.frame p (by omega) ?_
    rw [List.length_cons]
    omega
  refine ⟨data, ?_, hmoved.length, ?_, ?_⟩
  · have htimes : (l.count - (a.length : Int) - 1).toNat = (s :: b).length := by
      rw [List.length_cons]
      omega
    rw [hread, ok_bind, htimes]
    exact hmove
  · rw [area_append, Cells.at_append, Nat.zero_add]
    exact ⟨ha.congr fun p _ hp => hkept p (by omega), hmoved.strings⟩
  · have hend : l.data.length - 8 * (a.length + (s :: b).length) + 8 * (s :: b).length =
        l.data.length - 8 * a.length := by
      rw [List.length_cons]
      omega
    rw [spanTable_append, zero_add, Cells.at_append, length_spanTable, hend]
    exact ⟨hspansb', hspansa.congr fun p hp _ => hkept p (by omega)⟩

/-- **Filling the gap** that a string leaves. -/
theorem fillGap_spec (h : Layout l (a ++ str :: b)) :
    ∃ data, strlistFillGap l a.length (str.length + 1) = .ok data ∧ GapFilled l data a b := by
  cases b with
  | nil => exact fillGap_last h
  | cons s b => exact fillGap_before h

/-- **Erasing** a string. -/
theorem strlistErase_layout (h : Layout l (a ++ str :: b)) :
    ∃ l', strlistErase l a.length = .ok l' ∧ Layout l' (a ++ b) := by
  have hcount := h.count
  have hused := h.used
  have hcapacity := h.capacity
  have hsmall := h.small
  have hapart := h.apart
  obtain ⟨-, hspansb, -⟩ := h.around
  rw [List.length_append, List.length_cons] at hcount hapart
  rw [length_area_append, length_area_cons] at hused hapart
  obtain ⟨data, hgap, hlength, hstrings, hspans⟩ := fillGap_spec h
  have hlen := (at_slot hspansb).2.2
  have hread := readInt_spec (p := slotPtr l.capacity a.length + 4) hlen (by
    rw [slotPtr, List.length_cons]
    omega) (by omega) (by omega)
  let l' : Strlist :=
    { l with
      data := data
      strUsed := wrapInt 32 (l.strUsed - (str.length + 1))
      count := wrapInt 32 (l.count - 1) }
  refine ⟨l', ?_, ?_⟩
  · rw [strlistErase, hread, ok_bind]
    dsimp only
    rw [hgap]
    rfl
  · refine ⟨?_, ?_, ?_, ?_, ?_, ?_, hstrings, ?_⟩
    · dsimp only [l']
      rw [wrapInt_of_lt (by decide : 0 < 32) (by omega) (by omega), List.length_append]
      omega
    · dsimp only [l']
      rw [wrapInt_of_lt (by decide : 0 < 32) (by omega) (by omega), length_area_append]
      omega
    · exact hcapacity.trans (by rw [hlength])
    · exact hlength ▸ h.double
    · exact hlength ▸ hsmall
    · dsimp only [l']
      rw [length_area_append, List.length_append]
      omega
    · dsimp only [l']
      rw [hlength, List.length_append]
      exact hspans

end

end Clither
