import Clither.StrlistLayout
import Clither.Lib.Run

/-!
# What a string list shows

A run adds, inserts and erases strings, and the list should show the strings that the same
changes to an abstract list give.  It does as long as every `strlist_insert` finds a NUL behind
the string that it copies, because it does not write one.
-/

namespace Clither

open Cells (At load)

/-- Where a string begins. -/
def strOffset (strs : List (List UInt8)) (i : Nat) : Nat :=
  ((strs.take i).map (·.length + 1)).sum

/-- The first string is at the begin of the block. -/
theorem strOffset_zero (strs : List (List UInt8)) : strOffset strs 0 = 0 := rfl

/-- The spans are contiguous. -/
theorem strOffset_succ {strs : List (List UInt8)} {i : Nat} {s : List UInt8}
    (h : strs[i]? = some s) : strOffset strs (i + 1) = strOffset strs i + s.length + 1 := by
  rw [strOffset, strOffset, List.take_add_one, h, List.map_append, List.sum_append]
  show _ + (s.length + 1 + 0) = _
  omega

/-- The area is as long as its strings with their NULs. -/
theorem length_area (strs : List (List UInt8)) :
    (area strs).length = (strs.map (·.length + 1)).sum := by
  induction strs with
  | nil => rfl
  | cons s strs ih => rw [length_area_cons, ih, List.map_cons, List.sum_cons]

/-- A string begins where the area of those before it ends. -/
theorem strOffset_eq (strs : List (List UInt8)) (i : Nat) :
    strOffset strs i = (area (strs.take i)).length :=
  (length_area _).symm

/-- What a list should show of the strings. -/
structure Shows (l : Strlist) (strs : List (List UInt8)) : Prop where
  count : l.count = strs.length
  used : l.strUsed = strOffset strs strs.length
  block : l.capacity = l.data.length
  /-- The strings end before the table begins. -/
  apart : l.strUsed + 8 * l.count ≤ l.capacity
  spans : ∀ (i : Nat) s, strs[i]? = some s →
    strlistSpan l i = .ok { off := strOffset strs i, len := s.length }
  strings : ∀ (i : Nat) s, strs[i]? = some s → At l.data (strOffset strs i) (s ++ [0])
  cstrs : ∀ (i : Nat) s, strs[i]? = some s → 0 ∉ s → strlistCstr l i = .ok s

def ShowsStrings (l : Option Strlist) (strs : List (List UInt8)) : Prop :=
  match l with
  | some l => Shows l strs
  | none => strs = []

/-- A string that is followed by its NUL is read back. -/
theorem cstrOf_drop {data : Bytes} {off : Nat} {s : List UInt8} (hs : 0 ∉ s)
    (h : At data off (s ++ [0])) : cstrOf (data.drop off) = some s := by
  have hcons {p : Nat} {b : UInt8} (hload : load data p = some b) :
      data.drop p = some b :: data.drop (p + 1) := by
    have hlt := Cells.load_lt hload
    rw [load, List.getElem?_eq_getElem hlt] at hload
    rw [List.drop_eq_getElem_cons hlt]
    congr 1
  induction s generalizing off with
  | nil => rw [hcons (Cells.at_cons.mp h).1, cstrOf]
  | cons b s ih =>
      obtain ⟨hfirst, hrest⟩ := Cells.at_cons.mp h
      rw [List.mem_cons, not_or] at hs
      obtain ⟨hb, hs⟩ := hs
      rw [hcons hfirst, cstrOf.eq_2 _ _ (fun h => hb h.symm), ih hs hrest]
      rfl

/-- A list in order shows its strings. -/
theorem Layout.shows {l : Strlist} {strs : List (List UInt8)} (h : Layout l strs) :
    Shows l strs := by
  have hsmall := h.small
  have hapart := h.apart
  have hsplit {i : Nat} {s : List UInt8} (hi : strs[i]? = some s) :
      strs = strs.take i ++ s :: strs.drop (i + 1) ∧ (strs.take i).length = i := by
    obtain ⟨hlt, rfl⟩ := List.getElem?_eq_some_iff.mp hi
    rw [List.getElem_cons_drop, List.take_append_drop, List.length_take]
    exact ⟨rfl, by omega⟩
  have hstrings (i : Nat) (s : List UInt8) (hi : strs[i]? = some s) :
      At l.data (strOffset strs i) (s ++ [0]) := by
    have hall := h.strings
    rw [(hsplit hi).1] at hall
    have hbehind := (at_area_append hall).2
    rw [area_cons, Cells.at_append] at hbehind
    rw [strOffset_eq]
    exact hbehind.1
  have hspans (i : Nat) (s : List UInt8) (hi : strs[i]? = some s) :
      strlistSpan l i = .ok { off := strOffset strs i, len := s.length } := by
    obtain ⟨heq, hlength⟩ := hsplit hi
    have hplace : l.data.length - 8 * ((strs.take i).length + (s :: strs.drop (i + 1)).length) +
        8 * (strs.drop (i + 1)).length = l.data.length - 8 * (i + 1) := by
      have hall := congrArg List.length heq
      rw [List.length_append, List.length_cons, hlength] at hall
      rw [List.length_cons, hlength]
      omega
    have hl : Layout l (strs.take i ++ s :: strs.drop (i + 1)) := heq ▸ h
    obtain ⟨-, hoff, hlen⟩ := at_slot hl.around.2.1
    rw [hplace] at hoff hlen
    have hin : i < strs.length := (List.getElem?_eq_some_iff.mp hi).1
    have hslot := h.slotPtr_eq (rfl : (i : Int) = (i : Nat)) (by omega)
    have hused : (area strs).length =
        (area (strs.take i)).length + (s.length + 1 + (area (strs.drop (i + 1))).length) := by
      rw [← length_area_cons, ← length_area_append, ← heq]
    have hread₁ := readInt_spec hoff hslot (by omega) (by omega)
    have hread₂ := readInt_spec (p := slotPtr l.capacity i + 4) hlen (by omega) (by omega) (by omega)
    rw [strlistSpan, hread₁, ok_bind, hread₂, ok_bind, strOffset_eq]
  refine ⟨h.count, ?_, h.capacity, ?_, hspans, hstrings, fun i s hi hs => ?_⟩
  · rw [h.used, strOffset_eq, List.take_length]
  · rw [h.used, h.count, h.capacity]
    omega
  · rw [strlistCstr, hspans i s hi, ok_bind]
    rw [if_pos (Int.natCast_nonneg _), Int.toNat_natCast, cstrOf_drop hs (hstrings i s hi)]
    rfl

/-! ## Runs -/

/-- The change to the strings. -/
def StrlistOp.apply (strs : List (List UInt8)) : StrlistOp → List (List UInt8)
  | .add str => strs ++ [str]
  | .insert i cstr => strs.take i ++ cstr :: strs.drop i
  | .erase i => strs.take i ++ strs.drop (i + 1)

/-- The list, and the strings that it should show. -/
abbrev StrlistState := Option Strlist × List (List UInt8)

def strlistStep (s : StrlistState) (op : StrlistOp) : Except Fault StrlistState :=
  match strlistCall Alloc.unlimited s.1 op with
  | .ok l => .ok (l, op.apply s.2)
  | .error f => .error f

/-- The index is valid, a C string has no NUL inside, and the size of the block is not too large
for an `int`. -/
def ValidCall (s : StrlistState) : StrlistOp → Prop
  | .add str => bytesNeeded s.2 str.length ≤ 2 ^ 30
  | .insert i cstr => i ≤ s.2.length ∧ 0 ∉ cstr ∧ bytesNeeded s.2 cstr.length ≤ 2 ^ 30
  | .erase i => i < s.2.length

instance decidableValidCall (s : StrlistState) : (op : StrlistOp) → Decidable (ValidCall s op)
  | .add str => inferInstanceAs (Decidable (bytesNeeded s.2 str.length ≤ 2 ^ 30))
  | .insert i cstr =>
      inferInstanceAs
        (Decidable (i ≤ s.2.length ∧ 0 ∉ cstr ∧ bytesNeeded s.2 cstr.length ≤ 2 ^ 30))
  | .erase i => inferInstanceAs (Decidable (i < s.2.length))

/-- The byte of the block at an offset. -/
def blockByte (l : Option Strlist) (p : Nat) : Option UInt8 :=
  match l with
  | some l => load l.data p
  | none => none

/-- Where the string ends that is inserted, the block has a NUL already, once it has been grown
for one more string. -/
def FindsNul (s : StrlistState) : StrlistOp → Prop
  | .insert i cstr =>
      (strlistGrow Alloc.unlimited s.1 cstr.length).map
        (fun grown => blockByte grown.1 (strOffset s.2 i + cstr.length)) = .ok (some 0)
  | _ => True

instance decidableFindsNul (s : StrlistState) : (op : StrlistOp) → Decidable (FindsNul s op)
  | .add _ => isTrue trivial
  | .insert i cstr =>
      inferInstanceAs (Decidable ((strlistGrow Alloc.unlimited s.1 cstr.length).map
        (fun grown => blockByte grown.1 (strOffset s.2 i + cstr.length)) = .ok (some 0)))
  | .erase _ => isTrue trivial

/-- The same for the pointer to it. -/
theorem Stored.shows {l : Option Strlist} {strs : List (List UInt8)} (h : Stored l strs) :
    ShowsStrings l strs := by
  cases l with
  | none => exact h
  | some l =>
      have hlayout : Layout l strs := h
      exact hlayout.shows

/-- **Inserting**, as a step: in order exactly when a NUL is found. -/
theorem insert_step {l : Option Strlist} {strs : List (List UInt8)} {i : Nat} {cstr : List UInt8}
    (h : Stored l strs) (hvalid : ValidCall (l, strs) (.insert i cstr)) :
    ∃ l', strlistStep (l, strs) (.insert i cstr) = .ok (some l', strs.take i ++ cstr :: strs.drop i) ∧
      (FindsNul (l, strs) (.insert i cstr) → Layout l' (strs.take i ++ cstr :: strs.drop i)) ∧
      (Shows l' (strs.take i ++ cstr :: strs.drop i) → FindsNul (l, strs) (.insert i cstr)) := by
  obtain ⟨hi, -, hfits⟩ := hvalid
  have hlength : (strs.take i).length = i := by
    rw [List.length_take]
    exact Nat.min_eq_left hi
  obtain ⟨m, l', hgrow, hinsert, hbyte, hlayout⟩ :=
    strlistInsert_spec (a := strs.take i) (b := strs.drop i) (by rwa [List.take_append_drop])
      (by rwa [List.take_append_drop])
  rw [← strOffset_eq] at hbyte hlayout
  rw [hlength] at hinsert
  have hfinds : FindsNul (l, strs) (.insert i cstr) ↔
      load m.data (strOffset strs i + cstr.length) = some 0 := by
    show (strlistGrow Alloc.unlimited l cstr.length).map _ = _ ↔ _
    rw [hgrow]
    exact ⟨fun h => Except.ok.inj h, fun h => congrArg Except.ok h⟩
  refine ⟨l', ?_, fun h => hlayout (hfinds.mp h), fun hshows => hfinds.mpr ?_⟩
  · rw [strlistStep, strlistCall, hinsert]
    rfl
  · have hhere : (strs.take i ++ cstr :: strs.drop i)[i]? = some cstr := by
      rw [List.getElem?_append_right (Nat.le_of_eq hlength), hlength, Nat.sub_self]
      rfl
    have hstring := hshows.strings i cstr hhere
    have hoffset : strOffset (strs.take i ++ cstr :: strs.drop i) i = strOffset strs i := by
      rw [strOffset, strOffset, List.take_append_of_le_length (Nat.le_of_eq hlength.symm),
        List.take_take, Nat.min_self]
    rw [hoffset, Cells.at_append] at hstring
    rw [← hbyte]
    exact (Cells.at_cons.mp hstring.2).1

/-- Adding a string keeps the list in order. -/
theorem add_step {l : Option Strlist} {strs : List (List UInt8)} {str : List UInt8}
    (h : Stored l strs) (hvalid : ValidCall (l, strs) (.add str)) :
    ∃ l', strlistStep (l, strs) (.add str) = .ok (some l', strs ++ [str]) ∧
      Layout l' (strs ++ [str]) := by
  obtain ⟨l', hadd, hlayout⟩ := strlistAdd_layout h hvalid
  refine ⟨l', ?_, hlayout⟩
  rw [strlistStep, strlistCall, hadd]
  rfl

/-- Erasing a string keeps the list in order. -/
theorem erase_step {l : Option Strlist} {strs : List (List UInt8)} {i : Nat} (h : Stored l strs)
    (hvalid : i < strs.length) :
    ∃ l', strlistStep (l, strs) (.erase i) = .ok (some l', strs.take i ++ strs.drop (i + 1)) ∧
      Layout l' (strs.take i ++ strs.drop (i + 1)) := by
  cases l with
  | none =>
      have hnil : strs = [] := h
      subst hnil
      exact absurd hvalid (Nat.not_lt_zero i)
  | some l =>
      have hlayout : Layout l (strs.take i ++ strs[i] :: strs.drop (i + 1)) := by
        rw [List.getElem_cons_drop, List.take_append_drop]
        exact h
      obtain ⟨l', herase, hlayout'⟩ := strlistErase_layout hlayout
      have hlength : (strs.take i).length = i := by
        rw [List.length_take]
        exact Nat.min_eq_left (Nat.le_of_lt hvalid)
      rw [hlength] at herase
      refine ⟨l', ?_, hlayout'⟩
      rw [strlistStep, strlistCall]
      dsimp only
      rw [herase]
      rfl

/-- **A string list** shows its strings in every state of a run exactly when each
`strlist_insert` finds a NUL behind the string that it copies. -/
theorem strlist_shows_iff_findsNul (ops : List StrlistOp)
    (hvalid : Run.Meets strlistStep ValidCall (none, []) ops) :
    Run.EveryState strlistStep (fun s => ShowsStrings s.1 s.2) (none, []) ops ↔
      Run.Meets strlistStep FindsNul (none, []) ops := by
  have hshows (s : StrlistState) (hs : Stored s.1 s.2) : ShowsStrings s.1 s.2 := hs.shows
  have hbegin : Stored (none : Option Strlist) [] := rfl
  refine Run.everyState_iff_meets_of_inv hshows ?_ ?_ hbegin hvalid
  · rintro ⟨l, strs⟩ op hs hvalid hfinds
    cases op with
    | add str =>
        obtain ⟨l', hstep, hlayout⟩ := add_step hs hvalid
        exact ⟨_, hstep, hlayout⟩
    | insert i cstr =>
        obtain ⟨l', hstep, hlayout, -⟩ := insert_step hs hvalid
        exact ⟨_, hstep, hlayout hfinds⟩
    | erase i =>
        obtain ⟨l', hstep, hlayout⟩ := erase_step hs hvalid
        exact ⟨_, hstep, hlayout⟩
  · rintro ⟨l, strs⟩ op s' hs hvalid hstep hgood
    cases op with
    | add str => trivial
    | insert i cstr =>
        obtain ⟨l', hstep', -, honly⟩ := insert_step hs hvalid
        obtain rfl := Except.ok.inj (hstep'.symm.trans hstep)
        exact honly hgood
    | erase i => trivial

/-- A string is inserted before one of the same length, and this one is erased. -/
def orderlyOps : List StrlistOp :=
  [.add [97, 98, 99], .insert 0 [100, 101, 102], .add [103], .erase 1]

/-- Calls after which every string is followed by its NUL. -/
theorem strlist_shows_iff_findsNul_orderly :
    Run.EveryState strlistStep (fun s => ShowsStrings s.1 s.2) (none, []) orderlyOps :=
  (strlist_shows_iff_findsNul orderlyOps (by decide +kernel)).mpr (by decide +kernel)

/-- One byte is inserted before a string of three bytes. -/
def insertingOps : List StrlistOp :=
  [.add [97, 98, 99], .insert 0 [120]]

/-- The pointer to the first string denotes the rest of the other one, too. -/
theorem not_strlist_shows :
    Run.Meets strlistStep ValidCall (none, []) insertingOps ∧
      (Run.run strlistStep (none, []) insertingOps).map
        (fun s => s.1.map fun l => strlistCstr l 0) = .ok (some (.ok [120, 98, 97, 98, 99])) ∧
      ¬ Run.EveryState strlistStep (fun s => ShowsStrings s.1 s.2) (none, []) insertingOps := by
  have hread : (Run.run strlistStep (none, []) insertingOps).map
      (fun s => s.1.map fun l => strlistCstr l 0) = .ok (some (.ok [120, 98, 97, 98, 99])) := by
    decide +kernel
  have hstrs : (Run.run strlistStep (none, []) insertingOps).map Prod.snd =
      .ok [[120], [97, 98, 99]] := by decide +kernel
  refine ⟨by decide +kernel, hread, ?_⟩
  rintro ⟨-, s₁, hstep₁, -, ⟨l, strs⟩, hstep₂, hshows⟩
  have hrun : Run.run strlistStep (none, []) insertingOps = .ok (l, strs) := by
    rw [insertingOps, Run.run, hstep₁]
    dsimp only
    rw [Run.run, hstep₂]
    rfl
  rw [hrun] at hread hstrs
  cases l with
  | none => cases hread
  | some l =>
      have hcstr : strlistCstr l 0 = .ok [120, 98, 97, 98, 99] :=
        Option.some.inj (Except.ok.inj hread)
      obtain rfl : strs = [[120], [97, 98, 99]] := Except.ok.inj hstrs
      have hfirst : strlistCstr l 0 = .ok [120] := hshows.cstrs 0 [120] rfl (by decide)
      rw [hfirst] at hcstr
      cases hcstr

end Clither
