import Mathlib.Data.List.Induction
import Mathlib.Data.Nat.Digits.Defs
import Mathlib.Tactic.Common

/-!
# Decimal numerals

A numeral is the text of a number in ASCII.  `value` reads a text of digits from the left,
as a converter does, and `numeral` is what `%d` prints for a natural number.
-/

namespace Decimal

def isDigit (c : UInt8) : Bool :=
  decide (48 ≤ c ∧ c ≤ 57)

def digit (c : UInt8) : Nat :=
  c.toNat - 48

/-- The number that a text of digits denotes. -/
def value (text : List UInt8) : Nat :=
  text.foldl (fun v c => v * 10 + digit c) 0

def numeral (n : Nat) : List UInt8 :=
  if n = 0 then [48] else (Nat.digits 10 n).reverse.map fun d => UInt8.ofNat (48 + d)

@[simp] theorem value_nil : value [] = 0 := rfl

theorem value_concat (text : List UInt8) (c : UInt8) : value (text ++ [c]) = value text * 10 + digit c := by
  rw [value, List.foldl_append]
  rfl

theorem isDigit_ofNat {d : Nat} (h : d < 10) : isDigit (UInt8.ofNat (48 + d)) = true := by
  have : ∀ d < 10, isDigit (UInt8.ofNat (48 + d)) = true := by decide
  exact this d h

theorem digit_ofNat {d : Nat} (h : d < 10) : digit (UInt8.ofNat (48 + d)) = d := by
  have : ∀ d < 10, digit (UInt8.ofNat (48 + d)) = d := by decide
  exact this d h

theorem numeral_ne_nil (n : Nat) : numeral n ≠ [] := by
  unfold numeral
  by_cases hn : n = 0
  · rw [if_pos hn]
    exact List.cons_ne_nil _ _
  · rw [if_neg hn, Ne, List.map_eq_nil_iff, List.reverse_eq_nil_iff]
    exact Nat.digits_ne_nil_iff_ne_zero.mpr hn

theorem isDigit_of_mem_numeral {n : Nat} {c : UInt8} (h : c ∈ numeral n) : isDigit c = true := by
  unfold numeral at h
  by_cases hn : n = 0
  · rw [if_pos hn, List.mem_singleton] at h
    rw [h]
    decide
  · rw [if_neg hn, List.mem_map] at h
    obtain ⟨d, hd, rfl⟩ := h
    exact isDigit_ofNat (Nat.digits_lt_base (by decide) (List.mem_reverse.mp hd))

/-- **Round trip.** -/
theorem value_numeral (n : Nat) : value (numeral n) = n := by
  have hdigits (ds : List Nat) (hds : ∀ d ∈ ds, d < 10) :
      value (ds.reverse.map fun d => UInt8.ofNat (48 + d)) = Nat.ofDigits 10 ds := by
    induction ds with
    | nil => rfl
    | cons d ds ih =>
        rw [List.reverse_cons, List.map_append, List.map_singleton, value_concat,
          ih fun d hd => hds d (List.mem_cons_of_mem _ hd), digit_ofNat (hds d List.mem_cons_self),
          Nat.ofDigits_cons]
        omega
  unfold numeral
  by_cases hn : n = 0
  · rw [if_pos hn, hn]
    rfl
  · rw [if_neg hn, hdigits _ fun d hd => Nat.digits_lt_base (by decide) hd, Nat.ofDigits_digits]

end Decimal
