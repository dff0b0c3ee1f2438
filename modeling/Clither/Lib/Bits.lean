import Mathlib.Data.List.Basic
import Mathlib.Data.Nat.Bitwise
import Mathlib.Tactic.IntervalCases

/-!
# Bits in a byte buffer

Bits are written into a buffer of bytes one after the other, the least
significant bit of a byte first.  A position is the number of bits before it:
bit `k % 8` of byte `k / 8`.

`Reads bytes k bits` says that the bits from position `k` on are `bits`.  What
`writeAll` has written can be read (`reads_writeAll`), and what lies before it is
left alone.
-/

namespace Bits

/-- Set or clear a bit of a byte. -/
def putBit (v : UInt8) (i : Nat) (b : Bool) : UInt8 :=
  if b then v ||| (1 <<< UInt8.ofNat i) else v &&& ~~~(1 <<< UInt8.ofNat i)

/-- Test a bit of a byte. -/
def getBit (v : UInt8) (i : Nat) : Bool :=
  decide (v &&& (1 <<< UInt8.ofNat i) ≠ 0)

def bitAt (bytes : List UInt8) (k : Nat) : Bool :=
  getBit (bytes.getD (k / 8) 0) (k % 8)

def write (bytes : List UInt8) (k : Nat) (b : Bool) : List UInt8 :=
  bytes.set (k / 8) (putBit (bytes.getD (k / 8) 0) (k % 8) b)

/-- Write several bits from position `k` on. -/
def writeAll : List UInt8 → Nat → List Bool → List UInt8
  | bytes, _, [] => bytes
  | bytes, k, b :: bs => writeAll (write bytes k b) (k + 1) bs

/-- The bits from position `k` on. -/
def Reads (bytes : List UInt8) : Nat → List Bool → Prop
  | _, [] => True
  | k, b :: bs => bitAt bytes k = b ∧ Reads bytes (k + 1) bs

/-! ## One byte -/

/-- One shifted by `i` is the power of two. -/
theorem toNat_one_shiftLeft {i : Nat} (hi : i < 8) :
    ((1 : UInt8) <<< UInt8.ofNat i).toNat = 2 ^ i := by
  interval_cases i <;> rfl

/-- A bit of the byte is the bit of the number. -/
theorem getBit_eq_testBit (v : UInt8) {i : Nat} (hi : i < 8) :
    getBit v i = v.toNat.testBit i := by
  have hand : (v &&& (1 <<< UInt8.ofNat i)).toNat = (v.toNat.testBit i).toNat * 2 ^ i := by
    rw [UInt8.toNat_and, toNat_one_shiftLeft hi, Nat.and_two_pow]
  simp only [getBit, ne_eq, ← UInt8.toNat_inj, hand]
  cases v.toNat.testBit i <;> simp

/-- Putting a bit changes that bit of the number only. -/
theorem testBit_putBit (v : UInt8) {i j : Nat} (b : Bool) (hi : i < 8) (hj : j < 8) :
    (putBit v i b).toNat.testBit j = if j = i then b else v.toNat.testBit j := by
  have hone : ((1 : UInt8) <<< UInt8.ofNat i).toBitVec.getLsbD j = decide (i = j) := by
    rw [BitVec.getLsbD, UInt8.toNat_toBitVec, toNat_one_shiftLeft hi, Nat.testBit_two_pow]
  show (putBit v i b).toBitVec.getLsbD j = if j = i then b else v.toBitVec.getLsbD j
  cases b with
  | true =>
      rw [putBit, if_pos rfl, UInt8.toBitVec_or, BitVec.getLsbD_or, hone]
      by_cases h : j = i
      · simp [h]
      · simp [h, Ne.symm h]
  | false =>
      rw [putBit, if_neg (by decide), UInt8.toBitVec_and, UInt8.toBitVec_not, BitVec.getLsbD_and,
        BitVec.getLsbD_not, hone]
      by_cases h : j = i
      · simp [h]
      · simp [h, Ne.symm h, hj]

/-- Putting a bit changes that bit of the byte only. -/
theorem getBit_putBit (v : UInt8) {i j : Nat} (b : Bool) (hi : i < 8) (hj : j < 8) :
    getBit (putBit v i b) j = if j = i then b else getBit v j := by
  rw [getBit_eq_testBit _ hj, getBit_eq_testBit _ hj, testBit_putBit v b hi hj]

/-- A byte is its bits. -/
theorem eq_of_getBit_eq {v w : UInt8} (h : ∀ i, i < 8 → getBit v i = getBit w i) : v = w := by
  apply UInt8.toNat_inj.mp
  apply Nat.eq_of_testBit_eq
  intro i
  by_cases hi : i < 8
  · rw [← getBit_eq_testBit v hi, ← getBit_eq_testBit w hi, h i hi]
  · have hpow : 2 ^ 8 ≤ 2 ^ i := Nat.pow_le_pow_right (by decide) (by omega)
    have hv := v.toNat_lt
    have hw := w.toNat_lt
    rw [Nat.testBit_lt_two_pow (by omega), Nat.testBit_lt_two_pow (by omega)]

/-! ## The buffer -/

/-- Writing a bit keeps the length. -/
@[simp] theorem length_write (bytes : List UInt8) (k : Nat) (b : Bool) :
    (write bytes k b).length = bytes.length := by
  rw [write, List.length_set]

/-- Writing bits keeps the length. -/
@[simp] theorem length_writeAll (bytes : List UInt8) (k : Nat) (bs : List Bool) :
    (writeAll bytes k bs).length = bytes.length := by
  induction bs generalizing bytes k with
  | nil => rfl
  | cons b bs ih => rw [writeAll, ih, length_write]

/-- Writing a bit changes that bit only. -/
theorem bitAt_write {bytes : List UInt8} {k : Nat} (hk : k < 8 * bytes.length) (b : Bool) (j : Nat) :
    bitAt (write bytes k b) j = if j = k then b else bitAt bytes j := by
  by_cases hbyte : j / 8 = k / 8
  · have hget : (write bytes k b).getD (j / 8) 0 = putBit (bytes.getD (k / 8) 0) (k % 8) b := by
      rw [write, hbyte, List.getD_eq_getElem?_getD, List.getElem?_set_self (by omega)]
      rfl
    rw [bitAt, hget, getBit_putBit _ _ (by omega) (by omega), bitAt, hbyte]
    by_cases h : j = k
    · rw [if_pos h, if_pos (by rw [h])]
    · rw [if_neg h, if_neg (by omega)]
  · have hget : (write bytes k b).getD (j / 8) 0 = bytes.getD (j / 8) 0 := by
      rw [write, List.getD_eq_getElem?_getD, List.getElem?_set_ne (Ne.symm hbyte),
        List.getD_eq_getElem?_getD]
    rw [bitAt, hget, if_neg (fun h => hbyte (by rw [h])), bitAt]

/-- Bits may be written in two parts. -/
theorem writeAll_append (bytes : List UInt8) (k : Nat) (xs ys : List Bool) :
    writeAll bytes k (xs ++ ys) = writeAll (writeAll bytes k xs) (k + xs.length) ys := by
  induction xs generalizing bytes k with
  | nil => rfl
  | cons x xs ih =>
      rw [List.cons_append, writeAll, writeAll, ih, List.length_cons, Nat.add_assoc k 1,
        Nat.add_comm 1]

/-- Bits before the position are left alone. -/
theorem bitAt_writeAll {bytes : List UInt8} {k : Nat} {bs : List Bool}
    (hk : k + bs.length ≤ 8 * bytes.length) {j : Nat} (hj : j < k) :
    bitAt (writeAll bytes k bs) j = bitAt bytes j := by
  induction bs generalizing bytes k with
  | nil => rfl
  | cons b bs ih =>
      rw [List.length_cons] at hk
      rw [writeAll, ih (by rw [length_write]; omega) (by omega), bitAt_write (by omega),
        if_neg (by omega)]

/-- Bytes before that of the position are left alone. -/
theorem getD_writeAll (bytes : List UInt8) {k : Nat} (bs : List Bool) {i : Nat} (hi : i < k / 8) :
    (writeAll bytes k bs).getD i 0 = bytes.getD i 0 := by
  induction bs generalizing bytes k with
  | nil => rfl
  | cons b bs ih =>
      have hnext : i < (k + 1) / 8 := lt_of_lt_of_le hi (Nat.div_le_div_right (Nat.le_succ k))
      rw [writeAll, ih _ hnext, write, List.getD_eq_getElem?_getD, List.getElem?_set_ne (by omega),
        List.getD_eq_getElem?_getD]

/-- **What has been written can be read.** -/
theorem reads_writeAll {bytes : List UInt8} {k : Nat} {bs : List Bool}
    (hk : k + bs.length ≤ 8 * bytes.length) : Reads (writeAll bytes k bs) k bs := by
  induction bs generalizing bytes k with
  | nil => trivial
  | cons b bs ih =>
      rw [List.length_cons] at hk
      have hrest : k + 1 + bs.length ≤ 8 * (write bytes k b).length := by
        rw [length_write]
        omega
      refine ⟨?_, ih hrest⟩
      rw [writeAll, bitAt_writeAll hrest (by omega), bitAt_write (by omega), if_pos rfl]

/-- Bits may be read in two parts. -/
theorem reads_append {bytes : List UInt8} {k : Nat} {xs ys : List Bool} :
    Reads bytes k (xs ++ ys) ↔ Reads bytes k xs ∧ Reads bytes (k + xs.length) ys := by
  induction xs generalizing k with
  | nil => simp [Reads]
  | cons x xs ih =>
      simp only [List.cons_append, Reads, ih, List.length_cons, and_assoc]
      rw [Nat.add_right_comm, Nat.add_assoc]

/-- Reading looks at the bytes that hold the bits only. -/
theorem Reads.congr {bytes bytes' : List UInt8} {k : Nat} {bs : List Bool} (h : Reads bytes k bs)
    (heq : ∀ i, 8 * i < k + bs.length → bytes'.getD i 0 = bytes.getD i 0) : Reads bytes' k bs := by
  induction bs generalizing k with
  | nil => trivial
  | cons b bs ih =>
      rw [List.length_cons] at heq
      refine ⟨?_, ih h.2 (fun i hi => heq i (by omega))⟩
      rw [bitAt, heq _ (by omega)]
      exact h.1

/-! ## Whole bytes -/

/-- Write several bytes from byte `i` on. -/
def writeBytes : List UInt8 → Nat → List UInt8 → List UInt8
  | bytes, _, [] => bytes
  | bytes, i, v :: vs => writeBytes (bytes.set i v) (i + 1) vs

/-- Writing bytes keeps the length. -/
@[simp] theorem length_writeBytes (bytes : List UInt8) (i : Nat) (vs : List UInt8) :
    (writeBytes bytes i vs).length = bytes.length := by
  induction vs generalizing bytes i with
  | nil => rfl
  | cons v vs ih => rw [writeBytes, ih, List.length_set]

/-- Bytes before the position are left alone. -/
theorem getD_writeBytes_of_lt (bytes : List UInt8) {i : Nat} (vs : List UInt8) {j : Nat}
    (hj : j < i) : (writeBytes bytes i vs).getD j 0 = bytes.getD j 0 := by
  induction vs generalizing bytes i with
  | nil => rfl
  | cons v vs ih =>
      rw [writeBytes, ih _ (by omega), List.getD_eq_getElem?_getD, List.getElem?_set_ne (by omega),
        List.getD_eq_getElem?_getD]

/-- The bytes written are there. -/
theorem getElem?_writeBytes {bytes : List UInt8} {i : Nat} {vs : List UInt8}
    (hi : i + vs.length ≤ bytes.length) {j : Nat} (hj : j < vs.length) :
    (writeBytes bytes i vs)[i + j]? = vs[j]? := by
  induction vs generalizing bytes i j with
  | nil => cases hj
  | cons v vs ih =>
      rw [List.length_cons] at hi hj
      cases j with
      | zero =>
          have hkept := getD_writeBytes_of_lt (bytes.set i v) vs (Nat.lt_succ_self i)
          have hlt : i < (writeBytes (bytes.set i v) (i + 1) vs).length := by
            rw [length_writeBytes, List.length_set]
            omega
          rw [List.getD_eq_getElem?_getD, List.getD_eq_getElem?_getD,
            List.getElem?_set_self (by omega), List.getElem?_eq_getElem hlt] at hkept
          show (writeBytes (bytes.set i v) (i + 1) vs)[i]? = some v
          rw [List.getElem?_eq_getElem hlt]
          exact congrArg some hkept
      | succ j =>
          have := @ih (bytes.set i v) (i + 1) (by rw [List.length_set]; omega) j (by omega)
          rw [writeBytes, List.getElem?_cons_succ, ← this]
          congr 1
          omega

end Bits
