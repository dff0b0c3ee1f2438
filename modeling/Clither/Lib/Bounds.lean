import Clither.Lib.Bits

/-!
# Checked access to a buffer

Loads and stores that fail with a fault of the caller's choice when they are
outside of the buffer, or outside of the part of it that the caller owns.  Code
that is written with them runs without that fault exactly if all of its accesses
are inside.
-/

namespace Bounds

variable {φ β : Type} (outside : φ)

/-- Read a cell of a buffer. -/
def load (buf : List β) (i : Nat) : Except φ β :=
  match buf[i]? with
  | some v => .ok v
  | none => .error outside

/-- Write one of the first `len` cells of a buffer. -/
def store (len : Nat) (buf : List β) (i : Nat) (v : β) : Except φ (List β) :=
  if i < len then .ok (buf.set i v) else .error outside

/-- Write several bits into the first `len` bytes of a buffer. -/
def storeBits (len : Nat) : List UInt8 → Nat → List Bool → Except φ (List UInt8)
  | buf, _, [] => .ok buf
  | buf, k, b :: bs =>
      match store outside len buf (k / 8) (Bits.putBit (buf.getD (k / 8) 0) (k % 8) b) with
      | .ok buf => storeBits len buf (k + 1) bs
      | .error f => .error f

/-- Write several bytes into the first `len` bytes of a buffer. -/
def storeBytes (len : Nat) : List UInt8 → Nat → List UInt8 → Except φ (List UInt8)
  | buf, _, [] => .ok buf
  | buf, i, v :: vs =>
      match store outside len buf i v with
      | .ok buf => storeBytes len buf (i + 1) vs
      | .error f => .error f

variable {outside}

theorem load_of_lt {buf : List β} {i : Nat} (d : β) (hi : i < buf.length) :
    load outside buf i = .ok (buf.getD i d) := by
  rw [load, List.getElem?_eq_getElem hi, List.getD_eq_getElem?_getD, List.getElem?_eq_getElem hi]
  rfl

theorem store_of_lt {len : Nat} {buf : List β} {i : Nat} (hi : i < len) (v : β) :
    store outside len buf i v = .ok (buf.set i v) :=
  if_pos hi

theorem storeBits_of_le {len : Nat} {buf : List UInt8} {k : Nat} {bs : List Bool}
    (hk : k + bs.length ≤ 8 * len) :
    storeBits outside len buf k bs = .ok (Bits.writeAll buf k bs) := by
  induction bs generalizing buf k with
  | nil => rfl
  | cons b bs ih =>
      rw [List.length_cons] at hk
      rw [storeBits, store_of_lt (by omega)]
      exact ih (by omega)

theorem storeBytes_of_le {len : Nat} {buf : List UInt8} {i : Nat} {vs : List UInt8}
    (hi : i + vs.length ≤ len) :
    storeBytes outside len buf i vs = .ok (Bits.writeBytes buf i vs) := by
  induction vs generalizing buf i with
  | nil => rfl
  | cons v vs ih =>
      rw [List.length_cons] at hi
      rw [storeBytes, store_of_lt (by omega)]
      exact ih (by omega)

end Bounds
