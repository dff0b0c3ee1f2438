import Clither.Lib.Faults
import Mathlib.Tactic.Ring
import Mathlib.Tactic.Linarith
import Mathlib.Data.Int.ModEq

/-!
# Allocation requests, fixed-width counters and faults

The containers of the program keep their counters and capacities in integers of
8, 16 or 32 bits and compute allocation sizes from them.  `wrapInt` is the
conversion to such an integer.  An allocator is a predicate on byte counts; a
count that has become negative reaches `malloc` as an enormous `size_t`, so
`granted` refuses it whatever the allocator does.

`Fault` lists the ways in which a function of the program fails to return: a
pointer that is null or no longer refers to a live object is dereferenced, or a
probe loop goes round for ever.
-/

namespace Clither

/-! ## Sizes -/

/-- The types that the containers hold, and the one of the tests. -/
inductive ElemType where
  | uint16
  | cmd
  | qwpos
  | bezierHandle
  | bezierPoint
  | qwaabb
  | pointer
  | resourceSnakePart
  | obj

/-- `sizeof`, where pointers have 64 bits. -/
def ElemType.size : ElemType → Nat
  | uint16 => 2
  | cmd => 4
  | qwpos => 8
  | bezierHandle => 12
  | bezierPoint => 16
  | qwaabb => 16
  | pointer => 8
  | resourceSnakePart => 56
  | obj => 12

theorem ElemType.size_pos (t : ElemType) : 0 < t.size := by
  cases t <;> decide

/-! ## Integers of a fixed width -/

/-- Conversion of `x` to a signed integer of `bits` bits. -/
def wrapInt (bits : Nat) (x : Int) : Int :=
  Int.bmod x (2 ^ bits)

/-- Wrapping keeps what is in range. -/
theorem wrapInt_of_range {bits : Nat} (hbits : 0 < bits) {x : Int} (hlow : -2 ^ (bits - 1) ≤ x)
    (hx : x < 2 ^ (bits - 1)) : wrapInt bits x = x := by
  obtain ⟨b, rfl⟩ : ∃ b, bits = b + 1 := ⟨bits - 1, by omega⟩
  simp only [Nat.add_sub_cancel] at hlow hx
  unfold wrapInt
  apply Int.bmod_eq_of_le <;> push_cast [pow_succ] <;> omega

/-- The same for numbers that are not negative. -/
theorem wrapInt_of_lt {bits : Nat} (hbits : 0 < bits) {x : Int} (h0 : 0 ≤ x)
    (hx : x < 2 ^ (bits - 1)) : wrapInt bits x = x := by
  have hpos : (0 : Int) < 2 ^ (bits - 1) := by positivity
  exact wrapInt_of_range hbits (by omega) hx

/-- The first power of two that does not fit becomes negative. -/
theorem wrapInt_two_pow_eq_neg {b : Nat} : wrapInt (b + 1) (2 ^ b) = -2 ^ b := by
  have hmod : ((2 : Int) ^ b) % ((2 ^ (b + 1) : Nat) : Int) = 2 ^ b := by
    apply Int.emod_eq_of_lt (by positivity)
    push_cast [pow_succ]
    have : (0 : Int) < 2 ^ b := by positivity
    omega
  unfold wrapInt Int.bmod
  rw [hmod]
  push_cast [pow_succ]
  have : (0 : Int) < 2 ^ b := by positivity
  rw [if_neg (by omega)]
  ring

/-- Which allocation requests succeed, by their size in bytes. -/
abbrev Alloc := Int → Bool

/-- The allocator that has memory for every request. -/
def Alloc.unlimited : Alloc := fun _ => true

/-- Whether a request of `bytes` bytes is granted.  A negative count is
converted to a `size_t` that no allocator can serve. -/
def granted (mem : Alloc) (bytes : Int) : Bool :=
  decide (0 ≤ bytes) && mem bytes

/-- A negative request is not granted. -/
theorem granted_eq_false_of_neg {mem : Alloc} {bytes : Int} (h : bytes < 0) :
    granted mem bytes = false := by
  simp [granted, Int.not_le.mpr h]

/-- A request that is granted is not negative. -/
theorem nonneg_of_granted {mem : Alloc} {bytes : Int} (h : granted mem bytes = true) :
    0 ≤ bytes := by
  simp only [granted, Bool.and_eq_true, decide_eq_true_eq] at h
  exact h.1

/-- The ways in which the modelled code fails to return. -/
inductive Fault where
  /-- The probe loop of `find_slot` never meets an unused slot. -/
  | probeLoop
  /-- `kvs_set_key` with the negative slot of a key that is already there. -/
  | slotTaken
  /-- An operation of a hash map that has never been allocated. -/
  | nullMap
  /-- A map whose old memory block has been given back by `mem_realloc`. -/
  | danglingMap
  /-- `client` is `NULL`. -/
  | nullClient
  /-- `client` points to a record that has been erased. -/
  | staleClient
  /-- `snake_bmap_find` returned `NULL`. -/
  | nullSnake
  /-- An element of an empty ring buffer or vector is read or removed, or an
  assertion that guards against it fails. -/
  | empty
  /-- `put`, `emplace` or `clear` of a ring buffer that has never been allocated. -/
  | nullBuffer
  /-- A ring buffer is resized to a capacity that is not larger, or that its index
  type cannot hold. -/
  | badCapacity
  /-- A cell outside of an allocated block is accessed, or one that was never
  written is read. -/
  | outOfBlock
  /-- The `NULL` of a failed `emplace` or `emplace_realloc` is written to. -/
  | nullSegment
  /-- A message turns out longer than the length it was allocated for. -/
  | overrun
  /-- A byte outside of the received payload is read. -/
  | overread
  /-- A function of the main loop returns an error, and the server stops. -/
  | stopped
  deriving DecidableEq, Repr

/-! ## Functions that may fail -/

@[simp] theorem ok_bind {β γ : Type} (b : β) (f : β → Except Fault γ) :
    ((Except.ok b : Except Fault β) >>= f) = f b := rfl

@[simp] theorem error_bind {β γ : Type} (e : Fault) (f : β → Except Fault γ) :
    ((Except.error e : Except Fault β) >>= f) = .error e := rfl

@[simp] theorem pure_eq_ok {β : Type} (b : β) : (pure b : Except Fault β) = .ok b := rfl

end Clither
