import Mathlib.Tactic.Ring
import Mathlib.Tactic.Linarith

/-!
# Wrapped frame numbers

Frame numbers are 16-bit counters that wrap around.  Two of them are compared
by the sign of the shorter way round the circle.  Everything the rest of the
development needs is `u16GtWrap_add` and its companions: from a common base
`b`, the frames `b + i` and `b + j` compare like `i` and `j` as long as `i` and
`j` are less than `2 ^ 15` apart.
-/

namespace Clither

def u16GtWrap (a b : UInt16) : Bool :=
  if (a.toNat : Int) - (b.toNat : Int) > 0x7FFF then false
  else if (a.toNat : Int) - (b.toNat : Int) < -0x7FFF then true
  else decide (a.toNat > b.toNat)

def u16GeWrap (a b : UInt16) : Bool :=
  if (a.toNat : Int) - (b.toNat : Int) > 0x7FFF then false
  else if (a.toNat : Int) - (b.toNat : Int) < -0x7FFF then true
  else decide (a.toNat ≥ b.toNat)

def u16LtWrap (a b : UInt16) : Bool :=
  !u16GeWrap a b

def u16LeWrap (a b : UInt16) : Bool :=
  !u16GtWrap a b

/-- The signed difference, as an `int16_t`. -/
def u16SubWrap (a b : UInt16) : Int :=
  Int.bmod ((a.toNat : Int) - (b.toNat : Int)) (2 ^ 16)

/-- The frame `i` steps after `b`. -/
def frameAt (b : UInt16) (i : Nat) : UInt16 :=
  b + UInt16.ofNat i

/-- No frame on is the frame itself. -/
@[simp] theorem frameAt_zero (b : UInt16) : frameAt b 0 = b := by
  simp [frameAt]

/-- One more frame on is the next frame. -/
theorem frameAt_succ (b : UInt16) (i : Nat) : frameAt b (i + 1) = frameAt b i + 1 := by
  simp [frameAt, UInt16.add_assoc]

/-- Steps add up. -/
theorem frameAt_frameAt (b : UInt16) (i j : Nat) :
    frameAt (frameAt b i) j = frameAt b (i + j) := by
  simp [frameAt, UInt16.add_assoc]

/-- Frames are counted modulo 2¹⁶. -/
theorem toNat_frameAt (b : UInt16) (i : Nat) :
    (frameAt b i).toNat = (b.toNat + i) % 65536 := by
  simp [frameAt, UInt16.toNat_add]

/-- Frames from the same base that are less than a full turn apart are equal
only if they have the same distance from it. -/
theorem frameAt_inj {b : UInt16} {i j : Nat} (hi : i < j + 65536) (hj : j < i + 65536)
    (h : frameAt b i = frameAt b j) : i = j := by
  have := congrArg UInt16.toNat h
  rw [toNat_frameAt, toNat_frameAt] at this
  omega

/-- Every frame is at some distance below `2 ^ 16` from the base. -/
theorem exists_frameAt_eq (b f : UInt16) : ∃ i, i < 65536 ∧ f = frameAt b i := by
  have hb := b.toNat_lt
  have hf := f.toNat_lt
  refine ⟨(f.toNat + 65536 - b.toNat) % 65536, by omega, ?_⟩
  apply UInt16.toNat_inj.mp
  rw [toNat_frameAt]
  omega

/-- The distance to a frame fewer than 2¹⁶ steps on is the number of steps. -/
theorem sub_frameAt (b : UInt16) {n : Nat} (hn : n < 65536) : (frameAt b n - b).toNat = n := by
  have h := toNat_frameAt b n
  have hb := b.toNat_lt
  rw [UInt16.toNat_sub, h]
  omega

/-- Less than half a turn apart, `u16_ge_wrap` compares the steps. -/
theorem u16GeWrap_add {b : UInt16} {i j : Nat} (hi : i < j + 2 ^ 15) (hj : j < i + 2 ^ 15) :
    u16GeWrap (frameAt b i) (frameAt b j) = decide (j ≤ i) := by
  have hb := b.toNat_lt
  unfold u16GeWrap
  rw [toNat_frameAt, toNat_frameAt]
  split
  · exact (decide_eq_false (by omega)).symm
  · split
    · exact (decide_eq_true (by omega)).symm
    · rw [decide_eq_decide]
      omega

/-- So does `u16_gt_wrap`. -/
theorem u16GtWrap_add {b : UInt16} {i j : Nat} (hi : i < j + 2 ^ 15) (hj : j < i + 2 ^ 15) :
    u16GtWrap (frameAt b i) (frameAt b j) = decide (j < i) := by
  have hb := b.toNat_lt
  unfold u16GtWrap
  rw [toNat_frameAt, toNat_frameAt]
  split
  · exact (decide_eq_false (by omega)).symm
  · split
    · exact (decide_eq_true (by omega)).symm
    · rw [decide_eq_decide]
      omega

/-- So does `u16_lt_wrap`. -/
theorem u16LtWrap_add {b : UInt16} {i j : Nat} (hi : i < j + 2 ^ 15) (hj : j < i + 2 ^ 15) :
    u16LtWrap (frameAt b i) (frameAt b j) = decide (i < j) := by
  rw [u16LtWrap, u16GeWrap_add hi hj, ← decide_not, decide_eq_decide]
  omega

/-- So does `u16_le_wrap`. -/
theorem u16LeWrap_add {b : UInt16} {i j : Nat} (hi : i < j + 2 ^ 15) (hj : j < i + 2 ^ 15) :
    u16LeWrap (frameAt b i) (frameAt b j) = decide (i ≤ j) := by
  rw [u16LeWrap, u16GtWrap_add hi hj, ← decide_not, decide_eq_decide]
  omega

/-! ## Windows

A window of frames that is much shorter than half a turn, and a frame anywhere
on the circle. -/

/-- When `u16_ge_wrap` holds, as the code compares. -/
theorem u16GeWrap_iff {a b : UInt16} : u16GeWrap a b = true ↔
    a.toNat < b.toNat + 2 ^ 15 ∧ (a.toNat + 2 ^ 15 ≤ b.toNat ∨ b.toNat ≤ a.toNat) := by
  unfold u16GeWrap
  split
  · simp only [Bool.false_eq_true, false_iff]
    omega
  · split
    · simp only [true_iff]
      omega
    · rw [decide_eq_true_iff]
      omega

/-- When `u16_gt_wrap` holds, as the code compares. -/
theorem u16GtWrap_iff {a b : UInt16} : u16GtWrap a b = true ↔
    a.toNat < b.toNat + 2 ^ 15 ∧ (a.toNat + 2 ^ 15 ≤ b.toNat ∨ b.toNat < a.toNat) := by
  unfold u16GtWrap
  split
  · simp only [Bool.false_eq_true, false_iff]
    omega
  · split
    · simp only [true_iff]
      omega
    · rw [decide_eq_true_iff]
      omega

/-- The half-open window. -/
theorem u16Wrap_window (b : UInt16) {d n : Nat} (hd : d < 65536) (hn : n < 2 ^ 14) :
    (u16GeWrap (frameAt b d) b = true ∧ u16LtWrap (frameAt b d) (frameAt b n) = true) ↔ d < n := by
  have hb := b.toNat_lt
  rw [u16LtWrap, Bool.not_eq_true', ← Bool.not_eq_true, u16GeWrap_iff, u16GeWrap_iff,
    toNat_frameAt, toNat_frameAt]
  omega

/-- Outside of the closed window. -/
theorem u16Wrap_outside (b : UInt16) {d n : Nat} (hd : d < 65536) (hn : n < 2 ^ 14) (hpos : 0 < n) :
    (u16LtWrap (frameAt b d) b = true ∨ u16GtWrap (frameAt b d) (frameAt b n) = true) ↔ n < d := by
  have hb := b.toNat_lt
  rw [u16LtWrap, Bool.not_eq_true', ← Bool.not_eq_true, u16GeWrap_iff, u16GtWrap_iff,
    toNat_frameAt, toNat_frameAt]
  omega

/-! ## Counters

A counter that does not wrap, and its last sixteen bits. -/

/-- The wrapped numbers of two counters compare like the counters. -/
structure WrapAgrees (m n : Nat) : Prop where
  gt : u16GtWrap (UInt16.ofNat m) (UInt16.ofNat n) = true ↔ m > n
  ge : u16GeWrap (UInt16.ofNat m) (UInt16.ofNat n) = true ↔ m ≥ n
  lt : u16LtWrap (UInt16.ofNat m) (UInt16.ofNat n) = true ↔ m < n
  le : u16LeWrap (UInt16.ofNat m) (UInt16.ofNat n) = true ↔ m ≤ n
  sub : u16SubWrap (UInt16.ofNat m) (UInt16.ofNat n) = (m : Int) - n

/-- A counter is at the distance of its value from the frame 0. -/
theorem ofNat_eq_frameAt (m : Nat) : UInt16.ofNat m = frameAt 0 m := by
  rw [frameAt, UInt16.zero_add]

/-- The difference of two wrapped counters goes the shorter way round. -/
theorem u16SubWrap_ofNat {m n : Nat} (hm : m < n + 2 ^ 15) (hn : n < m + 2 ^ 15) :
    u16SubWrap (UInt16.ofNat m) (UInt16.ofNat n) = (m : Int) - n := by
  rw [u16SubWrap, UInt16.toNat_ofNat', UInt16.toNat_ofNat', Int.natCast_mod, Int.natCast_mod,
    Int.emod_sub_bmod, Int.sub_emod_bmod]
  exact Int.bmod_eq_of_le (by omega) (by omega)

/-- Less than half a turn apart, all the comparisons agree with the numbers. -/
theorem wrapAgrees {m n : Nat} (hm : m < n + 2 ^ 15) (hn : n < m + 2 ^ 15) : WrapAgrees m n where
  gt := by rw [ofNat_eq_frameAt, ofNat_eq_frameAt, u16GtWrap_add hm hn, decide_eq_true_iff]
  ge := by rw [ofNat_eq_frameAt, ofNat_eq_frameAt, u16GeWrap_add hm hn, decide_eq_true_iff]
  lt := by rw [ofNat_eq_frameAt, ofNat_eq_frameAt, u16LtWrap_add hm hn, decide_eq_true_iff]
  le := by rw [ofNat_eq_frameAt, ofNat_eq_frameAt, u16LeWrap_add hm hn, decide_eq_true_iff]
  sub := u16SubWrap_ofNat hm hn

/-- Of two frames one is the later one, also when they are half a turn apart. -/
theorem u16GtWrap_total {a b : UInt16} (h : a ≠ b) :
    Xor (u16GtWrap a b = true) (u16GtWrap b a = true) := by
  have hne : a.toNat ≠ b.toNat := fun heq => h (UInt16.toNat_inj.mp heq)
  have ha := a.toNat_lt
  have hb := b.toNat_lt
  rw [Xor, u16GtWrap_iff, u16GtWrap_iff]
  omega

/-- **Wrapped frame numbers compare like counters** that are less than half a turn apart, and
any two of them are ordered. -/
theorem u16Wrap_agrees :
    (∀ m n : Nat, |(m : Int) - n| < 2 ^ 15 → WrapAgrees m n) ∧
      ∀ a b : UInt16, a ≠ b → Xor (u16GtWrap a b = true) (u16GtWrap b a = true) := by
  refine ⟨?_, fun a b h => u16GtWrap_total h⟩
  intro m n h
  obtain ⟨hlow, hhigh⟩ := abs_lt.mp h
  exact wrapAgrees (by omega) (by omega)

/-- Across the wrap, and half a turn apart. -/
theorem u16Wrap_agrees_turn :
    WrapAgrees 65541 65530 ∧ Xor (u16GtWrap 0 32768 = true) (u16GtWrap 32768 0 = true) :=
  ⟨u16Wrap_agrees.1 65541 65530 (by decide), u16Wrap_agrees.2 0 32768 (by decide)⟩

end Clither
