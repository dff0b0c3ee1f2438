import Mathlib.Tactic.Ring
import Mathlib.Tactic.Linarith
import Mathlib.Data.Nat.ModEq
import Mathlib.Data.Nat.Prime.Basic
import Mathlib.Algebra.Group.Nat.Even
import Mathlib.Algebra.Ring.Parity
import Mathlib.Data.Fintype.EquivFin
import Mathlib.Data.Fintype.Card

/-!
# Triangular probing in a table whose size is a power of two

The probe sequence that starts at `h` and moves on by 1, 2, 3, … slots stands,
after `i` moves, at `h + i (i + 1) / 2` modulo the table size.  For a power of
two the first `size` probes are pairwise different, hence they visit every
slot of the table exactly once.

The reason is arithmetic: two probes `i < j` meet only if `2 * size` divides
`(j - i) * (i + j + 1)`.  One of the two factors is odd, so `2 * size` would
divide the other one, and both are positive and smaller than `2 * size`.
-/

namespace Probe

/-- The slot of probe number `i` in a table of `size` slots. -/
def slotAt (size h i : Nat) : Nat :=
  (h + i * (i + 1) / 2) % size

theorem slotAt_zero (size h : Nat) : slotAt size h 0 = h % size := by
  simp [slotAt]

/-- Moving on by `i + 1` slots is what the next probe does. -/
theorem slotAt_succ (size h i : Nat) :
    slotAt size h (i + 1) = (slotAt size h i + (i + 1)) % size := by
  have htri : (i + 1) * (i + 1 + 1) / 2 = i * (i + 1) / 2 + (i + 1) := by
    have : (i + 1) * (i + 1 + 1) = i * (i + 1) + (i + 1) * 2 := by ring
    rw [this, Nat.add_mul_div_right _ _ (by decide)]
  simp only [slotAt, htri, Nat.mod_add_mod, Nat.add_assoc]

theorem slotAt_lt {size : Nat} (hsize : 0 < size) (h i : Nat) :
    slotAt size h i < size :=
  Nat.mod_lt _ hsize

private theorem two_mul_triangle (i : Nat) : 2 * (i * (i + 1) / 2) = i * (i + 1) :=
  Nat.two_mul_div_two_of_even (Nat.even_mul_succ_self i)

/-- **No probe repeats.**  The first `2 ^ k` probes are pairwise different. -/
theorem slotAt_injective {k h i j : Nat} (hi : i < 2 ^ k) (hj : j < 2 ^ k)
    (heq : slotAt (2 ^ k) h i = slotAt (2 ^ k) h j) : i = j := by
  wlog hij : i ≤ j generalizing i j
  · exact (this hj hi heq.symm (by omega)).symm
  obtain ⟨d, rfl⟩ : ∃ d, j = i + d := ⟨j - i, by omega⟩
  have hmod : i * (i + 1) / 2 ≡ (i + d) * (i + d + 1) / 2 [MOD 2 ^ k] :=
    Nat.ModEq.add_left_cancel' h heq
  have hle : i * (i + 1) / 2 ≤ (i + d) * (i + d + 1) / 2 :=
    Nat.div_le_div_right (Nat.mul_le_mul (by omega) (by omega))
  have hdvd : 2 ^ k ∣ (i + d) * (i + d + 1) / 2 - i * (i + 1) / 2 :=
    (Nat.modEq_iff_dvd' hle).mp hmod
  have hdouble : 2 ^ (k + 1) ∣ d * (2 * i + d + 1) := by
    have h2 := Nat.mul_dvd_mul_left 2 hdvd
    rw [Nat.mul_sub, two_mul_triangle, two_mul_triangle] at h2
    have hsub : (i + d) * (i + d + 1) - i * (i + 1) = d * (2 * i + d + 1) := by
      have : (i + d) * (i + d + 1) = d * (2 * i + d + 1) + i * (i + 1) := by ring
      omega
    rwa [hsub, ← Nat.pow_succ'] at h2
  -- one of the two factors is odd, so the other one takes all the twos
  rcases Nat.even_or_odd d with heven | hodd
  · have hco : Nat.Coprime (2 ^ (k + 1)) (2 * i + d + 1) := by
      apply Nat.Coprime.pow_left
      rw [Nat.coprime_two_left]
      obtain ⟨r, rfl⟩ := heven
      exact ⟨i + r, by ring⟩
    have := Nat.eq_zero_of_dvd_of_lt (hco.dvd_of_dvd_mul_right hdouble)
      (by rw [Nat.pow_succ]; omega)
    omega
  · have hco : Nat.Coprime (2 ^ (k + 1)) d := by
      apply Nat.Coprime.pow_left
      rwa [Nat.coprime_two_left]
    have := Nat.eq_zero_of_dvd_of_lt (hco.dvd_of_dvd_mul_left hdouble)
      (by rw [Nat.pow_succ]; omega)
    omega

/-- **Every slot is probed.**  Each slot of a table of `2 ^ k` slots is the slot
of one of the first `2 ^ k` probes. -/
theorem exists_slotAt_eq {k s : Nat} (h : Nat) (hs : s < 2 ^ k) :
    ∃ i, i < 2 ^ k ∧ slotAt (2 ^ k) h i = s := by
  have hpos : 0 < 2 ^ k := Nat.two_pow_pos k
  let f : Fin (2 ^ k) → Fin (2 ^ k) := fun i => ⟨slotAt (2 ^ k) h i, slotAt_lt hpos h i⟩
  have hinj : Function.Injective f := by
    intro i j hij
    exact Fin.ext (slotAt_injective i.isLt j.isLt (Fin.mk.inj hij))
  obtain ⟨i, hi⟩ := (Finite.injective_iff_surjective.mp hinj) ⟨s, hs⟩
  exact ⟨i, i.isLt, Fin.mk.inj hi⟩

end Probe
