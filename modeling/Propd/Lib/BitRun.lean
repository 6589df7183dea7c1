import Mathlib.Algebra.Order.Ring.Nat
import Mathlib.Data.List.Basic

/-!
# Runs of ones

A bit field is a run of ones in a mask: `k` of them, from bit `s` on. Masking a number with a run
and shifting it down is division and remainder. The start of the run is its lowest bit, which
`lowestBit` searches for.
-/

namespace Propd.Lib

/-- `k` ones, the lowest of them at bit `s`. -/
def bitRun (s k : ℕ) : ℕ := (2 ^ k - 1) <<< s

theorem testBit_bitRun (s k i : ℕ) : (bitRun s k).testBit i = decide (s ≤ i ∧ i < s + k) := by
  rw [bitRun, Nat.testBit_shiftLeft, Nat.testBit_two_pow_sub_one, ← Bool.decide_and]
  refine decide_eq_decide.mpr ?_
  omega

theorem bitRun_lt (s k : ℕ) : bitRun s k < 2 ^ (s + k) := by
  have hk : 0 < 2 ^ k := Nat.two_pow_pos k
  rw [bitRun, Nat.shiftLeft_eq, Nat.pow_add, Nat.mul_comm]
  exact Nat.mul_lt_mul_of_pos_left (by omega) (Nat.two_pow_pos s)

/-- The run moved to bit 0. -/
theorem bitRun_shiftRight (s k : ℕ) : bitRun s k >>> s = 2 ^ k - 1 := by
  rw [bitRun, Nat.shiftLeft_shiftRight]

/-- The upper part of a run that starts at bit 0. -/
theorem two_pow_sub_one_shiftRight (k j : ℕ) : (2 ^ k - 1) >>> j = 2 ^ (k - j) - 1 := by
  refine Nat.eq_of_testBit_eq fun i => ?_
  rw [Nat.testBit_shiftRight, Nat.testBit_two_pow_sub_one, Nat.testBit_two_pow_sub_one]
  refine decide_eq_decide.mpr ?_
  omega

/-- **The field of a run**: the bits of a number from `s` on, `k` of them. -/
theorem and_bitRun_shiftRight (x s k : ℕ) : (x &&& bitRun s k) >>> s = x / 2 ^ s % 2 ^ k := by
  rw [Nat.shiftRight_and_distrib, bitRun_shiftRight, Nat.and_two_pow_sub_one_eq_mod,
    Nat.shiftRight_eq_div_pow]

/-! ## The lowest bit -/

/-- The lowest of the `w` lower bits that is set. -/
def lowestBit (w n : ℕ) : Option ℕ :=
  (List.range w).find? n.testBit

theorem lowestBit_eq_some {w n i : ℕ} :
    lowestBit w n = some i ↔ n.testBit i = true ∧ i < w ∧ ∀ j < i, n.testBit j = false := by
  rw [lowestBit, List.find?_range_eq_some, List.mem_range]
  simp only [Bool.not_eq_true']

/-- Only zero has no bit. -/
theorem lowestBit_eq_none {w n : ℕ} (h : n < 2 ^ w) : lowestBit w n = none ↔ n = 0 := by
  rw [lowestBit, List.find?_range_eq_none]
  constructor
  · intro hnone
    refine Nat.eq_of_testBit_eq fun i => ?_
    rw [Nat.zero_testBit]
    rcases Nat.lt_or_ge i w with hi | hi
    · exact Bool.not_eq_true' _ ▸ hnone i hi
    · exact Nat.testBit_lt_two_pow (h.trans_le (Nat.pow_le_pow_right (by decide) hi))
  · rintro rfl i -
    rw [Nat.zero_testBit]
    rfl

/-- The lowest bit of a run is where it starts. -/
theorem lowestBit_bitRun {w s k : ℕ} (hk : 1 ≤ k) (hs : s < w) :
    lowestBit w (bitRun s k) = some s := by
  refine lowestBit_eq_some.mpr ⟨?_, hs, fun j hj => ?_⟩
  · rw [testBit_bitRun]
    exact decide_eq_true ⟨le_rfl, by omega⟩
  · rw [testBit_bitRun]
    exact decide_eq_false fun hin => absurd hin.1 (by omega)

end Propd.Lib
