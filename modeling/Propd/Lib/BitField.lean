import Propd.Lib.Bytes
import Propd.Lib.Overwrite

/-!
# Bit fields

A number as a row of bits, and the field of `w` bits from bit `lo` on: reading it, replacing it,
and the laws that a row of fields has. What is written is what is read; writes to two fields that
have no bit in common commute; a field of a field is a field.

Bytes are such a row, the bits of the first byte before those of the second.
-/

namespace Propd.Lib

/-- The `w` bits of `x` from bit `lo` on. -/
def getField (lo w x : ℕ) : ℕ := x / 2 ^ lo % 2 ^ w

/-- `x` with the low `w` bits of `v` from bit `lo` on. -/
def setField (lo w v x : ℕ) : ℕ :=
  x % 2 ^ lo + 2 ^ lo * (v % 2 ^ w + 2 ^ w * (x / 2 ^ (lo + w)))

theorem testBit_getField (lo w x i : ℕ) :
    (getField lo w x).testBit i = (decide (i < w) && x.testBit (lo + i)) := by
  rw [getField, Nat.testBit_mod_two_pow, Nat.testBit_div_two_pow, Nat.add_comm i lo]

theorem getField_lt (lo w x : ℕ) : getField lo w x < 2 ^ w :=
  Nat.mod_lt _ (Nat.two_pow_pos w)

/-- **A write, bit by bit.** -/
theorem testBit_setField (lo w v x i : ℕ) :
    (setField lo w v x).testBit i =
      if lo ≤ i ∧ i < lo + w then v.testBit (i - lo) else x.testBit i := by
  have hlow : x % 2 ^ lo < 2 ^ lo := Nat.mod_lt _ (Nat.two_pow_pos lo)
  have hval : v % 2 ^ w < 2 ^ w := Nat.mod_lt _ (Nat.two_pow_pos w)
  rw [setField, Nat.add_comm, Nat.testBit_two_pow_mul_add _ hlow]
  by_cases hi : i < lo
  · -- below the field
    rw [if_pos hi, if_neg (by omega), Nat.testBit_mod_two_pow, decide_eq_true hi, Bool.true_and]
  · rw [if_neg hi, Nat.add_comm, Nat.testBit_two_pow_mul_add _ hval]
    by_cases hw : i < lo + w
    · -- in the field
      rw [if_pos (by omega), if_pos ⟨by omega, hw⟩, Nat.testBit_mod_two_pow,
        decide_eq_true (by omega), Bool.true_and]
    · -- above it
      rw [if_neg (by omega), if_neg (by omega), Nat.testBit_div_two_pow]
      congr 1
      omega

/-! ## Laws -/

/-- **What was written is read.** -/
theorem getField_setField {w v : ℕ} (h : v < 2 ^ w) (lo x : ℕ) :
    getField lo w (setField lo w v x) = v := by
  refine Nat.eq_of_testBit_eq fun i => ?_
  rw [testBit_getField, testBit_setField]
  by_cases hi : i < w
  · rw [if_pos ⟨by omega, by omega⟩, decide_eq_true hi, Bool.true_and, Nat.add_sub_cancel_left]
  · have hv : v < 2 ^ i := h.trans_le (Nat.pow_le_pow_right (by decide) (by omega))
    rw [decide_eq_false hi, Bool.false_and, Nat.testBit_lt_two_pow hv]

section Disjoint

variable {lo w lo' w' : ℕ}

/-- **Writes to two fields commute.** -/
theorem setField_comm (h : lo + w ≤ lo' ∨ lo' + w' ≤ lo) (v v' x : ℕ) :
    setField lo w v (setField lo' w' v' x) = setField lo' w' v' (setField lo w v x) := by
  refine Nat.eq_of_testBit_eq fun i => ?_
  simp only [testBit_setField]
  -- no bit is in both
  by_cases hin : lo ≤ i ∧ i < lo + w
  · rw [if_pos hin, if_neg (by omega)]
    exact (if_pos hin).symm
  · rw [if_neg hin]
    by_cases hin' : lo' ≤ i ∧ i < lo' + w'
    · rw [if_pos hin', if_pos hin']
    · rw [if_neg hin', if_neg hin', if_neg hin]

end Disjoint

section Nested

variable {lo w s k : ℕ}

/-- A field of a field. -/
theorem getField_getField (h : s + k ≤ w) (x : ℕ) :
    getField s k (getField lo w x) = getField (lo + s) k x := by
  refine Nat.eq_of_testBit_eq fun i => ?_
  rw [testBit_getField, testBit_getField, testBit_getField, ← Nat.add_assoc]
  by_cases hi : i < k
  · rw [decide_eq_true (show s + i < w by omega), Bool.true_and]
  · rw [decide_eq_false hi, Bool.false_and, Bool.false_and]

/-- **To write a field of a field, read the outer one, and write it back.** -/
theorem setField_setField (h : s + k ≤ w) (v x : ℕ) :
    setField lo w (setField s k v (getField lo w x)) x = setField (lo + s) k v x := by
  refine Nat.eq_of_testBit_eq fun i => ?_
  rw [testBit_setField, testBit_setField, testBit_setField, testBit_getField]
  by_cases hout : lo ≤ i ∧ i < lo + w
  · rw [if_pos hout]
    by_cases hin : s ≤ i - lo ∧ i - lo < s + k
    · rw [if_pos hin, if_pos ⟨by omega, by omega⟩, Nat.sub_sub]
    · -- what is written back is what was read
      rw [if_neg hin, if_neg (by omega), decide_eq_true (show i - lo < w by omega), Bool.true_and,
        Nat.add_sub_cancel' hout.1]
  · rw [if_neg hout, if_neg (by omega)]

end Nested

/-- A write stays below every power of two that the field is below. -/
theorem setField_lt {lo w n x : ℕ} (hx : x < 2 ^ n) (h : lo + w ≤ n) (v : ℕ) :
    setField lo w v x < 2 ^ n := by
  refine Nat.lt_pow_two_of_testBit _ fun i hi => ?_
  rw [testBit_setField, if_neg (by omega)]
  exact Nat.testBit_lt_two_pow (hx.trans_le (Nat.pow_le_pow_right (by decide) hi))

/-! ## Bytes -/

/-- Bit `i` of bytes. -/
def bitAt (bs : List UInt8) (i : ℕ) : Bool :=
  ((bs[i / 8]?).getD 0).toNat.testBit (i % 8)

theorem two_pow_mul_eight (n : ℕ) : 2 ^ (8 * n) = 256 ^ n := by
  rw [show (256 : ℕ) = 2 ^ 8 from rfl, ← Nat.pow_mul]

/-- A bit of bytes is the bit of the number that they spell. -/
theorem bitAt_eq_testBit (bs : List UInt8) (i : ℕ) : bitAt bs i = (ofLE bs).testBit i := by
  induction bs generalizing i with
  | nil => exact (Nat.zero_testBit _).trans (Nat.zero_testBit _).symm
  | cons b bs ih =>
    have hb : b.toNat < 2 ^ 8 := b.toNat_lt
    rw [ofLE, Nat.add_comm, show (256 : ℕ) = 2 ^ 8 from rfl, Nat.testBit_two_pow_mul_add _ hb]
    by_cases hi : i < 8
    · rw [if_pos hi, bitAt, Nat.div_eq_of_lt hi, Nat.mod_eq_of_lt hi]
      rfl
    · -- the first byte is behind
      obtain ⟨j, rfl⟩ := Nat.exists_eq_add_of_le' (Nat.le_of_not_lt hi)
      rw [if_neg hi, Nat.add_sub_cancel, ← ih, bitAt, bitAt, Nat.add_div_right j (by decide),
        Nat.add_mod_right, List.getElem?_cons_succ]

/-- Some of the bytes are a field of the number. -/
theorem ofLE_take_drop (bs : List UInt8) (off len : ℕ) :
    ofLE ((bs.drop off).take len) = getField (8 * off) (8 * len) (ofLE bs) := by
  rw [getField, two_pow_mul_eight, two_pow_mul_eight, ofLE_take, ofLE_drop]

/-- **Bytes put in place of others are a field that is written.** -/
theorem ofLE_overwrite {bs : List UInt8} {off : ℕ} (new : List UInt8)
    (h : off + new.length ≤ bs.length) :
    ofLE (overwrite bs off new) =
      setField (8 * off) (8 * new.length) (ofLE new) (ofLE bs) := by
  have hoff : (bs.take off).length = off := List.length_take_of_le (by omega)
  have hnew : ofLE new % 256 ^ new.length = ofLE new := Nat.mod_eq_of_lt (ofLE_lt new)
  rw [overwrite, List.append_assoc, ofLE_append, ofLE_append, hoff, ofLE_take, ofLE_drop, setField,
    ← Nat.mul_add, two_pow_mul_eight, two_pow_mul_eight, two_pow_mul_eight, hnew]

end Propd.Lib
