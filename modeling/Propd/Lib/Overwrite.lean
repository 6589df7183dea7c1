import Mathlib.Data.List.Basic

/-!
# Overwriting a part of a list

An object in memory is a list of cells, and a write to it replaces a run of them. A run that is
written cell by cell, or part by part, is written as a whole.
-/

namespace Propd.Lib

variable {α : Type*} {base new : List α} {i : ℕ}

/-- `base` with the cells from `i` on replaced by those of `new`. -/
def overwrite (base : List α) (i : ℕ) (new : List α) : List α :=
  base.take i ++ new ++ base.drop (i + new.length)

/-- A run that lies in the object does not change its size. -/
theorem length_overwrite (h : i + new.length ≤ base.length) :
    (overwrite base i new).length = base.length := by
  rw [overwrite, List.length_append, List.length_append, List.length_take, List.length_drop]
  omega

@[simp] theorem overwrite_nil (base : List α) (i : ℕ) : overwrite base i [] = base := by
  rw [overwrite, List.append_nil, List.length_nil, Nat.add_zero, List.take_append_drop]

/-- From the first cell on, only what lies behind the run is left. -/
theorem overwrite_zero (base new : List α) :
    overwrite base 0 new = new ++ base.drop new.length := by
  rw [overwrite, List.take_zero, List.nil_append, Nat.zero_add]

theorem drop_overwrite {j : ℕ} (hj : i + new.length ≤ j) (h : j ≤ base.length) :
    (overwrite base i new).drop j = base.drop j := by
  have hlen : (base.take i ++ new).length = i + new.length := by
    rw [List.length_append, List.length_take]
    omega
  rw [overwrite, List.drop_append, hlen, List.drop_drop, List.drop_of_length_le (by omega),
    List.nil_append, Nat.add_sub_cancel' hj]

/-- **A run is written cell by cell.** -/
theorem overwrite_cons (x : α) (h : i < base.length) :
    overwrite base i (x :: new) = overwrite (base.set i x) (i + 1) new := by
  have htake : (base.set i x).take (i + 1) = base.take i ++ [x] := by
    rw [List.set_eq_take_append_cons_drop, if_pos h, List.take_append, List.take_take,
      List.length_take, Nat.min_eq_right (Nat.le_succ i), Nat.min_eq_left (Nat.le_of_lt h),
      Nat.add_sub_cancel_left]
    rfl
  have hdrop : (base.set i x).drop (i + 1 + new.length) = base.drop (i + 1 + new.length) :=
    List.drop_set_of_lt (by omega)
  have hend : i + 1 + new.length = i + (x :: new).length := by
    rw [List.length_cons, Nat.add_assoc, Nat.add_comm 1]
  rw [overwrite, overwrite, htake, hdrop, hend, List.append_assoc _ [x] new]
  rfl

/-- **Or part by part.** -/
theorem overwrite_append (first rest : List α) (h : i + first.length ≤ base.length) :
    overwrite base i (first ++ rest) =
      overwrite (overwrite base i first) (i + first.length) rest := by
  induction first generalizing base i with
  | nil => rw [overwrite_nil, List.nil_append, List.length_nil, Nat.add_zero]
  | cons x first ih =>
    have hlt : i < base.length := by
      rw [List.length_cons] at h
      omega
    have hrest : i + 1 + first.length ≤ (base.set i x).length := by
      rw [List.length_set]
      rw [List.length_cons] at h
      omega
    rw [List.cons_append, overwrite_cons x hlt, ih hrest, overwrite_cons x hlt, List.length_cons,
      Nat.add_assoc i, Nat.add_comm 1]

end Propd.Lib
