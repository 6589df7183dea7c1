import Propd.Core.Types
import Propd.Lib.Overwrite

/-!
# Buffers

Reads and writes of an object that look whether they hit it. A function that is written with them
and does not end with a fault stays inside of the objects it was given.
-/

namespace Propd

open Lib

variable {α : Type*}

/-- `*(buf + i)` -/
def loadAt (buf : List α) (i : ℕ) : Except Fault α :=
  match buf[i]? with
  | some x => .ok x
  | none => .error .outOfBounds

/-- `*(buf + i) = x` -/
def storeAt (buf : List α) (i : ℕ) (x : α) : Except Fault (List α) :=
  if i < buf.length then .ok (buf.set i x) else .error .outOfBounds

/-- One cell after the other: `memset`, `memcpy`, or a loop of `*ptr++ = x`. -/
def storeAll (buf : List α) (i : ℕ) : List α → Except Fault (List α)
  | [] => .ok buf
  | x :: xs => do storeAll (← storeAt buf i x) (i + 1) xs

theorem loadAt_ok {buf : List α} {i : ℕ} {x : α} (h : buf[i]? = some x) : loadAt buf i = .ok x := by
  rw [loadAt, h]

theorem storeAt_ok {buf : List α} {i : ℕ} (h : i < buf.length) (x : α) :
    storeAt buf i x = .ok (buf.set i x) :=
  if_pos h

/-- **Cells that are all there are overwritten.** -/
theorem storeAll_ok {buf xs : List α} {i : ℕ} (h : i + xs.length ≤ buf.length) :
    storeAll buf i xs = .ok (overwrite buf i xs) := by
  induction xs generalizing buf i with
  | nil => rw [storeAll, overwrite_nil]
  | cons x xs ih =>
    rw [List.length_cons] at h
    have hlt : i < buf.length := by omega
    have hrest : i + 1 + xs.length ≤ (buf.set i x).length := by
      rw [List.length_set]
      omega
    rw [storeAll, storeAt_ok hlt, overwrite_cons x hlt, ← ih hrest]
    rfl

end Propd
