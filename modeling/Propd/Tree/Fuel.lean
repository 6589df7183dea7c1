import Propd.Lib.Fuel
import Propd.Tree.Model

/-!
# The fuel of the tree operations

More fuel changes nothing: what an operation does with enough of it is what the macros do.
-/

namespace Propd

open Lib

variable {α : Type} [DecidableEq α]

instance (fuel : ℕ) (parent elm : Option α) (child : Option (Option α)) :
    Extends .fuel (rbInsertColor fuel parent elm child) (rbInsertColor (fuel + 1) parent elm child) := by
  induction fuel generalizing parent elm child with
  | zero => exact .stop _
  | succ fuel ih =>
    rw [rbInsertColor, rbInsertColor]
    cases child <;> (dsimp only; infer_instance)

instance (fuel : ℕ) (parent : Option α) (l : RbLoc α) (a : α) :
    Extends .fuel (rbInsertFinish fuel parent l a) (rbInsertFinish (fuel + 1) parent l a) := by
  unfold rbInsertFinish
  infer_instance

instance (fuel : ℕ) (cmp : α → Except RbFault Ordering) (l : RbLoc α) (p : Option α) :
    Extends .fuel (rbDescend cmp fuel l p) (rbDescend cmp (fuel + 1) l p) := by
  induction fuel generalizing l p with
  | zero => exact .stop _
  | succ fuel ih =>
    rw [rbDescend, rbDescend]
    refine .andThen inferInstance fun w => .andThen inferInstance fun x => ?_
    cases x with
    | none => exact .refl _
    | some b =>
      refine .andThen inferInstance fun o => ?_
      cases o
      · exact ih _ _
      · exact .refl _
      · exact ih _ _

instance (fuel : ℕ) (cmp : α → Except RbFault Ordering) (a : α) :
    Extends .fuel (rbInsert fuel cmp a) (rbInsert (fuel + 1) cmp a) := by
  unfold rbInsert
  refine .andThen inferInstance fun x => ?_
  cases x <;> (dsimp only; infer_instance)

instance (fuel : ℕ) (parent elm : Option α) :
    Extends .fuel (rbRemoveColorLoop fuel parent elm) (rbRemoveColorLoop (fuel + 1) parent elm) := by
  induction fuel generalizing parent elm with
  | zero => exact .stop _
  | succ fuel ih =>
    rw [rbRemoveColorLoop, rbRemoveColorLoop]
    dsimp only
    infer_instance

instance (fuel : ℕ) (parent elm : Option α) :
    Extends .fuel (rbRemoveColor fuel parent elm) (rbRemoveColor (fuel + 1) parent elm) := by
  unfold rbRemoveColor
  infer_instance

instance (d : Dir) (fuel : ℕ) (p : Option α) :
    Extends .fuel (rbFarthest d fuel p) (rbFarthest d (fuel + 1) p) := by
  induction fuel generalizing p with
  | zero => exact .stop _
  | succ fuel ih =>
    rw [rbFarthest, rbFarthest]
    refine .andThen inferInstance fun x => ?_
    cases x with
    | none => exact .refl _
    | some b => exact ih _

instance (fuel : ℕ) (out : Option α) :
    Extends .fuel (rbRemoveSplice fuel out) (rbRemoveSplice (fuel + 1) out) := by
  unfold rbRemoveSplice
  dsimp only
  infer_instance

instance (fuel : ℕ) (out : Option α) :
    Extends .fuel (rbRemove fuel out) (rbRemove (fuel + 1) out) := by
  unfold rbRemove
  dsimp only
  infer_instance

instance (fuel : ℕ) (cmp : α → Except RbFault Ordering) (p : Option α) :
    Extends .fuel (rbFindLoop cmp fuel p) (rbFindLoop cmp (fuel + 1) p) := by
  induction fuel generalizing p with
  | zero => exact .stop _
  | succ fuel ih =>
    rw [rbFindLoop.eq_def, rbFindLoop.eq_def]
    cases p with
    | none => exact .refl _
    | some b =>
      refine .andThen inferInstance fun o => ?_
      cases o <;> (dsimp only; infer_instance)

instance (fuel : ℕ) (cmp : α → Except RbFault Ordering) :
    Extends .fuel (rbFind fuel cmp) (rbFind (fuel + 1) cmp) := by
  unfold rbFind
  infer_instance

instance (fuel : ℕ) (p : Option α) : Extends .fuel (rbClimb fuel p) (rbClimb (fuel + 1) p) := by
  induction fuel generalizing p with
  | zero => exact .stop _
  | succ fuel ih =>
    rw [rbClimb, rbClimb]
    refine .andThen inferInstance fun x => ?_
    cases x <;> (dsimp only; infer_instance)

instance (fuel : ℕ) (p : Option α) : Extends .fuel (rbNext fuel p) (rbNext (fuel + 1) p) := by
  unfold rbNext
  refine .andThen inferInstance fun x => ?_
  cases x <;> (dsimp only; infer_instance)

instance (d : Dir) (fuel : ℕ) (p parent : Option α) :
    Extends .fuel (rbMinmaxLoop d fuel p parent) (rbMinmaxLoop d (fuel + 1) p parent) := by
  induction fuel generalizing p parent with
  | zero => exact .stop _
  | succ fuel ih =>
    rw [rbMinmaxLoop, rbMinmaxLoop]
    infer_instance

instance (fuel : ℕ) : Extends .fuel (rbMin fuel : RbM α (Option α)) (rbMin (fuel + 1)) := by
  unfold rbMin
  infer_instance

end Propd
