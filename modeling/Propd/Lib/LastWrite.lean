import Mathlib.Data.List.Induction

/-!
# The last write

A cell that some operations write and others leave alone: after a run of operations it holds
what the last one that writes has written, or what it held before where none does.
-/

namespace Propd.Lib

variable {Op C D S : Type*}

/-- What the last operation that writes has written. -/
def lastWrite (writes : Op → Option C) (ops : List Op) : Option C :=
  ops.reverse.findSome? writes

theorem lastWrite_concat (writes : Op → Option C) (ops : List Op) (op : Op) :
    lastWrite writes (ops ++ [op]) = (writes op).or (lastWrite writes ops) := by
  rw [lastWrite, List.reverse_append, List.reverse_singleton, List.singleton_append,
    List.findSome?_cons]
  cases writes op <;> rfl

/-- **A cell holds the last write.** `cell` is what a state has in it, and `content` what a write
leaves there. -/
theorem cell_foldl {step : S → Op → S} (cell : S → D) {writes : Op → Option C} {content : C → D}
    (hstep : ∀ s op, cell (step s op) = ((writes op).map content).getD (cell s)) (s : S)
    (ops : List Op) :
    cell (ops.foldl step s) = ((lastWrite writes ops).map content).getD (cell s) := by
  induction ops using List.reverseRecOn with
  | nil => rfl
  | append_singleton ops op ih =>
    rw [List.foldl_append, List.foldl_cons, List.foldl_nil, hstep, ih, lastWrite_concat]
    cases writes op <;> rfl

end Propd.Lib
