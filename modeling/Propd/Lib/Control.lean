import Mathlib.Logic.Basic

/-!
# Statements that jump

Statements of a language with `break` and `continue`, as functions that may fault. A jump ends the
statements around it up to the block that it binds to: a loop, or a block `do { … } while (0)`,
which is left by both jumps in the same way. So a jump that stands in such a block says nothing to
the loop around it.
-/

namespace Propd.Lib

/-- How a statement ends: it comes to its end, it jumps, or the thread is gone. -/
inductive Flow
  | next
  | brk
  | cont
  | stop
  deriving DecidableEq

/-- What a block makes of it. -/
def Flow.caught : Flow → Flow
  | .stop => .stop
  | _ => .next

/-- The loop is taken again. -/
def Flow.goesOn : Flow → Bool
  | .next => true
  | .cont => true
  | _ => false

/-- A statement on states `σ`, with faults `ε`. -/
abbrev Stmt (ε σ : Type) := σ → Except ε (σ × Flow)

namespace Stmt

variable {ε σ : Type}

def act (f : σ → Except ε σ) : Stmt ε σ := fun s => (f s).map fun s' => (s', .next)

def jump (f : Flow) : Stmt ε σ := fun s => .ok (s, f)

def seq (p q : Stmt ε σ) : Stmt ε σ := fun s =>
  match p s with
  | .ok (s', .next) => q s'
  | r => r

/-- One after the other. -/
def all : List (Stmt ε σ) → Stmt ε σ
  | [] => jump .next
  | p :: ps => seq p (all ps)

/-- `if (c) p` -/
def cond (c : σ → Bool) (p : Stmt ε σ) : Stmt ε σ := fun s => if c s then p s else .ok (s, .next)

/-- `do { p } while (0)` -/
def once (p : Stmt ε σ) : Stmt ε σ := fun s => (p s).map fun r => (r.1, r.2.caught)

/-- A turn of a loop with body `p`, and whether there is another one. -/
def turn (p : Stmt ε σ) : σ → Except ε (σ × Bool) := fun s => (p s).map fun r => (r.1, r.2.goesOn)

variable {p q : Stmt ε σ} {ps : List (Stmt ε σ)} {s s' : σ} {f : Flow}

/-! ## Rules -/

theorem act_ok {g : σ → Except ε σ} (h : g s = .ok s') : act g s = .ok (s', .next) := by
  rw [act, h]
  rfl

theorem act_error {g : σ → Except ε σ} {e : ε} (h : g s = .error e) : act g s = .error e := by
  rw [act, h]
  rfl

theorem all_nil (s : σ) : all ([] : List (Stmt ε σ)) s = .ok (s, .next) := rfl

/-- The statements behind one that comes to its end. -/
theorem all_next (h : p s = .ok (s', .next)) : all (p :: ps) s = all ps s' := by
  rw [all, seq, h]

/-- The statements behind a jump are left out. -/
theorem all_jump (h : p s = .ok (s', f)) (hf : f ≠ .next) : all (p :: ps) s = .ok (s', f) := by
  rw [all, seq, h]
  cases f with
  | next => exact absurd rfl hf
  | _ => rfl

theorem all_error {e : ε} (h : p s = .error e) : all (p :: ps) s = .error e := by
  rw [all, seq, h]

theorem cond_true {c : σ → Bool} (h : c s = true) : cond c p s = p s := if_pos h

theorem cond_false {c : σ → Bool} (h : c s = false) : cond c p s = .ok (s, .next) :=
  if_neg (Bool.eq_false_iff.mp h)

theorem once_ok (h : p s = .ok (s', f)) : once p s = .ok (s', f.caught) := by
  rw [once, h]
  rfl

theorem turn_ok (h : p s = .ok (s', f)) : turn p s = .ok (s', f.goesOn) := by
  rw [turn, h]
  rfl

theorem turn_error {e : ε} (h : p s = .error e) : turn p s = .error e := by
  rw [turn, h]
  rfl

/-- **A jump out of a block stays with the block**: unless the thread is gone, what follows the
block is done. -/
theorem all_once (h : p s = .ok (s', f)) (hf : f ≠ .stop) :
    all (once p :: ps) s = all ps s' := by
  refine all_next ?_
  rw [once_ok h]
  cases f with
  | stop => exact absurd rfl hf
  | _ => rfl

end Stmt

end Propd.Lib
