import Mathlib.Init

/-!
# Computations that avoid one error

Partial correctness of `Except` programs for one error that must not happen, among others
that may: `Avoids bad P x` says that `x` does not fail with `bad`, and that what it returns
meets `P`. The rules follow the constructs of a program; the last ones go backwards.
-/

namespace Propd.Lib

universe u v

variable {ε : Type u} {α β : Type v} {bad : ε} {P : α → Prop} {Q : β → Prop}

/-- `x` does not fail with `bad`, and its result meets `P`. -/
def Avoids (bad : ε) (P : α → Prop) (x : Except ε α) : Prop :=
  x ≠ .error bad ∧ ∀ a, x = .ok a → P a

namespace Avoids

theorem ok {a : α} (h : P a) : Avoids bad P (.ok a) := by
  refine ⟨nofun, fun b hb => ?_⟩
  cases hb
  exact h

theorem error {e : ε} (h : e ≠ bad) : Avoids bad P (.error e) :=
  ⟨fun he => h (Except.error.inj he), nofun⟩

theorem bind {x : Except ε α} {f : α → Except ε β} (hx : Avoids bad P x)
    (hf : ∀ a, P a → Avoids bad Q (f a)) : Avoids bad Q (x >>= f) := by
  cases x with
  | error e => exact ⟨fun he => hx.1 (congrArg _ (Except.error.inj he)), nofun⟩
  | ok a => exact hf a (hx.2 a rfl)

/-- An error of another kind. -/
theorem mapError {ε' : Type u} {x : Except ε' α} {f : ε' → ε} (hf : ∀ e, f e ≠ bad) :
    Avoids bad (fun _ => True) (x.mapError f) := by
  cases x with
  | error e => exact error (hf e)
  | ok a => exact ok trivial

/-- The first part of a program that avoids the error avoids it. -/
theorem first {x : Except ε α} {f : α → Except ε β} (h : Avoids bad Q (x >>= f)) :
    x ≠ .error bad := by
  rintro rfl
  exact h.1 rfl

/-- The second part of a program that avoids the error avoids it on what the first one returns. -/
theorem second {x : Except ε α} {f : α → Except ε β} {a : α} (h : Avoids bad Q (x >>= f))
    (hx : x = .ok a) : Avoids bad Q (f a) := by
  subst hx
  exact h

end Avoids

end Propd.Lib
