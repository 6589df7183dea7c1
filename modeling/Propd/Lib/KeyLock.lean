import Propd.Lib.Transition
import Mathlib.Logic.Function.Basic

/-!
# One lock a key

What a family of mutexes is for, with nothing of how it is kept: each key has a holder
or none, a thread takes a key nobody has and gives back a key it has.
-/

namespace Propd.Lib

variable {κ ι : Type*} [DecidableEq κ]

/-- A thread takes a key, or gives it back. -/
inductive KeyLockAction (κ ι : Type*)
  | acquire (t : ι) (k : κ)
  | release (t : ι) (k : κ)

/-- A step of the locks; the state tells who has a key. -/
inductive KeyLockStep : (κ → Option ι) → KeyLockAction κ ι → (κ → Option ι) → Prop
  | acquire {locks : κ → Option ι} {t : ι} {k : κ} (h : locks k = none) :
      KeyLockStep locks (.acquire t k) (Function.update locks k (some t))
  | release {locks : κ → Option ι} {t : ι} {k : κ} (h : locks k = some t) :
      KeyLockStep locks (.release t k) (Function.update locks k none)

/-- The locks, at first all free. -/
def keyLocks (κ ι : Type*) [DecidableEq κ] : LTS (κ → Option ι) (KeyLockAction κ ι) where
  init locks := ∀ k, locks k = none
  step := KeyLockStep

end Propd.Lib
