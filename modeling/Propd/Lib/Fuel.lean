import Mathlib.Control.Lawful
import Mathlib.Order.Basic
import Mathlib.Data.Nat.Init

/-!
# Fuel

A loop takes at most as many turns as it has fuel, and ends with the error `e` when it has no more.
`Extends e f g` says that `g` does what `f` does, unless `f` ends so. It goes through a program part by
part; for a loop it is an induction on the fuel, and then more fuel changes nothing.
-/

namespace Propd.Lib

/-- `g` does what `f` does, unless `f` ends with `e`. -/
class Extends {σ ε β : Type} (e : ε) (f g : StateT σ (Except ε) β) : Prop where
  run_eq : ∀ s, f.run s = .error e ∨ g.run s = f.run s

namespace Extends

variable {σ ε β γ : Type} {e : ε}

instance refl (f : StateT σ (Except ε) β) : Extends e f f := ⟨fun _ => .inr rfl⟩

instance (priority := 1100) stop (f : StateT σ (Except ε) β) : Extends e (throw e) f :=
  ⟨fun _ => .inl rfl⟩

theorem andThen {f g : StateT σ (Except ε) β} {k l : β → StateT σ (Except ε) γ}
    (hf : Extends e f g) (hk : ∀ b, Extends e (k b) (l b)) : Extends e (f >>= k) (g >>= l) where
  run_eq s := by
    simp only [StateT.run_bind]
    rcases hf.run_eq s with herr | heq
    · left
      rw [herr]
      rfl
    · rw [heq]
      cases f.run s with
      | error e' => exact .inr rfl
      | ok r => exact (hk r.1).run_eq r.2

instance (priority := 1100) bind (f g : StateT σ (Except ε) β) (k l : β → StateT σ (Except ε) γ)
    [hf : Extends e f g] [hk : ∀ b, Extends e (k b) (l b)] : Extends e (f >>= k) (g >>= l) :=
  hf.andThen hk

instance (priority := 1100) ite (c : Prop) [Decidable c] (f g f' g' : StateT σ (Except ε) β)
    [hf : Extends e f f'] [hg : Extends e g g'] :
    Extends e (if c then f else g) (if c then f' else g') := by
  split
  · exact hf
  · exact hg

theorem trans {f g h : StateT σ (Except ε) β} (hfg : Extends e f g) (hgh : Extends e g h) :
    Extends e f h where
  run_eq s := by
    rcases hfg.run_eq s with herr | heq
    · exact .inl herr
    · rcases hgh.run_eq s with herr | heq'
      · exact .inl (heq.symm.trans herr)
      · exact .inr (heq'.trans heq)

/-- **More fuel changes nothing.** -/
theorem le {f : ℕ → StateT σ (Except ε) β} (h : ∀ n, Extends e (f n) (f (n + 1))) {m n : ℕ}
    (hmn : m ≤ n) : Extends e (f m) (f n) := by
  induction n, hmn using Nat.le_induction with
  | base => exact refl _
  | succ n _ ih => exact ih.trans (h n)

theorem run_of_ne {f g : StateT σ (Except ε) β} (h : Extends e f g) {s : σ}
    (hne : f.run s ≠ .error e) : g.run s = f.run s :=
  (h.run_eq s).resolve_left hne

end Extends

end Propd.Lib
