import Mathlib.Data.Fintype.Card
import Mathlib.Algebra.BigOperators.Group.Finset.Basic
import Mathlib.Algebra.BigOperators.Group.Finset.Piecewise

/-!
# Counting threads

How many threads are in a state with a given property, and how that number
changes when one thread moves. A reference counter is correct when it equals
such a number.
-/

namespace Propd.Lib

variable {ι α : Type*} [Fintype ι] [DecidableEq ι]

/-- What the threads add up to, where a state weighs `w`. -/
def sumThreads (w : α → ℕ) (f : ι → α) : ℕ :=
  ∑ i, w (f i)

/-- The number of threads whose state meets `p`. -/
def countThreads (p : α → Prop) [DecidablePred p] (f : ι → α) : ℕ :=
  (Finset.univ.filter fun i => p (f i)).card

omit [Fintype ι] in
/-- What holds of a thread after `s` has moved to `x`: it holds of `x`, or it held before. -/
theorem update_holds (p : α → Prop) {f : ι → α} {s t : ι} {x : α}
    (h : p (Function.update f s x t)) : (t = s ∧ p x) ∨ (t ≠ s ∧ p (f t)) := by
  by_cases hts : t = s
  · rw [hts, Function.update_self] at h
    exact .inl ⟨hts, h⟩
  · rw [Function.update_of_ne hts] at h
    exact .inr ⟨hts, h⟩

omit [Fintype ι] in
/-- What is seen of a thread after `s` has moved to `x`: the new state of `s`, or what was there. -/
theorem update_cases {β : Type*} (g : α → β) {f : ι → α} {s t : ι} {x : α} {y : β}
    (h : g (Function.update f s x t) = y) : (t = s ∧ g x = y) ∨ (t ≠ s ∧ g (f t) = y) :=
  update_holds (fun a => g a = y) h

/-- Moving one thread from `f t` to `x` trades its old weight for its new one. -/
theorem sumThreads_update (w : α → ℕ) (f : ι → α) (t : ι) (x : α) :
    sumThreads w (Function.update f t x) + w (f t) = sumThreads w f + w x := by
  have hsplit : ∀ g : ι → α,
      sumThreads w g = w (g t) + ∑ i ∈ Finset.univ.erase t, w (g i) := by
    intro g
    rw [sumThreads, ← Finset.add_sum_erase Finset.univ (fun i => w (g i)) (Finset.mem_univ t)]
  have hrest : ∑ i ∈ Finset.univ.erase t, w (Function.update f t x i) =
      ∑ i ∈ Finset.univ.erase t, w (f i) := by
    refine Finset.sum_congr rfl fun i hi => ?_
    rw [Function.update_of_ne (Finset.ne_of_mem_erase hi)]
  rw [hsplit (Function.update f t x), hsplit f, hrest, Function.update_self]
  omega

omit [DecidableEq ι] in
theorem sumThreads_eq_zero {w : α → ℕ} {f : ι → α} : sumThreads w f = 0 ↔ ∀ i, w (f i) = 0 := by
  simp [sumThreads, Finset.sum_eq_zero_iff]

omit [DecidableEq ι] in
theorem sumThreads_pos {w : α → ℕ} {f : ι → α} {t : ι} (h : 0 < w (f t)) : 0 < sumThreads w f :=
  Nat.pos_of_ne_zero fun h0 => absurd (sumThreads_eq_zero.mp h0 t) h.ne'

variable (p : α → Prop) [DecidablePred p]

omit [DecidableEq ι] in
theorem countThreads_eq_sum (f : ι → α) :
    countThreads p f = sumThreads (fun a => if p a then 1 else 0) f :=
  Finset.card_filter ..

theorem countThreads_update (f : ι → α) (t : ι) (x : α) :
    countThreads p (Function.update f t x) + (if p (f t) then 1 else 0) =
      countThreads p f + (if p x then 1 else 0) := by
  rw [countThreads_eq_sum, countThreads_eq_sum]
  exact sumThreads_update _ f t x

/-- A move that keeps the property of the thread that moves keeps the count. -/
theorem countThreads_update_of_iff {f : ι → α} {t : ι} {x : α} (h : p x ↔ p (f t)) :
    countThreads p (Function.update f t x) = countThreads p f := by
  have hc := countThreads_update p f t x
  by_cases hx : p x
  · rw [if_pos hx, if_pos (h.mp hx)] at hc
    omega
  · rw [if_neg hx, if_neg (mt h.mpr hx)] at hc
    omega

/-- A thread that gains the property adds one. -/
theorem countThreads_update_gain {f : ι → α} {t : ι} {x : α} (hx : p x) (hf : ¬ p (f t)) :
    countThreads p (Function.update f t x) = countThreads p f + 1 := by
  have hc := countThreads_update p f t x
  rwa [if_pos hx, if_neg hf] at hc

/-- A thread that loses the property takes one away. -/
theorem countThreads_update_lose {f : ι → α} {t : ι} {x : α} (hx : ¬ p x) (hf : p (f t)) :
    countThreads p (Function.update f t x) + 1 = countThreads p f := by
  have hc := countThreads_update p f t x
  rwa [if_neg hx, if_pos hf] at hc

omit [DecidableEq ι] in
theorem countThreads_eq_zero {f : ι → α} : countThreads p f = 0 ↔ ∀ i, ¬ p (f i) := by
  simp [countThreads, Finset.card_eq_zero, Finset.filter_eq_empty_iff]

omit [DecidableEq ι] in
theorem countThreads_pos {f : ι → α} {t : ι} (h : p (f t)) : 0 < countThreads p f :=
  Nat.pos_of_ne_zero fun h0 => (countThreads_eq_zero p).mp h0 t h

end Propd.Lib
