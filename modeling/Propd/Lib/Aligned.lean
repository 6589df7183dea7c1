import Mathlib.Data.List.Basic

/-!
# Logs that agree

Two logs of one run, one of which may lag behind the other: what the first one has so far
is related, entry by entry, to what the second one has there.
-/

namespace Propd.Lib

variable {α β : Type*} {R : α → β → Prop} {xs : List α} {ys : List β}

/-- Each entry of `xs` is related to the entry of `ys` at its place. -/
def Aligned (R : α → β → Prop) (xs : List α) (ys : List β) : Prop :=
  ∀ (i : ℕ) (x : α), xs[i]? = some x → ∃ y, ys[i]? = some y ∧ R x y

namespace Aligned

theorem nil : Aligned R [] ys := by
  intro i x h
  cases h

/-- The first log gets the entry it waits for. -/
theorem snoc_left (h : Aligned R xs ys) {x : α} {y : β} (hy : ys[xs.length]? = some y)
    (hxy : R x y) : Aligned R (xs ++ [x]) ys := by
  intro i z hz
  rcases Nat.lt_trichotomy i xs.length with hlt | rfl | hgt
  · rw [List.getElem?_append_left hlt] at hz
    exact h i z hz
  · rw [List.getElem?_concat_length] at hz
    cases hz
    exact ⟨y, hy, hxy⟩
  · rw [List.getElem?_eq_none (by rw [List.length_append]; exact hgt)] at hz
    cases hz

/-- The second log may grow. -/
theorem append_right (h : Aligned R xs ys) (zs : List β) : Aligned R xs (ys ++ zs) := by
  intro i x hx
  obtain ⟨y, hy, hxy⟩ := h i x hx
  exact ⟨y, by rw [List.getElem?_append_left (List.getElem?_eq_some_iff.mp hy).1, hy], hxy⟩

end Aligned

end Propd.Lib
