import Mathlib.Data.List.Nodup

/-!
# Cells at addresses

A list of records that carry their own address models the heap objects a data
structure links: a pointer is an address, and an address nothing in the list has
is a dangling pointer. `modifyAt` writes through a pointer.
-/

namespace Propd.Lib

variable {α κ : Type*} [DecidableEq κ] {key : α → κ} {k : κ} {f : α → α}

/-- The record at `k`. -/
def cellAt (key : α → κ) (k : κ) (l : List α) : Option α :=
  l.find? fun a => key a = k

/-- Write through the pointer `k`. -/
def modifyAt (key : α → κ) (k : κ) (f : α → α) (l : List α) : List α :=
  l.map fun a => if key a = k then f a else a

theorem mem_modifyAt {l : List α} {b : α} :
    b ∈ modifyAt key k f l ↔ (∃ a ∈ l, key a = k ∧ b = f a) ∨ (b ∈ l ∧ key b ≠ k) := by
  simp only [modifyAt, List.mem_map]
  constructor
  · rintro ⟨a, ha, rfl⟩
    by_cases h : key a = k
    · exact .inl ⟨a, ha, h, by rw [if_pos h]⟩
    · rw [if_neg h]
      exact .inr ⟨ha, h⟩
  · rintro (⟨a, ha, h, rfl⟩ | ⟨hb, h⟩)
    · exact ⟨a, ha, by rw [if_pos h]⟩
    · exact ⟨b, hb, by rw [if_neg h]⟩

/-- A projection that a write leaves alone. -/
theorem map_modifyAt {β : Type*} {g : α → β} (hg : ∀ a, g (f a) = g a) (l : List α) :
    (modifyAt key k f l).map g = l.map g := by
  simp only [modifyAt, List.map_map]
  refine List.map_congr_left fun a _ => ?_
  by_cases h : key a = k
  · rw [Function.comp_apply, if_pos h]
    exact hg a
  · rw [Function.comp_apply, if_neg h]

theorem cellAt_eq_some {l : List α} {a : α} (h : cellAt key k l = some a) : a ∈ l ∧ key a = k :=
  ⟨List.mem_of_find?_eq_some h, by simpa using List.find?_some h⟩

theorem exists_cellAt {l : List α} :
    (∃ a, cellAt key k l = some a) ↔ ∃ a ∈ l, key a = k := by
  rw [← Option.isSome_iff_exists, cellAt, List.find?_isSome]
  simp

theorem cellAt_eq_none {l : List α} : cellAt key k l = none ↔ ∀ a ∈ l, key a ≠ k := by
  simp [cellAt]

/-- Where keys are distinct, a record is found at its key. -/
theorem cellAt_of_mem {l : List α} (h : (l.map key).Nodup) {a : α} (ha : a ∈ l) :
    cellAt key (key a) l = some a := by
  obtain ⟨b, hb⟩ : ∃ b, cellAt key (key a) l = some b := exists_cellAt.mpr ⟨a, ha, rfl⟩
  obtain ⟨hmem, hkey⟩ := cellAt_eq_some hb
  rw [hb, List.inj_on_of_nodup_map h hmem ha hkey]

end Propd.Lib
