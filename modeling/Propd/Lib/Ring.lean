import Mathlib.Data.List.Basic
import Mathlib.Logic.Function.Basic

/-!
# Ring buffers

A bounded queue in an array whose two indices wrap around. `Ring.Holds r xs` says that the
buffer `r` stands for the list `xs`, oldest element first; it is kept by `push` and `pop`,
which append to the list and take its head.

The cells that hold no element are unrestricted.
-/

namespace Propd.Lib

universe u

/-- An array of `num` cells, of which `count` are in use from `head` on. -/
structure Ring (α : Type u) where
  num : ℕ
  slots : ℕ → Option α
  head : ℕ
  tail : ℕ
  count : ℕ

namespace Ring

variable {α : Type u}

/-- The cell of the `i`-th element. -/
def index (r : Ring α) (i : ℕ) : ℕ :=
  (r.head + i) % r.num

/-- Write `x` into the cell at the tail. -/
def push (r : Ring α) (x : α) : Ring α :=
  { r with
    slots := Function.update r.slots r.tail (some x)
    tail := (r.tail + 1) % r.num
    count := r.count + 1 }

/-- The oldest element. -/
def front (r : Ring α) : Option α :=
  r.slots r.head

/-- Give the cell at the head back. -/
def pop (r : Ring α) : Ring α :=
  { r with head := (r.head + 1) % r.num, count := r.count - 1 }

/-- The buffer stands for the list. -/
structure Holds (r : Ring α) (xs : List α) : Prop where
  length : xs.length = r.count
  bound : r.count ≤ r.num
  head : r.head < r.num
  tail : r.tail = r.index r.count
  slots : ∀ i < r.count, r.slots (r.index i) = xs[i]?

/-- A buffer in which nothing is. -/
theorem Holds.empty {r : Ring α} (hhead : r.head < r.num) (htail : r.tail = r.head)
    (hcount : r.count = 0) : r.Holds [] where
  length := hcount.symm
  bound := by omega
  head := hhead
  tail := by rw [index, hcount, Nat.add_zero, Nat.mod_eq_of_lt hhead, htail]
  slots := by
    intro i hi
    omega

variable {r : Ring α} {xs : List α}

/-- Two elements have different cells. -/
theorem Holds.index_ne (h : r.Holds xs) {i j : ℕ} (hij : i < j) (hj : j < r.num) :
    r.index i ≠ r.index j := by
  have hhead := h.head
  unfold index
  intro heq
  -- an index wraps at most once
  rcases Nat.lt_or_ge (r.head + i) r.num with hi | hi
  · rw [Nat.mod_eq_of_lt hi] at heq
    rcases Nat.lt_or_ge (r.head + j) r.num with hlt | hge
    · rw [Nat.mod_eq_of_lt hlt] at heq
      omega
    · rw [Nat.mod_eq_sub_mod hge, Nat.mod_eq_of_lt (by omega)] at heq
      omega
  · rw [Nat.mod_eq_sub_mod hi, Nat.mod_eq_of_lt (by omega), Nat.mod_eq_sub_mod (by omega),
      Nat.mod_eq_of_lt (by omega)] at heq
    omega

theorem Holds.tail_lt (h : r.Holds xs) : r.tail < r.num := by
  rw [h.tail]
  exact Nat.mod_lt _ (by have := h.head; omega)

/-- With a cell to spare the tail is at none of the elements. -/
theorem Holds.tail_free (h : r.Holds xs) (hroom : r.count < r.num) {i : ℕ} (hi : i < r.count) :
    r.index i ≠ r.tail := by
  rw [h.tail]
  exact h.index_ne hi hroom

/-- The indices run on past the end. -/
theorem index_succ (r : Ring α) (i : ℕ) : (r.index i + 1) % r.num = r.index (i + 1) := by
  rw [index, index, Nat.mod_add_mod, Nat.add_assoc]

/-- **Push appends**, and overwrites no element. -/
theorem Holds.push (h : r.Holds xs) (hroom : r.count < r.num) (x : α) :
    (r.push x).Holds (xs ++ [x]) where
  length := by simp [Ring.push, h.length]
  bound := hroom
  head := h.head
  tail := by
    show (r.tail + 1) % r.num = r.index (r.count + 1)
    rw [h.tail, index_succ]
  slots := by
    intro i hi
    show Function.update r.slots r.tail (some x) (r.index i) = (xs ++ [x])[i]?
    rcases Nat.lt_succ_iff_lt_or_eq.mp hi with hlt | rfl
    · -- an element that was there
      rw [Function.update_of_ne (h.tail_free hroom hlt), h.slots i hlt,
        List.getElem?_append_left (h.length ▸ hlt)]
    · -- the new one
      rw [← h.tail, Function.update_self, ← h.length, List.getElem?_concat_length]

/-- **The front is the head of the list.** -/
theorem Holds.front {x : α} (h : r.Holds (x :: xs)) : r.front = some x := by
  have hpos : 0 < r.count := by
    rw [← h.length]
    exact Nat.succ_pos _
  have hslot := h.slots 0 hpos
  rwa [index, Nat.add_zero, Nat.mod_eq_of_lt h.head] at hslot

/-- **Pop takes the head of the list.** -/
theorem Holds.pop {x : α} (h : r.Holds (x :: xs)) : r.pop.Holds xs where
  length := by
    have hlen := h.length
    simp only [List.length_cons] at hlen
    simp only [Ring.pop]
    omega
  bound := Nat.le_trans (Nat.sub_le _ _) h.bound
  head := Nat.mod_lt _ (by have := h.head; omega)
  tail := by
    have hlen := h.length
    simp only [List.length_cons] at hlen
    show r.tail = ((r.head + 1) % r.num + (r.count - 1)) % r.num
    rw [h.tail, index, Nat.mod_add_mod]
    congr 1
    omega
  slots := by
    intro i hi
    have hlt : i + 1 < r.count := by
      simp only [Ring.pop] at hi
      omega
    show r.slots (((r.head + 1) % r.num + i) % r.num) = xs[i]?
    rw [Nat.mod_add_mod, Nat.add_assoc, Nat.add_comm 1 i]
    exact h.slots (i + 1) hlt

/-- A list that is not empty is what a positive count stands for. -/
theorem Holds.exists_cons (h : r.Holds xs) (hpos : 0 < r.count) : ∃ x rest, xs = x :: rest := by
  cases xs with
  | nil =>
    rw [← h.length] at hpos
    exact absurd hpos (Nat.lt_irrefl 0)
  | cons x rest => exact ⟨x, rest, rfl⟩

end Ring

end Propd.Lib
