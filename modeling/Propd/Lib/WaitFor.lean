import Mathlib.Logic.Relation

/-!
# Waiting for locks and for answers

Parties that wait for each other, each at a place: for a lock that another party at the same
place holds, or for the answer of a party at a place next to its own. A party that holds a lock
does not wait for one at that place.

So a party that waits for itself, through whatever others, does so along places that lead back to
its own: where the places have no cycle there is no deadlock.
-/

namespace Propd.Lib

open Relation

variable {α β : Type*}

/-- A party waits for the holder of a lock, or for an answer. -/
inductive WaitsFor (lock answer : α → α → Prop) : α → α → Prop
  | lock {a b : α} (h : lock a b) : WaitsFor lock answer a b
  | answer {a b : α} (h : answer a b) : WaitsFor lock answer a b

/-- The parties have their places: locks are waited for at one place, answers come from the next. -/
structure Placed (lock answer : α → α → Prop) (place : α → β) (next : β → β → Prop) : Prop where
  same : ∀ a b, lock a b → place a = place b
  holder : ∀ a b c, lock a b → ¬ lock b c
  along : ∀ a b, answer a b → next (place a) (place b)

namespace Placed

variable {lock answer : α → α → Prop} {place : α → β} {next : β → β → Prop} {a b : α}

/-- A chain of answers goes along the places. -/
theorem answers (h : Placed lock answer place next) (hchain : TransGen answer a b) :
    TransGen next (place a) (place b) :=
  hchain.lift place h.along

/-- **A party that waits for a lock of one that waits for its answer** is at a place that leads
back to itself. -/
theorem lock_of_answers (h : Placed lock answer place next) (hlock : lock b a)
    (hchain : TransGen answer a b) : TransGen next (place a) (place a) := by
  have hpath := h.answers hchain
  rwa [h.same b a hlock] at hpath

/-- A chain of waits goes along the places, if it is not a single wait for a lock. -/
theorem waits (h : Placed lock answer place next) (hchain : TransGen (WaitsFor lock answer) a b) :
    TransGen next (place a) (place b) ∨ lock a b := by
  induction hchain with
  | single hw =>
    cases hw with
    | lock hl => exact .inr hl
    | answer ha => exact .inl (.single (h.along _ _ ha))
  | tail _ hw ih =>
    cases hw with
    | lock hl =>
      rcases ih with hpath | hfirst
      · rw [← h.same _ _ hl]
        exact .inl hpath
      · -- the holder of the first lock does not wait for another
        exact absurd hl (h.holder _ _ _ hfirst)
    | answer ha =>
      have hnext := h.along _ _ ha
      rcases ih with hpath | hfirst
      · exact .inl (hpath.tail hnext)
      · rw [h.same _ _ hfirst]
        exact .inl (.single hnext)

/-- **A deadlock goes round in the places.** -/
theorem cycle (h : Placed lock answer place next) (hchain : TransGen (WaitsFor lock answer) a a) :
    TransGen next (place a) (place a) := by
  rcases h.waits hchain with hpath | hlock
  · exact hpath
  · exact absurd hlock (h.holder _ _ _ hlock)

end Placed

end Propd.Lib
