import Propd.Lib.Counting

/-!
# Condition variables

Threads that wait for a condition. A thread in a wait is asleep until a signal marks it, or
until it wakes for no reason; a thread that is marked looks at its condition again at some
later time. A signal marks one thread that is asleep, if there is one.

A *wakeup is lost* when a thread sleeps although there is something for it to take. That
none is lost is a count: while a thread is asleep, there are at least as many marked threads
as there are things to take.
-/

namespace Propd.Lib

/-- How a thread stands to a condition variable. -/
inductive Waiting
  | outside
  | asleep
  | marked
  deriving DecidableEq

variable {ι α : Type*} [Fintype ι] [DecidableEq ι]

/-- `σ` says how a thread in a given state stands to the condition variable, `mark` what a
signal makes of a thread that is asleep. The signal goes to `target`, and to no one only if
no thread is asleep. -/
def condSignal (σ : α → Waiting) (mark : α → α) (f : ι → α) (target : Option ι) :
    Option (ι → α) :=
  match target with
  | some t => if σ (f t) = .asleep then some (Function.update f t (mark (f t))) else none
  | none => if ∀ t, σ (f t) ≠ .asleep then some f else none

/-- While a thread is asleep, for each of `n` things to take a thread is marked. -/
def NoLostWakeup (σ : α → Waiting) (f : ι → α) (n : ℕ) : Prop :=
  (∃ t, σ (f t) = .asleep) → n ≤ countThreads (fun a => σ a = .marked) f

variable {σ : α → Waiting} {mark : α → α} {f f' : ι → α} {n : ℕ} {t : ι} {x : α}

/-- What a signal does: it marks one thread that was asleep, or nobody is asleep. -/
theorem condSignal_eq_some {target : Option ι} (h : condSignal σ mark f target = some f') :
    (∃ t, target = some t ∧ σ (f t) = .asleep ∧ f' = Function.update f t (mark (f t))) ∨
      (target = none ∧ f' = f ∧ ∀ t, σ (f t) ≠ .asleep) := by
  cases target with
  | some t =>
    simp only [condSignal] at h
    by_cases hasleep : σ (f t) = .asleep
    · rw [if_pos hasleep, Option.some.injEq] at h
      exact .inl ⟨t, rfl, hasleep, h.symm⟩
    · rw [if_neg hasleep] at h
      cases h
  | none =>
    simp only [condSignal] at h
    by_cases hnone : ∀ t, σ (f t) ≠ .asleep
    · rw [if_pos hnone, Option.some.injEq] at h
      exact .inr ⟨rfl, h.symm, hnone⟩
    · rw [if_neg hnone] at h
      cases h

/-- What `mark` does not change of a thread, a signal changes of none. -/
theorem condSignal_view {β : Type*} (view : α → β) (hmark : ∀ a, view (mark a) = view a)
    {target : Option ι} (h : condSignal σ mark f target = some f') (t : ι) :
    view (f' t) = view (f t) := by
  rcases condSignal_eq_some h with ⟨u, -, -, rfl⟩ | ⟨-, rfl, -⟩
  · by_cases ht : t = u
    · rw [ht, Function.update_self, hmark]
    · rw [Function.update_of_ne ht]
  · rfl

namespace NoLostWakeup

omit [DecidableEq ι] in
/-- Where there is nothing to take, everyone may sleep. -/
theorem zero : NoLostWakeup σ f 0 :=
  fun _ => Nat.zero_le _

/-- A thread that was not marked moves, and not to sleep: it comes, it goes elsewhere, or it
wakes for no reason. -/
theorem move (h : NoLostWakeup σ f n) (hbefore : σ (f t) ≠ .marked) (hafter : σ x = .outside) :
    NoLostWakeup σ (Function.update f t x) n := by
  rintro ⟨u, hu⟩
  have hne : u ≠ t := by
    rintro rfl
    rw [Function.update_self, hafter] at hu
    cases hu
  rw [Function.update_of_ne hne] at hu
  have hcount : countThreads (fun a => σ a = .marked) (Function.update f t x) =
      countThreads (fun a => σ a = .marked) f :=
    countThreads_update_of_iff _ (iff_of_false (by rw [hafter]; nofun) hbefore)
  rw [hcount]
  exact h ⟨u, hu⟩

/-- A thread that is awake, marked or just come, takes one of the things. -/
theorem take (h : NoLostWakeup σ f (n + 1)) (hbefore : σ (f t) ≠ .asleep)
    (hafter : σ x = .outside) : NoLostWakeup σ (Function.update f t x) n := by
  rintro ⟨u, hu⟩
  have hne : u ≠ t := by
    rintro rfl
    rw [Function.update_self, hafter] at hu
    cases hu
  rw [Function.update_of_ne hne] at hu
  have hcount := countThreads_update (fun a => σ a = .marked) f t x
  have hold := h ⟨u, hu⟩
  rw [if_neg (show ¬ σ x = .marked by rw [hafter]; nofun)] at hcount
  split at hcount <;> omega

/-- There is one thing more to take, and a signal for it. -/
theorem signal {target : Option ι} (h : NoLostWakeup σ f n)
    (hmark : ∀ a, σ a = .asleep → σ (mark a) = .marked)
    (hsignal : condSignal σ mark f target = some f') : NoLostWakeup σ f' (n + 1) := by
  rcases condSignal_eq_some hsignal with ⟨t, -, hasleep, rfl⟩ | ⟨-, rfl, hnone⟩
  · -- one more thread is marked
    intro _
    have hcount := countThreads_update_gain (fun a => σ a = .marked) (t := t)
      (hmark _ hasleep) (by rw [hasleep]; nofun)
    rw [hcount]
    exact Nat.succ_le_succ (h ⟨t, hasleep⟩)
  · -- nobody sleeps
    rintro ⟨t, ht⟩
    exact absurd ht (hnone t)

end NoLostWakeup

end Propd.Lib
