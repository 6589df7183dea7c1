import Mathlib.Data.List.Basic

/-!
# Labelled transition systems

Runs of a system under any scheduler, and the two induction rules the safety
results are assembled from: an invariant over states, and an invariant over a
state together with the path that led to it.

`LTS.during` restricts a system to the steps that meet a condition on the state
before the step. A result "in every run whose steps all meet `P`" is a result
about the restricted system.
-/

namespace Propd.Lib

universe u v

/-- A labelled transition system: initial states and a step relation. -/
structure LTS (S : Type u) (L : Type v) where
  init : S → Prop
  step : S → L → S → Prop

namespace LTS

variable {S : Type u} {L : Type v}

/-- `M.Path s tr s'`: the system goes from `s` to `s'`; `tr` lists the steps,
oldest first, each as the state it was taken in and its label. -/
inductive Path (M : LTS S L) (s₀ : S) : List (S × L) → S → Prop
  | nil : Path M s₀ [] s₀
  | snoc {s s' : S} {tr : List (S × L)} {l : L}
      (h : Path M s₀ tr s) (hs : M.step s l s') : Path M s₀ (tr ++ [(s, l)]) s'

/-- A state some path from an initial state leads to. -/
def Reachable (M : LTS S L) (s : S) : Prop :=
  ∃ s₀ tr, M.init s₀ ∧ M.Path s₀ tr s

/-- The system restricted to the steps that meet `P`. -/
def during (M : LTS S L) (P : S → L → Prop) : LTS S L where
  init := M.init
  step s l s' := M.step s l s' ∧ P s l

variable {M : LTS S L}

theorem Reachable.of_init {s : S} (h : M.init s) : M.Reachable s :=
  ⟨s, [], h, .nil⟩

theorem Reachable.tail {s s' : S} {l : L} (h : M.Reachable s) (hs : M.step s l s') :
    M.Reachable s' := by
  obtain ⟨s₀, tr, h₀, hp⟩ := h
  exact ⟨s₀, tr ++ [(s, l)], h₀, .snoc hp hs⟩

/-- **Invariant rule**: what holds initially and is kept by every step holds in
every reachable state. -/
theorem invariant {I : S → Prop} (hinit : ∀ s, M.init s → I s)
    (hstep : ∀ s l s', I s → M.step s l s' → I s') {s : S} (h : M.Reachable s) : I s := by
  obtain ⟨s₀, tr, h₀, hp⟩ := h
  induction hp with
  | nil => exact hinit _ h₀
  | snoc _ hs ih => exact hstep _ _ _ ih hs

/-- The invariant rule along one path, for an invariant that also speaks about
the steps taken so far. -/
theorem Path.invariant {I : List (S × L) → S → Prop} {s₀ s : S} {tr : List (S × L)}
    (hp : M.Path s₀ tr s) (h₀ : I [] s₀)
    (hstep : ∀ tr s l s', M.Path s₀ tr s → I tr s → M.step s l s' → I (tr ++ [(s, l)]) s') :
    I tr s := by
  induction hp with
  | nil => exact h₀
  | snoc hp hs ih => exact hstep _ _ _ _ hp ih hs

/-- A path of the restricted system is a path of the system. -/
theorem Path.of_during {P : S → L → Prop} {s₀ s : S} {tr : List (S × L)}
    (h : (M.during P).Path s₀ tr s) : M.Path s₀ tr s := by
  induction h with
  | nil => exact .nil
  | snoc _ hs ih => exact .snoc ih hs.1

/-- A path whose steps all meet `P` is one of the restricted system. -/
theorem Path.during {P : S → L → Prop} {s₀ s : S} {tr : List (S × L)}
    (h : M.Path s₀ tr s) (hP : ∀ x ∈ tr, P x.1 x.2) : (M.during P).Path s₀ tr s := by
  induction h with
  | nil => exact .nil
  | snoc _ hs ih =>
    exact .snoc (ih fun x hx => hP x (List.mem_append_left _ hx))
      ⟨hs, hP _ (List.mem_append_right _ (List.mem_singleton_self _))⟩

theorem Reachable.of_during {P : S → L → Prop} {s : S}
    (h : (M.during P).Reachable s) : M.Reachable s := by
  obtain ⟨s₀, tr, h₀, hp⟩ := h
  exact ⟨s₀, tr, h₀, hp.of_during⟩

/-- A condition that is weaker leaves more runs. -/
theorem Reachable.during_mono {P Q : S → L → Prop} {s : S} (hPQ : ∀ s l, P s l → Q s l)
    (h : (M.during P).Reachable s) : (M.during Q).Reachable s :=
  invariant (M := M.during P) (I := (M.during Q).Reachable) (fun _ h₀ => .of_init h₀)
    (fun s l _ hr hs => hr.tail ⟨hs.1, hPQ s l hs.2⟩) h

/-- A step of a path was taken, from a state the path leads to. -/
theorem Path.of_mem {s₀ s s' : S} {tr : List (S × L)} {l : L} (hp : M.Path s₀ tr s')
    (h : (s, l) ∈ tr) : ∃ tr₁ s₁, M.Path s₀ tr₁ s ∧ M.step s l s₁ := by
  induction hp with
  | nil => cases h
  | snoc hp hs ih =>
    rcases List.mem_append.mp h with h | h
    · exact ih h
    · cases List.mem_singleton.mp h
      exact ⟨_, _, hp, hs⟩

/-! ## Refinement -/

/-- `M` refines `A` under `abs`: what a step of `M` does to the abstract state is a step
of `A`, or nothing. -/
structure Refines {T : Type*} {K : Type*} (M : LTS S L) (A : LTS T K) (abs : S → T) : Prop where
  init : ∀ s, M.init s → A.init (abs s)
  step : ∀ s l s', M.Reachable s → M.step s l s' →
    abs s' = abs s ∨ ∃ k, A.step (abs s) k (abs s')

/-- Every state the concrete system reaches stands for one the abstract system reaches. -/
theorem Refines.reachable {T : Type*} {K : Type*} {A : LTS T K} {abs : S → T}
    (h : M.Refines A abs) {s : S} (hs : M.Reachable s) : A.Reachable (abs s) := by
  obtain ⟨s₀, tr, h₀, hp⟩ := hs
  induction hp with
  | nil => exact .of_init (h.init _ h₀)
  | @snoc s s' tr l hp hs ih =>
    rcases h.step s l s' ⟨s₀, tr, h₀, hp⟩ hs with heq | ⟨k, hk⟩
    · rw [heq]
      exact ih
    · exact ih.tail hk

/-! ## Systems given by a step function -/

/-- The system of a partial step function. -/
def ofFun (init : S → Prop) (f : S → L → Option S) : LTS S L where
  init := init
  step s l s' := f s l = some s'

/-- The system of a step function whose steps may fault: `none` where the step is not
enabled. A fault ends the run. -/
def ofSteps {ε : Type*} (init : S → Prop) (f : S → L → Option (Except ε S)) : LTS S L where
  init := init
  step s l s' := f s l = some (.ok s')

/-- Run a step function over a list of labels; `none` once a step is not enabled. -/
def exec (f : S → L → Option S) : S → List L → Option S
  | s, [] => some s
  | s, l :: ls => (f s l).bind fun s' => exec f s' ls

/-- The steps of `f` that do not fault. -/
def stepsOk {ε : Type*} (f : S → L → Option (Except ε S)) (s : S) (l : L) : Option S :=
  (f s l).bind Except.toOption

theorem stepsOk_eq_some {ε : Type*} {f : S → L → Option (Except ε S)} {s s' : S} {l : L}
    (h : stepsOk f s l = some s') : f s l = some (.ok s') := by
  obtain ⟨r, hr, hok⟩ := Option.bind_eq_some_iff.mp h
  cases r with
  | error e => cases hok
  | ok x =>
    cases hok
    exact hr

/-- The steps of `f` that meet `P`. -/
def guarded (P : S → L → Bool) (f : S → L → Option S) (s : S) (l : L) : Option S :=
  if P s l then f s l else none

theorem guarded_eq_some {P : S → L → Bool} {f : S → L → Option S} {s s' : S} {l : L}
    (h : guarded P f s l = some s') : f s l = some s' ∧ P s l = true := by
  unfold guarded at h
  split at h
  · rename_i hP
    exact ⟨h, hP⟩
  · cases h

theorem Path.append {s₀ s₁ s₂ : S} {tr tr' : List (S × L)}
    (h : M.Path s₀ tr s₁) (h' : M.Path s₁ tr' s₂) : M.Path s₀ (tr ++ tr') s₂ := by
  induction h' with
  | nil => simpa using h
  | snoc _ hs ih =>
    rw [← List.append_assoc]
    exact .snoc ih hs

theorem Reachable.path {s s' : S} {tr : List (S × L)} (h : M.Reachable s)
    (hp : M.Path s tr s') : M.Reachable s' := by
  obtain ⟨s₀, tr₀, h₀, hp₀⟩ := h
  exact ⟨s₀, tr₀ ++ tr, h₀, hp₀.append hp⟩

/-- What `exec` computes is a path of a system that has the steps of `f`. -/
theorem exec_path {f : S → L → Option S} (hf : ∀ s l s', f s l = some s' → M.step s l s')
    {ls : List L} {s s' : S} (h : exec f s ls = some s') :
    ∃ tr, M.Path s tr s' ∧ tr.map Prod.snd = ls := by
  induction ls generalizing s with
  | nil =>
    cases h
    exact ⟨[], .nil, rfl⟩
  | cons l ls ih =>
    obtain ⟨s₁, hs, hrest⟩ := Option.bind_eq_some_iff.mp h
    obtain ⟨tr, hp, htr⟩ := ih hrest
    have hfirst : M.Path s [(s, l)] s₁ := .snoc .nil (hf _ _ _ hs)
    exact ⟨(s, l) :: tr, hfirst.append hp, by simp [htr]⟩

theorem exec_reachable {f : S → L → Option S} (hf : ∀ s l s', f s l = some s' → M.step s l s')
    {ls : List L} {s s' : S} (h₀ : M.init s) (h : exec f s ls = some s') : M.Reachable s' := by
  obtain ⟨tr, hp, -⟩ := exec_path hf h
  exact ⟨s, tr, h₀, hp⟩

end LTS

end Propd.Lib
