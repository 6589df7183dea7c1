import Propd.Lib.Transition
import Mathlib.Data.List.Basic
import Mathlib.Logic.Function.Basic

/-!
# Linearizability

A concurrent object is linearizable when every history of calls and returns can
be marked with one point for each completed operation, between its call and its
return, such that the operations, taken in the order of their points, are a run
of the sequential object.

The marked histories of a sequential object are the paths of its *canonical
automaton*: a thread calls, its operation takes effect at one point, and it
returns what it got there. `linearizable_of_simulation` is the rule the proofs
use: a system whose steps are matched by the canonical automaton is linearizable.
-/

namespace Propd.Lib

universe u

/-- A sequential object: which reply an operation may give on a value, and the
value it leaves. -/
structure SeqObject (Val Op Ret : Type u) where
  apply : Val → Op → Ret → Val → Prop

/-- What the users of an object see. -/
inductive HistEvent (ι Op Ret : Type u)
  | call (t : ι) (op : Op)
  | ret (t : ι) (r : Ret)

/-- A history event, or the point an operation takes effect at. -/
inductive MarkEvent (ι Op Ret : Type u)
  | call (t : ι) (op : Op)
  | point (t : ι) (op : Op) (r : Ret)
  | ret (t : ι) (r : Ret)

namespace MarkEvent

variable {ι Op Ret : Type u}

/-- Forget the points. -/
def erase : MarkEvent ι Op Ret → Option (HistEvent ι Op Ret)
  | .call t op => some (.call t op)
  | .point .. => none
  | .ret t r => some (.ret t r)

/-- A history event as a marked event. -/
def ofHist : HistEvent ι Op Ret → MarkEvent ι Op Ret
  | .call t op => .call t op
  | .ret t r => .ret t r

@[simp] theorem erase_ofHist (e : HistEvent ι Op Ret) : (ofHist e).erase = some e := by
  cases e <;> rfl

@[simp] theorem erase_point (t : ι) (op : Op) (r : Ret) :
    (point t op r : MarkEvent ι Op Ret).erase = none := rfl

end MarkEvent

/-- Where a thread is in its operation. -/
inductive Phase (Op Ret : Type u)
  | idle
  | called (op : Op)
  | done (r : Ret)

/-- A state of the canonical automaton: the value of the object and the phase of
every thread. -/
structure SpecState (Val ι Op Ret : Type u) where
  val : Val
  phase : ι → Phase Op Ret

namespace SeqObject

variable {Val ι Op Ret : Type u} [DecidableEq ι] (O : SeqObject Val Op Ret)

/-- The steps of the canonical automaton. Only a point touches the value, and it
does what the sequential object does. -/
inductive Step : SpecState Val ι Op Ret → MarkEvent ι Op Ret → SpecState Val ι Op Ret → Prop
  | call {a : SpecState Val ι Op Ret} {t : ι} {op : Op} (h : a.phase t = .idle) :
      Step a (.call t op) { a with phase := Function.update a.phase t (.called op) }
  | point {a : SpecState Val ι Op Ret} {t : ι} {op : Op} {r : Ret} {v : Val}
      (h : a.phase t = .called op) (happly : O.apply a.val op r v) :
      Step a (.point t op r) { val := v, phase := Function.update a.phase t (.done r) }
  | ret {a : SpecState Val ι Op Ret} {t : ι} {r : Ret} (h : a.phase t = .done r) :
      Step a (.ret t r) { a with phase := Function.update a.phase t .idle }

/-- The canonical automaton of a sequential object that starts with value `v₀`. -/
def automaton (v₀ : Val) : LTS (SpecState Val ι Op Ret) (MarkEvent ι Op Ret) where
  init a := a = ⟨v₀, fun _ => .idle⟩
  step := O.Step

/-- `h` is linearizable: it is a marked history of the object with the points
forgotten. -/
def Linearizable (v₀ : Val) (h : List (HistEvent ι Op Ret)) : Prop :=
  ∃ tr a, (O.automaton v₀).Path ⟨v₀, fun _ => .idle⟩ tr a ∧
    (tr.map Prod.snd).filterMap MarkEvent.erase = h

/-- The canonical automaton matches one step of a system, whose visible part is
`e`: by the same event, or, where nothing is visible, by a point or not at all. -/
def Matches (e : Option (HistEvent ι Op Ret)) (a a' : SpecState Val ι Op Ret) : Prop :=
  match e with
  | some e => O.Step a (.ofHist e) a'
  | none => a' = a ∨ ∃ t op r, O.Step a (.point t op r) a'

variable {O}

theorem Matches.path {e : Option (HistEvent ι Op Ret)} {v₀ : Val}
    {a₀ a a' : SpecState Val ι Op Ret} {tr : List (SpecState Val ι Op Ret × MarkEvent ι Op Ret)}
    (hm : O.Matches e a a') (hp : (O.automaton v₀).Path a₀ tr a) :
    ∃ tr', (O.automaton v₀).Path a₀ tr' a' ∧
      (tr'.map Prod.snd).filterMap MarkEvent.erase =
        (tr.map Prod.snd).filterMap MarkEvent.erase ++ e.toList := by
  cases e with
  | some e => exact ⟨_, hp.snoc hm, by simp⟩
  | none =>
    rcases hm with rfl | ⟨t, op, r, hs⟩
    · exact ⟨tr, hp, by simp⟩
    · exact ⟨_, hp.snoc hs, by simp⟩

/-- **Forward simulation**: if every step of `M` is matched by the canonical
automaton, every history of `M` is linearizable. -/
theorem linearizable_of_simulation {S L : Type*} {M : LTS S L}
    (hist : L → Option (HistEvent ι Op Ret)) (R : S → SpecState Val ι Op Ret → Prop)
    (hstep : ∀ s l s' a, R s a → M.step s l s' → ∃ a', R s' a' ∧ O.Matches (hist l) a a')
    {v₀ : Val} {s₀ s : S} {tr : List (S × L)} (h₀ : R s₀ ⟨v₀, fun _ => .idle⟩)
    (hp : M.Path s₀ tr s) :
    O.Linearizable v₀ ((tr.map Prod.snd).filterMap hist) := by
  suffices h : ∃ a tr', R s a ∧ (O.automaton v₀).Path ⟨v₀, fun _ => .idle⟩ tr' a ∧
      (tr'.map Prod.snd).filterMap MarkEvent.erase = (tr.map Prod.snd).filterMap hist by
    obtain ⟨a, tr', -, hp', he⟩ := h
    exact ⟨tr', a, hp', he⟩
  induction hp with
  | nil => exact ⟨_, [], h₀, .nil, rfl⟩
  | @snoc s s' tr l _ hs ih =>
    obtain ⟨a, tr', hR, hp', he⟩ := ih
    obtain ⟨a', hR', hm⟩ := hstep s l s' a hR hs
    obtain ⟨tr'', hp'', he'⟩ := hm.path hp'
    refine ⟨a', tr'', hR', hp'', ?_⟩
    rw [he', he]
    cases hl : hist l <;> simp [hl]

end SeqObject

end Propd.Lib
