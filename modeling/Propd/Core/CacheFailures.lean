import Propd.Core.TimedMap
import Propd.Lib.Transition

/-!
# Allocations that fail

A `cache_set` allocates an item, a copy of the key and a copy of the value, and once more a copy
of the value if the key has an item already. Any of these can fail. A failure is clean if it is
as if the call had not been made.
-/

namespace Propd

open Lib

/-- A call of the cache with the outcome of its allocations, or a sweep of the cleaner. -/
inductive CacheCall
  | set (key : CString) (value : Value) (duration : Timestamp) (a : SetAlloc)
  | get (key : CString) (alloc : Bool)
  | del (key : CString)
  | sweep

namespace Cache

/-- One call at a reading of the clock; a get has an answer. -/
def perform (c : Cache) (now : Timestamp) : CacheCall → Except Fault (Cache × Option CacheAnswer)
  | .set key value duration a => (c.cacheSet key value duration now a).map fun r => (r.1, none)
  | .get key alloc => (c.cacheGet key now alloc).map fun r => (c, some (key, r))
  | .del key => .ok ((c.cacheDel key).1, none)
  | .sweep => .ok (c.cleanerSweep now, none)

/-- The answers the gets of a list of calls have. -/
def replies (c : Cache) : List (Timestamp × CacheCall) → Except Fault (List CacheAnswer)
  | [] => .ok []
  | (now, call) :: rest => do
    let (c', answer) ← c.perform now call
    let answers ← c'.replies rest
    .ok (answer.toList ++ answers)

/-- Every item has a value. -/
def Intact (c : Cache) : Prop :=
  ∀ key item, c.tree key = some item → item.value ≠ none

/-- A `cache_set` does not free what was never set, and if it returns an error every item still
has its value and every later get has the answer it would have had without the call. -/
structure FailsCleanly (c : Cache) (key : CString) (value : Value) (duration now : Timestamp)
    (a : SetAlloc) : Prop where
  safe : ∃ r, c.cacheSet key value duration now a = .ok r
  intact : ∀ c' e, c.cacheSet key value duration now a = .ok (c', .error e) → c'.Intact
  unnoticed : ∀ c' e, c.cacheSet key value duration now a = .ok (c', .error e) →
    ∀ later, c'.replies later = c.replies later

/-- The copy of the key does not fail where there is an item for it, and the value of an item of
the tree is not replaced by a copy that fails. -/
def Copies (c : Cache) (key : CString) (a : SetAlloc) : Prop :=
  a.item = true → a.key = true ∧ (a.value = true → c.tree key ≠ none → a.replacement = true)

/-! ## One call -/

variable {c c' : Cache} {key : CString} {value : Value} {duration now : Timestamp} {a : SetAlloc}

/-- A call that copies what it must is safe, and fails without a trace. -/
theorem Copies.cacheSet (h : c.Copies key a) (value : Value) (duration now : Timestamp) :
    c.cacheSet key value duration now a = .ok (c, .error ENOMEM) ∨
      c.cacheSet key value duration now a =
        .ok (c.put key (some (c.stored value duration now)), .ok ()) := by
  unfold Cache.cacheSet itemCreate
  by_cases hitem : a.item = true
  · obtain ⟨hkey, hvalue⟩ := h hitem
    by_cases hval : a.value = true
    · simp only [hitem, hkey, hval, Bool.not_true, Bool.false_eq_true, if_false]
      cases hold : c.tree key with
      | none => exact .inr rfl
      | some old =>
        simp only [hvalue hval (by simp [hold]), if_true]
        exact .inr rfl
    · rw [Bool.not_eq_true] at hval
      simp only [hitem, hkey, hval, Bool.not_true, Bool.not_false, Bool.false_eq_true, if_false,
        if_true]
      exact .inl trivial
  · rw [Bool.not_eq_true] at hitem
    simp only [hitem, Bool.not_false, if_true]
    exact .inl trivial

/-- **A `cache_set` that fails fails cleanly exactly where the copies it must not lose are
made.** -/
theorem failsCleanly_iff (h : c.Intact) :
    c.FailsCleanly key value duration now a ↔ c.Copies key a := by
  constructor
  · intro hclean hitem
    have hkey : a.key = true := by
      by_contra hkey
      rw [Bool.not_eq_true] at hkey
      -- the value pointer of the item was never set
      obtain ⟨r, hr⟩ := hclean.safe
      simp only [Cache.cacheSet, itemCreate, hitem, hkey, Bool.not_true, Bool.not_false,
        Bool.false_eq_true, if_false, if_true] at hr
      cases hr
    refine ⟨hkey, fun hvalue hmem => ?_⟩
    by_contra hrepl
    rw [Bool.not_eq_true] at hrepl
    -- the item that is there loses its value
    obtain ⟨old, hold⟩ := Option.ne_none_iff_exists'.mp hmem
    have hset : c.cacheSet key value duration now a =
        .ok (c.put key (some { old with value := none }), .error ENOMEM) := by
      simp only [Cache.cacheSet, itemCreate, hitem, hkey, hvalue, hold, hrepl, Bool.not_true,
        Bool.false_eq_true, if_false]
    exact hclean.intact _ _ hset key _ (put_tree_self ..) rfl
  · intro hcopies
    rcases hcopies.cacheSet value duration now with hset | hset
    · -- it fails, and the cache is the one it was
      refine ⟨⟨_, hset⟩, ?_, ?_⟩
      · intro c' e hret
        rw [hset] at hret
        cases hret
        exact h
      · intro c' e hret later
        rw [hset] at hret
        cases hret
        rfl
    · -- it succeeds
      refine ⟨⟨_, hset⟩, ?_, ?_⟩
      · intro c' e hret
        rw [hset] at hret
        cases hret
      · intro c' e hret
        rw [hset] at hret
        cases hret

/-! ## Runs -/

end Cache

/-- The cache under any calls, from an empty tree. -/
def cacheSystem : LTS Cache (Timestamp × CacheCall) where
  init c := ∀ key, c.tree key = none
  step c l c' := ∃ answer, c.perform l.1 l.2 = .ok (c', answer)

/-- A call that is a set fails cleanly. -/
def CacheCall.FailsCleanly (c : Cache) : Timestamp × CacheCall → Prop
  | (now, .set key value duration a) => c.FailsCleanly key value duration now a
  | _ => True

/-- A call that is a set makes the copies it must not lose. -/
def CacheCall.Copies (c : Cache) : Timestamp × CacheCall → Prop
  | (_, .set key _ _ a) => c.Copies key a
  | _ => True

variable {c₀ c c' : Cache} {tr : List (Cache × (Timestamp × CacheCall))} {l : Timestamp × CacheCall}

theorem CacheCall.failsCleanly_iff (h : c.Intact) :
    CacheCall.FailsCleanly c l ↔ CacheCall.Copies c l := by
  obtain ⟨now, call⟩ := l
  cases call with
  | set key value duration a => exact Cache.failsCleanly_iff h
  | get key alloc => exact Iff.rfl
  | del key => exact Iff.rfl
  | sweep => exact Iff.rfl

/-- A call that makes its copies leaves every item with a value. -/
theorem Cache.Intact.step (h : c.Intact) (hcopies : CacheCall.Copies c l)
    (hs : cacheSystem.step c l c') : c'.Intact := by
  obtain ⟨now, call⟩ := l
  obtain ⟨answer, hs⟩ := hs
  cases call with
  | set key value duration a =>
    obtain ⟨r, hset, heq⟩ := exceptMap_ok hs
    cases heq
    rcases Cache.Copies.cacheSet hcopies value duration now with hret | hret
    · rw [hret] at hset
      cases hset
      exact h
    · rw [hret] at hset
      cases hset
      intro key' item hitem
      rcases Cache.put_tree_eq_some hitem with ⟨-, hnew⟩ | ⟨-, hold⟩
      · cases hnew
        exact Option.some_ne_none _
      · exact h key' item hold
  | get key alloc =>
    obtain ⟨r, -, heq⟩ := exceptMap_ok hs
    cases heq
    exact h
  | del key =>
    cases hs
    rw [Cache.cacheDel_tree]
    intro key' item hitem
    rcases Cache.put_tree_eq_some hitem with ⟨-, hnew⟩ | ⟨-, hold⟩
    · cases hnew
    · exact h key' item hold
  | sweep =>
    cases hs
    intro key' item hitem
    exact h key' item (Cache.cleanerSweep_tree.mp hitem).1

/-- In a run whose sets make their copies every item has a value. -/
theorem cacheSystem_intact (h₀ : cacheSystem.init c₀) (hp : cacheSystem.Path c₀ tr c)
    (hcopies : ∀ x ∈ tr, CacheCall.Copies x.1 x.2) : c.Intact := by
  induction hp with
  | nil =>
    intro key item hitem
    rw [h₀ key] at hitem
    cases hitem
  | snoc hp hs ih =>
    have hbefore := ih fun x hx => hcopies x (List.mem_append_left _ hx)
    exact hbefore.step (hcopies _ (List.mem_append_right _ (List.mem_singleton_self _))) hs

/-- **Failed sets are clean exactly in the runs whose sets make their copies.** The calls of the
run are followed by one more, which may also free what was never set. -/
theorem cacheSet_failsCleanly_iff (h₀ : cacheSystem.init c₀) (hp : cacheSystem.Path c₀ tr c) :
    (∀ x ∈ tr ++ [(c, l)], CacheCall.FailsCleanly x.1 x.2) ↔
      ∀ x ∈ tr ++ [(c, l)], CacheCall.Copies x.1 x.2 := by
  -- up to the first set that loses a copy every item has a value
  have hrun : (∀ x ∈ tr, CacheCall.FailsCleanly x.1 x.2) ↔ ∀ x ∈ tr, CacheCall.Copies x.1 x.2 := by
    induction hp with
    | nil => simp
    | @snoc s s' tr k hp hs ih =>
      rw [List.forall_mem_append, List.forall_mem_append, List.forall_mem_singleton,
        List.forall_mem_singleton]
      rw [ih]
      refine and_congr_right fun hcopies => ?_
      exact CacheCall.failsCleanly_iff (cacheSystem_intact h₀ hp hcopies)
  rw [List.forall_mem_append, List.forall_mem_append, List.forall_mem_singleton,
    List.forall_mem_singleton, hrun]
  refine and_congr_right fun hcopies => ?_
  exact CacheCall.failsCleanly_iff (cacheSystem_intact h₀ hp hcopies)

section Example

/-- A set without memory for the copy of the value. -/
theorem cacheSet_failsCleanly_value :
    exampleCache.FailsCleanly exampleKey exampleValue 0 0 ⟨true, true, false, true⟩ := by
  have hiff := cacheSet_failsCleanly_iff (c := exampleCache)
    (l := (0, .set exampleKey exampleValue 0 ⟨true, true, false, true⟩)) (fun _ => rfl) .nil
  refine hiff.mpr ?_ _ (List.mem_append_right _ (List.mem_singleton_self _))
  intro x hx
  cases List.mem_singleton.mp hx
  exact fun _ => ⟨rfl, nofun⟩

/-- The copy of the key fails: the value pointer of the new item is freed before it is set. -/
theorem cacheSet_frees_unset :
    exampleCache.cacheSet exampleKey exampleValue 0 0 ⟨true, false, true, true⟩ =
      .error .uninitFree := rfl

/-- The item of a cache in which the example key was set. -/
def exampleFilled : Cache :=
  exampleCache.put exampleKey (some (exampleCache.stored exampleValue 0 0))

/-- The second copy of the value fails: the item stays without one, and the next get follows
`NULL`. -/
theorem cacheSet_fails_uncleanly :
    ¬exampleCache.FailsCleanly exampleKey exampleValue 0 0 ⟨true, false, true, true⟩ ∧
      exampleCache.cacheSet exampleKey exampleValue 0 0 .all = .ok (exampleFilled, .ok ()) ∧
      ¬exampleFilled.FailsCleanly exampleKey exampleValue 0 1 ⟨true, true, true, false⟩ ∧
      ∃ c, exampleFilled.cacheSet exampleKey exampleValue 0 1 ⟨true, true, true, false⟩ =
          .ok (c, .error ENOMEM) ∧
        exampleFilled.cacheGet exampleKey 2 true = .ok (.ok (exampleValue, 999999998)) ∧
        c.cacheGet exampleKey 2 true = .error .nullDeref := by
  refine ⟨?_, rfl, ?_, _, rfl, rfl, rfl⟩
  · intro h
    obtain ⟨r, hr⟩ := h.safe
    cases cacheSet_frees_unset.symm.trans hr
  · intro h
    cases h.unnoticed _ _ rfl [(2, .get exampleKey true)]

end Example

end Propd
