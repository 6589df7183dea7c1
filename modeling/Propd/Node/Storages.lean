import Propd.Node.RouteSafety

/-!
# The life of a storage

A storage that a node builds belongs to the `register_child` that built it, then to an item of the
route table, and is destructed in the end. This module follows the storages along a run: all
of them are accounted for exactly as long as no `register_child` gets through without a prefix
to register. Such a child returns 0, so its cleanup handler is popped without running, but
there was no `route_register` to hand the storage to.
-/

namespace Propd

open Lib

variable {σ ι : Type} [Fintype ι] [DecidableEq ι] {env : StorageEnv σ}

/-- The storages of a run that began in `n₀`: those of its table, and those built since. -/
def Node.Built (n₀ n : Node σ ι) (p : ℕ) : Prop :=
  p ∈ n₀.shared.route.instances ∨ (n₀.nextPriv ≤ p ∧ p < n.nextPriv)

/-- Every storage has one owner, or was destructed once. -/
structure StoragesOwned (n₀ n : Node σ ι) : Prop where
  /-- once the `register_child` that built it is over, one item of the table owns it, or its
  destructor ran once -/
  accounted : ∀ p, Node.Built n₀ n p → owners p n.tasks = 0 →
    (n.shared.route.instances.count p = 1 ∧ p ∉ n.destructed) ∨
      (p ∉ n.shared.route.instances ∧ n.destructed.count p = 1)
  /-- before that it belongs to this `register_child` alone -/
  building : ∀ p, owners p n.tasks ≠ 0 →
    owners p n.tasks = 1 ∧ p ∉ n.shared.route.instances ∧ p ∉ n.destructed
  /-- no destructor runs twice -/
  once : ∀ p, n.destructed.count p ≤ 1
  /-- no operation calls a storage that is destructed -/
  used : ∀ t f, (n.tasks t).frame = some f → f.pc = .storage →
    ∃ storage, f.target n.shared.route = .ok storage ∧ storage.priv ∉ n.destructed

/-- In how many hands a storage is. -/
def Node.hands (n : Node σ ι) (p : ℕ) : ℕ :=
  n.kept p + owners p n.tasks

omit [DecidableEq ι] in
theorem OwnInv.hands_le {n : Node σ ι} (h : OwnInv n) (p : ℕ) : n.hands p ≤ 1 := by
  have hu := h.unique p
  simp only [Node.hands, Node.kept]
  omega

omit [DecidableEq ι] in
/-- The number of hands a storage is in changes only where it is built or dropped. -/
theorem HandMove.hands {n n' : Node σ ι} {a : Action ι} (h : HandMove n a n') :
    (¬ n.drops a ∧ n'.nextPriv = n.nextPriv ∧ ∀ p, n'.hands p = n.hands p) ∨
      (¬ n.drops a ∧ n'.nextPriv = n.nextPriv + 1 ∧
        n'.hands n.nextPriv = n.hands n.nextPriv + 1 ∧
        ∀ p, p ≠ n.nextPriv → n'.hands p = n.hands p) ∨
      (n.drops a ∧ n'.nextPriv = n.nextPriv ∧ (∀ p, n'.hands p ≤ n.hands p) ∧
        ∃ q, n'.hands q + 1 = n.hands q) := by
  cases h with
  | quiet hkeep hnext _ hkept howned =>
    refine .inl ⟨hkeep, hnext, fun p => ?_⟩
    rw [Node.hands, hkept, howned, Node.hands]
  | built hkeep hnext _ hkept howned =>
    refine .inr (.inl ⟨hkeep, hnext, ?_, fun p hp => ?_⟩)
    · rw [Node.hands, hkept, howned, List.count_singleton_self, Node.hands]
      omega
    · rw [Node.hands, hkept, howned, List.count_singleton, if_neg (by simpa using Ne.symm hp),
        Node.hands]
      omega
  | @given q hkeep hnext _ hkept howned =>
    refine .inl ⟨hkeep, hnext, fun p => ?_⟩
    have hk := hkept p
    have ho := howned p
    simp only [Node.hands]
    omega
  | @lost q hdrop hnext _ hkept howned =>
    refine .inr (.inr ⟨hdrop, hnext, fun p => ?_, q, ?_⟩)
    · have hk := hkept p
      have ho := howned p
      simp only [Node.hands]
      omega
    · have hk := hkept q
      have ho := howned q
      rw [List.count_singleton_self] at ho
      simp only [Node.hands]
      omega

/-- Along a run: every storage is in one hand as long as none was dropped; then one is in none. -/
structure HandInv (n₀ : Node σ ι) (tr : List (Node σ ι × Action ι)) (n : Node σ ι) : Prop where
  own : OwnInv n
  next : n₀.nextPriv ≤ n.nextPriv
  bound : ∀ p, Node.Built n₀ n p → p < n.nextPriv
  built : ∀ p, n.hands p ≠ 0 → Node.Built n₀ n p
  kept : (∀ x ∈ tr, ¬ x.1.drops x.2) → ∀ p, Node.Built n₀ n p → n.hands p = 1
  lost : ∀ x ∈ tr, x.1.drops x.2 → ∃ p, Node.Built n₀ n p ∧ n.hands p = 0

omit [DecidableEq ι] in
theorem HandInv.start {n₀ : Node σ ι} (h : n₀.Starts) : HandInv n₀ [] n₀ := by
  have hown := h.ownInv
  have hbound : ∀ p, Node.Built n₀ n₀ p → p < n₀.nextPriv := by
    rintro p (hmem | ⟨-, hlt⟩)
    · obtain ⟨item, hitem, rfl⟩ := List.mem_map.mp hmem
      exact h.nextPriv item hitem
    · exact hlt
  refine ⟨hown, le_rfl, hbound, fun p hp => .inl ?_, fun _ p hp => ?_,
    fun x hx => absurd hx List.not_mem_nil⟩
  · -- no task runs, and no destructor ran
    have howners : owners p n₀.tasks = 0 := by
      refine (countThreads_eq_zero _).mpr fun t => ?_
      rw [h.tasks t]
      nofun
    rw [Node.hands, Node.kept, h.destructed, List.count_nil, howners] at hp
    exact List.count_pos_iff.mp (Nat.pos_of_ne_zero (by simpa using hp))
  · rcases hp with hmem | ⟨hle, hlt⟩
    · have hkept : n₀.kept p = 1 := hown.registered p (by rw [h.registered]; exact hmem)
      have hle := hown.hands_le p
      simp only [Node.hands] at hle ⊢
      omega
    · exact absurd hlt (Nat.not_lt.mpr hle)

/-- **One step** of a run. -/
theorem HandInv.step {n₀ n n' : Node σ ι} {tr : List (Node σ ι × Action ι)} {a : Action ι}
    (h : HandInv n₀ tr n) (hs : NodeStep env n a n') : HandInv n₀ (tr ++ [(n, a)]) n' := by
  have hown := hs.ownInv h.own
  have hlast : (n, a) ∈ tr ++ [(n, a)] := List.mem_append_right _ (List.mem_singleton_self _)
  have hbefore : (∀ x ∈ tr ++ [(n, a)], ¬ x.1.drops x.2) → ∀ p, Node.Built n₀ n p →
      n.hands p = 1 := fun hnone => h.kept fun x hx => hnone x (List.mem_append_left _ hx)
  have hcases : ∀ x ∈ tr ++ [(n, a)], x ∈ tr ∨ x = (n, a) := fun x hx =>
    (List.mem_append.mp hx).imp_right List.mem_singleton.mp
  rcases hs.handMove.hands with ⟨hkeep, hnext, hhands⟩ | ⟨hkeep, hnext, hnew, hhands⟩ |
      ⟨hdrop, hnext, hhands, q, hq⟩
  · -- every storage stays in its hand
    have hsame : ∀ p, Node.Built n₀ n' p ↔ Node.Built n₀ n p := by
      intro p
      rw [Node.Built, Node.Built, hnext]
    refine ⟨hown, hnext ▸ h.next, fun p hp => hnext ▸ h.bound p ((hsame p).mp hp),
      fun p hp => (hsame p).mpr (h.built p (hhands p ▸ hp)), fun hnone p hp => ?_,
      fun x hx hdrop => ?_⟩
    · rw [hhands]
      exact hbefore hnone p ((hsame p).mp hp)
    · rcases hcases x hx with hold | rfl
      · obtain ⟨p, hp, hzero⟩ := h.lost x hold hdrop
        exact ⟨p, (hsame p).mpr hp, by rw [hhands, hzero]⟩
      · exact absurd hdrop hkeep
  · -- one more storage is built
    have hmore : ∀ p, Node.Built n₀ n' p ↔ Node.Built n₀ n p ∨ p = n.nextPriv := by
      intro p
      have hle := h.next
      rw [Node.Built, Node.Built, hnext, or_assoc]
      refine or_congr_right ?_
      omega
    have hfresh : n.hands n.nextPriv = 0 := by
      have hf := h.own.fresh n.nextPriv le_rfl
      simp only [Node.hands, Node.kept]
      omega
    have hold : ∀ p, Node.Built n₀ n p → n'.hands p = n.hands p :=
      fun p hp => hhands p (h.bound p hp).ne
    refine ⟨hown, hnext ▸ h.next.trans (Nat.le_succ _), fun p hp => ?_, fun p hp => ?_,
      fun hnone p hp => ?_, fun x hx hdrop => ?_⟩
    · rcases (hmore p).mp hp with hp | rfl
      · exact (h.bound p hp).trans (by omega)
      · omega
    · by_cases hne : p = n.nextPriv
      · exact (hmore p).mpr (.inr hne)
      · exact (hmore p).mpr (.inl (h.built p (hhands p hne ▸ hp)))
    · rcases (hmore p).mp hp with hp | rfl
      · rw [hold p hp]
        exact hbefore hnone p hp
      · rw [hnew, hfresh]
    · rcases hcases x hx with hmem | rfl
      · obtain ⟨p, hp, hzero⟩ := h.lost x hmem hdrop
        exact ⟨p, (hmore p).mpr (.inl hp), by rw [hold p hp, hzero]⟩
      · exact absurd hdrop hkeep
  · -- a storage is dropped, and is not found again
    have hsame : ∀ p, Node.Built n₀ n' p ↔ Node.Built n₀ n p := by
      intro p
      rw [Node.Built, Node.Built, hnext]
    refine ⟨hown, hnext ▸ h.next, fun p hp => hnext ▸ h.bound p ((hsame p).mp hp), fun p hp => ?_,
      fun hnone => absurd hdrop (hnone _ hlast), fun x hx _ => ⟨q, ?_, ?_⟩⟩
    · have hle := hhands p
      exact (hsame p).mpr (h.built p (by omega))
    · exact (hsame q).mpr (h.built q (by omega))
    · have hone := h.own.hands_le q
      omega

/-- **The life of a storage**: after a run every storage has one owner or was destructed once, none
was destructed twice and none is used after that, exactly where no `register_child` got
through without a prefix to register. -/
theorem storages_owned_iff {n₀ n : Node σ ι} {tr : List (Node σ ι × Action ι)} (h₀ : n₀.Starts)
    (h : (nodeSystem env).Path n₀ tr n) :
    StoragesOwned n₀ n ↔ ∀ x ∈ tr, ¬ x.1.drops x.2 := by
  have hinv : HandInv n₀ tr n := h.invariant (I := HandInv n₀) (.start h₀)
    fun _ _ _ _ _ hinv hs => hinv.step (nodeStep_cases hs)
  constructor
  · intro howned x hx hdrop
    -- what was dropped is in no hand, and belongs to no `register_child`
    obtain ⟨p, hp, hzero⟩ := hinv.lost x hx hdrop
    rw [Node.hands, Node.kept] at hzero
    rcases howned.accounted p hp (by omega) with ⟨htable, -⟩ | ⟨-, hdestructed⟩
    · omega
    · omega
  · intro hnone
    have hkept := hinv.kept hnone
    simp only [Node.hands, Node.kept] at hkept
    refine ⟨fun p hp hover => ?_, fun p hp => ?_, fun p => ?_, fun t f => ?_⟩
    · have hone := hkept p hp
      by_cases htable : n.shared.route.instances.count p = 0
      · exact .inr ⟨List.count_eq_zero.mp htable, by omega⟩
      · exact .inl ⟨by omega, List.count_eq_zero.mp (by omega)⟩
    · have hle := hinv.own.unique p
      exact ⟨by omega, List.count_eq_zero.mp (by omega), List.count_eq_zero.mp (by omega)⟩
    · have hle := hinv.own.unique p
      omega
    · exact (refInv_of_reachable ⟨n₀, tr, h₀, h⟩).target_live hinv.own

section Example

/-- Inputs of a step in which the storage has the value of the example. -/
def exampleFetch : Inputs := exampleInputs 0 (.ok (exampleValue, 0))

/-- A child with one key to fetch, in `steps` steps of its `register_child`, which returns 0. -/
def exampleRegister (prefixes : List CString) (steps : ℕ) : List (Action (Fin 1)) :=
  let t : Fin 1 := ⟨0, Nat.one_pos⟩
  .register t exampleListener [exampleKey] prefixes ::
    (List.replicate steps (.step t exampleFetch) ++ [.ret t (.ok none)])

/-- A child with a prefix: the table owns its storage, and that of the start. -/
theorem storages_owned_registered :
    ∃ n tr, (nodeSystem cellEnv).Path (exampleNode (Fin 1) (some exampleValue)) tr n ∧
      n.shared.route.instances = [1, 0] ∧
      StoragesOwned (exampleNode (Fin 1) (some exampleValue)) n ∧
      ∀ x ∈ tr, ¬ x.1.drops x.2 := by
  obtain ⟨n, hrun, htable⟩ : ∃ n,
      LTS.exec (LTS.stepsOk (nodeStep cellEnv)) (exampleNode (Fin 1) (some exampleValue))
        (exampleRegister [exampleAny] 10) = some n ∧
      n.shared.route.instances = [1, 0] ∧ n.destructed = [] ∧ n.nextPriv = 2 ∧
      n.tasks 0 = .idle := ⟨_, rfl, rfl, rfl, rfl, rfl⟩
  obtain ⟨hinstances, hdestructed, hnext, hidle⟩ := htable
  obtain ⟨tr, hpath, -⟩ := LTS.exec_path (M := nodeSystem cellEnv)
    (fun _ _ _ => LTS.stepsOk_eq_some) hrun
  have howners : ∀ p, owners p n.tasks = 0 := by
    intro p
    refine (countThreads_eq_zero _).mpr fun t => ?_
    rw [Subsingleton.elim t 0, hidle]
    nofun
  -- both storages are in the table, and no task runs
  have howned : StoragesOwned (exampleNode (Fin 1) (some exampleValue)) n := by
    refine ⟨fun p hp _ => .inl ?_, fun p hp => absurd (howners p) hp, fun p => ?_, fun t f hf => ?_⟩
    · rw [hinstances, hdestructed]
      have hcases : p = 0 ∨ p = 1 := by
        rcases hp with hmem | ⟨hge, hlt⟩
        · exact .inl (List.mem_singleton.mp hmem)
        · have hge' : 1 ≤ p := hge
          omega
      rcases hcases with rfl | rfl
      · exact ⟨rfl, List.not_mem_nil⟩
      · exact ⟨rfl, List.not_mem_nil⟩
    · rw [hdestructed]
      exact Nat.zero_le _
    · rw [Subsingleton.elim t 0, hidle] at hf
      cases hf
  exact ⟨n, tr, hpath, hinstances, howned,
    (storages_owned_iff (exampleNode_starts _) hpath).mp howned⟩

/-- A child without a prefix: its `register_child` has returned 0, and nobody has its storage. -/
theorem storages_lost :
    ∃ n tr, (nodeSystem cellEnv).Path (exampleNode (Fin 1) (some exampleValue)) tr n ∧
      n.tasks 0 = .idle ∧ n.shared.route.instances = [0] ∧ n.destructed = [] ∧
      ¬ StoragesOwned (exampleNode (Fin 1) (some exampleValue)) n := by
  obtain ⟨n, hrun, htable⟩ : ∃ n,
      LTS.exec (LTS.stepsOk (nodeStep cellEnv)) (exampleNode (Fin 1) (some exampleValue))
        (exampleRegister [] 9) = some n ∧
      n.shared.route.instances = [0] ∧ n.destructed = [] ∧ n.nextPriv = 2 ∧
      n.tasks 0 = .idle := ⟨_, rfl, rfl, rfl, rfl, rfl⟩
  obtain ⟨hinstances, hdestructed, hnext, hidle⟩ := htable
  obtain ⟨tr, hpath, -⟩ := LTS.exec_path (M := nodeSystem cellEnv)
    (fun _ _ _ => LTS.stepsOk_eq_some) hrun
  refine ⟨n, tr, hpath, hidle, hinstances, hdestructed, fun howned => ?_⟩
  have hover : owners 1 n.tasks = 0 := by
    refine (countThreads_eq_zero _).mpr fun t => ?_
    rw [Subsingleton.elim t 0, hidle]
    nofun
  have hbuilt : Node.Built (exampleNode (Fin 1) (some exampleValue)) n 1 :=
    .inr ⟨le_rfl, by rw [hnext]; exact Nat.lt_succ_self 1⟩
  rcases howned.accounted 1 hbuilt hover with ⟨htable, -⟩ | ⟨-, hgone⟩
  · rw [hinstances] at htable
    cases htable
  · rw [hdestructed] at hgone
    cases hgone

end Example

end Propd
