import Propd.Node.References
import Mathlib.Data.List.Perm.Basic

/-!
# Who destructs a storage

Every storage a node builds is in one hand at a time: the `register_child` that built
it, an item of the route table, or nobody's any more once its destructor ran. A step
moves it from one hand to the next and never copies it, so a destructor runs at most
once. What the table took over stays in the table until it is destructed.

A child without prefixes is a leak: its storage is neither registered nor destructed.
-/

namespace Propd

open Lib

variable {σ ι : Type} [Fintype ι] {env : StorageEnv σ}

/-- The storages in the table, by their instances. -/
def RouteList.instances (list : RouteList) : List ℕ :=
  list.map fun item => item.storage.priv

/-- The tasks that own the storage `p`. -/
def owners (p : ℕ) (tasks : ι → Task) : ℕ :=
  countThreads (fun task : Task => task.owned = some p) tasks

/-- A storage is in at most one hand, one that is not built yet is in none, and one the
table took over is in the table or destructed. -/
structure OwnInv (n : Node σ ι) : Prop where
  unique : ∀ p, n.shared.route.instances.count p + owners p n.tasks + n.destructed.count p ≤ 1
  fresh : ∀ p, n.nextPriv ≤ p →
    n.shared.route.instances.count p + owners p n.tasks + n.destructed.count p = 0
  registered : ∀ p ∈ n.registered,
    n.shared.route.instances.count p + n.destructed.count p = 1

namespace OwnInv

section Moves

variable [DecidableEq ι] {n : Node σ ι} {t : ι} {task : Task}

theorem owners_update_same (h : task.owned = (n.tasks t).owned) (p : ℕ) :
    owners p (n.withTask t task).tasks = owners p n.tasks :=
  countThreads_update_of_iff _ (by rw [h])

/-- A task that gives away the storage `q` loses only this one. -/
theorem owners_update_lose (task : Task) {q : ℕ} (hbefore : (n.tasks t).owned = some q)
    (hafter : task.owned = none) (p : ℕ) :
    owners p (n.withTask t task).tasks + [q].count p = owners p n.tasks := by
  by_cases hp : p = q
  · subst hp
    rw [List.count_singleton_self]
    exact countThreads_update_lose (fun task : Task => task.owned = some p)
      (by rw [hafter]; nofun) hbefore
  · rw [List.count_singleton, if_neg (by simpa using Ne.symm hp)]
    refine countThreads_update_of_iff (fun task : Task => task.owned = some p)
      (iff_of_false ?_ ?_)
    · rw [hafter]
      nofun
    · rw [hbefore]
      exact fun he => hp (Option.some.inj he).symm

/-- A task that builds the storage `q` gains only this one. -/
theorem owners_update_gain (task : Task) {q : ℕ} (hbefore : (n.tasks t).owned = none)
    (hafter : task.owned = some q) (p : ℕ) :
    owners p (n.withTask t task).tasks = owners p n.tasks + [q].count p := by
  by_cases hp : p = q
  · subst hp
    rw [List.count_singleton_self]
    exact countThreads_update_gain _ hafter (by rw [hbefore]; nofun)
  · rw [List.count_singleton, if_neg (by simpa using Ne.symm hp)]
    refine countThreads_update_of_iff (fun task : Task => task.owned = some p)
      (iff_of_false ?_ ?_)
    · rw [hafter]
      exact fun he => hp (Option.some.inj he).symm
    · rw [hbefore]
      nofun

end Moves

end OwnInv

theorem Task.owned_withFrame {task : Task} {f : IoFrame} (hf : task.frame = some f) (f' : IoFrame) :
    (task.withFrame f').owned = task.owned := by
  rcases Task.frame_eq_some hf with rfl | ⟨c, rfl, hpc⟩
  · rfl
  · simp only [Task.withFrame, Task.owned, hpc]

theorem Task.owned_child {c : ChildFrame} (h : c.pc ≠ .done) :
    (Task.child c).owned = some c.storage.priv := by
  cases hpc : c.pc with
  | done => exact absurd hpc h
  | _ => simp only [Task.owned, hpc]

theorem owned_of_taskEnd {task : Task} {e : Bool × IoResult} (h : taskEnd task = some e) :
    task.owned = none := by
  rcases taskEnd_eq_some h with ⟨f, rfl, -, -⟩ | ⟨c, rfl, hpc, -⟩
  · rfl
  · simp only [Task.owned, hpc]

omit [Fintype ι] in
theorem IoStep.instances {t : ι} {inp : Inputs} {sh sh' : Shared σ ι} {f f' : IoFrame}
    (h : IoStep env t inp sh f sh' f') : sh'.route.instances = sh.route.instances := by
  have haddRef : ∀ addr d, (sh.route.addRef addr d).instances = sh.route.instances :=
    fun addr d => RouteList.addRef_map _ (fun _ _ => rfl) _ addr d
  cases h with
  | matched => exact haddRef _ _
  | dereffed => exact haddRef _ _
  | _ => rfl

/-- How often the storage `p` is in the table, or destructed. -/
def Node.kept (n : Node σ ι) (p : ℕ) : ℕ :=
  n.shared.route.instances.count p + n.destructed.count p

/-- In this step a `register_child` that has fetched its keys has no prefixes to register. -/
def Node.drops (n : Node σ ι) : Action ι → Prop
  | .step t _ => ∃ c, n.tasks t = .child c ∧ c.pc = .update ∧ c.cacheNow = [] ∧ c.prefixes = []
  | _ => False

/-- What a step does with the storages: nothing; a `register_child` builds one; it gives the one
it has built to the table or to the destructor; or it drops it. -/
inductive HandMove (n : Node σ ι) (a : Action ι) (n' : Node σ ι) : Prop
  | quiet (hkeep : ¬ n.drops a) (hnext : n'.nextPriv = n.nextPriv)
      (hreg : n'.registered = n.registered) (hkept : ∀ p, n'.kept p = n.kept p)
      (howned : ∀ p, owners p n'.tasks = owners p n.tasks)
  | built (hkeep : ¬ n.drops a) (hnext : n'.nextPriv = n.nextPriv + 1)
      (hreg : n'.registered = n.registered) (hkept : ∀ p, n'.kept p = n.kept p)
      (howned : ∀ p, owners p n'.tasks = owners p n.tasks + [n.nextPriv].count p)
  | given {q : ℕ} (hkeep : ¬ n.drops a) (hnext : n'.nextPriv = n.nextPriv)
      (hreg : ∀ p ∈ n'.registered, p = q ∨ p ∈ n.registered)
      (hkept : ∀ p, n'.kept p = n.kept p + [q].count p)
      (howned : ∀ p, owners p n'.tasks + [q].count p = owners p n.tasks)
  | lost {q : ℕ} (hdrop : n.drops a) (hnext : n'.nextPriv = n.nextPriv)
      (hreg : n'.registered = n.registered) (hkept : ∀ p, n'.kept p = n.kept p)
      (howned : ∀ p, owners p n'.tasks + [q].count p = owners p n.tasks)

omit [Fintype ι] in
/-- A `register_child` that is somewhere else drops nothing. -/
theorem Node.not_drops {n : Node σ ι} {t : ι} {inp : Inputs} {c : ChildFrame}
    (hc : n.tasks t = .child c)
    (hpc : c.pc = .update → c.cacheNow = [] → c.prefixes ≠ []) : ¬ n.drops (.step t inp) := by
  rintro ⟨c', hc', hpc', hnow, hpre⟩
  cases hc.symm.trans hc'
  exact hpc hpc' hnow hpre

/-- A `register_child` goes on with the storage it has built. -/
theorem HandMove.goesOn [DecidableEq ι] {n : Node σ ι} {t : ι} {inp : Inputs} {c c' : ChildFrame}
    (hc : n.tasks t = .child c) (hpc : c.pc ≠ .done) (hpc' : c'.pc ≠ .done)
    (hstorage : c'.storage = c.storage)
    (hkeep : c.pc = .update → c.cacheNow = [] → c.prefixes ≠ []) :
    HandMove n (.step t inp) (n.withTask t (.child c')) := by
  refine .quiet (Node.not_drops hc hkeep) rfl rfl (fun _ => rfl) fun p => ?_
  apply OwnInv.owners_update_same
  rw [hc, Task.owned_child hpc, Task.owned_child hpc', hstorage]

/-- A `register_child` that is through has no storage any more. -/
theorem Node.owners_done [DecidableEq ι] {n : Node σ ι} {t : ι} {c : ChildFrame}
    (hc : n.tasks t = .child c) (hpc : c.pc ≠ .done) (p : ℕ) :
    owners p (n.withTask t (.child { c with pc := .done })).tasks + [c.storage.priv].count p =
      owners p n.tasks := by
  apply OwnInv.owners_update_lose
  · rw [hc, Task.owned_child hpc]
  · rfl

/-- **What a step does with the storages.** -/
theorem NodeStep.handMove [DecidableEq ι] {n n' : Node σ ι} {a : Action ι}
    (hs : NodeStep env n a n') : HandMove n a n' := by
  have hsame : ∀ {t : ι} {task : Task}, task.owned = (n.tasks t).owned →
      ∀ p, owners p (n.withTask t task).tasks = owners p n.tasks :=
    fun he p => OwnInv.owners_update_same he p
  cases hs with
  | call hidle => exact .quiet id rfl rfl (fun _ => rfl) (hsame (by rw [hidle]; rfl))
  | @register t name cacheNow prefixes hidle =>
    exact .built id rfl rfl (fun _ => rfl) (OwnInv.owners_update_gain (q := n.nextPriv) _
      (by rw [hidle]; rfl) rfl)
  | @frame t inp f f' sh hf hs =>
    refine .quiet ?_ rfl rfl (fun p => ?_) (hsame (Task.owned_withFrame hf _))
    · -- a child in `io_update` is not between two of them
      rintro ⟨c, hc, hpc, -⟩
      rw [hc, Task.frame, hpc] at hf
      cases hf
    · show sh.route.instances.count p + _ = _
      rw [hs.instances]
      rfl
  | nextKey hc hpc hnow =>
    refine .goesOn hc (by simp [hpc]) (by simp) rfl fun _ hnil => ?_
    rw [hnow] at hnil
    cases hnil
  | lastKey hc hpc hnow hpre =>
    exact .goesOn hc (by simp [hpc]) (by simp) rfl fun _ _ => hpre
  | noPrefixes hc hpc hnow hpre =>
    exact .lost ⟨_, hc, hpc, hnow, hpre⟩ rfl rfl (fun _ => rfl)
      (Node.owners_done hc (by simp [hpc]))
  | updated hc hpc =>
    exact .goesOn hc (by simp [hpc]) (by simp) rfl (by simp [hpc])
  | updateFailed hc hpc =>
    exact .goesOn hc (by simp [hpc]) (by simp) rfl (by simp [hpc])
  | registerFailed hc hpc =>
    exact .goesOn hc (by simp [hpc]) (by simp) rfl (by simp [hpc])
  | @registered t _ c hc hpc =>
    refine .given (q := c.storage.priv) (Node.not_drops hc (by simp [hpc])) rfl
      (fun p hp => List.mem_cons.mp hp) (fun p => ?_) (Node.owners_done hc (by simp [hpc]))
    · -- the table gains what the task loses
      simp only [Node.kept, Node.withTask, RouteList.instances, List.map_cons, List.count_cons,
        List.count_nil]
      omega
  | @destructed t _ c hc hpc =>
    refine .given (q := c.storage.priv) (Node.not_drops hc (by simp [hpc])) rfl
      (fun p hp => .inr hp) (fun p => ?_) (Node.owners_done hc (by simp [hpc]))
    · simp only [Node.kept, Node.withTask, List.count_cons, List.count_nil]
      omega
  | ret hend =>
    exact .quiet id rfl rfl (fun _ => rfl) (hsame (owned_of_taskEnd hend).symm)
  | cancel hf => exact .quiet id rfl rfl (fun _ => rfl) (hsame (Task.owned_withFrame hf _))
  | exit hend =>
    refine .quiet id rfl rfl (fun _ => rfl) (hsame ?_)
    rcases hend with hidle | ⟨r, hend⟩
    · rw [hidle]
      rfl
    · exact (owned_of_taskEnd hend).symm
  | @unregister name =>
    obtain ⟨left, gone, ret, hun⟩ : ∃ left gone ret,
        routeUnregister n.shared.route name = (left, gone, ret) := ⟨_, _, _, rfl⟩
    obtain ⟨-, hperm, -⟩ := routeUnregister_split hun
    -- what leaves the table is destructed
    have hsplit : ∀ p, n.shared.route.instances.count p =
        (gone.map fun item => item.storage.priv).count p + left.instances.count p := by
      intro p
      rw [RouteList.instances, (hperm.map _).count_eq, List.map_append, List.count_append]
      rfl
    simp only [unregisterStep, hun]
    refine .quiet id rfl rfl (fun p => ?_) fun _ => rfl
    have hcount := hsplit p
    simp only [Node.kept, List.count_append]
    omega
  | sweep => exact .quiet id rfl rfl (fun _ => rfl) fun _ => rfl

/-- **Every step keeps a storage in at most one hand.** -/
theorem NodeStep.ownInv [DecidableEq ι] {n n' : Node σ ι} {a : Action ι} (h : OwnInv n)
    (hs : NodeStep env n a n') : OwnInv n' := by
  have hunique := h.unique
  have hfresh := h.fresh
  have hregistered : ∀ p ∈ n.registered, n.kept p = 1 := h.registered
  cases hs.handMove with
  | quiet _ hnext hreg hkept howned =>
    simp only [Node.kept] at hkept
    refine ⟨fun p => ?_, fun p hp => ?_, fun p hp => ?_⟩
    · have hu := hunique p
      have hk := hkept p
      rw [howned p]
      omega
    · have hf := hfresh p (hnext ▸ hp)
      have hk := hkept p
      rw [howned p]
      omega
    · exact (hkept p).trans (hregistered p (hreg ▸ hp))
  | built _ hnext hreg hkept howned =>
    simp only [Node.kept] at hkept
    refine ⟨fun p => ?_, fun p hp => ?_, fun p hp => ?_⟩
    · have hk := hkept p
      rw [howned p, List.count_singleton]
      by_cases hp : n.nextPriv = p
      · have hf := hfresh p hp.le
        rw [if_pos (by simpa using hp)]
        omega
      · have hu := hunique p
        rw [if_neg (by simpa using hp)]
        omega
    · have hk := hkept p
      have hf := hfresh p (by omega)
      have hne : n.nextPriv ≠ p := by omega
      rw [howned p, List.count_singleton, if_neg (by simpa using hne)]
      omega
    · exact (hkept p).trans (hregistered p (hreg ▸ hp))
  | @given q _ hnext hreg hkept howned =>
    simp only [Node.kept] at hkept hregistered
    refine ⟨fun p => ?_, fun p hp => ?_, fun p hp => ?_⟩
    · have hu := hunique p
      have hk := hkept p
      have ho := howned p
      omega
    · have hf := hfresh p (hnext ▸ hp)
      have hk := hkept p
      have ho := howned p
      omega
    · have hu := hunique p
      have hk := hkept p
      have ho := howned p
      rcases hreg p hp with rfl | hold
      · rw [List.count_singleton_self] at hk ho
        omega
      · have hr := hregistered p hold
        omega
  | @lost q _ hnext hreg hkept howned =>
    simp only [Node.kept] at hkept
    refine ⟨fun p => ?_, fun p hp => ?_, fun p hp => ?_⟩
    · have hu := hunique p
      have hk := hkept p
      have ho := howned p
      omega
    · have hf := hfresh p (hnext ▸ hp)
      have hk := hkept p
      have ho := howned p
      omega
    · exact (hkept p).trans (hregistered p (hreg ▸ hp))

theorem Node.Starts.ownInv {n : Node σ ι} (h : n.Starts) : OwnInv n := by
  have hnone : ∀ p, owners p n.tasks = 0 := by
    intro p
    refine (countThreads_eq_zero _).mpr fun t => ?_
    rw [h.tasks t]
    nofun
  have hone : ∀ p, n.shared.route.instances.count p ≤ 1 :=
    List.nodup_iff_count_le_one.mp h.instances
  refine ⟨fun p => ?_, fun p hp => ?_, fun p hp => ?_⟩
  · rw [hnone, h.destructed, List.count_nil]
    exact hone p
  · have hout : p ∉ n.shared.route.instances := by
      intro hmem
      obtain ⟨item, hitem, rfl⟩ := List.mem_map.mp hmem
      exact absurd (h.nextPriv item hitem) (Nat.not_lt.mpr hp)
    rw [hnone, h.destructed, List.count_nil, List.count_eq_zero_of_not_mem hout]
  · rw [h.destructed, List.count_nil, Nat.add_zero]
    rw [h.registered] at hp
    exact Nat.le_antisymm (hone p) (List.one_le_count_iff.mpr hp)

/-- **In every reachable state a storage is in at most one hand.** -/
theorem ownInv_of_reachable [DecidableEq ι] {n : Node σ ι} (h : (nodeSystem env).Reachable n) :
    OwnInv n :=
  LTS.invariant (M := nodeSystem env) (fun _ h₀ => Node.Starts.ownInv h₀)
    (fun _ _ _ hi hs => (nodeStep_cases hs).ownInv hi) h

end Propd
