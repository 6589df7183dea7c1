import Propd.Node.Ownership

/-!
# Shutdown

The end of `__propd_run`: the server threads are stopped, every storage is unregistered,
the threads of the pool are cancelled and joined, and the route table is destroyed, which
asserts that it is empty. The pool keeps working meanwhile: a connection of the io server
goes on serving requests until its thread is cancelled, and tasks that are still queued
are started.

The result of `route_unregister` is not looked at. It leaves the table as it stands from
the first item an operation holds, and a `register_child` that comes later puts its
storage into a table nobody empties again. Both break the assertion; without them the
table is empty in the end, and every storage that was registered is destructed once.
-/

namespace Propd

open Lib

/-- A task of the thread pool: a connection of the io server, or a ctrl package. -/
inductive PoolTask
  | connection
  | registerChild (name : CString) (cacheNow prefixes : List CString)
  | unregisterChild (name : CString)

/-- How far the main thread is in its shutdown. -/
inductive ShutdownPhase
  | running
  | serversStopped
  | unregistered
  | cancelled
  | joined
  | destroyed
  deriving DecidableEq

/-- The threads are past `route_unregister(NULL)`. -/
def ShutdownPhase.pastUnregister : ShutdownPhase → Bool
  | running | serversStopped => false
  | _ => true

/-- A node with its pool: the tasks that wait, and which threads serve a connection. -/
structure Daemon (σ ι : Type) where
  node : Node σ ι
  queue : List PoolTask
  connected : ι → Bool
  phase : ShutdownPhase

/-- What can happen: a server submits a task, a thread takes one, a client disconnects, a
thread goes on, or the main thread does. -/
inductive DaemonAction (ι : Type)
  | submit (task : PoolTask)
  | pop (t : ι)
  | disconnect (t : ι)
  | node (a : Action ι)
  | stopServers
  | unregisterAll
  | cancelPool
  | joinPool
  | routeDestroy

variable {σ ι : Type} [Fintype ι] [DecidableEq ι] (env : StorageEnv σ)

def Task.isIdle : Task → Bool
  | idle => true
  | _ => false

def Task.isExited : Task → Bool
  | exited => true
  | _ => false

namespace Daemon

/-- The node takes a step. -/
def onNode (d : Daemon σ ι) (a : Action ι) : Option (Except Fault (Daemon σ ι)) :=
  (nodeStep env d.node a).map fun r => r.map fun n => { d with node := n }

/-- What a thread of the pool may do by itself. A call comes from a connection, a thread is
cancelled only after `thread_pool_destroy` has asked for it, and what starts a ctrl task
is `pop`. -/
def allowed (d : Daemon σ ι) : Action ι → Bool
  | .call t _ _ => d.connected t
  | .step _ _ | .ret _ _ | .sweep _ => true
  | .cancel _ _ | .exit _ => d.phase = .cancelled
  | .register _ _ _ _ | .unregister _ => false

end Daemon

/-- One step of the daemon. -/
def daemonStep (d : Daemon σ ι) : DaemonAction ι → Option (Except Fault (Daemon σ ι))
  | .submit task =>
    if d.phase = .running then some (.ok { d with queue := d.queue ++ [task] }) else none
  | .pop t =>
    if (d.node.tasks t).isIdle && !d.connected t then
      match d.queue with
      | [] => none
      | .connection :: rest =>
        some (.ok { d with queue := rest, connected := Function.update d.connected t true })
      | .registerChild name cacheNow prefixes :: rest =>
        -- an empty package is refused and nothing happens
        if cacheNow = [] ∧ prefixes = [] then some (.ok { d with queue := rest })
        else { d with queue := rest }.onNode env (.register t name cacheNow prefixes)
      | .unregisterChild name :: rest =>
        { d with queue := rest }.onNode env
          (.unregister (if name.bytes = [] then none else some name))
    else none
  | .disconnect t =>
    if d.connected t && (d.node.tasks t).isIdle then
      some (.ok { d with connected := Function.update d.connected t false })
    else none
  | .node a => if d.allowed a then d.onNode env a else none
  | .stopServers =>
    if d.phase = .running then some (.ok { d with phase := .serversStopped }) else none
  | .unregisterAll =>
    if d.phase = .serversStopped then
      { d with phase := .unregistered }.onNode env (.unregister none)
    else none
  | .cancelPool =>
    if d.phase = .unregistered then some (.ok { d with phase := .cancelled }) else none
  | .joinPool =>
    if d.phase = .cancelled ∧ ∀ t, (d.node.tasks t).isExited = true then
      some (.ok { d with phase := .joined })
    else none
  | .routeDestroy =>
    if d.phase = .joined then
      some ((routeDestroy d.node.shared.route).map fun _ => { d with phase := .destroyed })
    else none

/-- A daemon that starts. -/
structure Daemon.Starts (d : Daemon σ ι) : Prop where
  node : d.node.Starts
  queue : d.queue = []
  connected : ∀ t, d.connected t = false
  phase : d.phase = .running

/-- The runs of a daemon, from its start to the end of its shutdown. -/
def daemonSystem : LTS (Daemon σ ι) (DaemonAction ι) :=
  .ofSteps Daemon.Starts (daemonStep env)

/-! ## When the table ends up empty -/

/-- The next step of the task is a `route_register` that goes through. -/
def Task.registers (route : RouteList) (inp : Inputs) : Task → Bool
  | .child c =>
    match c.pc with
    | .register => inp.table && inp.item &&
        !(route.any fun item => item.storage.name = c.storage.name)
    | _ => false
  | _ => false

/-- The condition on the steps of a run: when every storage is unregistered no operation
holds an item of the table, and after that no registration goes through. -/
def orderly (d : Daemon σ ι) : DaemonAction ι → Bool
  | .unregisterAll => d.node.shared.route.all fun item => item.nref = 0
  | .node (.step t inp) =>
    !(d.phase.pastUnregister && (d.node.tasks t).registers d.node.shared.route inp)
  | _ => true

/-- What a step of the daemon does to its node and its phase. -/
inductive DaemonStep (d : Daemon σ ι) (l : DaemonAction ι) (d' : Daemon σ ι) : Prop
  | quiet (hnode : d'.node = d.node)
      (hphase : d'.phase.pastUnregister = true → d.phase.pastUnregister = true)
  | node {a : Action ι} (hstep : nodeStep env d.node a = some (.ok d'.node))
      (hphase : d'.phase = d.phase) (hlabel : ∀ t inp, a = .step t inp → l = .node a)
  | unregisterAll (hl : l = .unregisterAll)
      (hstep : nodeStep env d.node (.unregister none) = some (.ok d'.node))

variable {env}

omit [Fintype ι] in
theorem Daemon.onNode_ok {d d' : Daemon σ ι} {a : Action ι}
    (h : d.onNode env a = some (.ok d')) :
    nodeStep env d.node a = some (.ok d'.node) ∧ d'.phase = d.phase := by
  obtain ⟨r, hr, hmap⟩ := Option.map_eq_some_iff.mp h
  obtain ⟨n, rfl, rfl⟩ := exceptMap_ok hmap
  exact ⟨hr, rfl⟩

theorem daemonStep_cases {d d' : Daemon σ ι} {l : DaemonAction ι}
    (h : daemonStep env d l = some (.ok d')) : DaemonStep env d l d' := by
  cases l with
  | submit task =>
    simp only [daemonStep] at h
    split at h <;> cases h
    exact .quiet rfl id
  | pop t =>
    simp only [daemonStep] at h
    split at h
    · split at h
      · cases h
      · cases h
        exact .quiet rfl id
      · split at h
        · cases h
          exact .quiet rfl id
        · obtain ⟨hstep, hphase⟩ := Daemon.onNode_ok h
          exact .node hstep hphase fun _ _ he => by cases he
      · obtain ⟨hstep, hphase⟩ := Daemon.onNode_ok h
        exact .node hstep hphase fun _ _ he => by cases he
    · cases h
  | disconnect t =>
    simp only [daemonStep] at h
    split at h <;> cases h
    exact .quiet rfl id
  | node a =>
    simp only [daemonStep] at h
    split at h
    · obtain ⟨hstep, hphase⟩ := Daemon.onNode_ok h
      exact .node hstep hphase fun _ _ _ => rfl
    · cases h
  | stopServers =>
    simp only [daemonStep] at h
    split at h <;> cases h
    exact .quiet rfl nofun
  | unregisterAll =>
    simp only [daemonStep] at h
    split at h
    · exact .unregisterAll rfl (Daemon.onNode_ok h).1
    · cases h
  | cancelPool =>
    simp only [daemonStep] at h
    split at h
    · rename_i hphase
      cases h
      exact .quiet rfl fun _ => by rw [hphase]; rfl
    · cases h
  | joinPool =>
    simp only [daemonStep] at h
    split at h
    · rename_i hphase
      cases h
      exact .quiet rfl fun _ => by rw [hphase.1]; rfl
    · cases h
  | routeDestroy =>
    simp only [daemonStep] at h
    split at h
    · rename_i hphase
      obtain ⟨u, hu, rfl⟩ := exceptMap_ok (Option.some.inj h)
      exact .quiet rfl fun _ => by rw [hphase]; rfl
    · cases h

omit [Fintype ι] in
/-- An empty table stays empty until a registration goes through. -/
theorem NodeStep.route_nil {n n' : Node σ ι} {a : Action ι} (h : NodeStep env n a n')
    (hnil : n.shared.route = []) :
    n'.shared.route = [] ∨
      ∃ t inp, a = .step t inp ∧ (n.tasks t).registers n.shared.route inp = true := by
  cases h with
  | frame hf hs =>
    refine .inl ?_
    cases hs with
    | matched hpc hm =>
      rw [hnil] at hm
      cases hm
    | dereffed =>
      show n.shared.route.addRef _ _ = []
      rw [hnil]
      rfl
    | _ => exact hnil
  | @registered t inp c hc hpc htable hitem hfree =>
    have hany : (n.shared.route.any fun item => item.storage.name = c.storage.name) = false := by
      simpa using hfree
    exact .inr ⟨t, inp, rfl, by simp only [hc, Task.registers, hpc, htable, hitem, hany]; rfl⟩
  | @unregister name =>
    obtain ⟨left, gone, ret, hun⟩ : ∃ left gone ret,
        routeUnregister n.shared.route name = (left, gone, ret) := ⟨_, _, _, rfl⟩
    have hsub := (routeUnregister_split hun).1
    rw [hnil] at hsub
    refine .inl ?_
    simp only [unregisterStep, hun]
    exact List.sublist_nil.mp hsub
  | _ => exact .inl hnil

omit [Fintype ι] [DecidableEq ι] in
/-- Without references `route_unregister(NULL)` empties the table. -/
theorem unregisterStep_empties {n : Node σ ι} (h : ∀ item ∈ n.shared.route, item.nref = 0) :
    (unregisterStep n none).shared.route = [] := by
  simp only [unregisterStep, routeUnregister_none]
  exact List.dropWhile_eq_nil_iff.mpr fun item hitem => by simpa using h item hitem

/-- What an orderly run keeps: every storage in one hand, and after unregister-all an
empty table. -/
structure ShutdownInv (d : Daemon σ ι) : Prop where
  own : OwnInv d.node
  empty : d.phase.pastUnregister = true → d.node.shared.route = []

theorem ShutdownInv.step {d d' : Daemon σ ι} {l : DaemonAction ι} (h : ShutdownInv d)
    (hs : DaemonStep env d l d') (hord : orderly d l = true) : ShutdownInv d' := by
  cases hs with
  | quiet hnode hphase =>
    refine ⟨by rw [hnode]; exact h.own, fun hpast => ?_⟩
    rw [hnode]
    exact h.empty (hphase hpast)
  | @node a hstep hphase hlabel =>
    have hns := nodeStep_cases hstep
    refine ⟨hns.ownInv h.own, fun hpast => ?_⟩
    rw [hphase] at hpast
    rcases hns.route_nil (h.empty hpast) with hnil | ⟨t, inp, rfl, hreg⟩
    · exact hnil
    · rw [hlabel t inp rfl] at hord
      simp only [orderly, hpast, hreg] at hord
      cases hord
  | unregisterAll hl hstep =>
    refine ⟨(nodeStep_cases hstep).ownInv h.own, fun _ => ?_⟩
    rw [hl] at hord
    have hnode : unregisterStep d.node none = d'.node := Except.ok.inj (Option.some.inj hstep)
    rw [← hnode]
    refine unregisterStep_empties fun item hitem => ?_
    simpa using List.all_eq_true.mp hord item hitem

/-- **An orderly shutdown leaves nothing in the table**: in every run that unregisters all
storages while no operation holds one, and lets no registration through after that, the
table is empty when the route is to be destroyed, so that its assertion holds, and every
storage that was registered is destructed exactly once. -/
theorem shutdown_orderly {d : Daemon σ ι}
    (h : ((daemonSystem env).during fun d l => orderly d l = true).Reachable d)
    (hphase : d.phase = .joined) :
    d.node.shared.route = [] ∧ routeDestroy d.node.shared.route = .ok () ∧
      ∀ p ∈ d.node.registered, d.node.destructed.count p = 1 := by
  have hinv : ShutdownInv d := by
    refine LTS.invariant (fun d₀ (h₀ : d₀.Starts) => ⟨h₀.node.ownInv, fun hpast => ?_⟩)
      (fun _ _ _ hi hs => hi.step (daemonStep_cases hs.1) hs.2) h
    rw [h₀.phase] at hpast
    cases hpast
  have hnil := hinv.empty (by rw [hphase]; rfl)
  refine ⟨hnil, by rw [hnil]; rfl, fun p hp => ?_⟩
  have hreg := hinv.own.registered p hp
  rw [hnil] at hreg
  simpa [RouteList.instances] using hreg

section Example

/-- One thread of the pool, over the node of one local storage. -/
def exampleDaemon : Daemon (Option Value) (Fin 1) where
  node := exampleNode (Fin 1) none
  queue := []
  connected _ := false
  phase := .running

theorem exampleDaemon_starts : exampleDaemon.Starts :=
  ⟨exampleNode_starts none, rfl, fun _ => rfl, rfl⟩

/-- A client connects and goes, and the daemon shuts down. -/
def exampleOrderly : List (DaemonAction (Fin 1)) :=
  let t : Fin 1 := ⟨0, Nat.one_pos⟩
  [.submit .connection, .pop t, .disconnect t, .stopServers, .unregisterAll, .cancelPool,
    .node (.exit t), .joinPool]

/-- A get is between its `route_match` and its storage call when the daemon shuts down. -/
def exampleInFlight : List (DaemonAction (Fin 1)) :=
  let t : Fin 1 := ⟨0, Nat.one_pos⟩
  let step : DaemonAction (Fin 1) := .node (.step t (exampleInputs 0 (.error ENOENT)))
  [.submit .connection, .pop t, .node (.call t .get exampleKey), step, step, step, .stopServers,
    .unregisterAll, .cancelPool, .node (.cancel t none), step, step, .node (.exit t), .joinPool]

theorem shutdown_orderly_idle :
    ∃ d, LTS.exec (LTS.guarded orderly (LTS.stepsOk (daemonStep cellEnv))) exampleDaemon
        exampleOrderly = some d ∧
      d.node.shared.route = [] ∧ d.node.destructed.count 0 = 1 := by
  obtain ⟨d, hrun, hphase, hreg⟩ : ∃ d, LTS.exec (LTS.guarded orderly
      (LTS.stepsOk (daemonStep cellEnv))) exampleDaemon exampleOrderly = some d ∧
        d.phase = .joined ∧ d.node.registered = [0] := ⟨_, rfl, rfl, rfl⟩
  have hreach : ((daemonSystem cellEnv).during fun d l => orderly d l = true).Reachable d := by
    refine LTS.exec_reachable (fun _ _ _ hs => ?_) exampleDaemon_starts hrun
    exact ⟨LTS.stepsOk_eq_some (LTS.guarded_eq_some hs).1, (LTS.guarded_eq_some hs).2⟩
  obtain ⟨hnil, -, hone⟩ := shutdown_orderly hreach hphase
  exact ⟨d, hrun, hnil, hone 0 (by rw [hreg]; exact List.mem_singleton_self 0)⟩

/-- The storage call is cancelled, its reference is dropped, and the storage is still in
the table: the assertion of `route_destroy` fails, and the storage is not destructed. -/
theorem shutdown_in_flight :
    ∃ d, LTS.exec (LTS.stepsOk (daemonStep cellEnv)) exampleDaemon exampleInFlight = some d ∧
      d.phase = .joined ∧ d.node.shared.route.map RouteItem.nref = [0] ∧
      d.node.registered = [0] ∧ d.node.destructed = [] ∧
      daemonStep cellEnv d .routeDestroy = some (.error .assertion) :=
  ⟨_, rfl, rfl, rfl, rfl, rfl, rfl⟩

end Example

end Propd
