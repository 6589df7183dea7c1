import Propd.Lib.Transition
import Propd.Node.Frame

/-!
# A node

The threads of the pool of a node, each with the task it runs: a request of the io
server, or a `register_child` of the ctrl server. Any thread may take any step that
is enabled, so a run of the node is an interleaving of its tasks.

`register_child` builds a storage for the child, runs `io_update` for every key of
the package, registers the storage, and destructs it when one of these failed.
A package it refuses before it builds the storage does nothing and is left out.
`route_unregister` holds the write lock of the table for the whole of its work: it
is one step.

`registered` lists the storages, by their instances, that the table took over, and
`destructed` those whose destructor ran.
-/

namespace Propd

open Lib

/-- The next step of a `register_child`. -/
inductive ChildPc
  | update
  | io (f : IoFrame)
  | register
  | cleanup
  | done

/-- The `io_update` a child is in. -/
def ChildPc.frame : ChildPc → Option IoFrame
  | io f => some f
  | _ => none

/-- A `register_child` in progress: the storage it built, the keys it has still to
fetch and the prefixes it will register. -/
structure ChildFrame where
  storage : StorageCtx
  cacheNow : List CString
  prefixes : List CString
  pc : ChildPc
  ret : SetResult
  cancelled : Bool

/-- What a thread of the pool does; a cancelled thread ends as `exited`. -/
inductive Task
  | idle
  | io (f : IoFrame)
  | child (c : ChildFrame)
  | exited

namespace Task

/-- The io function a task is in. -/
def frame : Task → Option IoFrame
  | io f => some f
  | child c => c.pc.frame
  | _ => none

/-- The task with another state of its io function. -/
def withFrame (task : Task) (f : IoFrame) : Task :=
  match task with
  | child c => child { c with pc := .io f }
  | _ => io f

/-- The item of the route table the task holds a reference to. -/
def held (task : Task) : Option ℕ :=
  task.frame.bind IoFrame.held

/-- The key the task has locked. -/
def locked (task : Task) : Option CString :=
  task.frame.bind IoFrame.locked

/-- The storage the task has built and not given away. -/
def owned : Task → Option ℕ
  | child c =>
    match c.pc with
    | .done => none
    | _ => some c.storage.priv
  | _ => none

end Task

/-- A frame belongs to an io task or to the `io_update` of a child. -/
theorem Task.frame_eq_some {task : Task} {f : IoFrame} (h : task.frame = some f) :
    task = .io f ∨ ∃ c, task = .child c ∧ c.pc = .io f := by
  cases task with
  | io g =>
    cases h
    exact .inl rfl
  | child c =>
    cases hpc : c.pc with
    | io g =>
      rw [frame, hpc] at h
      cases h
      exact .inr ⟨c, rfl, hpc⟩
    | _ =>
      rw [frame, hpc] at h
      cases h
  | _ => cases h

theorem Task.frame_withFrame {task : Task} {f : IoFrame} (h : task.frame = some f) (f' : IoFrame) :
    (task.withFrame f').frame = some f' := by
  cases task with
  | child c => rfl
  | io g => rfl
  | _ => cases h

/-- A child outside `io_update` has none that is under way. -/
theorem ChildFrame.noUpdate {c : ChildFrame} (hpc : c.pc.frame = none) :
    ∀ f, c.pc = .io f → f.pc = .done := by
  intro f hf
  rw [hf] at hpc
  cases hpc

/-- A child whose `io_update` is over has none that is under way. -/
theorem ChildFrame.updateOver {c : ChildFrame} {f : IoFrame} (hpc : c.pc = .io f)
    (hf : f.pc = .done) : ∀ g, c.pc = .io g → g.pc = .done := by
  intro g hg
  cases hpc.symm.trans hg
  exact hf

/-- A node: what its threads share, their tasks, the next address and instance that
are free, and the history of the storages. -/
structure Node (σ ι : Type) where
  shared : Shared σ ι
  tasks : ι → Task
  nextAddr : ℕ
  nextPriv : ℕ
  registered : List ℕ
  destructed : List ℕ

/-- What can happen at a node. -/
inductive Action (ι : Type)
  | call (t : ι) (req : IoRequest) (key : CString)
  | register (t : ι) (name : CString) (cacheNow prefixes : List CString)
  | step (t : ι) (inp : Inputs)
  | ret (t : ι) (r : IoResult)
  | cancel (t : ι) (effect : Option Inputs)
  | exit (t : ι)
  | unregister (name : Option CString)
  | sweep (now : Timestamp)

variable {σ ι : Type} [DecidableEq ι]

namespace Node

/-- The node after thread `t` took a step of its task. -/
def withTask (n : Node σ ι) (t : ι) (task : Task) : Node σ ι :=
  { n with tasks := Function.update n.tasks t task }

end Node

/-- A step of `register_child` outside `io_update`. -/
def childStep (t : ι) (inp : Inputs) (n : Node σ ι) (c : ChildFrame) : Option (Node σ ι) :=
  match c.pc with
  -- the loop over `cache_now`, one `io_update` a key
  | .update =>
    match c.cacheNow with
    | key :: rest =>
      some (n.withTask t (.child { c with
        cacheNow := rest, pc := .io (.start (.update c.storage) key) }))
    | [] =>
      -- `if (num_prefix)`: without prefixes there is nothing to register
      let pc := if c.prefixes = [] then .done else .register
      some (n.withTask t (.child { c with pc := pc }))
  | .io f =>
    if f.pc ≠ .done then none
    else if f.cancelled then
      some (n.withTask t (.child { c with pc := .cleanup, cancelled := true }))
    else
      match f.ret with
      -- a failed update ends the loop, and the storage is destructed
      | .error e => some (n.withTask t (.child { c with pc := .cleanup, ret := .error e }))
      | .ok _ => some (n.withTask t (.child { c with pc := .update }))
  | .register =>
    -- the array of prefixes cannot be allocated
    if !inp.table then
      some (n.withTask t (.child { c with pc := .cleanup, ret := .error ENOMEM }))
    else
      match routeRegister n.shared.route c.storage c.prefixes n.nextAddr inp.item with
      | (_, .error e) => some (n.withTask t (.child { c with pc := .cleanup, ret := .error e }))
      | (route, .ok ()) =>
        some { n.withTask t (.child { c with pc := .done }) with
          shared := { n.shared with route := route }
          nextAddr := n.nextAddr + 1
          registered := c.storage.priv :: n.registered }
  | .cleanup =>
    some { n.withTask t (.child { c with pc := .done }) with
      destructed := c.storage.priv :: n.destructed }
  | .done => none

/-- The end of a task, with the status it reports. -/
def taskEnd : Task → Option (Bool × IoResult)
  | .io f => if f.pc = .done then some (f.cancelled, f.ret) else none
  | .child c =>
    match c.pc with
    | .done => some (c.cancelled, c.ret.map fun _ => none)
    | _ => none
  | _ => none

/-- A task that is over is a frame or a child at its end. -/
theorem taskEnd_eq_some {task : Task} {e : Bool × IoResult} (h : taskEnd task = some e) :
    (∃ f, task = .io f ∧ f.pc = .done ∧ e = (f.cancelled, f.ret)) ∨
      ∃ c, task = .child c ∧ c.pc = .done ∧ e = (c.cancelled, c.ret.map fun _ => none) := by
  cases task with
  | io f =>
    simp only [taskEnd] at h
    split at h
    · rename_i hpc
      cases h
      exact .inl ⟨f, rfl, hpc, rfl⟩
    · cases h
  | child c =>
    simp only [taskEnd] at h
    split at h
    · rename_i hpc
      cases h
      exact .inr ⟨c, rfl, hpc, rfl⟩
    · cases h
  | _ => cases h

/-- `route_unregister`, which destructs the storage of every item it destroys. -/
def unregisterStep (n : Node σ ι) (name : Option CString) : Node σ ι :=
  match routeUnregister n.shared.route name with
  | (route, gone, _) =>
    { n with
      shared := { n.shared with route := route }
      destructed := gone.map (fun item => item.storage.priv) ++ n.destructed }

variable (env : StorageEnv σ)

/-- The frame of a task takes one step. -/
def frameStep (n : Node σ ι) (t : ι)
    (step : Shared σ ι → IoFrame → Option (Except Fault (Shared σ ι × IoFrame))) (f : IoFrame) :
    Option (Except Fault (Node σ ι)) :=
  (step n.shared f).map fun r =>
    r.map fun (sh, f') => { n.withTask t ((n.tasks t).withFrame f') with shared := sh }

/-- One step of a node; `none` where it is not enabled. -/
def nodeStep (n : Node σ ι) : Action ι → Option (Except Fault (Node σ ι))
  | .call t req key =>
    match n.tasks t with
    | .idle => some (.ok (n.withTask t (.io (.start (.request req) key))))
    | _ => none
  | .register t name cacheNow prefixes =>
    match n.tasks t with
    | .idle =>
      -- an empty child is denied before its storage is built
      if cacheNow = [] ∧ prefixes = [] then none
      else
        some (.ok { n.withTask t (.child
            ⟨unixStorage name n.nextPriv, cacheNow, prefixes, .update, .ok (), false⟩) with
          nextPriv := n.nextPriv + 1 })
    | _ => none
  | .step t inp =>
    match n.tasks t with
    | .io f => frameStep n t (ioStep env t inp) f
    | .child c =>
      match c.pc with
      | .io f =>
        if f.pc = .done then (childStep t inp n c).map .ok else frameStep n t (ioStep env t inp) f
      | _ => (childStep t inp n c).map .ok
    | _ => none
  | .ret t r =>
    if taskEnd (n.tasks t) = some (false, r) then some (.ok (n.withTask t .idle)) else none
  | .cancel t effect =>
    match (n.tasks t).frame with
    | some f => frameStep n t (cancelStep env effect) f
    | none => none
  | .exit t =>
    match n.tasks t, taskEnd (n.tasks t) with
    | .idle, _ => some (.ok (n.withTask t .exited))
    | _, some (true, _) => some (.ok (n.withTask t .exited))
    | _, _ => none
  | .unregister name => some (.ok (unregisterStep n name))
  | .sweep now =>
    some (.ok { n with shared.cache := n.shared.cache.map fun c => c.cleanerSweep now })

/-! ## Runs -/

/-- The table of the local storages, as the configuration builds it before the node
starts: a name that is taken is refused. -/
def localRoute (storages : List (StorageCtx × List CString)) : RouteList :=
  storages.foldl (fun list entry => (routeRegister list entry.1 entry.2 list.length true).1) []

/-- The table of the local storages: distinct names, distinct addresses, no references. -/
theorem localRoute_spec (storages : List (StorageCtx × List CString)) :
    ((localRoute storages).map fun item => item.storage.name).Nodup ∧
      ((localRoute storages).Pairwise fun newer older => older.addr < newer.addr) ∧
      ∀ item ∈ localRoute storages, item.addr < (localRoute storages).length ∧ item.nref = 0 := by
  suffices hfold : ∀ list : RouteList, (list.map fun item => item.storage.name).Nodup →
      (list.Pairwise fun newer older => older.addr < newer.addr) →
      (∀ item ∈ list, item.addr < list.length ∧ item.nref = 0) →
      let left := storages.foldl
        (fun list entry => (routeRegister list entry.1 entry.2 list.length true).1) list
      (left.map fun item => item.storage.name).Nodup ∧
        (left.Pairwise fun newer older => older.addr < newer.addr) ∧
        ∀ item ∈ left, item.addr < left.length ∧ item.nref = 0 from
    hfold [] List.nodup_nil List.Pairwise.nil nofun
  induction storages with
  | nil => exact fun list hn ho hb => ⟨hn, ho, hb⟩
  | cons entry rest ih =>
    intro list hn ho hb
    rw [List.foldl_cons]
    obtain ⟨list', ret, hreg⟩ : ∃ list' ret,
        routeRegister list entry.1 entry.2 list.length true = (list', ret) := ⟨_, _, rfl⟩
    rw [hreg]
    -- a name that is taken is skipped
    rcases routeRegister_cases hreg with ⟨rfl, -⟩ | ⟨rfl, -, -, hfree⟩
    · exact ih list' hn ho hb
    · refine ih _ ?_ (List.pairwise_cons.mpr ⟨fun item hitem => (hb item hitem).1, ho⟩) ?_
      · rw [List.map_cons, List.nodup_cons]
        refine ⟨fun hmem => ?_, hn⟩
        obtain ⟨item, hitem, hname⟩ := List.mem_map.mp hmem
        exact hfree item hitem hname
      · intro item hitem
        rcases List.mem_cons.mp hitem with rfl | hitem
        · exact ⟨Nat.lt_succ_self _, rfl⟩
        · exact ⟨Nat.lt_succ_of_lt (hb item hitem).1, (hb item hitem).2⟩

/-- A node that starts: no task runs and no key is locked. -/
structure Node.Starts (n : Node σ ι) : Prop where
  tasks : ∀ t, n.tasks t = .idle
  locks : ∀ key, n.shared.locks key = none
  route : ∃ storages, n.shared.route = localRoute storages
  nextAddr : n.nextAddr = n.shared.route.length
  instances : (n.shared.route.map fun item => item.storage.priv).Nodup
  nextPriv : ∀ item ∈ n.shared.route, item.storage.priv < n.nextPriv
  registered : n.registered = n.shared.route.map fun item => item.storage.priv
  destructed : n.destructed = []

/-- The runs of a node under `env`. -/
def nodeSystem : LTS (Node σ ι) (Action ι) :=
  .ofSteps Node.Starts (nodeStep env)

/-! ## What a step can do -/

/-- All that one step of a node can do. -/
inductive NodeStep (n : Node σ ι) : Action ι → Node σ ι → Prop
  | call {t : ι} {req : IoRequest} {key : CString} (hidle : n.tasks t = .idle) :
      NodeStep n (.call t req key) (n.withTask t (.io (.start (.request req) key)))
  | register {t : ι} {name : CString} {cacheNow prefixes : List CString}
      (hidle : n.tasks t = .idle) :
      NodeStep n (.register t name cacheNow prefixes)
        { n.withTask t (.child
            ⟨unixStorage name n.nextPriv, cacheNow, prefixes, .update, .ok (), false⟩) with
          nextPriv := n.nextPriv + 1 }
  /-- a step inside an io function -/
  | frame {t : ι} {inp : Inputs} {f f' : IoFrame} {sh : Shared σ ι}
      (hf : (n.tasks t).frame = some f) (hs : IoStep env t inp n.shared f sh f') :
      NodeStep n (.step t inp) { n.withTask t ((n.tasks t).withFrame f') with shared := sh }
  | nextKey {t : ι} {inp : Inputs} {c : ChildFrame} {key : CString} {rest : List CString}
      (hc : n.tasks t = .child c) (hpc : c.pc = .update) (hnow : c.cacheNow = key :: rest) :
      NodeStep n (.step t inp) (n.withTask t (.child { c with
        cacheNow := rest, pc := .io (.start (.update c.storage) key) }))
  | lastKey {t : ι} {inp : Inputs} {c : ChildFrame} (hc : n.tasks t = .child c)
      (hpc : c.pc = .update) (hnow : c.cacheNow = []) (hpre : c.prefixes ≠ []) :
      NodeStep n (.step t inp) (n.withTask t (.child { c with pc := .register }))
  /-- a child without prefixes is not registered, and its storage is not destructed -/
  | noPrefixes {t : ι} {inp : Inputs} {c : ChildFrame} (hc : n.tasks t = .child c)
      (hpc : c.pc = .update) (hnow : c.cacheNow = []) (hpre : c.prefixes = []) :
      NodeStep n (.step t inp) (n.withTask t (.child { c with pc := .done }))
  | updated {t : ι} {inp : Inputs} {c : ChildFrame} {f : IoFrame} {x : Option (Value × Timestamp)}
      (hc : n.tasks t = .child c) (hpc : c.pc = .io f) (hf : f.pc = .done) (hret : f.ret = .ok x) :
      NodeStep n (.step t inp) (n.withTask t (.child { c with pc := .update }))
  /-- an `io_update` that failed or was cancelled -/
  | updateFailed {t : ι} {inp : Inputs} {c : ChildFrame} {f : IoFrame} {ret : SetResult}
      {cancelled : Bool} (hc : n.tasks t = .child c) (hpc : c.pc = .io f) (hf : f.pc = .done) :
      NodeStep n (.step t inp) (n.withTask t (.child { c with
        pc := .cleanup, ret := ret, cancelled := cancelled }))
  | registerFailed {t : ι} {inp : Inputs} {c : ChildFrame} {e : Errno}
      (hc : n.tasks t = .child c) (hpc : c.pc = .register) :
      NodeStep n (.step t inp) (n.withTask t (.child { c with pc := .cleanup, ret := .error e }))
  | registered {t : ι} {inp : Inputs} {c : ChildFrame} (hc : n.tasks t = .child c)
      (hpc : c.pc = .register) (htable : inp.table = true) (hitem : inp.item = true)
      (hfree : ∀ item ∈ n.shared.route, item.storage.name ≠ c.storage.name) :
      NodeStep n (.step t inp) { n.withTask t (.child { c with pc := .done }) with
        shared := { n.shared with
          route := ⟨c.storage, c.prefixes, 0, n.nextAddr⟩ :: n.shared.route }
        nextAddr := n.nextAddr + 1
        registered := c.storage.priv :: n.registered }
  | destructed {t : ι} {inp : Inputs} {c : ChildFrame} (hc : n.tasks t = .child c)
      (hpc : c.pc = .cleanup) :
      NodeStep n (.step t inp) { n.withTask t (.child { c with pc := .done }) with
        destructed := c.storage.priv :: n.destructed }
  | ret {t : ι} {r : IoResult} (hend : taskEnd (n.tasks t) = some (false, r)) :
      NodeStep n (.ret t r) (n.withTask t .idle)
  | cancel {t : ι} {effect : Option Inputs} {f : IoFrame} {w : σ}
      (hf : (n.tasks t).frame = some f) (hpc : f.pc = .storage) :
      NodeStep n (.cancel t effect)
        { n.withTask t ((n.tasks t).withFrame { f with pc := .unlock, cancelled := true }) with
          shared := { n.shared with world := w } }
  | exit {t : ι} (hend : n.tasks t = .idle ∨ ∃ r, taskEnd (n.tasks t) = some (true, r)) :
      NodeStep n (.exit t) (n.withTask t .exited)
  | unregister {name : Option CString} : NodeStep n (.unregister name) (unregisterStep n name)
  | sweep {now : Timestamp} :
      NodeStep n (.sweep now)
        { n with shared.cache := n.shared.cache.map fun c => c.cleanerSweep now }

variable {env}

private theorem frameStep_ok {n n' : Node σ ι} {t : ι} {f : IoFrame}
    {step : Shared σ ι → IoFrame → Option (Except Fault (Shared σ ι × IoFrame))}
    (h : frameStep n t step f = some (.ok n')) :
    ∃ sh f', step n.shared f = some (.ok (sh, f')) ∧
      n' = { n.withTask t ((n.tasks t).withFrame f') with shared := sh } := by
  obtain ⟨r, hr, hmap⟩ := Option.map_eq_some_iff.mp h
  obtain ⟨⟨sh, f'⟩, rfl, hn⟩ := exceptMap_ok hmap
  exact ⟨sh, f', hr, hn.symm⟩

private theorem childStep_cases {n n' : Node σ ι} {t : ι} {inp : Inputs} {c : ChildFrame}
    (hc : n.tasks t = .child c) (h : childStep t inp n c = some n') :
    NodeStep env n (.step t inp) n' := by
  unfold childStep at h
  split at h
  case h_1 hpc =>
    split at h
    · rename_i key rest hnow
      cases h
      exact .nextKey hc hpc hnow
    · rename_i hnow
      by_cases hpre : c.prefixes = []
      · rw [if_pos hpre] at h
        cases h
        exact .noPrefixes hc hpc hnow hpre
      · rw [if_neg hpre] at h
        cases h
        exact .lastKey hc hpc hnow hpre
  case h_2 f hpc =>
    split at h
    · cases h
    · rename_i hdone
      have hf : f.pc = .done := not_not.mp hdone
      split at h
      · cases h
        exact .updateFailed hc hpc hf
      · split at h
        · cases h
          exact .updateFailed hc hpc hf
        · rename_i x hret
          cases h
          exact .updated hc hpc hf hret
  case h_3 hpc =>
    split at h
    · cases h
      exact .registerFailed hc hpc
    · rename_i htable
      split at h
      · cases h
        exact .registerFailed hc hpc
      · rename_i route hreg
        cases h
        rcases routeRegister_cases hreg with ⟨-, e, he⟩ | ⟨rfl, -, hitem, hfree⟩
        · cases he
        · exact .registered hc hpc (by simpa using htable) hitem hfree
  case h_4 hpc =>
    cases h
    exact .destructed hc hpc
  case h_5 => cases h

/-- **Inversion of a step** of a node. -/
theorem nodeStep_cases {n n' : Node σ ι} {a : Action ι}
    (h : nodeStep env n a = some (.ok n')) : NodeStep env n a n' := by
  cases a with
  | call t req key =>
    simp only [nodeStep] at h
    split at h
    · rename_i hidle
      cases h
      exact .call hidle
    · cases h
  | register t name cacheNow prefixes =>
    simp only [nodeStep] at h
    split at h
    · rename_i hidle
      split at h
      · cases h
      · cases h
        exact .register hidle
    · cases h
  | step t inp =>
    simp only [nodeStep] at h
    split at h
    · rename_i f hf
      obtain ⟨sh, f', hs, rfl⟩ := frameStep_ok h
      exact .frame (by rw [hf]; rfl) (ioStep_cases hs)
    · rename_i c hc
      split at h
      · rename_i f hpc
        split at h
        · obtain ⟨n₁, hn, heq⟩ := Option.map_eq_some_iff.mp h
          cases heq
          exact childStep_cases hc hn
        · obtain ⟨sh, f', hs, rfl⟩ := frameStep_ok h
          exact .frame (by rw [hc, Task.frame, hpc]; rfl) (ioStep_cases hs)
      · obtain ⟨n₁, hn, heq⟩ := Option.map_eq_some_iff.mp h
        cases heq
        exact childStep_cases hc hn
    · cases h
  | ret t r =>
    simp only [nodeStep] at h
    split at h
    · rename_i hend
      cases h
      exact .ret hend
    · cases h
  | cancel t effect =>
    simp only [nodeStep] at h
    split at h
    · rename_i f hf
      obtain ⟨sh, f', hs, rfl⟩ := frameStep_ok h
      obtain ⟨hpc, rfl, w, rfl⟩ := cancelStep_cases hs
      exact .cancel hf hpc
    · cases h
  | exit t =>
    simp only [nodeStep] at h
    split at h
    · rename_i hidle
      cases h
      exact .exit (.inl hidle)
    · rename_i r hend _
      cases h
      exact .exit (.inr ⟨r, hend⟩)
    · cases h
  | unregister name =>
    cases h
    exact .unregister
  | sweep now =>
    cases h
    exact .sweep

section Example

/-- Storages that all hold one value, for whatever key. -/
def cellEnv : StorageEnv (Option Value) where
  get _ _ w reply :=
    match w, reply with
    | some v, .ok (v', _) => if v = v' then some w else none
    | none, .error e => if e = ENOENT then some w else none
    | _, _ => none
  set _ _ v _ reply := if reply = .ok () then some (some v) else none
  del _ _ _ reply := if reply = .ok () then some none else none

/-- A local storage. -/
def exampleLocal : StorageCtx := ⟨exampleName, 0, true, true, true⟩

/-- The thread of the examples that is not idle. -/
def exampleThread : Fin 2 := ⟨0, Nat.two_pos⟩

/-- A node with an empty cache and one local storage, for every key. -/
def exampleNode (ι : Type) (w : Option Value) : Node (Option Value) ι where
  shared := {
    cache := some ⟨fun _ => none, 500000000, 1000000000, 1000000000, 100000000⟩
    route := localRoute [(exampleLocal, [exampleAny])]
    locks := fun _ => none
    world := w }
  tasks := fun _ => .idle
  nextAddr := 1
  nextPriv := 1
  registered := [0]
  destructed := []

/-- Inputs without failures, at the instant `now`. -/
def exampleInputs (now : Timestamp) (get : GetResult) : Inputs :=
  ⟨now, .all, true, true, get, .ok ()⟩

omit [DecidableEq ι] in
theorem exampleNode_starts (w : Option Value) : (exampleNode ι w).Starts where
  tasks _ := rfl
  locks _ := rfl
  route := ⟨_, rfl⟩
  nextAddr := rfl
  instances := List.pairwise_singleton _ 0
  nextPriv item hitem := by
    rw [List.mem_singleton.mp hitem]
    exact Nat.zero_lt_one
  registered := rfl
  destructed := rfl

end Example

end Propd
