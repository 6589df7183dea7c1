import Propd.Node.Locks

/-!
# One call among the steps of a node

What thread `t` does between the moment it is given a request and its return, while the
other threads do whatever they do: the steps of its call, picked out of the run, and what
they leave in the state the threads share.
-/

namespace Propd

open Lib

variable {σ ι : Type}

/-- One step of a call: the node it is taken in, its inputs and the frame. -/
structure CallStep (σ ι : Type) where
  node : Node σ ι
  inp : Inputs
  frame : IoFrame

section Call

variable [DecidableEq ι]

/-- The steps of a run that are steps of the call of thread `t`. -/
def ownSteps (t : ι) (tr : List (Node σ ι × Action ι)) : List (CallStep σ ι) :=
  tr.filterMap fun x =>
    match x.2, x.1.tasks t with
    | .step u inp, .io f => if u = t then some ⟨x.1, inp, f⟩ else none
    | _, _ => none

/-- In a step of the call `route_match` selects an item with this storage. -/
def RoutedTo (steps : List (CallStep σ ι)) (storage : StorageCtx) : Prop :=
  ∃ s ∈ steps, s.frame.pc = .routeMatch ∧ ∃ route item,
    routeMatch s.node.shared.route s.frame.key = .ok (route, item) ∧ item.storage = storage

/-- A route table without the reference to an item. -/
def RouteList.without (list : RouteList) (held : Option ℕ) : RouteList :=
  match held with
  | none => list
  | some addr => list.addRef addr (-1)

/-- The key locks without the lock of a key. -/
def locksWithout (locks : CString → Option ι) (locked : Option CString) : CString → Option ι :=
  match locked with
  | none => locks
  | some key => Function.update locks key none

/-- What a node shares, without what thread `t` has taken of it: its reference and its lock. -/
def Node.besides (n : Node σ ι) (t : ι) : Shared σ ι :=
  { n.shared with
    route := n.shared.route.without (n.tasks t).held
    locks := locksWithout n.shared.locks (n.tasks t).locked }

/-- Thread `t` of `n₀` is idle and is given a request; `tr` are the steps the threads of the
node take from there, those of `t` being the steps of the call. -/
structure CallPath (env : StorageEnv σ) (t : ι) (req : IoRequest) (key : CString)
    (n₀ : Node σ ι) (tr : List (Node σ ι × Action ι)) (n : Node σ ι) : Prop where
  idle : n₀.tasks t = .idle
  path : (nodeSystem env).Path (n₀.withTask t (.io (.start (.request req) key))) tr n
  own : ∀ x ∈ tr, x.2.thread = some t → ∃ inp, x.2 = .step t inp

/-- A step that runs no callback and leaves nothing: whatever the callbacks would do it is
the same, and it changes at most the reference and the lock of its own thread. -/
def CallStep.Quiet (t : ι) (s : CallStep σ ι) : Prop :=
  ∃ m, (∀ env : StorageEnv σ, nodeStep env s.node (.step t s.inp) = some (.ok m)) ∧
    m.besides t = s.node.besides t

end Call

variable {env : StorageEnv σ} {t : ι}

/-! ## The steps of a call -/

/-- How many steps a frame may still take. -/
def IoPc.left : IoPc → ℕ
  | .entry => 7
  | .routeMatch => 6
  | .lock => 5
  | .storage => 4
  | .cacheStore _ => 3
  | .unlock => 2
  | .deref => 1
  | .done => 0

/-- Every step brings a call closer to its end. -/
theorem IoStep.left_lt {inp : Inputs} {sh sh' : Shared σ ι}
    {f f' : IoFrame} (hs : IoStep env t inp sh f sh' f') : f'.pc.left < f.pc.left := by
  cases hs with
  | storageOk hpc =>
    rw [hpc]
    dsimp only
    split <;> simp [IoPc.left]
  | hit hpc | miss hpc | noCache hpc | hasCache hpc | unmatched hpc | matched hpc | lockFailed hpc
  | locked hpc | storageFailed hpc | stored hpc | dropped hpc | unlocked hpc | noKey hpc
  | dereffed hpc | noStorage hpc =>
    simp [hpc, IoPc.left]

/-- Past `route_match` a call keeps its pointer into the table. -/
theorem IoStep.keeps_storage {inp : Inputs} {sh sh' : Shared σ ι} {f f' : IoFrame}
    (hs : IoStep env t inp sh f sh' f') (hpc : f.pc ≠ .routeMatch) :
    f'.ctx.storage = f.ctx.storage := by
  cases hs with
  | matched hm => exact absurd hm hpc
  | _ => rfl

theorem Node.held_of_io {n : Node σ ι} {f : IoFrame} (hf : n.tasks t = .io f)
    (hdone : f.pc ≠ .done) : (n.tasks t).held = f.ctx.storage :=
  (Task.held_of_frame (by rw [hf]; rfl)).trans (IoFrame.held_of_ne_done hdone)

/-- The target of a call is the storage its item has. -/
theorem IoFrame.target_item {f : IoFrame} {req : IoRequest} (hop : f.op = .request req) {addr : ℕ}
    (hctx : f.ctx.storage = some addr) {route : RouteList} {item : RouteItem}
    (hitem : route.itemAt addr = some item) :
    f.target route = .ok item.storage := by
  simp only [target, hop, hctx, hitem]

theorem RoutedTo.of_append {storage : StorageCtx} {steps : List (CallStep σ ι)} {s : CallStep σ ι}
    (h : RoutedTo (steps ++ [s]) storage) (hpc : s.frame.pc ≠ .routeMatch) :
    RoutedTo steps storage := by
  obtain ⟨s', hs', hpc', hm⟩ := h
  rcases List.mem_append.mp hs' with hs' | hs'
  · exact ⟨s', hs', hpc', hm⟩
  · cases List.mem_singleton.mp hs'
    exact absurd hpc' hpc

/-- A call that has only looked into the cache is not routed. -/
theorem not_routedTo {storage : StorageCtx} {steps : List (CallStep σ ι)}
    (hearly : ∀ s ∈ steps, s.frame.pc = .entry) :
    ¬ RoutedTo steps storage := by
  rintro ⟨s, hs, hpc, -⟩
  cases (hearly s hs).symm.trans hpc

/-- The first step of a call past the cache is the one that routes it. -/
theorem RoutedTo.of_early {storage : StorageCtx} {steps : List (CallStep σ ι)} {s : CallStep σ ι}
    (h : RoutedTo (steps ++ [s]) storage) (hearly : ∀ s ∈ steps, s.frame.pc = .entry) :
    ∃ route item, routeMatch s.node.shared.route s.frame.key = .ok (route, item) ∧
      item.storage = storage := by
  obtain ⟨s', hs', hpc, hm⟩ := h
  rcases List.mem_append.mp hs' with hs' | hs'
  · cases (hearly s' hs').symm.trans hpc
  · cases List.mem_singleton.mp hs'
    exact hm

/-! ## What the steps leave of a call -/

/-- A step takes and gives back nothing but a reference of its own. -/
theorem RefEffect.without {sh sh' : Shared σ ι} {f f' : IoFrame} (h : RefEffect sh sh' f f') :
    sh'.route.without f'.held = sh.route.without f.held := by
  cases h with
  | quiet hroute hheld => rw [hroute, hheld]
  | take hm hbefore hafter hroute =>
    rw [hbefore, hafter, hroute]
    exact RouteList.addRef_addRef_neg _ _ 1
  | drop hbefore hafter hroute =>
    rw [hbefore, hafter, hroute]
    rfl

/-- A step takes and gives back no lock but one of its own. -/
theorem LockEffect.without {sh sh' : Shared σ ι} {f f' : IoFrame} (h : LockEffect t sh sh' f f') :
    locksWithout sh'.locks f'.locked = locksWithout sh.locks f.locked := by
  cases h with
  | quiet hlocks hlocked => rw [hlocks, hlocked]
  | take hfree hbefore hafter hlocks =>
    rw [hbefore, hafter, hlocks]
    -- the lock was free before it was taken
    simp only [locksWithout, Function.update_idem]
    rw [← hfree, Function.update_eq_self]
  | drop hbefore hafter hlocks =>
    rw [hbefore, hafter, hlocks]
    rfl

section Steps

variable [DecidableEq ι] {tr : List (Node σ ι × Action ι)} {n : Node σ ι}

theorem ownSteps_append_other {a : Action ι} (ha : a.thread ≠ some t) :
    ownSteps t (tr ++ [(n, a)]) = ownSteps t tr := by
  rw [ownSteps, List.filterMap_append, ← ownSteps]
  refine (congrArg _ (List.filterMap_cons_none ?_)).trans (List.append_nil _)
  cases a with
  | step u inp =>
    have hne : u ≠ t := fun h => ha (congrArg some h)
    cases n.tasks t <;> simp [hne]
  | _ => rfl

theorem ownSteps_append_own {f : IoFrame} (hf : n.tasks t = .io f) (inp : Inputs) :
    ownSteps t (tr ++ [(n, .step t inp)]) = ownSteps t tr ++ [⟨n, inp, f⟩] := by
  rw [ownSteps, List.filterMap_append, ← ownSteps]
  refine congrArg _ (List.filterMap_cons_some ?_)
  simp [hf]

theorem mem_ownSteps {s : CallStep σ ι} (h : s ∈ ownSteps t tr) :
    (s.node, .step t s.inp) ∈ tr ∧ s.node.tasks t = .io s.frame := by
  obtain ⟨⟨m, a⟩, hx, hs⟩ := List.mem_filterMap.mp h
  cases a with
  | step u inp =>
    cases hf : m.tasks t with
    | io f =>
      simp only [hf, Option.ite_none_right_eq_some, Option.some.injEq] at hs
      obtain ⟨rfl, rfl⟩ := hs
      exact ⟨hx, hf⟩
    | _ => simp [hf] at hs
  | _ => simp at hs

/-- The node after a step of a call. -/
theorem nodeStep_io {f : IoFrame} (hf : n.tasks t = .io f) (env : StorageEnv σ) (inp : Inputs) :
    nodeStep env n (.step t inp) = (ioStep env t inp n.shared f).map fun r =>
      r.map fun (sh, f') => { n.withTask t (.io f') with shared := sh } := by
  simp only [nodeStep, hf, frameStep, Task.withFrame]

theorem Node.besides_step {f f' : IoFrame} {inp : Inputs} {sh : Shared σ ι}
    (hf : n.tasks t = .io f) (hok : FrameOk f) (hkey : KeyOk f)
    (hs : IoStep env t inp n.shared f sh f') :
    ({ n.withTask t (.io f') with shared := sh } : Node σ ι).besides t =
      { n.besides t with cache := sh.cache, world := sh.world } := by
  have htask : (n.withTask t (.io f')).tasks t = .io f' := Function.update_self ..
  have hroute := (hok.refEffect hs).without
  have hlocks := (hkey.lockEffect hs).without
  simp only [besides, htask, hf]
  exact congrArg₂ (Shared.mk sh.cache · · sh.world) hroute hlocks

theorem CallPath.reachable_start {n₀ : Node σ ι} {req : IoRequest} {key : CString}
    (h : (nodeSystem env).Reachable n₀)
    (hc : CallPath env t req key n₀ tr n) :
    (nodeSystem env).Reachable (n₀.withTask t (.io (.start (.request req) key))) :=
  h.tail (l := .call t req key) (by simp [nodeSystem, LTS.ofSteps, nodeStep, hc.idle])

/-- A step of a call was taken in a reachable state, and was no fault. -/
theorem CallPath.taken {n₀ : Node σ ι} {req : IoRequest} {key : CString}
    (h : (nodeSystem env).Reachable n₀)
    (hc : CallPath env t req key n₀ tr n) {s : CallStep σ ι} (hs : s ∈ ownSteps t tr) :
    (nodeSystem env).Reachable s.node ∧ s.node.tasks t = .io s.frame ∧
      ∃ m, nodeStep env s.node (.step t s.inp) = some (.ok m) := by
  obtain ⟨hmem, hf⟩ := mem_ownSteps hs
  obtain ⟨tr₁, m, hp, hstep⟩ := hc.path.of_mem hmem
  exact ⟨(hc.reachable_start h).path hp, hf, m, hstep⟩

end Steps

end Propd
