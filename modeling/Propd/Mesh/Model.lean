import Propd.Node.Locks
import Propd.Wire.Transfer

/-!
# Nodes that forward to each other

Several nodes of one namespace. A storage of type `unix` is a connection to the node that listens
under its name: its callback sends the request there, as `unix.c` does, and waits for the reply. A
thread of the other node serves the request like any other one. Any node may register any name,
and nobody looks where the routes of that name lead.

A node takes the steps of `Propd.Node.Model`. What a callback makes of the reply is left open here,
but it does not return before the reply is there, unless with an error because nothing was sent.
A request whose key has no end in its package is not forwarded.
-/

namespace Propd

open Lib

variable {N σ ι : Type}

/-- What is fixed for a mesh: what the callbacks of each node may do, the node that a name leads
to, and the instances of each node that are connections. -/
structure MeshEnv (N σ : Type) where
  storage : N → StorageEnv σ
  listens : CString → Option N
  connects : N → ℕ → Bool

/-- How far the callback of a thread is with its request to another node. -/
inductive Remote (N ι : Type)
  | unsent
  | awaits (m : N) (t : ι)
  | replied
  deriving DecidableEq

/-- The nodes, and the requests that their threads have sent. -/
structure Mesh (N σ ι : Type) where
  nodes : N → Node σ ι
  remote : N → ι → Remote N ι

/-- What can happen in a mesh: something at one node, or the callback of thread `t` of node `n`
sends its request, which thread `t'` of the other node takes up. -/
inductive MeshAction (N ι : Type)
  | node (n : N) (a : Action ι)
  | forward (n : N) (t t' : ι)

/-- The request a callback sends. -/
def IoOp.forwarded : IoOp → IoRequest
  | .request req => req
  | .update _ => .get

/-- The reply that is given to a callback is an error. -/
def IoFrame.fails (f : IoFrame) (inp : Inputs) : Bool :=
  match f.op with
  | .request .get | .update _ => !inp.getReply.isOk
  | .request (.set _) | .request .del => !inp.setReply.isOk

/-- The call a thread is in and its storage, where this is a connection. -/
def Node.connection (connects : ℕ → Bool) (n : Node σ ι) (t : ι) : Option (IoFrame × StorageCtx) :=
  match (n.tasks t).frame with
  | none => none
  | some f =>
    if f.pc = .storage then
      match f.target n.shared.route with
      | .error _ => none
      | .ok storage => if connects storage.priv then some (f, storage) else none
    else none

namespace Mesh

variable (env : MeshEnv N σ) (s : Mesh N σ ι)

/-- A callback that has sent its request waits for the reply, and one that has not can only
fail. -/
def mayStep (n : N) : Action ι → Bool
  | .step t inp =>
    match s.remote n t with
    | .awaits _ _ => false
    | .replied => true
    | .unsent =>
      match (s.nodes n).connection (env.connects n) t with
      | none => true
      | some (f, _) => f.fails inp
  | _ => true

variable [DecidableEq N] [DecidableEq ι]

/-- The requests after an action of node `n`: a callback that returns or is cancelled has none, and
a thread that returns or exits replies to the one it was working for. -/
def remoteAfter (n : N) (a : Action ι) : N → ι → Remote N ι :=
  match a with
  | .step t _ | .cancel t _ => fun n' t' => if n' = n ∧ t' = t then .unsent else s.remote n' t'
  | .ret t _ | .exit t => fun n' t' =>
    if s.remote n' t' = .awaits n t then .replied else s.remote n' t'
  | _ => s.remote

/-- The requests after thread `t` of node `n` has sent one that `t'` of `m` serves. -/
def remoteSent (n : N) (t : ι) (m : N) (t' : ι) : N → ι → Remote N ι :=
  fun n₁ t₁ => if n₁ = n ∧ t₁ = t then .awaits m t' else s.remote n₁ t₁

/-- The request that a thread sends: the node that gets it, with what is read there. -/
def request (n : N) (t : ι) : Option (N × WireRequest) :=
  match (s.nodes n).connection (env.connects n) t with
  | none => none
  | some (f, storage) =>
    match env.listens storage.name, (WireRequest.mk f.op.forwarded f.key).asRead with
    | some m, some r => some (m, r)
    | _, _ => none

end Mesh

variable [DecidableEq N] [DecidableEq ι]

/-- One step of a mesh. -/
def meshStep (env : MeshEnv N σ) (s : Mesh N σ ι) :
    MeshAction N ι → Option (Except Fault (Mesh N σ ι))
  | .node n a =>
    if s.mayStep env n a then
      (nodeStep (env.storage n) (s.nodes n) a).map fun r =>
        r.map fun node => ⟨Function.update s.nodes n node, s.remoteAfter n a⟩
    else none
  | .forward n t t' =>
    match s.remote n t, s.request env n t with
    | .unsent, some (m, r) =>
      (nodeStep (env.storage m) (s.nodes m) (.call t' r.req r.key)).map fun res =>
        res.map fun node => ⟨Function.update s.nodes m node, s.remoteSent n t m t'⟩
    | _, _ => none

/-- The nodes start, and nothing was sent. A storage that is registered for a child is a
connection. -/
structure Mesh.Starts (env : MeshEnv N σ) (s : Mesh N σ ι) : Prop where
  nodes : ∀ n, (s.nodes n).Starts
  remote : ∀ n t, s.remote n t = .unsent
  children : ∀ n priv, (s.nodes n).nextPriv ≤ priv → env.connects n priv = true

/-- The runs of a mesh. -/
def meshSystem (env : MeshEnv N σ) : LTS (Mesh N σ ι) (MeshAction N ι) :=
  .ofSteps (Mesh.Starts env) (meshStep env)

/-! ## What a step can do -/

/-- All that one step of a mesh can do. -/
inductive MeshStep (env : MeshEnv N σ) (s : Mesh N σ ι) : MeshAction N ι → Mesh N σ ι → Prop
  | node {n : N} {a : Action ι} {node : Node σ ι} (hmay : s.mayStep env n a = true)
      (hs : nodeStep (env.storage n) (s.nodes n) a = some (.ok node)) :
      MeshStep env s (.node n a) ⟨Function.update s.nodes n node, s.remoteAfter n a⟩
  | forward {n m : N} {t t' : ι} {r : WireRequest} {node : Node σ ι}
      (hunsent : s.remote n t = .unsent) (hreq : s.request env n t = some (m, r))
      (hs : nodeStep (env.storage m) (s.nodes m) (.call t' r.req r.key) = some (.ok node)) :
      MeshStep env s (.forward n t t') ⟨Function.update s.nodes m node, s.remoteSent n t m t'⟩

variable {env : MeshEnv N σ} {s s' : Mesh N σ ι}

/-- **Inversion of a step** of a mesh. -/
theorem meshStep_cases {a : MeshAction N ι} (h : meshStep env s a = some (.ok s')) :
    MeshStep env s a s' := by
  cases a with
  | node n a =>
    simp only [meshStep] at h
    split at h
    · rename_i hmay
      obtain ⟨r, hr, hmap⟩ := Option.map_eq_some_iff.mp h
      obtain ⟨node, rfl, rfl⟩ := exceptMap_ok hmap
      exact .node hmay hr
    · cases h
  | forward n t t' =>
    simp only [meshStep] at h
    split at h
    · rename_i m r hunsent hreq
      obtain ⟨res, hres, hmap⟩ := Option.map_eq_some_iff.mp h
      obtain ⟨node, rfl, rfl⟩ := exceptMap_ok hmap
      exact .forward hunsent hreq hres
    · cases h

/-- The nodes after a step are those before it, one of which has taken a step of its own. -/
theorem MeshStep.nodeStep {a : MeshAction N ι} (h : MeshStep env s a s') :
    ∃ n b node, nodeStep (env.storage n) (s.nodes n) b = some (.ok node) ∧
      s'.nodes = Function.update s.nodes n node := by
  cases h with
  | node hmay hs => exact ⟨_, _, _, hs, rfl⟩
  | forward hunsent hreq hs => exact ⟨_, _, _, hs, rfl⟩

/-- A step of a mesh is a step of one of its nodes. -/
theorem MeshStep.nodes_reachable {a : MeshAction N ι} (h : MeshStep env s a s')
    (hs : ∀ n, (nodeSystem (env.storage n)).Reachable (s.nodes n)) (n : N) :
    (nodeSystem (env.storage n)).Reachable (s'.nodes n) := by
  obtain ⟨m, b, node, hnode, hnodes⟩ := h.nodeStep
  rw [hnodes]
  by_cases hn : n = m
  · subst hn
    rw [Function.update_self]
    exact (hs n).tail hnode
  · rw [Function.update_of_ne hn]
    exact hs n

/-- **Each node of a mesh runs as a node**, so that all that holds of a node holds of it. -/
theorem mesh_nodes_reachable (h : (meshSystem env).Reachable s) (n : N) :
    (nodeSystem (env.storage n)).Reachable (s.nodes n) :=
  LTS.invariant (M := meshSystem env)
    (I := fun s => ∀ n, (nodeSystem (env.storage n)).Reachable (s.nodes n))
    (fun _ h₀ n => .of_init (h₀.nodes n)) (fun _ _ _ hi hs => (meshStep_cases hs).nodes_reachable hi)
    h n

end Propd
