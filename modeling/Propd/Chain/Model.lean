import Propd.Lib.Transition
import Propd.Wire.Package

/-!
# A chain of nodes

Node `0` routes to a backend, node `i + 1` routes to node `i` over a unix
storage. An operation on a node runs its io function, whose storage callback is
the operation on the node below, down to the backend. A whole operation happens
at one instant, so every reading of the clock in it is the same.

Between two nodes the request goes through a package, and the node below serves
it with the key its worker reads there. The call of a storage may fail before it
is served or after it. What does come through comes whole.
-/

namespace Propd

/-- What the backend holds for each key. -/
abbrev Backend := CString → Option Value

/-- The nodes, from the backend upwards, and the backend. -/
structure Chain where
  nodes : ℕ → IoCtx
  backend : Backend

namespace Chain

/-- Node `i` with its context replaced. -/
def setNode (s : Chain) (i : ℕ) (io : IoCtx) : Chain :=
  { s with nodes := Function.update s.nodes i io }

@[simp] theorem setNode_nodes_self (s : Chain) (i : ℕ) (io : IoCtx) :
    (s.setNode i io).nodes i = io := Function.update_self ..

@[simp] theorem setNode_nodes_of_ne (s : Chain) {i l : ℕ} (io : IoCtx) (h : l ≠ i) :
    (s.setNode i io).nodes l = s.nodes l := Function.update_of_ne h ..

theorem setNode_eq_self (s : Chain) (i : ℕ) : s.setNode i (s.nodes i) = s := by
  unfold setNode
  rw [Function.update_eq_self]

end Chain

/-- A node has done its part of an operation. -/
def nodeDone {α : Type} (i : ℕ) :
    Except Fault (IoCtx × Chain × α) → Except Fault (Chain × α)
  | .error e => .error e
  | .ok (io, s, r) => .ok (s.setNode i io, r)

/-- How the call of a storage goes: it is served and the reply comes back, it fails and is not
served, or it is served and the reply is lost. -/
inductive Hop
  | served
  | unserved (e : Errno)
  | lost (e : Errno)

section Hop

variable {σ α : Type}

/-- The worker at the other end of a unix storage serves a request with the key it reads. A key
without an end makes it read past its package, and for a value without data it waits for ever. -/
def workerServes (r : WireRequest) (serve : CString → Except Fault α) : Except Fault α :=
  match r.asRead with
  | none => .error .outOfBounds
  | some r' => if r'.req.setsEmpty then .error .blocked else serve r'.key

/-- What is behind the storage of node `i` serves a request: the backend of node `0`, and the
worker of the node below any other one. -/
def servedBelow (i : ℕ) (r : WireRequest) (serve : CString → Except Fault α) : Except Fault α :=
  match i with
  | 0 => serve r.key
  | _ + 1 => workerServes r serve

/-- The callback of the storage of node `i`, for the request `r`. -/
def storageCall (hop : Hop) (i : ℕ) (r : WireRequest) (w : σ)
    (serve : CString → Except Fault (σ × Except Errno α)) : Except Fault (σ × Except Errno α) :=
  match hop with
  | .unserved e => .ok (w, .error e)
  | .served => servedBelow i r serve
  | .lost e => (servedBelow i r serve).map fun (w', _) => (w', .error e)

end Hop

/-- The get of the backend: the value it holds, with duration `0`. -/
def backendGet (key : CString) (s : Chain) : GetResult :=
  match s.backend key with
  | some v => .ok (v, 0)
  | none => .error ENOENT

/-- A change of what the backend holds for the key. -/
def backendPut (key : CString) (v : Option Value) (s : Chain) : Chain :=
  { s with backend := Function.update s.backend key v }

/-- What an operation meets on its way down: the allocations of the io functions, and how the
calls of the storages go. -/
structure ChainEnv where
  allocs : ℕ → IoAlloc
  hops : ℕ → Hop

section

variable (env : ChainEnv) (now : Timestamp)

/-- `chainGet (i + 1)` is `io_get` on node `i`; `chainGet 0` is the backend. -/
def chainGet : ℕ → CString → Chain → Except Fault (Chain × GetResult)
  | 0, key, s => .ok (s, backendGet key s)
  | i + 1, key, s =>
    nodeDone i (ioGet (s.nodes i) key now (env.allocs i)
      (fun _ => storageCall (env.hops i) i ⟨.get, key⟩ s fun key => chainGet i key s) s)

/-- `chainSet (i + 1)` is `io_set` on node `i`. -/
def chainSet (value : Value) : ℕ → CString → Chain → Except Fault (Chain × SetResult)
  | 0, key, s => .ok (backendPut key (some value) s, .ok ())
  | i + 1, key, s =>
    nodeDone i (ioSet (s.nodes i) key value now (env.allocs i)
      (fun _ => storageCall (env.hops i) i ⟨.set value, key⟩ s fun key => chainSet value i key s) s)

/-- `chainDel (i + 1)` is `io_del` on node `i`. -/
def chainDel : ℕ → CString → Chain → Except Fault (Chain × SetResult)
  | 0, key, s => .ok (backendPut key none s, .ok ())
  | i + 1, key, s =>
    nodeDone i (ioDel (s.nodes i) key (env.allocs i)
      (fun _ => storageCall (env.hops i) i ⟨.del, key⟩ s fun key => chainDel i key s) s)

end

/-- What can happen at one instant: a request at node `j`, or a sweep of its cleaner. -/
inductive ChainOp
  | request (j : ℕ) (r : WireRequest) (env : ChainEnv)
  | sweep (j : ℕ)

/-- The effect of an operation at the instant `now`. -/
def ChainOp.run (now : Timestamp) (s : Chain) : ChainOp → Except Fault Chain
  | .request j ⟨.get, key⟩ env => (chainGet env now (j + 1) key s).map Prod.fst
  | .request j ⟨.set value, key⟩ env => (chainSet env now value (j + 1) key s).map Prod.fst
  | .request j ⟨.del, key⟩ env => (chainDel env (j + 1) key s).map Prod.fst
  | .sweep j =>
    .ok (s.setNode j { s.nodes j with
      cache := (s.nodes j).cache.map fun c => c.cleanerSweep now })

/-- A chain at a moment of its run. `past` records what the backend held, and when:
right before and right after each operation so far. -/
structure ChainState where
  chain : Chain
  clock : Timestamp
  past : List (Timestamp × Backend)

/-- One operation at the instant `now`; the clock does not go back. -/
def chainStep (s : ChainState) (l : Timestamp × ChainOp) : Option ChainState :=
  if s.clock ≤ l.1 then
    match l.2.run l.1 s.chain with
    | .error _ => none
    | .ok c => some ⟨c, l.1, s.past ++ [(l.1, s.chain.backend), (l.1, c.backend)]⟩
  else none

/-- The durations of a chain: the default `D i` of node `i`, and the minimum `m` of all
nodes. None is negative, and all are finite. -/
structure ChainConfig where
  default : ℕ → Timestamp
  min : Timestamp
  default_nonneg : ∀ i, 0 ≤ (default i).toInt
  default_ne_inf : ∀ i, default i ≠ DURATION_INF
  min_nonneg : 0 ≤ min.toInt
  min_ne_inf : min ≠ DURATION_INF

namespace ChainConfig

/-- `max (D 0) … (D j)` -/
def maxDefault (cfg : ChainConfig) : ℕ → ℤ
  | 0 => (cfg.default 0).toInt
  | j + 1 => max (cfg.maxDefault j) (cfg.default (j + 1)).toInt

/-- How stale a value of node `j` may be: one maximal default, and one minimum for
each hop below it. -/
def bound (cfg : ChainConfig) (j : ℕ) : ℤ := cfg.maxDefault j + j * cfg.min.toInt

/-- A node of the chain starts with an empty cache. -/
def Starts (cfg : ChainConfig) (i : ℕ) (io : IoCtx) : Prop :=
  ∃ c, io.cache = some c ∧ c.defaultDuration = cfg.default i ∧ c.minDuration = cfg.min ∧
    ∀ key, c.tree key = none

/-- The runs of a chain, from empty caches. -/
def system (cfg : ChainConfig) : Lib.LTS ChainState (Timestamp × ChainOp) :=
  .ofFun (fun s => 0 ≤ s.clock.toInt ∧ s.past = [] ∧ ∀ i, cfg.Starts i (s.chain.nodes i)) chainStep

end ChainConfig

/-- The key of a request is the one that the nodes below read: it has no hop to pass, or its key
is intact. -/
def KeyKept (j : ℕ) (r : WireRequest) : Prop := j = 0 ∨ r.KeyIntact

/-- The condition on a step: the key of a request is kept. -/
def ChainOp.KeepsKey : ChainOp → Prop
  | .request j r _ => KeyKept j r
  | .sweep _ => True

/-- No item's `modified + duration` leaves the 64-bit range. -/
def NoOverflow (s : Chain) : Prop :=
  ∀ i c key item, (s.nodes i).cache = some c → c.tree key = some item →
    item.duration ≠ DURATION_INF → item.modified.toInt + item.duration.toInt < 2 ^ 63

end Propd
