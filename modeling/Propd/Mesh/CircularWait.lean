import Propd.Lib.WaitFor
import Propd.Mesh.Model

/-!
# Circular waits

A request holds the lock of its key while its callback waits for another node. If the routes of
that node lead back, the request that is forwarded comes back to a node where the lock is held by
one that waits for its reply. Nothing in a registration looks for such a cycle: a node may even
be registered at itself.

This module proves that there is no other way: where a request waits for the lock of a key that
is held by one waiting for its reply, the routes for the key lead from this node back to it. It
holds for all nodes, all registrations and all interleavings, and so does what follows for
deadlocks among several requests.
-/

namespace Propd

open Lib Relation

variable {N σ ι : Type}

/-! ## Waiting -/

namespace Mesh

variable (s : Mesh N σ ι)

/-- The callback of the first thread waits for the reply of the second, which works for it. -/
def Awaits (p x : N × ι) : Prop := s.remote p.1 p.2 = .awaits x.1 x.2

/-- The first thread is about to lock a key of its node that the second has locked. -/
def WaitsForLock (p q : N × ι) : Prop :=
  q.1 = p.1 ∧ ∃ f, ((s.nodes p.1).tasks p.2).frame = some f ∧ f.pc = .lock ∧
    (s.nodes p.1).shared.locks f.key = some q.2

/-- **A circular wait** for the lock of a key: a request waits for the lock, and the request that
holds it waits, directly or through further nodes, for the reply to the first one. -/
def CircularWait (n : N) (key : CString) : Prop :=
  ∃ t holder f, ((s.nodes n).tasks t).frame = some f ∧ f.pc = .lock ∧ f.key = key ∧
    (s.nodes n).shared.locks key = some holder ∧ TransGen s.Awaits (n, holder) (n, t)

/-- A storage that a request for the key is given to at a node: that of an item that serves the
key, or that of a child whose registration is about to fetch the key. -/
inductive Routes (n : N) (key : CString) : StorageCtx → Prop
  | item {item : RouteItem} (hitem : item ∈ (s.nodes n).shared.route)
      (hserves : item.serves key = true) : Routes n key item.storage
  | child {t : ι} {c : ChildFrame} {f : IoFrame} (hc : (s.nodes n).tasks t = .child c)
      (hpc : c.pc = .io f) (hkey : f.key = key) : Routes n key c.storage

/-- The routes for a key lead from a node to another one, where the key is read as it may be. -/
def Leads (env : MeshEnv N σ) (p q : N × CString) : Prop :=
  ∃ storage req r, s.Routes p.1 p.2 storage ∧ env.connects p.1 storage.priv = true ∧
    env.listens storage.name = some q.1 ∧ (WireRequest.mk req p.2).asRead = some r ∧ r.key = q.2

/-- The place of a thread: its node, and the key of its call. -/
def place (p : N × ι) : N × CString :=
  (p.1, (((s.nodes p.1).tasks p.2).frame.map IoFrame.key).getD ⟨[], CString.nonul_nil⟩)

theorem place_of_frame {p : N × ι} {f : IoFrame}
    (hf : ((s.nodes p.1).tasks p.2).frame = some f) : s.place p = (p.1, f.key) := by
  rw [place, hf]
  rfl

end Mesh

/-! ## The requests that were sent -/

theorem Node.connection_eq_some {connects : ℕ → Bool} {n : Node σ ι} {t : ι} {f : IoFrame}
    {storage : StorageCtx} :
    n.connection connects t = some (f, storage) ↔ (n.tasks t).frame = some f ∧ f.pc = .storage ∧
      f.target n.shared.route = .ok storage ∧ connects storage.priv = true := by
  unfold Node.connection
  cases hf : (n.tasks t).frame with
  | none => exact iff_of_false nofun nofun
  | some g =>
    dsimp only
    constructor
    · intro h
      split at h
      · rename_i hpc
        split at h
        · cases h
        · rename_i st ht
          split at h
          · rename_i hconn
            cases h
            exact ⟨rfl, hpc, ht, hconn⟩
          · cases h
      · cases h
    · rintro ⟨hg, hpc, ht, hconn⟩
      cases hg
      rw [if_pos hpc, ht]
      dsimp only
      rw [if_pos hconn]

/-- A request that was sent: the callback of `t` is at its storage call, on a connection to the
node of `t'`, and `t'` works on the request that is read there. -/
def Mesh.Link (env : MeshEnv N σ) (s : Mesh N σ ι) (n : N) (t : ι) (m : N) (t' : ι) : Prop :=
  ∃ f storage r g, (s.nodes n).connection (env.connects n) t = some (f, storage) ∧
    env.listens storage.name = some m ∧
    (WireRequest.mk f.op.forwarded f.key).asRead = some r ∧
    (s.nodes m).tasks t' = .io g ∧ g.key = r.key

/-- The thread that an action takes on with its call, or out of it. -/
def Action.moved : Action ι → Option ι
  | .step t _ | .cancel t _ => some t
  | _ => none

/-- The thread that an action ends the task of. -/
def Action.ended : Action ι → Option ι
  | .ret t _ | .exit t => some t
  | _ => none

variable [DecidableEq ι] {e : StorageEnv σ} {node node' : Node σ ι} {a : Action ι}

/-- A connection stays while others move. -/
theorem NodeStep.connection [Fintype ι] (hs : NodeStep e node a node') (href : node.RefInv) {t : ι}
    (ht : a.thread ≠ some t) {connects : ℕ → Bool} {f : IoFrame} {storage : StorageCtx}
    (h : node.connection connects t = some (f, storage)) :
    node'.connection connects t = some (f, storage) := by
  obtain ⟨hf, hpc, htarget, hconn⟩ := Node.connection_eq_some.mp h
  refine Node.connection_eq_some.mpr ⟨?_, hpc, hs.target_of_ne href ht hf hpc htarget, hconn⟩
  rw [hs.tasks_of_ne ht]
  exact hf

/-- A thread that works on a request goes on with it until it returns or exits. -/
theorem NodeStep.io_key (hs : NodeStep e node a node') {t : ι} {g : IoFrame}
    (hg : node.tasks t = .io g) (hended : a.ended ≠ some t) :
    ∃ g', node'.tasks t = .io g' ∧ g'.key = g.key := by
  by_cases ht : a.thread = some t
  · cases hs with
    | call hidle =>
      cases ht
      exact absurd (hidle.symm.trans hg) nofun
    | register hidle =>
      cases ht
      exact absurd (hidle.symm.trans hg) nofun
    | @frame t₁ inp f f' sh hf hs =>
      cases ht
      rw [hg] at hf
      cases hf
      refine ⟨f', ?_, hs.same_call.2⟩
      simp only [Node.withTask, Function.update_self, hg]
      rfl
    | ret hend =>
      cases ht
      exact absurd rfl hended
    | @cancel t₁ effect f w hf hpc =>
      cases ht
      rw [hg] at hf
      cases hf
      refine ⟨{ g with pc := .unlock, cancelled := true }, ?_, rfl⟩
      simp only [Node.withTask, Function.update_self, hg]
      rfl
    | exit hend =>
      cases ht
      exact absurd rfl hended
    | unregister => cases ht
    | sweep => cases ht
    | nextKey hc | lastKey hc | noPrefixes hc | updated hc | updateFailed hc | registerFailed hc
    | registered hc | destructed hc =>
      cases ht
      exact absurd (hc.symm.trans hg) nofun
  · exact ⟨g, (hs.tasks_of_ne ht).trans hg, rfl⟩

variable [DecidableEq N] {env : MeshEnv N σ} {s s' : Mesh N σ ι}

/-- What waits for another thread after an action of a node has waited for it before, and the
action is none of this thread, nor the end of what the other one works on. -/
theorem Mesh.awaits_before {n₀ n m : N} {t t' : ι}
    (h : s.remoteAfter n₀ a n t = .awaits m t') :
    s.remote n t = .awaits m t' ∧ (n = n₀ → a.moved ≠ some t) ∧ (m = n₀ → a.ended ≠ some t') := by
  -- a thread that steps or is cancelled awaits nothing afterwards
  have hmove : ∀ t₀, (if n = n₀ ∧ t = t₀ then Remote.unsent else s.remote n t) = .awaits m t' →
      s.remote n t = .awaits m t' ∧ (n = n₀ → some t₀ ≠ some t) ∧ (m = n₀ → none ≠ some t') := by
    intro t₀ hif
    split at hif
    · cases hif
    · rename_i hne
      refine ⟨hif, fun hn ht => hne ⟨hn, ?_⟩, fun _ => nofun⟩
      exact (Option.some.inj ht).symm
  -- and nobody awaits one that returns or exits
  have hreply : ∀ t₀, (if s.remote n t = .awaits n₀ t₀ then Remote.replied else s.remote n t) =
      .awaits m t' →
      s.remote n t = .awaits m t' ∧ (n = n₀ → none ≠ some t) ∧ (m = n₀ → some t₀ ≠ some t') := by
    intro t₀ hif
    split at hif
    · cases hif
    · rename_i hne
      refine ⟨hif, fun _ => nofun, fun hm ht => hne ?_⟩
      rw [hif, hm, Option.some.inj ht]
  have hrest : s.remote n t = .awaits m t' →
      s.remote n t = .awaits m t' ∧ (n = n₀ → none ≠ some t) ∧ (m = n₀ → none ≠ some t') :=
    fun hsame => ⟨hsame, fun _ => nofun, fun _ => nofun⟩
  cases a with
  | step t₀ inp => exact hmove t₀ h
  | cancel t₀ effect => exact hmove t₀ h
  | ret t₀ r => exact hreply t₀ h
  | exit t₀ => exact hreply t₀ h
  | call => exact hrest h
  | register => exact hrest h
  | unregister => exact hrest h
  | sweep => exact hrest h

/-- A thread at its storage call is none of an action that neither steps nor cancels it. -/
theorem NodeStep.thread_ne (hs : NodeStep e node a node') {t : ι} {f : IoFrame}
    (hf : (node.tasks t).frame = some f) (hpc : f.pc = .storage) (hmoved : a.moved ≠ some t) :
    a.thread ≠ some t := by
  intro ht
  have hidle : node.tasks t ≠ .idle := by
    intro hi
    rw [hi] at hf
    cases hf
  have hbusy : ∀ x, taskEnd (node.tasks t) ≠ some x := by
    intro x hx
    rcases taskEnd_eq_some hx with ⟨g, hg, hdone, -⟩ | ⟨c, hc, hdone, -⟩
    · rw [hg] at hf
      cases hf
      exact absurd (hpc.symm.trans hdone) nofun
    · rw [hc, Task.frame, hdone] at hf
      cases hf
  cases a with
  | call t₀ req key =>
    cases ht
    cases hs with
    | call hi => exact hidle hi
  | register t₀ name cacheNow prefixes =>
    cases ht
    cases hs with
    | register hi => exact hidle hi
  | step t₀ inp => exact hmoved ht
  | cancel t₀ effect => exact hmoved ht
  | ret t₀ r =>
    cases ht
    cases hs with
    | ret hend => exact hbusy _ hend
  | exit t₀ =>
    cases ht
    cases hs with
    | exit hend =>
      rcases hend with hi | ⟨r, hend⟩
      · exact hidle hi
      · exact hbusy _ hend
  | unregister name => cases ht
  | sweep now => cases ht

/-- The thread that takes up a request was idle. -/
theorem nodeStep_call {req : IoRequest} {key : CString} {t : ι}
    (h : nodeStep e node (.call t req key) = some (.ok node')) :
    node.tasks t = .idle ∧ node' = node.withTask t (.io (.start (.request req) key)) := by
  cases nodeStep_cases h with
  | call hidle => exact ⟨hidle, rfl⟩

omit [DecidableEq ι] [DecidableEq N] in
/-- A request is what a callback sends on its connection, as it is read there. -/
theorem Mesh.request_eq_some {n m : N} {t : ι} {r : WireRequest}
    (h : s.request env n t = some (m, r)) :
    ∃ f storage, (s.nodes n).connection (env.connects n) t = some (f, storage) ∧
      env.listens storage.name = some m ∧
      (WireRequest.mk f.op.forwarded f.key).asRead = some r := by
  unfold Mesh.request at h
  cases hconn : (s.nodes n).connection (env.connects n) t with
  | none =>
    rw [hconn] at h
    cases h
  | some x =>
    obtain ⟨f, storage⟩ := x
    rw [hconn] at h
    dsimp only at h
    split at h
    · rename_i m' r' hlistens hread
      cases h
      exact ⟨f, storage, rfl, hlistens, hread⟩
    · cases h

variable [Fintype ι]

/-- A node keeps the connection of a thread that it does not move. -/
theorem Mesh.connection_update {n₀ n : N} {t : ι} {f : IoFrame} {storage : StorageCtx}
    (hs : NodeStep (env.storage n₀) (s.nodes n₀) a node)
    (hreach : (nodeSystem (env.storage n₀)).Reachable (s.nodes n₀))
    (hthread : n = n₀ → a.thread ≠ some t)
    (hconn : (s.nodes n).connection (env.connects n) t = some (f, storage)) :
    (Function.update s.nodes n₀ node n).connection (env.connects n) t = some (f, storage) := by
  by_cases hn : n = n₀
  · subst hn
    rw [Function.update_self]
    exact hs.connection (refInv_of_reachable hreach) (hthread rfl) hconn
  · rwa [Function.update_of_ne hn]

/-- A node that steps keeps the links: the caller does not move, and what it has forwarded goes
on. -/
theorem Mesh.link_node {n₀ : N}
    (hs : NodeStep (env.storage n₀) (s.nodes n₀) a node)
    (hreach : (nodeSystem (env.storage n₀)).Reachable (s.nodes n₀))
    (h : ∀ n t m t', s.remote n t = .awaits m t' → s.Link env n t m t') {n m : N} {t t' : ι}
    (hawaits : s.remoteAfter n₀ a n t = .awaits m t') :
    Mesh.Link env ⟨Function.update s.nodes n₀ node, s.remoteAfter n₀ a⟩ n t m t' := by
  obtain ⟨hbefore, hcaller, hserver⟩ := Mesh.awaits_before hawaits
  obtain ⟨f, storage, r, g, hconn, hlistens, hread, hg, hkey⟩ := h n t m t' hbefore
  have hconn' : (Function.update s.nodes n₀ node n).connection (env.connects n) t =
      some (f, storage) := by
    refine Mesh.connection_update hs hreach (fun hn => ?_) hconn
    subst hn
    obtain ⟨hf, hpc, -⟩ := Node.connection_eq_some.mp hconn
    exact hs.thread_ne hf hpc (hcaller rfl)
  have hg' : ∃ g', (Function.update s.nodes n₀ node m).tasks t' = .io g' ∧ g'.key = g.key := by
    by_cases hm : m = n₀
    · subst hm
      rw [Function.update_self]
      exact hs.io_key hg (hserver rfl)
    · rw [Function.update_of_ne hm]
      exact ⟨g, hg, rfl⟩
  obtain ⟨g', hg', hkey'⟩ := hg'
  exact ⟨f, storage, r, g', hconn', hlistens, hread, hg', hkey'.trans hkey⟩

/-- A request that is sent adds the link of its caller to those that are there. -/
theorem Mesh.link_forward {n₀ m₀ : N} {t₀ t₀' : ι} {r₀ : WireRequest}
    (hreq : s.request env n₀ t₀ = some (m₀, r₀))
    (hs : nodeStep (env.storage m₀) (s.nodes m₀) (.call t₀' r₀.req r₀.key) = some (.ok node))
    (hreach : (nodeSystem (env.storage m₀)).Reachable (s.nodes m₀))
    (h : ∀ n t m t', s.remote n t = .awaits m t' → s.Link env n t m t') {n m : N} {t t' : ι}
    (hawaits : s.remoteSent n₀ t₀ m₀ t₀' n t = .awaits m t') :
    Mesh.Link env ⟨Function.update s.nodes m₀ node, s.remoteSent n₀ t₀ m₀ t₀'⟩ n t m t' := by
  obtain ⟨hidle, rfl⟩ := nodeStep_call hs
  have hstep := nodeStep_cases hs
  -- the thread that takes up the request has no frame, and so it is no caller
  have hcaller : ∀ {n t f storage},
      (s.nodes n).connection (env.connects n) t = some (f, storage) →
      (Function.update s.nodes m₀ ((s.nodes m₀).withTask t₀' (.io (.start (.request r₀.req) r₀.key)))
        n).connection (env.connects n) t = some (f, storage) := by
    intro n t f storage hconn
    refine Mesh.connection_update hstep hreach (fun hn ht => ?_) hconn
    subst hn
    cases ht
    have hf := (Node.connection_eq_some.mp hconn).1
    rw [hidle] at hf
    cases hf
  simp only [Mesh.remoteSent] at hawaits
  split at hawaits
  · rename_i hself
    obtain ⟨rfl, rfl⟩ := hself
    cases hawaits
    obtain ⟨f, storage, hconn, hlistens, hread⟩ := Mesh.request_eq_some hreq
    refine ⟨f, storage, r₀, .start (.request r₀.req) r₀.key, hcaller hconn, hlistens, hread, ?_, rfl⟩
    dsimp only
    rw [Function.update_self]
    exact Function.update_self _ _ _
  · obtain ⟨f, storage, r, g, hconn, hlistens, hread, hg, hkey⟩ := h n t m t' hawaits
    refine ⟨f, storage, r, g, hcaller hconn, hlistens, hread, ?_, hkey⟩
    dsimp only
    by_cases hm : m = m₀
    · subst hm
      rw [Function.update_self]
      refine (Function.update_of_ne ?_ _ _).trans hg
      rintro rfl
      exact absurd (hidle.symm.trans hg) nofun
    · rwa [Function.update_of_ne hm]

/-- **Every step of a mesh keeps its links**: what a thread waits for is the request it has
sent. -/
theorem MeshStep.link {b : MeshAction N ι} (hs : MeshStep env s b s')
    (hreach : ∀ n, (nodeSystem (env.storage n)).Reachable (s.nodes n))
    (h : ∀ n t m t', s.remote n t = .awaits m t' → s.Link env n t m t') :
    ∀ n t m t', s'.remote n t = .awaits m t' → s'.Link env n t m t' := by
  intro n t m t' hawaits
  cases hs with
  | node _ hs => exact Mesh.link_node (nodeStep_cases hs) (hreach _) h hawaits
  | forward _ hreq hs => exact Mesh.link_forward hreq hs (hreach _) h hawaits

/-- **What a thread waits for is the request it has sent**, in every reachable state. -/
theorem mesh_link (h : (meshSystem env).Reachable s) :
    ∀ n t m t', s.remote n t = .awaits m t' → s.Link env n t m t' := by
  have hboth : (∀ n, (nodeSystem (env.storage n)).Reachable (s.nodes n)) ∧
      ∀ n t m t', s.remote n t = .awaits m t' → s.Link env n t m t' := by
    refine LTS.invariant (M := meshSystem env)
      (I := fun s : Mesh N σ ι => (∀ n, (nodeSystem (env.storage n)).Reachable (s.nodes n)) ∧
        ∀ n t m t', s.remote n t = .awaits m t' → s.Link env n t m t')
      (fun s h₀ => ⟨fun n => .of_init (h₀.nodes n), fun n t m t' hawaits => ?_⟩)
      (fun s b s' hi hs => ?_) h
    · rw [h₀.remote n t] at hawaits
      cases hawaits
    · have hstep := meshStep_cases hs
      exact ⟨hstep.nodes_reachable hi.1, hstep.link hi.1 hi.2⟩
  exact hboth.2

/-! ## Waiting goes along the routes -/

omit [DecidableEq N] [DecidableEq ι] [Fintype ι] in
/-- The target of a call is a storage that its key is routed to. -/
theorem Mesh.routes_of_target {n : N} {t : ι} {f : IoFrame} {storage : StorageCtx}
    (hf : ((s.nodes n).tasks t).frame = some f) (hok : TaskOk ((s.nodes n).tasks t))
    (hserves : (s.nodes n).Serves) (hpc : f.pc = .storage)
    (htarget : f.target (s.nodes n).shared.route = .ok storage) : s.Routes n f.key storage := by
  unfold IoFrame.target at htarget
  cases hop : f.op with
  | request req =>
    rw [hop] at htarget
    dsimp only at htarget
    split at htarget
    · cases htarget
    · rename_i addr hctx
      split at htarget
      · cases htarget
      · rename_i item hitem
        cases htarget
        obtain ⟨hmem, haddr⟩ := RouteList.itemAt_eq_some hitem
        have hheld : f.held = some addr := by
          rw [IoFrame.held_of_ne_done (by rw [hpc]; nofun), hctx]
        exact .item hmem (hserves t f addr hf hheld item hmem haddr)
  | update storage' =>
    rw [hop] at htarget
    cases htarget
    -- only the `io_update` of a child is given a storage
    rcases Task.frame_eq_some hf with hio | ⟨c, hc, hchild⟩
    · rw [hio] at hok
      obtain ⟨-, req, hreq⟩ := hok
      cases hop.symm.trans hreq
    · rw [hc] at hok
      cases hop.symm.trans (hok f hchild).2
      exact .child hc hchild rfl

/-- **Where the threads of a mesh are when they wait**, in every reachable state: a thread waits
for a lock at its own place and holds none there, and it waits for a reply along a route. -/
theorem mesh_placed (h : (meshSystem env).Reachable s) :
    Placed s.WaitsForLock s.Awaits s.place (s.Leads env) where
  same := by
    rintro ⟨n, t⟩ ⟨m, t'⟩ ⟨rfl, f, hf, -, hlock⟩
    have hinv := lockInv_of_reachable (mesh_nodes_reachable h m)
    obtain ⟨g, hg, hlocked⟩ := Option.bind_eq_some_iff.mp ((hinv.holder f.key t').mp hlock)
    have hown := (hinv.keyOk t' g hg).own f.key (IoFrame.key_of_locked hlocked)
    rw [s.place_of_frame hf, s.place_of_frame (p := (m, t')) hg, hown]
  holder := by
    rintro ⟨n, t⟩ ⟨m, t'⟩ c ⟨rfl, f, hf, -, hlock⟩ ⟨-, g, hg, hpc, -⟩
    have hinv := lockInv_of_reachable (mesh_nodes_reachable h m)
    obtain ⟨g', hg', hlocked⟩ := Option.bind_eq_some_iff.mp ((hinv.holder f.key t').mp hlock)
    cases hg.symm.trans hg'
    -- a holder is past the lock, and one that waits for a lock is not
    have hearly := (hinv.keyOk t' g hg).early (.inr (.inr hpc))
    cases hearly.symm.trans (IoFrame.key_of_locked hlocked)
  along := by
    rintro ⟨n, t⟩ ⟨m, t'⟩ hawaits
    obtain ⟨f, storage, r, g, hconn, hlistens, hread, hg, hkey⟩ := mesh_link h n t m t' hawaits
    obtain ⟨hf, hpc, htarget, hconnects⟩ := Node.connection_eq_some.mp hconn
    have hnode := mesh_nodes_reachable h n
    have hroutes := Mesh.routes_of_target hf ((refInv_of_reachable hnode).taskOk t)
      (serves_of_reachable hnode) hpc htarget
    have hframe : ((s.nodes m).tasks t').frame = some g := by
      rw [hg]
      rfl
    rw [s.place_of_frame (p := (n, t)) hf, s.place_of_frame (p := (m, t')) hframe]
    exact ⟨storage, _, r, hroutes, hconnects, hlistens, hread, hkey.symm⟩

/-- **A circular wait goes round in the routes**: in every reachable state, for all nodes, all
registrations and all interleavings, no request waits for the lock of a key that is held by one
waiting for its reply, unless the routes for the key lead from this node back to it. -/
theorem noCircularWait (h : (meshSystem env).Reachable s) {n : N} {key : CString}
    (hroutes : ¬ TransGen (s.Leads env) (n, key) (n, key)) : ¬ s.CircularWait n key := by
  rintro ⟨t, holder, f, hf, hpc, rfl, hlock, hchain⟩
  have hplaced := mesh_placed h
  have hwait : s.WaitsForLock (n, t) (n, holder) := ⟨rfl, f, hf, hpc, hlock⟩
  have hcycle := hplaced.lock_of_answers hwait hchain
  rw [← hplaced.same _ _ hwait, s.place_of_frame (p := (n, t)) hf] at hcycle
  exact hroutes hcycle

/-- **Without a cycle in the routes there is no deadlock**: no thread waits for itself, through
whatever locks and replies of others. -/
theorem mesh_noDeadlock (h : (meshSystem env).Reachable s)
    (hroutes : ∀ p, ¬ TransGen (s.Leads env) p p) (p : N × ι) :
    ¬ TransGen (WaitsFor s.WaitsForLock s.Awaits) p p :=
  fun hcycle => hroutes _ ((mesh_placed h).cycle hcycle)

section Example

/-- Two nodes with a local storage each, where the name leads to node `m`. -/
def exampleLeads (m : Fin 2) : MeshEnv (Fin 2) (Option Value) where
  storage _ := cellEnv
  listens name := if name = exampleListener then some m else none
  connects _ priv := 1 ≤ priv

def exampleMesh : Mesh (Fin 2) (Option Value) (Fin 2) where
  nodes _ := exampleNode (Fin 2) none
  remote _ _ := .unsent

theorem exampleMesh_starts (m : Fin 2) : exampleMesh.Starts (exampleLeads m) where
  nodes _ := exampleNode_starts none
  remote _ _ := rfl
  children _ _ hpriv := decide_eq_true hpriv

/-- Node 0 registers the name, for every key. Then a get is forwarded from node 0 to a thread of
node `m`, which goes on until it has to lock the key. -/
def exampleForward (m : Fin 2) : List (MeshAction (Fin 2) (Fin 2)) :=
  let inp := exampleInputs 0 (.error ENOENT)
  let fst : Fin 2 := ⟨0, Nat.two_pos⟩
  let snd : Fin 2 := ⟨1, Nat.one_lt_two⟩
  [.node fst (.register fst exampleListener [] [exampleAny]), .node fst (.step fst inp),
    .node fst (.step fst inp), .node fst (.ret fst (.ok none)),
    .node fst (.call fst .get exampleKey), .node fst (.step fst inp), .node fst (.step fst inp),
    .node fst (.step fst inp), .forward fst fst snd, .node m (.step snd inp),
    .node m (.step snd inp)]

/-- Where the name leads to node 1, the get waits for its reply from there, and there is no
circular wait. -/
theorem noCircularWait_forward : ∃ s, (meshSystem (exampleLeads 1)).Reachable s ∧
    s.Awaits (0, (0 : Fin 2)) (1, 1) ∧ ¬ s.CircularWait 0 exampleKey := by
  obtain ⟨s, hrun, hawaits⟩ : ∃ s, LTS.exec (LTS.stepsOk (meshStep (exampleLeads 1))) exampleMesh
      (exampleForward 1) = some s ∧ s.Awaits (0, 0) (1, 1) := ⟨_, rfl, rfl⟩
  have hreach : (meshSystem (exampleLeads 1)).Reachable s :=
    LTS.exec_reachable (fun _ _ _ => LTS.stepsOk_eq_some) (exampleMesh_starts 1) hrun
  refine ⟨s, hreach, hawaits, noCircularWait hreach fun hcycle => ?_⟩
  -- nothing leads to node 0
  obtain ⟨p, -, storage, req, r, -, -, hlistens, -⟩ := TransGen.tail'_iff.mp hcycle
  simp only [exampleLeads] at hlistens
  split at hlistens
  · cases hlistens
  · cases hlistens

/-- **A node that is registered at itself**: its get takes the lock of the key and is forwarded to
another of its own threads, which waits for this lock. -/
theorem exampleMesh_circularWait : ∃ s : Mesh (Fin 2) (Option Value) (Fin 2),
    (meshSystem (exampleLeads 0)).Reachable s ∧ s.CircularWait 0 exampleKey := by
  obtain ⟨s, hrun, hwait⟩ : ∃ s, LTS.exec (LTS.stepsOk (meshStep (exampleLeads 0))) exampleMesh
      (exampleForward 0) = some s ∧ s.CircularWait 0 exampleKey :=
    ⟨_, rfl, 1, 0, _, rfl, rfl, rfl, rfl, .single rfl⟩
  refine ⟨s, ?_, hwait⟩
  exact LTS.exec_reachable (fun _ _ _ => LTS.stepsOk_eq_some) (exampleMesh_starts 0) hrun

end Example

end Propd
