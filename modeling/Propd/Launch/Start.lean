import Propd.Launch.Calls

/-!
# The start of a node

The variables of `__propd_run` account for all that the process has. Each stage of the start keeps
that, whatever fails.
-/

namespace Propd.Launch

open Lib

variable {config : RunConfig} {env : Environment} {v : RunVars} {w : World} {r q : Resource}
  {rs rest : List Resource}

/-- The items of a table. -/
def items (table : RouteList) : List Resource := table.map fun item => .item item.addr

namespace RunVars

def ctrlServer (v : RunVars) : List Resource := if v.ctrlTid then ctrlOwned else []

def ioServer (v : RunVars) : List Resource := if v.ioTid then ioOwned else []

def threadPool (v : RunVars) : List Resource := v.tpool.elim [] ThreadPool.owned

def routeTable (v : RunVars) : List Resource := if v.route then [.routeRwlock, .route] else []

def cacheParts (v : RunVars) : List Resource :=
  if v.cache then [.cleaner, .cleanNotice, .cacheRwlock, .cache] else []

def namedMutexes (v : RunVars) : List Resource := if v.nmtxNs then [.nmtxMutex, .nmtxNs] else []

/-- The queue of a pool that has no threads is not given back. -/
def leaked (v : RunVars) : List Resource := v.tpool.elim [] ThreadPool.leaked

/-- What comes behind the items in the cleanup. -/
def base (v : RunVars) : List Resource :=
  v.threadPool ++ (v.routeTable ++ (v.cacheParts ++ (v.namedMutexes ++ v.leaked)))

/-- What the process has, in the order of the cleanup. -/
def owned (v : RunVars) (table : RouteList) : List Resource :=
  v.ctrlServer ++ (v.ioServer ++ (items table ++ v.base))

theorem count_owned (ret : Int32) (tpool : Option ThreadPool) (nmtxNs cache route ioTid ctrlTid : Bool)
    (table : RouteList) (r : Resource) :
    (owned ⟨ret, tpool, nmtxNs, cache, route, ioTid, ctrlTid⟩ table).count r =
      (if ctrlTid then ctrlOwned.count r else 0) + (if ioTid then ioOwned.count r else 0) +
        (items table).count r + (ThreadPool.acquired tpool).count r +
        (if route then [Resource.routeRwlock, .route].count r else 0) +
        (if cache then [Resource.cleaner, .cleanNotice, .cacheRwlock, .cache].count r else 0) +
        (if nmtxNs then [Resource.nmtxMutex, .nmtxNs].count r else 0) := by
  have hif : ∀ (b : Bool) (rs : List Resource),
      (if b then rs else []).count r = if b then rs.count r else 0 := by
    rintro (_ | _) rs <;> rfl
  have hpool : (ThreadPool.acquired tpool).count r =
      (tpool.elim [] ThreadPool.owned).count r + (tpool.elim [] ThreadPool.leaked).count r := by
    cases tpool with
    | none => rfl
    | some t => exact List.count_append
  simp only [owned, base, ctrlServer, ioServer, threadPool, routeTable, cacheParts, namedMutexes,
    leaked, List.count_append, hif, hpool]
  omega

theorem perm_owned {v' : RunVars} {new : List Resource} {table : RouteList}
    (h : ∀ r, new.count r + (v.owned table).count r = (v'.owned table).count r) :
    (new ++ v.owned table).Perm (v'.owned table) :=
  List.perm_iff_count.mpr fun r => by rw [List.count_append, h]

theorem turn_leaked (hq : q ∈ v.leaked) :
    q.turn = 3 ∧ q.isThread = false ∧ v.tpool.isSome = true := by
  cases hv : v.tpool with
  | none => simp [leaked, hv] at hq
  | some tpool =>
    simp only [leaked, hv, Option.elim_some, ThreadPool.leaked] at hq
    split at hq
    · have hall : ∀ q ∈ [Resource.mutex, .notEmpty, .notFull, .queue],
        q.turn = 3 ∧ q.isThread = false := by simp [Resource.turn, Resource.isThread]
      exact ⟨(hall q hq).1, (hall q hq).2, rfl⟩
    · cases hq

theorem turn_ctrlServer (hq : q ∈ v.ctrlServer) : q.turn = 0 ∧ v.ctrlTid = true := by
  cases hv : v.ctrlTid <;> simp_all [ctrlServer, ctrlOwned]
  rcases hq with rfl | rfl | rfl | rfl | rfl | rfl | rfl <;> simp [Resource.turn]

theorem turn_ioServer (hq : q ∈ v.ioServer) : q.turn = 1 ∧ v.ioTid = true := by
  cases hv : v.ioTid <;> simp_all [ioServer, ioOwned]
  rcases hq with rfl | rfl | rfl | rfl <;> simp [Resource.turn]

theorem turn_threadPool (hq : q ∈ v.threadPool) : q.turn = 3 ∧ v.tpool.isSome = true := by
  cases hv : v.tpool with
  | none => simp [threadPool, hv] at hq
  | some tpool => exact ⟨ThreadPool.turn_owned (by simpa [threadPool, hv] using hq), rfl⟩

theorem turn_routeTable (hq : q ∈ v.routeTable) : q.turn = 4 ∧ v.route = true := by
  cases hv : v.route <;> simp_all [routeTable]
  rcases hq with rfl | rfl <;> simp [Resource.turn]

theorem turn_cacheParts (hq : q ∈ v.cacheParts) : q.turn = 5 ∧ v.cache = true := by
  cases hv : v.cache <;> simp_all [cacheParts]
  rcases hq with rfl | rfl | rfl | rfl <;> simp [Resource.turn]

theorem turn_namedMutexes (hq : q ∈ v.namedMutexes) : q.turn = 6 ∧ v.nmtxNs = true := by
  cases hv : v.nmtxNs <;> simp_all [namedMutexes]
  rcases hq with rfl | rfl <;> simp [Resource.turn]

/-- What a resource of the cleanup is, and which variable has it. -/
theorem turn_owned {table : RouteList} (hq : q ∈ v.owned table) :
    (q.turn = 0 ∧ v.ctrlTid = true) ∨ (q.turn = 1 ∧ v.ioTid = true) ∨
      (q.turn = 2 ∧ q.isThread = false) ∨ (q.turn = 3 ∧ v.tpool.isSome = true) ∨
      (q.turn = 4 ∧ v.route = true) ∨ (q.turn = 5 ∧ v.cache = true) ∨
      (q.turn = 6 ∧ v.nmtxNs = true) := by
  simp only [owned, base, List.mem_append] at hq
  rcases hq with hq | hq | hq | hq | hq | hq | hq | hq
  · exact .inl (turn_ctrlServer hq)
  · exact .inr (.inl (turn_ioServer hq))
  · obtain ⟨item, -, rfl⟩ := List.mem_map.mp hq
    exact .inr (.inr (.inl ⟨rfl, rfl⟩))
  · exact .inr (.inr (.inr (.inl (turn_threadPool hq))))
  · exact .inr (.inr (.inr (.inr (.inl (turn_routeTable hq)))))
  · exact .inr (.inr (.inr (.inr (.inr (.inl (turn_cacheParts hq))))))
  · exact .inr (.inr (.inr (.inr (.inr (.inr (turn_namedMutexes hq))))))
  · obtain ⟨hturn, -, hsome⟩ := turn_leaked hq
    exact .inr (.inr (.inr (.inl ⟨hturn, hsome⟩)))

end RunVars

/-- The variables account for what the process has. -/
structure Accounts (config : RunConfig) (v : RunVars) (w : World) : Prop where
  live : w.live.Perm (v.owned config.localRoute)
  table : w.table = config.localRoute
  nmtxTree : w.nmtxTree = []
  tasks : w.tasks = false
  written : w.written = []

/-- Before `__propd_run` there is what the configuration has: items that nobody uses. -/
structure World.Starts (config : RunConfig) (w : World) : Prop where
  idle : ∀ item ∈ config.localRoute, item.nref = 0
  live : w.live.Perm (items config.localRoute)
  table : w.table = config.localRoute
  nmtxTree : w.nmtxTree = []
  tasks : w.tasks = false
  written : w.written = []

theorem World.Starts.accounts (h : w.Starts config) : Accounts config .init w :=
  ⟨by simpa [RunVars.owned, RunVars.init, RunVars.ctrlServer, RunVars.ioServer, RunVars.base,
      RunVars.threadPool, RunVars.routeTable, RunVars.cacheParts, RunVars.namedMutexes,
      RunVars.leaked] using h.live, h.table, h.nmtxTree, h.tasks, h.written⟩

/-- A turn whose variable is not set is free. -/
theorem Accounts.free {k : ℕ} (h : Accounts config v w)
    (hk : k = 0 ∧ v.ctrlTid = false ∨ k = 1 ∧ v.ioTid = false ∨ k = 4 ∧ v.route = false ∨
      k = 5 ∧ v.cache = false ∨ k = 6 ∧ v.nmtxNs = false) : w.Free k := by
  intro q hq
  have hturn : q.turn ≠ k := by
    have hcases := RunVars.turn_owned (h.live.mem_iff.mp hq)
    grind
  refine ⟨hturn, fun r hr => ?_⟩
  rw [h.tasks]
  exact Resource.uses_of_turn_ne (by rw [hr]; exact hturn) (by omega)

/-- In the beginning there are no threads at all. -/
theorem Accounts.free_pool {ret : Int32}
    (h : Accounts config ⟨ret, none, false, false, false, false, false⟩ w) : w.Free 3 := by
  intro q hq
  have hcases := RunVars.turn_owned (h.live.mem_iff.mp hq)
  simp at hcases
  exact ⟨by omega, fun r _ => Resource.uses_of_not_isThread hcases.2⟩

/-- **A stage** that creates something: it is in its variable, or nothing has changed. -/
theorem Accounts.create {α : Type} {p : RunM α} {good : α → Prop} {new : α → List Resource}
    {f : α → RunVars} (h : Accounts config v w) (hp : Creates p good new w)
    (hgood : ∀ a, good a →
      (new a ++ v.owned config.localRoute).Perm ((f a).owned config.localRoute))
    (hbad : ∀ a, ¬good a → (f a).owned config.localRoute = v.owned config.localRoute) :
    ∃ a w', (do return f (← p) : RunM RunVars).run w = .ok (f a, w') ∧ Accounts config (f a) w' := by
  obtain ⟨a, live, errno, hrun, hres⟩ := hp
  refine ⟨a, _, (bind_run hrun).trans (pure_run _), ⟨?_, h.table, h.nmtxTree, h.tasks, h.written⟩⟩
  rcases hres with ⟨ha, hlive⟩ | ⟨ha, hlive, -⟩
  · exact (hlive.trans (h.live.append_left _)).trans (hgood a ha)
  · rw [hbad a ha]
    exact hlive.trans h.live

/-! ## The start -/

variable (env) in
theorem runNamespace_spec (h : Accounts config .init w) :
    ∃ ret w', (runNamespace env .init).run w =
        .ok (⟨ret, none, false, false, false, false, false⟩, w') ∧
      Accounts config ⟨ret, none, false, false, false, false, false⟩ w' := by
  unfold runNamespace
  split
  · exact ⟨-1, _, rfl, h.live, h.table, h.nmtxTree, h.tasks, h.written⟩
  · exact ⟨0, w, rfl, h⟩

section

variable {ret : Int32} {tpool : Option ThreadPool} {nmtxNs cache route ioTid : Bool}

variable (env) in
theorem runThreadPool_spec
    (h : Accounts config ⟨ret, none, false, false, false, false, false⟩ w) :
    ∃ ret' tpool w', (runThreadPool config env ⟨ret, none, false, false, false, false, false⟩).run w =
        .ok (⟨ret', tpool, false, false, false, false, false⟩, w') ∧
      Accounts config ⟨ret', tpool, false, false, false, false, false⟩ w' ∧
      (ret' = 0 → tpool.isSome = true) := by
  by_cases hret : ret = 0
  · obtain ⟨tpool, w', hrun, hacc⟩ := h.create
      (f := fun tpool => ⟨if tpool.isSome then 0 else -1, tpool, false, false, false, false, false⟩)
      (threadPoolCreate_spec env config.threadNum 5 config.threadNumMaxIfAuto 0 h.free_pool)
      (fun tpool htpool => RunVars.perm_owned (by simp [RunVars.count_owned, ThreadPool.acquired]; omega))
      (fun tpool htpool => by rw [Option.not_isSome_iff_eq_none.mp htpool]; rfl)
    refine ⟨_, tpool, w', ?_, hacc, fun hzero => ?_⟩
    · rw [runThreadPool, if_pos hret]
      exact hrun
    · by_contra hnone
      simp [hnone] at hzero
  · exact ⟨ret, none, w, by simp [runThreadPool, hret], h, fun hzero => absurd hzero hret⟩

variable (env) in
theorem runNamedMutex_spec (h : Accounts config ⟨ret, tpool, false, false, false, false, false⟩ w) :
    ∃ ret' nmtxNs w', (runNamedMutex env ⟨ret, tpool, false, false, false, false, false⟩).run w =
        .ok (⟨ret', tpool, nmtxNs, false, false, false, false⟩, w') ∧
      Accounts config ⟨ret', tpool, nmtxNs, false, false, false, false⟩ w' ∧
      (ret' = 0 → ret = 0 ∧ nmtxNs = true) := by
  by_cases hret : ret = 0
  · obtain ⟨nmtxNs, w', hrun, hacc⟩ := h.create
      (f := fun nmtxNs => ⟨if nmtxNs then 0 else -1, tpool, nmtxNs, false, false, false, false⟩)
      (namedMutexCreateNamespace_spec env (h.free (by simp)))
      (fun nmtxNs hns => RunVars.perm_owned (by simp [RunVars.count_owned, hns]; omega))
      (fun nmtxNs hns => by rw [eq_false_of_ne_true hns]; rfl)
    refine ⟨_, nmtxNs, w', ?_, hacc, fun hzero => ⟨hret, ?_⟩⟩
    · rw [runNamedMutex, if_pos hret]
      exact hrun
    · by_contra hnone
      simp [hnone] at hzero
  · exact ⟨ret, false, w, by simp [runNamedMutex, hret], h, fun hzero => absurd hzero hret⟩

variable (env) in
/-- There is a cache where one is asked for. -/
theorem runCache_spec (h : Accounts config ⟨ret, tpool, nmtxNs, false, false, false, false⟩ w) :
    ∃ ret' cache w', (runCache config env ⟨ret, tpool, nmtxNs, false, false, false, false⟩).run w =
        .ok (⟨ret', tpool, nmtxNs, cache, false, false, false⟩, w') ∧
      Accounts config ⟨ret', tpool, nmtxNs, cache, false, false, false⟩ w' ∧
      (ret' = 0 → ret = 0 ∧ (cache = true ↔ config.cacheInterval ≠ 0)) := by
  by_cases hret : ret = 0 ∧ config.cacheInterval ≠ 0
  · obtain ⟨cache, w', hrun, hacc⟩ := h.create
      (f := fun cache => ⟨if cache then 0 else -1, tpool, nmtxNs, cache, false, false, false⟩)
      (cacheCreate_spec env (h.free (by simp)))
      (fun cache hcache => RunVars.perm_owned (by simp [RunVars.count_owned, hcache]; omega))
      (fun cache hcache => by rw [eq_false_of_ne_true hcache]; rfl)
    refine ⟨_, cache, w', ?_, hacc, fun hzero => ⟨hret.1, iff_of_true ?_ hret.2⟩⟩
    · rw [runCache, if_pos hret]
      exact hrun
    · by_contra hnone
      simp [hnone] at hzero
  · refine ⟨ret, false, w, by simp only [runCache, if_neg hret, pure_run], h, fun hzero => ⟨hzero, ?_⟩⟩
    exact iff_of_false Bool.false_ne_true fun hinterval => hret ⟨hzero, hinterval⟩

variable (env) in
theorem runRoute_spec (h : Accounts config ⟨ret, tpool, nmtxNs, cache, false, false, false⟩ w) :
    ∃ ret' route w', (runRoute env ⟨ret, tpool, nmtxNs, cache, false, false, false⟩).run w =
        .ok (⟨ret', tpool, nmtxNs, cache, route, false, false⟩, w') ∧
      Accounts config ⟨ret', tpool, nmtxNs, cache, route, false, false⟩ w' ∧
      (ret' = 0 → ret = 0 ∧ route = true) := by
  by_cases hret : ret = 0
  · obtain ⟨route, w', hrun, hacc⟩ := h.create
      (f := fun route => ⟨if route then 0 else -1, tpool, nmtxNs, cache, route, false, false⟩)
      (routeCreate_spec env (h.free (by simp)))
      (fun route hroute => RunVars.perm_owned (by simp [RunVars.count_owned, hroute]; omega))
      (fun route hroute => by rw [eq_false_of_ne_true hroute]; rfl)
    refine ⟨_, route, w', ?_, hacc, fun hzero => ⟨hret, ?_⟩⟩
    · rw [runRoute, if_pos hret]
      exact hrun
    · by_contra hnone
      simp [hnone] at hzero
  · exact ⟨ret, false, w, by simp [runRoute, hret], h, fun hzero => absurd hzero hret⟩

variable (env) in
theorem runIoServer_spec (h : Accounts config ⟨ret, tpool, nmtxNs, cache, route, false, false⟩ w) :
    ∃ ret' ioTid w', (runIoServer env ⟨ret, tpool, nmtxNs, cache, route, false, false⟩).run w =
        .ok (⟨ret', tpool, nmtxNs, cache, route, ioTid, false⟩, w') ∧
      Accounts config ⟨ret', tpool, nmtxNs, cache, route, ioTid, false⟩ w' ∧
      (ret' = 0 ↔ ret = 0 ∧ ioTid = true) ∧ (ioTid = true → ret = 0) := by
  by_cases hret : ret = 0
  · obtain ⟨ret', w', hrun, hacc⟩ := h.create
      (f := fun ret' => ⟨ret', tpool, nmtxNs, cache, route, ret' = 0, false⟩)
      (startIoServer_spec env (h.free (by simp)))
      (fun ret' hzero => RunVars.perm_owned (by simp [RunVars.count_owned, hzero]; omega))
      (fun ret' hne => by rw [decide_eq_false hne]; rfl)
    refine ⟨ret', ret' = 0, w', ?_, hacc, by simp [hret], fun _ => hret⟩
    rw [runIoServer, if_pos hret]
    exact hrun
  · exact ⟨ret, false, w, by simp [runIoServer, hret], h, by simp [hret], by simp⟩

variable (env) in
theorem runCtrlServer_spec (h : Accounts config ⟨ret, tpool, nmtxNs, cache, route, ioTid, false⟩ w) :
    ∃ ret' ctrlTid w', (runCtrlServer env ⟨ret, tpool, nmtxNs, cache, route, ioTid, false⟩).run w =
        .ok (⟨ret', tpool, nmtxNs, cache, route, ioTid, ctrlTid⟩, w') ∧
      Accounts config ⟨ret', tpool, nmtxNs, cache, route, ioTid, ctrlTid⟩ w' ∧
      (ret' = 0 → ret = 0 ∧ ctrlTid = true) := by
  by_cases hret : ret = 0
  · obtain ⟨ret', w', hrun, hacc⟩ := h.create
      (f := fun ret' => ⟨ret', tpool, nmtxNs, cache, route, ioTid, ret' = 0⟩)
      (startCtrlServer_spec env (h.free (by simp)))
      (fun ret' hzero => RunVars.perm_owned (by simp [RunVars.count_owned, hzero]; omega))
      (fun ret' hne => by rw [decide_eq_false hne]; rfl)
    refine ⟨ret', ret' = 0, w', ?_, hacc, by simp [hret]⟩
    rw [runCtrlServer, if_pos hret]
    exact hrun
  · exact ⟨ret, false, w, by simp [runCtrlServer, hret], h, by simp [hret]⟩

end

variable (config env) in
/-- Only requests are sent. -/
theorem registerChildren_run (i : ℕ) (children : List CString) :
    ∃ ret sent, (registerChildren config env i children).run w = .ok (ret, { w with sent }) := by
  induction children generalizing i w with
  | nil => exact ⟨0, w.sent, rfl⟩
  | cons child children ih =>
    cases hc : env.child i with
    | some e => exact ⟨e.1, _, by simp [registerChildren, hc]; rfl⟩
    | none =>
      obtain ⟨ret, sent, hrun⟩ := ih
        (w := { w with sent := w.sent ++ [.registerParent child config.name] }) (i + 1)
      exact ⟨ret, sent, by simpa [registerChildren, hc] using hrun⟩

variable (config env) in
theorem registerParents_run (i : ℕ) (parents : List CString) :
    ∃ ret sent, (registerParents config env i parents).run w = .ok (ret, { w with sent }) := by
  induction parents generalizing i w with
  | nil => exact ⟨0, w.sent, rfl⟩
  | cons parent parents ih =>
    cases hp : env.parent i with
    | some e => exact ⟨e.1, _, by simp [registerParents, hp]; rfl⟩
    | none =>
      obtain ⟨ret, sent, hrun⟩ := ih
        (w := { w with sent := w.sent ++ [.registerParent config.name parent] }) (i + 1)
      exact ⟨ret, sent, by simpa [registerParents, hp] using hrun⟩

theorem Accounts.retOnly (h : Accounts config v w) (ret : Int32) (sent : List NodeCall) :
    Accounts config { v with ret } { w with sent } :=
  ⟨h.live, h.table, h.nmtxTree, h.tasks, h.written⟩

variable (env) in
theorem runChildren_spec (h : Accounts config v w) :
    ∃ ret w', (runChildren config env v).run w = .ok ({ v with ret }, w') ∧
      Accounts config { v with ret } w' ∧ (ret = 0 → v.ret = 0) := by
  by_cases hret : v.ret = 0
  · obtain ⟨ret, sent, hrun⟩ := registerChildren_run config env (w := w) 0 config.children
    refine ⟨ret, _, ?_, h.retOnly ret sent, fun _ => hret⟩
    rw [runChildren, if_pos hret]
    exact (bind_run hrun).trans (pure_run _)
  · exact ⟨v.ret, w, by simp [runChildren, hret], h, id⟩

variable (env) in
theorem runParents_spec (h : Accounts config v w) :
    ∃ ret w', (runParents config env v).run w = .ok ({ v with ret }, w') ∧
      Accounts config { v with ret } w' ∧ (ret = 0 → v.ret = 0) := by
  by_cases hret : v.ret = 0
  · obtain ⟨ret, sent, hrun⟩ := registerParents_run config env (w := w) 0 config.parents
    refine ⟨ret, _, ?_, h.retOnly ret sent, fun _ => hret⟩
    rw [runParents, if_pos hret]
    exact (bind_run hrun).trans (pure_run _)
  · exact ⟨v.ret, w, by simp [runParents, hret], h, id⟩

/-- The node is up. -/
structure RunVars.Up (config : RunConfig) (v : RunVars) : Prop where
  tpool : v.tpool.isSome = true
  nmtxNs : v.nmtxNs = true
  cache : v.cache = true ↔ config.cacheInterval ≠ 0
  route : v.route = true
  ioTid : v.ioTid = true
  ctrlTid : v.ctrlTid = true

variable (env) in
/-- **The start**: whatever fails, the variables account for what there is; without a failure the
node is up. -/
theorem propdStart_spec (h : w.Starts config) :
    ∃ v w', (propdStart config env).run w = .ok (v, w') ∧ Accounts config v w' ∧
      (v.ret = 0 → v.Up config) ∧ (v.ioTid = true → v.route = true ∧ v.nmtxNs = true) := by
  obtain ⟨ret₁, w₁, hrun₁, h₁⟩ := runNamespace_spec env h.accounts
  obtain ⟨ret₂, tpool, w₂, hrun₂, h₂, hup₂⟩ := runThreadPool_spec env h₁
  obtain ⟨ret₃, nmtxNs, w₃, hrun₃, h₃, hup₃⟩ := runNamedMutex_spec env h₂
  obtain ⟨ret₄, cache, w₄, hrun₄, h₄, hup₄⟩ := runCache_spec env h₃
  obtain ⟨ret₅, route, w₅, hrun₅, h₅, hup₅⟩ := runRoute_spec env h₄
  obtain ⟨ret₆, ioTid, w₆, hrun₆, h₆, hup₆, hio⟩ := runIoServer_spec env h₅
  obtain ⟨ret₇, ctrlTid, w₇, hrun₇, h₇, hup₇⟩ := runCtrlServer_spec env h₆
  obtain ⟨ret₈, w₈, hrun₈, h₈, hup₈⟩ := runChildren_spec env h₇
  obtain ⟨ret₉, w₉, hrun₉, h₉, hup₉⟩ := runParents_spec env h₈
  refine ⟨_, w₉, ?_, h₉, fun hzero => ?_, fun hserver => ?_⟩
  · simp [propdStart, hrun₁, hrun₂, hrun₃, hrun₄, hrun₅, hrun₆, hrun₇, hrun₈, hrun₉]
  · -- from the last stage back to the first one
    obtain ⟨hzero₆, hctrl⟩ := hup₇ (hup₈ (hup₉ hzero))
    obtain ⟨hzero₅, hserver⟩ := hup₆.mp hzero₆
    obtain ⟨hzero₄, hroute⟩ := hup₅ hzero₅
    obtain ⟨hzero₃, hcache⟩ := hup₄ hzero₄
    obtain ⟨hzero₂, hns⟩ := hup₃ hzero₃
    exact ⟨hup₂ hzero₂, hns, hcache, hroute, hserver, hctrl⟩
  · obtain ⟨hzero₄, hroute⟩ := hup₅ (hio hserver)
    exact ⟨hroute, (hup₃ (hup₄ hzero₄).1).2⟩

end Propd.Launch
