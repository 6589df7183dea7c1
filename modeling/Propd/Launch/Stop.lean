import Propd.Launch.Start

/-!
# The end of a node

The cleanup of `__propd_run` gives back what the variables account for, in an order in which nothing
is given back that a thread still uses. It asserts that the route table is empty, and that there is
no named mutex: this is where it may end.
-/

namespace Propd.Launch

open Lib

variable {config : RunConfig} {env : Environment} {v : RunVars} {w : World} {r q : Resource}
  {rs rest : List Resource}

/-- The threads of a list are taken down after the turn `k`. -/
def Late (k : ℕ) (rest : List Resource) : Prop := ∀ q ∈ rest, q.isThread = true → k < q.turn

theorem Late.of_turn {k n : ℕ} (h : ∀ q ∈ rest, q.turn = n) (hk : k < n) : Late k rest :=
  fun q hq _ => by rwa [h q hq]

theorem Late.append {k : ℕ} {rest' : List Resource} (h : Late k rest) (h' : Late k rest') :
    Late k (rest ++ rest') :=
  fun q hq => (List.mem_append.mp hq).elim (h q) (h' q)

theorem Late.mono {j k : ℕ} (h : Late k rest) (hj : j ≤ k) : Late j rest :=
  fun q hq hthread => hj.trans_lt (h q hq hthread)

/-- One part of the cleanup. -/
theorem giveAll_turn {k : ℕ} (hlive : w.live.Perm (rs ++ rest)) (hrs : ∀ r ∈ rs, r.turn = k)
    (horder : Ledger.Orderly (Resource.uses w.tasks) rs) (hrest : Late k rest) :
    ∃ live, (giveAll rs).run w = .ok ((), { w with live }) ∧ live.Perm rest := by
  refine giveAll_run hlive horder fun r hr q hq => ?_
  cases hthread : q.isThread with
  | false => exact Resource.uses_of_not_isThread hthread
  | true => exact Resource.uses_of_turn_lt (by rw [hrs r hr]; exact hrest q hq hthread)

namespace RunVars

/-- The items that are given back: those in front of the first one that is in use. -/
def gone (v : RunVars) (table : RouteList) : List Resource :=
  if v.route then items (table.takeWhile fun it => it.nref = 0) else []

/-- What the cleanup leaves: the other items, and the queue of a pool that has no threads. -/
def left (v : RunVars) (table : RouteList) : List Resource :=
  (if v.route then items (table.dropWhile fun it => it.nref = 0) else items table) ++ v.leaked

theorem turn_gone {table : RouteList} (hq : q ∈ v.gone table) : q.turn = 2 := by
  unfold gone at hq
  split at hq
  · obtain ⟨item, -, rfl⟩ := List.mem_map.mp hq
    rfl
  · cases hq

theorem owned_perm (table : RouteList) :
    (v.owned table).Perm (v.ctrlServer ++ (v.ioServer ++ (v.gone table ++ (v.threadPool ++
      (v.routeTable ++ (v.cacheParts ++ (v.namedMutexes ++ v.left table))))))) := by
  refine List.perm_iff_count.mpr fun r => ?_
  have hsplit : (items table).count r = (items (table.takeWhile fun it => it.nref = 0)).count r +
      (items (table.dropWhile fun it => it.nref = 0)).count r := by
    rw [← List.count_append, items, items, items, ← List.map_append, List.takeWhile_append_dropWhile]
  simp only [owned, base, gone, left, List.count_append]
  cases v.route
  · simp
    omega
  · simp
    omega

end RunVars

theorem late_left {k : ℕ} {table : RouteList} : Late k (v.left table) := by
  refine Late.append (fun q hq hthread => ?_) fun q hq hthread => ?_
  · have hitem : ∃ table', q ∈ items table' := by
      split at hq
      · exact ⟨_, hq⟩
      · exact ⟨_, hq⟩
    obtain ⟨table', hq⟩ := hitem
    obtain ⟨item, -, rfl⟩ := List.mem_map.mp hq
    cases hthread
  · rw [(RunVars.turn_leaked hq).2.1] at hthread
    cases hthread

theorem stopCtrlServer_eq : stopCtrlServer v.ctrlTid = giveAll v.ctrlServer := by
  cases hv : v.ctrlTid <;>
    simp [RunVars.ctrlServer, hv, ctrlOwned, giveAll, stopCtrlServer, ctrlServerCleanup]

theorem stopIoServer_eq : stopIoServer v.ioTid = giveAll v.ioServer := by
  cases hv : v.ioTid <;>
    simp [RunVars.ioServer, hv, ioOwned, giveAll, stopIoServer, ioServerCleanup]

theorem stopThreadPool_eq : threadPoolDestroy v.tpool = giveAll v.threadPool := by
  cases hv : v.tpool with
  | none => simp [RunVars.threadPool, hv, giveAll, threadPoolDestroy]
  | some tpool => simp [RunVars.threadPool, hv, threadPoolDestroy_eq]

theorem cacheDestroy_eq : cacheDestroy v.cache = giveAll v.cacheParts := by
  cases hv : v.cache <;> simp [RunVars.cacheParts, hv, giveAll, cacheDestroy]

theorem routeDestroy_run :
    (routeDestroy v.route).run w = if v.route = true ∧ w.table ≠ [] then .error (.inr .assertion)
      else (giveAll v.routeTable).run w := by
  cases hv : v.route with
  | false => simp [RunVars.routeTable, hv, giveAll, routeDestroy]
  | true =>
    by_cases htable : w.table = []
    · simp [RunVars.routeTable, hv, giveAll, routeDestroy, Propd.routeDestroy, htable]
    · simp [routeDestroy, Propd.routeDestroy, htable]
      rfl

theorem namedMutexDestroyNamespace_run :
    (namedMutexDestroyNamespace v.nmtxNs).run w =
      if v.nmtxNs = true ∧ w.nmtxTree ≠ [] then .error (.inr .assertion)
      else (giveAll v.namedMutexes).run w := by
  cases hv : v.nmtxNs with
  | false => simp [RunVars.namedMutexes, hv, giveAll, namedMutexDestroyNamespace]
  | true =>
    by_cases htree : w.nmtxTree = []
    · simp [RunVars.namedMutexes, hv, giveAll, namedMutexDestroyNamespace,
        Propd.namedMutexDestroyNamespace, htree]
    · simp [namedMutexDestroyNamespace, Propd.namedMutexDestroyNamespace, htree]
      rfl

theorem routeItemsDestroy_eq (gone : List RouteItem) :
    routeItemsDestroy gone = giveAll (items gone) := by
  induction gone with
  | nil => rfl
  | cons item gone ih => rw [routeItemsDestroy, ih, items, items, List.map_cons, giveAll]

/-- The items in front of the first one in use are unregistered. -/
theorem routeUnregisterAll_run :
    routeUnregisterAll.run w = (giveAll (items (w.table.takeWhile fun it => it.nref = 0))).run
      { w with table := w.table.dropWhile fun it => it.nref = 0 } := by
  simp [routeUnregisterAll, routeUnregister_none, routeItemsDestroy_eq]

variable (config) in
theorem unregisterParents_run (parents : List CString) :
    (unregisterParents config parents).run w = .ok ((), { w with
      sent := w.sent ++ parents.map fun parent => .unregisterChild parent config.name }) := by
  induction parents generalizing w with
  | nil => simp [unregisterParents]
  | cons parent parents ih =>
    rw [unregisterParents, bind_run rfl, ih]
    simp

section

variable {tasks : Bool} {table : RouteList}

theorem orderly_ctrlServer : Ledger.Orderly (Resource.uses tasks) v.ctrlServer := by
  cases hv : v.ctrlTid with
  | false => simp [RunVars.ctrlServer, hv, Ledger.Orderly]
  | true =>
    rw [RunVars.ctrlServer, if_pos hv]
    exact orderly_threads [.server .ctrl] (by simp [Resource.uses, Resource.ofServer,
      Resource.ofQueue]) (by simp [Resource.isThread])

theorem orderly_ioServer : Ledger.Orderly (Resource.uses tasks) v.ioServer := by
  cases hv : v.ioTid with
  | false => simp [RunVars.ioServer, hv, Ledger.Orderly]
  | true =>
    rw [RunVars.ioServer, if_pos hv]
    exact orderly_threads [.server .io] (by simp [Resource.uses, Resource.ofServer,
      Resource.ofQueue]) (by simp [Resource.isThread])

theorem orderly_items : Ledger.Orderly (Resource.uses tasks) (items table) := by
  refine orderly_of_not_isThread fun q hq => ?_
  obtain ⟨item, -, rfl⟩ := List.mem_map.mp hq
  rfl

theorem orderly_threadPool : Ledger.Orderly (Resource.uses tasks) v.threadPool := by
  cases hv : v.tpool with
  | none => simp [RunVars.threadPool, hv, Ledger.Orderly]
  | some tpool => simpa [RunVars.threadPool, hv] using tpool.orderly tasks

theorem orderly_routeTable : Ledger.Orderly (Resource.uses tasks) v.routeTable := by
  cases hv : v.route with
  | false => simp [RunVars.routeTable, hv, Ledger.Orderly]
  | true =>
    rw [RunVars.routeTable, if_pos hv]
    exact orderly_of_not_isThread (by simp [Resource.isThread])

theorem orderly_cacheParts : Ledger.Orderly (Resource.uses tasks) v.cacheParts := by
  cases hv : v.cache with
  | false => simp [RunVars.cacheParts, hv, Ledger.Orderly]
  | true =>
    rw [RunVars.cacheParts, if_pos hv]
    exact orderly_threads [.cleaner] (by simp [Resource.uses]) (by simp [Resource.isThread])

theorem orderly_namedMutexes : Ledger.Orderly (Resource.uses tasks) v.namedMutexes := by
  cases hv : v.nmtxNs with
  | false => simp [RunVars.namedMutexes, hv, Ledger.Orderly]
  | true =>
    rw [RunVars.namedMutexes, if_pos hv]
    exact orderly_of_not_isThread (by simp [Resource.isThread])

end

/-- An assertion of the cleanup fails: an item is left in the route table, or a named mutex. -/
def Blocked (v : RunVars) (w : World) : Prop :=
  v.route = true ∧ w.table ≠ [] ∨ v.nmtxNs = true ∧ w.nmtxTree ≠ []

/-- The cleanup after the servers and the items. -/
theorem stopBase_run {table : RouteList}
    (hlive : w.live.Perm (v.threadPool ++ (v.routeTable ++ (v.cacheParts ++ (v.namedMutexes ++
      v.left table))))) :
    ¬Blocked v w ∧ (∃ live, (do
      threadPoolDestroy v.tpool
      routeDestroy v.route
      cacheDestroy v.cache
      namedMutexDestroyNamespace v.nmtxNs : RunM Unit).run w = .ok ((), { w with live }) ∧
        live.Perm (v.left table)) ∨
    Blocked v w ∧ (do
      threadPoolDestroy v.tpool
      routeDestroy v.route
      cacheDestroy v.cache
      namedMutexDestroyNamespace v.nmtxNs : RunM Unit).run w = .error (.inr .assertion) := by
  have hlate₅ : Late 5 (v.namedMutexes ++ v.left table) :=
    .append (.of_turn (fun q hq => (RunVars.turn_namedMutexes hq).1) (by omega)) late_left
  have hlate₄ : Late 4 (v.cacheParts ++ (v.namedMutexes ++ v.left table)) :=
    .append (.of_turn (fun q hq => (RunVars.turn_cacheParts hq).1) (by omega))
      (hlate₅.mono (by omega))
  have hlate₃ : Late 3 (v.routeTable ++ (v.cacheParts ++ (v.namedMutexes ++ v.left table))) :=
    .append (.of_turn (fun q hq => (RunVars.turn_routeTable hq).1) (by omega))
      (hlate₄.mono (by omega))
  obtain ⟨live₁, hrun₁, hlive₁⟩ := giveAll_turn hlive
    (fun r hr => (RunVars.turn_threadPool hr).1) orderly_threadPool hlate₃
  have hroute := routeDestroy_run (v := v) (w := { w with live := live₁ })
  rw [stopThreadPool_eq, bind_run hrun₁, cacheDestroy_eq]
  by_cases htable : v.route = true ∧ w.table ≠ []
  · rw [if_pos htable] at hroute
    refine .inr ⟨.inl htable, ?_⟩
    rw [StateT.run_bind, hroute]
    rfl
  obtain ⟨live₂, hrun₂, hlive₂⟩ := giveAll_turn (w := { w with live := live₁ }) hlive₁
    (fun r hr => (RunVars.turn_routeTable hr).1) orderly_routeTable hlate₄
  obtain ⟨live₃, hrun₃, hlive₃⟩ := giveAll_turn (w := { w with live := live₂ }) hlive₂
    (fun r hr => (RunVars.turn_cacheParts hr).1) orderly_cacheParts hlate₅
  have hmutex := namedMutexDestroyNamespace_run (v := v) (w := { w with live := live₃ })
  rw [if_neg htable] at hroute
  rw [bind_run (hroute.trans hrun₂), bind_run hrun₃]
  by_cases htree : v.nmtxNs = true ∧ w.nmtxTree ≠ []
  · exact .inr ⟨.inr htree, hmutex.trans (if_pos htree)⟩
  · obtain ⟨live₄, hrun₄, hlive₄⟩ := giveAll_turn (w := { w with live := live₃ }) hlive₃
      (fun r hr => (RunVars.turn_namedMutexes hr).1) orderly_namedMutexes late_left
    rw [if_neg htree] at hmutex
    exact .inl ⟨not_or.mpr ⟨htable, htree⟩, live₄, hmutex.trans hrun₄, hlive₄⟩

variable (config) in
/-- What is not in use is taken out of a route table, and the parents are told. -/
theorem stopRoute_run (hlive : w.live.Perm (v.gone w.table ++ rest)) (hrest : Late 2 rest) :
    ∃ live table sent, (stopRoute config v.route).run w = .ok ((), { w with live, table, sent }) ∧
      live.Perm rest ∧ (v.route = true → table = (w.table.dropWhile fun it => it.nref = 0) ∧
        sent = w.sent ++
          config.parents.map fun parent => .unregisterChild parent config.name) := by
  cases hroute : v.route with
  | false =>
    refine ⟨w.live, w.table, w.sent, rfl, ?_, nofun⟩
    simpa [RunVars.gone, hroute] using hlive
  | true =>
    rw [RunVars.gone, if_pos hroute] at hlive
    obtain ⟨sent, hsent⟩ : ∃ sent, sent = w.sent ++
        config.parents.map fun parent => NodeCall.unregisterChild parent config.name := ⟨_, rfl⟩
    have hparents := unregisterParents_run config (w := w) config.parents
    rw [← hsent] at hparents
    have hall := routeUnregisterAll_run (w := { w with sent })
    obtain ⟨live, hrun, hlive'⟩ := giveAll_turn (k := 2)
      (w := { w with table := w.table.dropWhile fun it => it.nref = 0, sent }) hlive
      (fun r hr => by obtain ⟨item, -, rfl⟩ := List.mem_map.mp hr; rfl) orderly_items hrest
    refine ⟨live, _, sent, ?_, hlive', fun _ => ⟨rfl, hsent⟩⟩
    rw [stopRoute, if_pos rfl, bind_run hparents, hall, hrun]

/-- The cleanup finds an item in use, or a named mutex. -/
def Busy (v : RunVars) (w : World) : Prop :=
  v.route = true ∧ (∃ item ∈ w.table, item.nref ≠ 0) ∨ v.nmtxNs = true ∧ w.nmtxTree ≠ []

variable (config) in
/-- **The cleanup** ends in an assertion where something is in use, and else it leaves what
`RunVars.left` says. -/
theorem stopNode_run (hlive : w.live.Perm (v.owned w.table)) :
    ¬Busy v w ∧ (∃ live table sent, (stopNode config v).run w =
        .ok ((), { w with live, table, sent }) ∧ live.Perm (v.left w.table) ∧
      (v.route = true → sent = w.sent ++
        config.parents.map fun parent => .unregisterChild parent config.name)) ∨
    Busy v w ∧ (stopNode config v).run w = .error (.inr .assertion) := by
  have hlate₂ : Late 2 (v.threadPool ++ (v.routeTable ++ (v.cacheParts ++ (v.namedMutexes ++
      v.left w.table)))) :=
    .append (.of_turn (fun q hq => (RunVars.turn_threadPool hq).1) (by omega))
      (.append (.of_turn (fun q hq => (RunVars.turn_routeTable hq).1) (by omega))
        (.append (.of_turn (fun q hq => (RunVars.turn_cacheParts hq).1) (by omega))
          (.append (.of_turn (fun q hq => (RunVars.turn_namedMutexes hq).1) (by omega)) late_left)))
  have hlate₁ : Late 1 (v.gone w.table ++ (v.threadPool ++ (v.routeTable ++ (v.cacheParts ++
      (v.namedMutexes ++ v.left w.table))))) :=
    .append (.of_turn (fun q hq => RunVars.turn_gone hq) (by omega)) (hlate₂.mono (by omega))
  have hlate₀ : Late 0 (v.ioServer ++ (v.gone w.table ++ (v.threadPool ++ (v.routeTable ++
      (v.cacheParts ++ (v.namedMutexes ++ v.left w.table)))))) :=
    .append (.of_turn (fun q hq => (RunVars.turn_ioServer hq).1) (by omega))
      (hlate₁.mono (by omega))
  obtain ⟨live₁, hrun₁, hlive₁⟩ := giveAll_turn (hlive.trans (v.owned_perm w.table))
    (fun r hr => (RunVars.turn_ctrlServer hr).1) orderly_ctrlServer hlate₀
  obtain ⟨live₂, hrun₂, hlive₂⟩ := giveAll_turn (w := { w with live := live₁ }) hlive₁
    (fun r hr => (RunVars.turn_ioServer hr).1) orderly_ioServer hlate₁
  obtain ⟨live₃, table, sent, hrun₃, hlive₃, hroute⟩ := stopRoute_run config
    (w := { w with live := live₂ }) hlive₂ hlate₂
  have hbusy : Blocked v { w with live := live₃, table, sent } ↔ Busy v w := by
    refine or_congr_left (and_congr_right fun hr => ?_)
    rw [(hroute hr).1]
    simp [List.dropWhile_eq_nil_iff]
  have hstop : (stopNode config v).run w = (do
      threadPoolDestroy v.tpool
      routeDestroy v.route
      cacheDestroy v.cache
      namedMutexDestroyNamespace v.nmtxNs : RunM Unit).run
        { w with live := live₃, table, sent } := by
    rw [stopNode, stopCtrlServer_eq, bind_run hrun₁, stopIoServer_eq, bind_run hrun₂,
      bind_run hrun₃]
  rw [hstop, ← hbusy]
  rcases stopBase_run (w := { w with live := live₃, table, sent }) hlive₃ with
    ⟨hfree, live₄, hrun₄, hlive₄⟩ | hblocked
  · exact .inl ⟨hfree, live₄, table, sent, hrun₄, hlive₄, fun hr => (hroute hr).2⟩
  · exact .inr hblocked

theorem filter_isItem (h : ∀ q ∈ rest, q.turn ≠ 2) : rest.filter (fun r => !r.isItem) = rest := by
  refine List.filter_eq_self.mpr fun q hq => ?_
  cases q with
  | item addr => exact absurd rfl (h _ hq)
  | _ => rfl

theorem RunVars.filter_owned (table : RouteList) :
    (v.owned table).filter (fun r => !r.isItem) = v.ctrlServer ++ (v.ioServer ++ v.base) := by
  have hitems : (items table).filter (fun r => !r.isItem) = [] := by
    simp [items, Resource.isItem]
  have hbase : ∀ q ∈ v.base, q.turn ≠ 2 := by
    intro q hq
    simp only [base, List.mem_append] at hq
    rcases hq with hq | hq | hq | hq | hq
    · simp [turn_threadPool hq]
    · simp [turn_routeTable hq]
    · simp [turn_cacheParts hq]
    · simp [turn_namedMutexes hq]
    · simp [turn_leaked hq]
  rw [owned, List.filter_append, List.filter_append, List.filter_append, hitems,
    filter_isItem fun q hq => by simp [turn_ctrlServer hq],
    filter_isItem fun q hq => by simp [turn_ioServer hq], filter_isItem hbase, List.nil_append]

/-- The variables account for what the tasks do to the table. -/
theorem tasksRun_perm {table : RouteList} (hlive : w.live.Perm (v.owned table))
    (table' : RouteList) :
    (w.live.filter (fun r => !r.isItem) ++ items table').Perm (v.owned table') := by
  refine ((hlive.filter _).append_right _).trans ?_
  rw [RunVars.filter_owned, RunVars.owned, List.append_assoc, List.append_assoc]
  exact .append_left _ (.append_left _ List.perm_append_comm)

/-- The tasks leave no operation under way: no item is in use, and no mutex is there. -/
structure Environment.Quiet (env : Environment) (config : RunConfig) : Prop where
  idle : ∀ item ∈ env.table config.localRoute, item.nref = 0
  nmtxTree : env.nmtxTree = []

/-- What is there after the run of a node: the items that have not come into a route table, and the
queue of a pool that has no threads. -/
def RunVars.remains (v : RunVars) (config : RunConfig) : List Resource :=
  (if v.route then [] else items config.localRoute) ++ v.leaked

theorem RunVars.left_of_idle {table : RouteList} (h : ∀ item ∈ table, item.nref = 0)
    (htable : v.route = true ∨ table = config.localRoute) : v.left table = v.remains config := by
  have hnone : (table.dropWhile fun it => it.nref = 0) = [] :=
    List.dropWhile_eq_nil_iff.mpr (by simpa using h)
  cases hroute : v.route with
  | false =>
    obtain rfl := htable.resolve_left (by simp [hroute])
    simp [left, remains, hroute]
  | true => simp [left, remains, hroute, hnone, items]

variable (env) in
/-- The end of a run: without servers there were no tasks, and nothing is in use. -/
theorem propdStop_run (h : Accounts config v w) (hidle : ∀ item ∈ config.localRoute, item.nref = 0)
    (hio : v.ioTid = true → v.route = true ∧ v.nmtxNs = true) (written : List Int32) :
    ((v.ioTid = true → env.Quiet config) ∧
      ∃ w', (propdStop config env v).run { w with written } = .ok ((), w') ∧
        w'.live.Perm (v.remains config) ∧ w'.written = written ∧
        (v.route = true → w'.sent = w.sent ++
          config.parents.map fun parent => .unregisterChild parent config.name)) ∨
    v.ioTid = true ∧ ¬env.Quiet config ∧
      (propdStop config env v).run { w with written } = .error (.inr .assertion) := by
  cases hserver : v.ioTid with
  | false =>
    have hfree : ¬Busy v { w with written } := by
      rintro (⟨-, item, hitem, hne⟩ | ⟨-, hne⟩)
      · exact hne (hidle item (h.table ▸ hitem))
      · exact hne h.nmtxTree
    have hstop : propdStop config env v = stopNode config v := by simp [propdStop, hserver]
    have hlive := h.live
    rw [← h.table] at hlive
    rw [hstop]
    rcases stopNode_run config (w := { w with written }) hlive with
      ⟨-, live, table, sent, hrun, hlive', hsent⟩ | ⟨hbusy, -⟩
    · refine .inl ⟨nofun, _, hrun, ?_, rfl, hsent⟩
      rwa [RunVars.left_of_idle (h.table ▸ hidle) (.inr h.table)] at hlive'
    · exact absurd hbusy hfree
  | true =>
    obtain ⟨hroute, hns⟩ := hio hserver
    obtain ⟨w₁, hw₁⟩ : ∃ w₁ : World, w₁ = { w with
      written
      tasks := true
      table := env.table w.table
      nmtxTree := env.nmtxTree
      live := w.live.filter (fun r => !r.isItem) ++ items (env.table w.table) } := ⟨_, rfl⟩
    have hstop : (propdStop config env v).run { w with written } = (stopNode config v).run w₁ := by
      rw [propdStop, if_pos hserver, hw₁]
      exact bind_run rfl
    have htable : w₁.table = env.table config.localRoute := by rw [hw₁, ← h.table]
    have htree : w₁.nmtxTree = env.nmtxTree := by rw [hw₁]
    have hbusy : ¬Busy v w₁ ↔ env.Quiet config := by
      rw [Busy, htable, htree]
      constructor
      · intro hfree
        refine ⟨fun item hitem => ?_, ?_⟩
        · by_contra hne
          exact hfree (.inl ⟨hroute, item, hitem, hne⟩)
        · by_contra hne
          exact hfree (.inr ⟨hns, hne⟩)
      · rintro hquiet (⟨-, item, hitem, hne⟩ | ⟨-, hne⟩)
        · exact hne (hquiet.idle item hitem)
        · exact hne hquiet.nmtxTree
    have hlive : w₁.live.Perm (v.owned w₁.table) := by
      rw [hw₁]
      exact tasksRun_perm h.live _
    rw [hstop]
    rcases stopNode_run config hlive with
      ⟨hfree, live, table, sent, hrun, hlive', hsent⟩ | ⟨hin, hrun⟩
    · have hquiet := hbusy.mp hfree
      rw [RunVars.left_of_idle (htable ▸ hquiet.idle) (.inl hroute)] at hlive'
      exact .inl ⟨fun _ => hquiet, _, hrun, hlive', by rw [hw₁], by rw [hw₁] at hsent; exact hsent⟩
    · exact .inr ⟨rfl, fun hquiet => hbusy.mpr hquiet hin, hrun⟩

theorem report_run (syncfd : Bool) (ret : Int32) :
    (report syncfd ret).run w =
      .ok ((), { w with written := w.written ++ if syncfd then [ret] else [] }) := by
  cases syncfd with
  | false => simp [report]
  | true => rfl

/-- **A node gives back what it has taken**: whatever fails on its way up, the variables account for
what there is, and without a failure the node is up. In the end nothing is given back twice, or while
a thread uses it; what is left are the items that have not come into a route table, and the queue of
a pool without threads. There is one report of `0`, or two of what has failed, and the parents are
told if there was a route table. Only what tasks have left in use makes it end in an assertion. -/
theorem propdRun_releases (h : w.Starts config) (syncfd : Bool) :
    ∃ v w₁, (propdStart config env).run w = .ok (v, w₁) ∧ Accounts config v w₁ ∧
      (v.ret = 0 → v.Up config) ∧
      ((v.ioTid = true → env.Quiet config) →
        ∃ w₂, (propdRun config env syncfd).run w = .ok (v.ret, w₂) ∧
          w₂.live.Perm (v.remains config) ∧
          w₂.written = (if syncfd then if v.ret = 0 then [0] else [v.ret, v.ret] else []) ∧
          (v.route = true → w₂.sent = w₁.sent ++
            config.parents.map fun parent => .unregisterChild parent config.name)) ∧
      (v.ioTid = true → ¬env.Quiet config →
        (propdRun config env syncfd).run w = .error (.inr .assertion)) := by
  obtain ⟨v, w₁, hstart, hacc, hup, hio⟩ := propdStart_spec env h
  have hreport := report_run (w := w₁) syncfd v.ret
  rw [hacc.written, List.nil_append] at hreport
  have hrun : (propdRun config env syncfd).run w = (do
      propdStop config env v
      if v.ret ≠ 0 then report syncfd v.ret
      return v.ret : RunM Int32).run { w₁ with written := if syncfd then [v.ret] else [] } := by
    rw [propdRun, bind_run hstart, bind_run hreport]
  refine ⟨v, w₁, hstart, hacc, hup, fun hquiet => ?_, fun hserver hbusy => ?_⟩
  · rcases propdStop_run env hacc h.idle hio (if syncfd then [v.ret] else []) with
      ⟨-, w₂, hstop, hlive, hwritten, hsent⟩ | ⟨hserver, hbusy, -⟩
    · rw [hrun, bind_run hstop]
      by_cases hret : v.ret = 0
      · refine ⟨w₂, by simp [hret], hlive, ?_, hsent⟩
        rw [hwritten, hret]
        rfl
      · refine ⟨{ w₂ with written := w₂.written ++ if syncfd then [v.ret] else [] }, ?_, hlive, ?_,
          hsent⟩
        · simp [hret, report_run]
        · cases syncfd <;> simp [hwritten, hret]
    · exact absurd (hquiet hserver) hbusy
  · rcases propdStop_run env hacc h.idle hio (if syncfd then [v.ret] else []) with
      ⟨hquiet, -⟩ | ⟨-, -, hstop⟩
    · exact absurd (hquiet hserver) hbusy
    · rw [hrun, StateT.run_bind, hstop]
      rfl

end Propd.Launch
