import Propd.Launch.Model

/-!
# What is created and what is destroyed

Each of the functions that create something either acquires all of it, or fails with a status that
is not zero and leaves the ledger as it was. Each of those that destroy something gives back a list.
-/

namespace Propd.Launch

open Lib

variable {env : Environment} {w : World} {r : Resource} {rs live : List Resource} {e : Errno} {k : ℕ}

/-! ## The order of the cleanup -/

namespace Resource

/-- When `propdStop` comes to a resource. -/
def turn : Resource → ℕ
  | ctx kind | sockfd kind | sunPath kind | server kind => if kind = .ctrl then 0 else 1
  | name | cacheNow | prefixes => 0
  | item _ => 2
  | tpool | pool | taskQueue | queue | mutex | notEmpty | notFull | worker _ => 3
  | route | routeRwlock => 4
  | cache | cacheRwlock | cleanNotice | cleaner => 5
  | nmtxNs | nmtxMutex => 6

def isThread : Resource → Bool
  | worker _ | cleaner | server _ => true
  | _ => false

theorem uses_of_not_isThread {tasks : Bool} {q : Resource} (h : q.isThread = false) :
    q.uses tasks r = false := by
  cases q with
  | worker i => cases h
  | cleaner => cases h
  | server kind => cases h
  | _ => rfl

/-- What uses a resource is not taken down after it. -/
theorem turn_le {tasks : Bool} {q : Resource} (h : q.uses tasks r = true) : q.turn ≤ r.turn := by
  cases q with
  | worker i => cases r <;> simp_all [uses, ofQueue, ofIoCtx, turn]
  | cleaner => cases r <;> simp_all [uses, turn]
  | server kind =>
    cases r with
    | ctx k => simp_all [uses, ofServer, ofQueue, turn]
    | sockfd k => simp_all [uses, ofServer, ofQueue, turn]
    | sunPath k => simp_all [uses, ofServer, ofQueue, turn]
    | _ => cases kind <;> simp_all [uses, ofServer, ofQueue, turn]
  | _ => cases h

theorem uses_of_turn_lt {tasks : Bool} {q : Resource} (h : r.turn < q.turn) :
    q.uses tasks r = false :=
  Bool.eq_false_iff.mpr fun huses => absurd (turn_le huses) (Nat.not_le_of_lt h)

/-- As long as there are no tasks, of what is taken down after them threads use only the pool. -/
theorem uses_of_turn_ne {q : Resource} (h : q.turn ≠ r.turn) (hpool : r.turn ≠ 3) :
    q.uses false r = false := by
  cases q with
  | worker i => cases r <;> simp_all [uses, ofQueue, turn]
  | cleaner => cases r <;> simp_all [uses, turn]
  | server kind =>
    cases r with
    | ctx k => cases kind <;> cases k <;> simp_all [uses, ofServer, ofQueue, turn]
    | sockfd k => cases kind <;> cases k <;> simp_all [uses, ofServer, ofQueue, turn]
    | sunPath k => cases kind <;> cases k <;> simp_all [uses, ofServer, ofQueue, turn]
    | _ => cases kind <;> simp_all [uses, ofServer, ofQueue, turn]
  | _ => rfl

end Resource

/-! ## Calls of the system -/

@[simp] theorem ok_bind {α β : Type} (a : α) (f : α → Except (Misuse ⊕ Fault) β) :
    (Except.ok a >>= f) = f a := rfl

@[simp] theorem pure_eq_ok {α : Type} (a : α) :
    (pure a : Except (Misuse ⊕ Fault) α) = .ok a := rfl

@[simp] theorem pure_run {α : Type} (a : α) : (pure a : RunM α).run w = .ok (a, w) := rfl

@[simp] theorem setErrno_run (e : Int32) : (setErrno e).run w = .ok ((), { w with errno := e }) := rfl

@[simp] theorem getErrno_run : getErrno.run w = .ok (w.errno, w) := rfl

theorem bind_run {α β : Type} {p : RunM α} {f : α → RunM β} {a : α} {w' : World}
    (h : p.run w = .ok (a, w')) : (p >>= f).run w = (f a).run w' := by
  rw [StateT.run_bind, h, ok_bind]

theorem take_run (h : r ∉ w.live) : (take r).run w = .ok ((), { w with live := r :: w.live }) := by
  simp [StateT.run, take, Ledger.acquire_of_notMem h]

theorem call_ok (h : env.fails r = none) (hr : r ∉ w.live) :
    (call env r).run w = .ok (true, { w with live := r :: w.live }) := by
  rw [call, h]
  exact (bind_run (take_run hr)).trans rfl

theorem call_error (h : env.fails r = some e) :
    (call env r).run w = .ok (false, { w with errno := e.1 }) := by
  rw [call, h]
  rfl

theorem callRet_ok (h : env.fails r = none) (hr : r ∉ w.live) :
    (callRet env r).run w = .ok (0, { w with live := r :: w.live }) := by
  rw [callRet, h]
  exact (bind_run (take_run hr)).trans rfl

theorem callRet_error (h : env.fails r = some e) : (callRet env r).run w = .ok (e.1, w) := by
  rw [callRet, h]
  rfl

/-! ## Cleanups -/

/-- Nothing in a list uses a resource. -/
def Resource.Unused (tasks : Bool) (live : List Resource) (r : Resource) : Prop :=
  ∀ q ∈ live, q.uses tasks r = false

theorem Resource.Unused.cons {tasks : Bool} {q : Resource} (h : Unused tasks live r)
    (hq : q.uses tasks r = false) : Unused tasks (q :: live) r :=
  List.forall_mem_cons.mpr ⟨hq, h⟩

/-- What was acquired last is given back. -/
theorem give_head {errno : Int32} {table : RouteList} {nmtxTree : List (Nmtx ℕ)} {tasks : Bool}
    {written : List Int32} {sent : List NodeCall} (h : Resource.Unused tasks live r) :
    (give r).run ⟨r :: live, errno, table, nmtxTree, tasks, written, sent⟩ =
      .ok ((), ⟨live, errno, table, nmtxTree, tasks, written, sent⟩) := by
  have hrelease := Ledger.release_cons h
  simp [StateT.run, give, hrelease]

/-- `give` of several resources. -/
def giveAll : List Resource → RunM Unit
  | [] => pure ()
  | r :: rs => do
    give r
    giveAll rs

theorem giveAll_append (rs' : List Resource) :
    giveAll (rs ++ rs') = (do giveAll rs; giveAll rs') := by
  induction rs with
  | nil => rfl
  | cons r rs ih => rw [List.cons_append, giveAll, giveAll, ih, bind_assoc]

theorem giveAll_eq_ok (h : Ledger.releaseAll (Resource.uses w.tasks) rs w.live = .ok live) :
    (giveAll rs).run w = .ok ((), { w with live }) := by
  induction rs generalizing w with
  | nil =>
    cases h
    rfl
  | cons r rs ih =>
    obtain ⟨live', hr, h⟩ := exceptBind_ok h
    have hgive : (give r).run w = .ok ((), { w with live := live' }) := by
      simp [StateT.run, give, hr]
    exact (bind_run hgive).trans (ih h)

/-- **A cleanup** in the right order. -/
theorem giveAll_run {rest : List Resource} (hlive : w.live.Perm (rs ++ rest))
    (horder : Ledger.Orderly (Resource.uses w.tasks) rs)
    (hrest : ∀ r ∈ rs, Resource.Unused w.tasks rest r) :
    ∃ live, (giveAll rs).run w = .ok ((), { w with live }) ∧ live.Perm rest := by
  obtain ⟨live, hrun, hperm⟩ := Ledger.releaseAll_of_perm hlive horder hrest
  exact ⟨live, giveAll_eq_ok hrun, hperm⟩

/-! ## Creation -/

/-- Nothing of a turn is there, and nothing uses it. -/
def World.Free (w : World) (k : ℕ) : Prop :=
  ∀ q ∈ w.live, q.turn ≠ k ∧ ∀ r : Resource, r.turn = k → q.uses w.tasks r = false

theorem World.Free.notMem (h : w.Free k) (hr : r.turn = k) : r ∉ w.live :=
  fun hmem => (h r hmem).1 hr

theorem World.Free.unused (h : w.Free k) (hr : r.turn = k) : Resource.Unused w.tasks w.live r :=
  fun q hq => (h q hq).2 r hr

/-- The call acquires `rs`, and its result is good, or it leaves the ledger as it was and sets
`errno`. -/
def Creates {α : Type} (p : RunM α) (good : α → Prop) (rs : α → List Resource) (w : World) : Prop :=
  ∃ a live errno, p.run w = .ok (a, { w with live, errno }) ∧
    (good a ∧ live.Perm (rs a ++ w.live) ∨ ¬good a ∧ live.Perm w.live ∧ errno ≠ 0)

theorem Creates.failed {α : Type} {p : RunM α} {good : α → Prop} {rs : α → List Resource} {a : α}
    (hrun : p.run w = .ok (a, { w with errno := e.1 })) (ha : ¬good a) : Creates p good rs w :=
  ⟨a, w.live, e.1, hrun, .inr ⟨ha, .refl _, e.2⟩⟩

variable (env) in
theorem namedMutexCreateNamespace_spec (h : w.Free 6) :
    Creates (namedMutexCreateNamespace env) (· = true) (fun _ => [.nmtxMutex, .nmtxNs]) w := by
  have hns : .nmtxNs ∉ w.live := h.notMem rfl
  have hmutex : .nmtxMutex ∉ w.live := h.notMem rfl
  cases hn : env.fails .nmtxNs with
  | some e =>
    refine .failed (a := false) (e := e) ?_ Bool.false_ne_true
    simp [namedMutexCreateNamespace, call_error hn]
  | none =>
    refine ⟨true, .nmtxMutex :: .nmtxNs :: w.live, w.errno, ?_, .inl ⟨rfl, .refl _⟩⟩
    simp [namedMutexCreateNamespace, call_ok hn hns, take_run, hmutex]

variable (env) in
theorem routeCreate_spec (h : w.Free 4) :
    Creates (routeCreate env) (· = true) (fun _ => [.routeRwlock, .route]) w := by
  have hroute : .route ∉ w.live := h.notMem rfl
  have hlock : .routeRwlock ∉ w.live := h.notMem rfl
  have hunused : Resource.Unused w.tasks w.live .route := h.unused rfl
  cases hr : env.fails .route with
  | some e =>
    refine .failed (a := false) (e := e) ?_ Bool.false_ne_true
    simp [routeCreate, call_error hr]
  | none =>
    cases hl : env.fails .routeRwlock with
    | some e =>
      refine .failed (a := false) (e := e) ?_ Bool.false_ne_true
      simp [routeCreate, call_ok hr hroute, callRet_error hl, e.2, give_head hunused]
    | none =>
      refine ⟨true, .routeRwlock :: .route :: w.live, 0, ?_, .inl ⟨rfl, .refl _⟩⟩
      simp [routeCreate, call_ok hr hroute, callRet_ok hl, hlock]

variable (env) in
theorem cacheCreate_spec (h : w.Free 5) :
    Creates (cacheCreate env) (· = true)
      (fun _ => [.cleaner, .cleanNotice, .cacheRwlock, .cache]) w := by
  have hcache : .cache ∉ w.live := h.notMem rfl
  have hlock : .cacheRwlock ∉ w.live := h.notMem rfl
  have hnotice : .cleanNotice ∉ w.live := h.notMem rfl
  have hcleaner : .cleaner ∉ w.live := h.notMem rfl
  have hunused : Resource.Unused w.tasks w.live .cache := h.unused rfl
  have hunused' : Resource.Unused w.tasks (.cache :: w.live) .cacheRwlock :=
    (h.unused rfl).cons rfl
  have hunused'' : Resource.Unused w.tasks (.cacheRwlock :: .cache :: w.live) .cleanNotice :=
    ((h.unused rfl).cons rfl).cons rfl
  cases hc : env.fails .cache with
  | some e =>
    refine .failed (a := false) (e := e) ?_ Bool.false_ne_true
    simp [cacheCreate, call_error hc]
  | none =>
    cases hl : env.fails .cacheRwlock with
    | some e =>
      refine .failed (a := false) (e := e) ?_ Bool.false_ne_true
      simp [cacheCreate, call_ok hc hcache, callRet_error hl, e.2, give_head hunused]
    | none =>
      cases ht : env.fails .cleaner with
      | some e =>
        refine .failed (a := false) (e := e) ?_ Bool.false_ne_true
        simp [cacheCreate, call_ok hc hcache, callRet_ok hl, hlock, take_run, hnotice,
          callRet_error ht, e.2, give_head, hunused, hunused', hunused'']
      | none =>
        refine ⟨true, .cleaner :: .cleanNotice :: .cacheRwlock :: .cache :: w.live, w.errno, ?_,
          .inl ⟨rfl, .refl _⟩⟩
        simp [cacheCreate, call_ok hc hcache, callRet_ok hl, hlock, take_run, hnotice,
          callRet_ok ht, hcleaner]

/-! ## The thread pool -/

def workers (i n : ℕ) : List Resource := (List.range' i n).map .worker

theorem mem_workers {i n : ℕ} : r ∈ workers i n ↔ ∃ j, i ≤ j ∧ j < i + n ∧ r = .worker j := by
  simp [workers, List.mem_range'_1, and_assoc, eq_comm]

theorem joinWorkers_eq (i n : ℕ) : joinWorkers i n = giveAll (workers i n) := by
  induction n generalizing i with
  | zero => rfl
  | succ n ih => rw [joinWorkers, ih, workers, workers, List.range'_succ, List.map_cons, giveAll]

namespace ThreadPool

/-- What `thread_pool_destroy` gives back. -/
def owned (tpool : ThreadPool) : List Resource :=
  (if tpool.pool then
    workers 0 tpool.num ++ .pool ::
      match tpool.taskQueue with
      | none => []
      | some num => (if num ≠ 0 then [.mutex, .notEmpty, .notFull, .queue] else []) ++ [.taskQueue]
  else []) ++ [.tpool]

/-- What `thread_pool_destroy` does not give back: a queue without room looks as if it were not initialized. -/
def leaked (tpool : ThreadPool) : List Resource :=
  if tpool.taskQueue = some 0 then [.mutex, .notEmpty, .notFull, .queue] else []

end ThreadPool

theorem threadPoolDestroy_eq (tpool : ThreadPool) :
    threadPoolDestroy (some tpool) = giveAll tpool.owned := by
  obtain ⟨num, pool, taskQueue⟩ := tpool
  cases pool with
  | false => simp [threadPoolDestroy, ThreadPool.owned, giveAll]
  | true =>
    cases taskQueue with
    | none =>
      simp [threadPoolDestroy, ThreadPool.owned, giveAll, giveAll_append, joinWorkers_eq]
    | some n =>
      by_cases hn : n = 0
      · simp [threadPoolDestroy, ThreadPool.owned, giveAll, giveAll_append, joinWorkers_eq,
          taskQueueDeinit, hn]
      · simp [threadPoolDestroy, ThreadPool.owned, giveAll, giveAll_append, joinWorkers_eq,
          taskQueueDeinit, hn]

/-- The threads are taken down first. -/
theorem orderly_threads {tasks : Bool} (ts : List Resource)
    (hts : ∀ r ∈ ts, ∀ q ∈ ts, q.uses tasks r = false) (hrs : ∀ q ∈ rs, q.isThread = false) :
    Ledger.Orderly (Resource.uses tasks) (ts ++ rs) :=
  List.pairwise_append.mpr ⟨List.pairwise_of_forall_mem_list hts,
    List.pairwise_of_forall_mem_list fun _ _ q hq => Resource.uses_of_not_isThread (hrs q hq),
    fun _ _ q hq => Resource.uses_of_not_isThread (hrs q hq)⟩

theorem orderly_of_not_isThread {tasks : Bool} (hrs : ∀ q ∈ rs, q.isThread = false) :
    Ledger.Orderly (Resource.uses tasks) rs :=
  orderly_threads [] (by simp) hrs

theorem ThreadPool.orderly (tpool : ThreadPool) (tasks : Bool) :
    Ledger.Orderly (Resource.uses tasks) tpool.owned := by
  have hworkers : ∀ r ∈ workers 0 tpool.num, ∀ q ∈ workers 0 tpool.num,
      q.uses tasks r = false := by
    intro r hr q hq
    obtain ⟨i, -, -, rfl⟩ := mem_workers.mp hr
    obtain ⟨j, -, -, rfl⟩ := mem_workers.mp hq
    exact Bool.and_false tasks
  obtain ⟨num, pool, taskQueue⟩ := tpool
  cases pool with
  | false => exact orderly_of_not_isThread (by simp [owned, Resource.isThread])
  | true =>
    rw [owned, if_pos rfl, List.append_assoc]
    refine orderly_threads (workers 0 num) hworkers ?_
    cases taskQueue with
    | none => simp [Resource.isThread]
    | some n => by_cases hn : n = 0 <;> simp [Resource.isThread, hn]

theorem ThreadPool.turn_owned {tpool : ThreadPool} (hr : r ∈ tpool.owned) : r.turn = 3 := by
  have hqueue : ∀ q ∈ [Resource.mutex, .notEmpty, .notFull, .queue, .taskQueue, .pool, .tpool],
      q.turn = 3 := by simp [Resource.turn]
  obtain ⟨num, pool, taskQueue⟩ := tpool
  cases pool with
  | false =>
    obtain rfl : r = .tpool := by simpa [owned] using hr
    rfl
  | true =>
    by_cases hw : r ∈ workers 0 num
    · obtain ⟨j, -, -, rfl⟩ := mem_workers.mp hw
      rfl
    · refine hqueue r ?_
      cases taskQueue with
      | none =>
        simp [owned, hw] at hr
        grind
      | some n => by_cases hn : n = 0 <;> simp [owned, hw, hn] at hr <;> grind

variable (env) in
/-- Threads are created until one cannot be. -/
theorem createWorkers_run (i n : ℕ) (h : ∀ j, i ≤ j → .worker j ∉ w.live) :
    ∃ m ret live errno, (createWorkers env i n).run w = .ok ((i + m, ret), { w with live, errno }) ∧
      live.Perm (workers i m ++ w.live) ∧ (ret = 0 ∨ ret ≠ 0 ∧ errno ≠ 0 ∧ n ≠ 0) := by
  induction n generalizing i w with
  | zero => exact ⟨0, 0, w.live, w.errno, rfl, .refl _, .inl rfl⟩
  | succ n ih =>
    cases hw : env.fails (.worker i) with
    | some e =>
      refine ⟨0, e.1, w.live, e.1, ?_, .refl _, .inr ⟨e.2, e.2, Nat.succ_ne_zero n⟩⟩
      simp [createWorkers, callRet_error hw, e.2]
    | none =>
      have hrun := callRet_ok hw (h i le_rfl)
      obtain ⟨m, ret, live, errno, hrest, hperm, hret⟩ :=
        ih (w := { w with live := .worker i :: w.live }) (i + 1) fun j hj hmem => by
          rcases List.mem_cons.mp hmem with heq | hmem
          · cases heq
            omega
          · exact h j (by omega) hmem
      refine ⟨m + 1, ret, live, errno, ?_, ?_,
        hret.imp_right fun hret => ⟨hret.1, hret.2.1, Nat.succ_ne_zero n⟩⟩
      · rw [createWorkers, bind_run hrun, if_neg (by simp), hrest, Nat.add_right_comm, Nat.add_assoc]
      · rw [workers, List.range'_succ, List.map_cons, List.cons_append]
        exact hperm.trans List.perm_middle

/-- What a pool has that was created. -/
def ThreadPool.acquired (tpool : Option ThreadPool) : List Resource :=
  tpool.elim [] fun tpool => tpool.owned ++ tpool.leaked

/-- The end of a `thread_pool_create` that fails. -/
theorem threadPoolExit_run {tpool : ThreadPool} (h : w.Free 3) (hlive : live.Perm (tpool.owned ++ w.live))
    (errno : Int32) :
    ∃ live', (threadPoolExit (some tpool)).run { w with live, errno } =
      .ok (none, { w with live := live', errno }) ∧ live'.Perm w.live := by
  have hunused : ∀ r ∈ tpool.owned, Resource.Unused w.tasks w.live r :=
    fun r hr => h.unused (ThreadPool.turn_owned hr)
  obtain ⟨live', hrun, hperm⟩ := giveAll_run (w := { w with live, errno }) hlive
    (tpool.orderly w.tasks) hunused
  refine ⟨live', ?_, hperm⟩
  rw [threadPoolExit, threadPoolDestroy_eq, bind_run hrun, pure_run]

variable (env) in
theorem taskQueueInit_run (num : UInt16) (hqueue : .queue ∉ w.live) (hmutex : .mutex ∉ w.live)
    (hnotEmpty : .notEmpty ∉ w.live) (hnotFull : .notFull ∉ w.live) :
    (taskQueueInit env num).run w =
      .ok ((0, num), { w with live := .notFull :: .notEmpty :: .mutex :: .queue :: w.live }) ∨
    ∃ e : Errno, (taskQueueInit env num).run w = .ok ((e.1, 0), { w with errno := e.1 }) := by
  cases hq : env.fails .queue with
  | some e => exact .inr ⟨e, by simp [taskQueueInit, call_error hq]⟩
  | none =>
    refine .inl ?_
    simp [taskQueueInit, call_ok hq hqueue, take_run, hmutex, hnotEmpty, hnotFull]

theorem ThreadPool.perm_acquired (num : ℕ) (n : UInt16) :
    (acquired (some ⟨num, true, some n⟩)).Perm
      (workers 0 num ++ [.notFull, .notEmpty, .mutex, .queue, .taskQueue, .pool, .tpool]) := by
  by_cases hn : n = 0
  · simp only [acquired, owned, leaked, hn, Option.elim_some, if_true, List.append_assoc, ne_eq,
      not_true_eq_false, if_false]
    exact .append_left _ (by decide)
  · simp only [acquired, owned, leaked, hn, Option.elim_some, if_true, List.append_assoc, ne_eq,
      not_false_eq_true, Option.some.injEq, if_false]
    exact .append_left _ (by decide)

variable (env) in
/-- The queue and the threads are there, or what is there is taken down. -/
theorem threadPoolFill_run {n k : UInt16} (h : w.Free 3) (hroom : k = 0 → n = 0) :
    (∃ m live errno, (threadPoolFill env n k).run
        { w with live := .taskQueue :: .pool :: .tpool :: w.live } =
          .ok (some ⟨m, true, some k⟩, { w with live, errno }) ∧
      live.Perm (ThreadPool.acquired (some ⟨m, true, some k⟩) ++ w.live)) ∨
    ∃ tpool live errno, (threadPoolFill env n k).run
        { w with live := .taskQueue :: .pool :: .tpool :: w.live } =
          (threadPoolExit (some tpool)).run { w with live, errno } ∧
      live.Perm (tpool.owned ++ w.live) ∧ errno ≠ 0 := by
  rcases taskQueueInit_run env
    (w := { w with live := .taskQueue :: .pool :: .tpool :: w.live }) k
    (by simp [h.notMem (r := .queue) rfl]) (by simp [h.notMem (r := .mutex) rfl])
    (by simp [h.notMem (r := .notEmpty) rfl]) (by simp [h.notMem (r := .notFull) rfl]) with
    hinit | ⟨e, hinit⟩
  · obtain ⟨m, ret, live, errno, hrun, hperm, hret⟩ := createWorkers_run env
      (w := { w with live := .notFull :: .notEmpty :: .mutex :: .queue :: .taskQueue :: .pool ::
        .tpool :: w.live }) 0 n.toNat fun j _ => by simp [h.notMem (r := .worker j) rfl]
    rw [Nat.zero_add] at hrun
    have hall : live.Perm (ThreadPool.acquired (some ⟨m, true, some k⟩) ++ w.live) := by
      refine hperm.trans (.trans (.of_eq ?_) ((ThreadPool.perm_acquired m k).symm.append_right _))
      simp
    rcases hret with rfl | ⟨hret, herrno, hn⟩
    · refine .inl ⟨m, live, errno, ?_, hall⟩
      simp [threadPoolFill, hinit, hrun]
    · refine .inr ⟨⟨m, true, some k⟩, live, errno, ?_, ?_, herrno⟩
      · simp [threadPoolFill, hinit, hrun, hret]
      · have hk : k ≠ 0 := fun hk => hn (by rw [hroom hk]; rfl)
        simpa [ThreadPool.acquired, ThreadPool.leaked, hk] using hall
  · have hperm : [Resource.taskQueue, .pool, .tpool].Perm
      (ThreadPool.owned ⟨0, true, some 0⟩) := by decide
    refine .inr ⟨⟨0, true, some 0⟩, _, e.1, ?_, hperm.append_right w.live, e.2⟩
    simp [threadPoolFill, hinit, e.2]

variable (env) in
theorem threadPoolCreate_spec (threadNum minIfAuto maxIfAuto taskNum : UInt16) (h : w.Free 3) :
    Creates (threadPoolCreate env threadNum minIfAuto maxIfAuto taskNum) (·.isSome)
      ThreadPool.acquired w := by
  have htpool : .tpool ∉ w.live := h.notMem rfl
  have hpool : .pool ∉ w.live := h.notMem rfl
  have htaskQueue : .taskQueue ∉ w.live := h.notMem rfl
  have hfailed : ∀ (live : List Resource) (errno : Int32) (tpool : ThreadPool),
      (threadPoolCreate env threadNum minIfAuto maxIfAuto taskNum).run w =
        (threadPoolExit (some tpool)).run { w with live, errno } →
      live.Perm (tpool.owned ++ w.live) → errno ≠ 0 →
      Creates (threadPoolCreate env threadNum minIfAuto maxIfAuto taskNum) (·.isSome)
        ThreadPool.acquired w := by
    intro live errno tpool hrun hlive herrno
    obtain ⟨live', hexit, hperm⟩ := threadPoolExit_run h hlive errno
    exact ⟨none, live', errno, hrun.trans hexit, .inr ⟨by simp, hperm, herrno⟩⟩
  cases ht : env.fails .tpool with
  | some e =>
    refine .failed (a := none) (e := e) ?_ (by simp)
    simp [threadPoolCreate, call_error ht, threadPoolExit, threadPoolDestroy]
  | none =>
    cases hp : env.fails .pool with
    | some e =>
      refine hfailed (.tpool :: w.live) e.1 ⟨0, false, none⟩ ?_ (.refl _) e.2
      simp [threadPoolCreate, call_ok ht htpool, call_error hp]
    | none =>
      cases hq : env.fails .taskQueue with
      | some e =>
        refine hfailed (.pool :: .tpool :: w.live) e.1 ⟨0, true, none⟩ ?_ (.refl _) e.2
        simp [threadPoolCreate, call_ok ht htpool, call_ok hp, hpool, call_error hq]
      | none =>
        obtain ⟨n, hn⟩ : ∃ n, n = if threadNum = 0 then
          autoThreadNum env.ncpu minIfAuto maxIfAuto else threadNum := ⟨_, rfl⟩
        obtain ⟨k, hk⟩ : ∃ k, k = if taskNum = 0 then n else taskNum := ⟨_, rfl⟩
        have hcreate : (threadPoolCreate env threadNum minIfAuto maxIfAuto taskNum).run w =
            (threadPoolFill env n k).run
              { w with live := .taskQueue :: .pool :: .tpool :: w.live } := by
          simp [threadPoolCreate, call_ok ht htpool, call_ok hp, hpool, call_ok hq, htaskQueue,
            ← hn, ← hk]
        have hroom : k = 0 → n = 0 := by
          rintro rfl
          by_contra hne
          by_cases htask : taskNum = 0
          · exact hne (by rw [hk, if_pos htask])
          · exact htask (by rw [hk, if_neg htask])
        rcases threadPoolFill_run env h hroom with
          ⟨m, live, errno, hrun, hperm⟩ | ⟨tpool, live, errno, hrun, hperm, herrno⟩
        · exact ⟨some ⟨m, true, some k⟩, live, errno, hcreate.trans hrun, .inl ⟨rfl, hperm⟩⟩
        · exact hfailed live errno tpool (hcreate.trans hrun) hperm herrno

/-! ## Servers -/

theorem ioExitCtx_run (h : w.Free 1) (errno : Int32) :
    ioExitCtx.run { w with live := .ctx .io :: w.live, errno } = .ok (errno, { w with errno }) := by
  have hunused : Resource.Unused w.tasks w.live (.ctx .io) := h.unused rfl
  simp [ioExitCtx, give_head hunused]

theorem ioExitListenfd_run (h : w.Free 1) (errno : Int32) :
    ioExitListenfd.run { w with live := .sockfd .io :: .ctx .io :: w.live, errno } =
      .ok (errno, { w with errno }) := by
  have hunused : Resource.Unused w.tasks (.ctx .io :: w.live) (.sockfd .io) :=
    (h.unused rfl).cons rfl
  simp [ioExitListenfd, give_head hunused, ioExitCtx_run h]

theorem ioExitSunPath_run (h : w.Free 1) (errno : Int32) :
    ioExitSunPath.run { w with live := .sunPath .io :: .sockfd .io :: .ctx .io :: w.live, errno } =
      .ok (errno, { w with errno }) := by
  have hunused : Resource.Unused w.tasks (.sockfd .io :: .ctx .io :: w.live) (.sunPath .io) :=
    ((h.unused rfl).cons rfl).cons rfl
  simp [ioExitSunPath, give_head hunused, ioExitListenfd_run h]

/-- What the io server has, in the order in which it is given back. -/
def ioOwned : List Resource := [.server .io, .sunPath .io, .sockfd .io, .ctx .io]

variable (env) in
theorem startIoServer_spec (h : w.Free 1) :
    Creates (startIoServer env) (· = 0) (fun _ => ioOwned) w := by
  have hctx : .ctx .io ∉ w.live := h.notMem rfl
  have hfd : .sockfd .io ∉ w.live := h.notMem rfl
  have hpath : .sunPath .io ∉ w.live := h.notMem rfl
  have hserver : .server .io ∉ w.live := h.notMem rfl
  cases hc : env.fails (.ctx .io) with
  | some e => exact .failed (e := e) (by simp [startIoServer, call_error hc]) e.2
  | none =>
    cases hf : env.fails (.sockfd .io) with
    | some e =>
      refine .failed (e := e) ?_ e.2
      simp [startIoServer, call_ok hc hctx, call_error hf, ioExitCtx_run h]
    | none =>
      cases hp : env.fails (.sunPath .io) with
      | some e =>
        refine .failed (e := e) ?_ e.2
        simp [startIoServer, call_ok hc hctx, call_ok hf, hfd, call_error hp, ioExitListenfd_run h]
      | none =>
        cases hl : env.listen with
        | some e =>
          refine .failed (e := e) ?_ e.2
          simp [startIoServer, call_ok hc hctx, call_ok hf, hfd, call_ok hp, hpath, hl,
            ioExitSunPath_run h]
        | none =>
          cases hs : env.fails (.server .io) with
          | some e =>
            refine .failed (e := e) ?_ e.2
            simp [startIoServer, call_ok hc hctx, call_ok hf, hfd, call_ok hp, hpath, hl,
              callRet_error hs, e.2, ioExitSunPath_run h]
          | none =>
            refine ⟨0, ioOwned ++ w.live, w.errno, ?_, .inl ⟨rfl, .refl _⟩⟩
            simp [startIoServer, call_ok hc hctx, call_ok hf, hfd, call_ok hp, hpath, hl,
              callRet_ok hs, hserver, ioOwned]

/-- What the context of the ctrl server has. -/
def CtrlCtx.owned (ctx : CtrlCtx) : List Resource :=
  (if ctx.prefixes then [.prefixes] else []) ++ (if ctx.cacheNow then [.cacheNow] else []) ++
    (if ctx.name then [.name] else []) ++ [.ctx .ctrl]

theorem CtrlCtx.unused (h : w.Free 0) (hr : r.turn = 0) (ctx : CtrlCtx) :
    Resource.Unused w.tasks (ctx.owned ++ w.live) r := by
  intro q hq
  rcases List.mem_append.mp hq with hq | hq
  · have hq : q = .prefixes ∨ q = .cacheNow ∨ q = .name ∨ q = .ctx .ctrl := by
      simp [owned] at hq
      tauto
    rcases hq with rfl | rfl | rfl | rfl <;> rfl
  · exact (h q hq).2 r hr

theorem ctrlExitCtx_run (h : w.Free 0) (ctx : CtrlCtx) (errno : Int32) :
    (ctrlExitCtx ctx).run { w with live := ctx.owned ++ w.live, errno } =
      .ok (errno, { w with errno }) := by
  have hctx : Resource.Unused w.tasks w.live (.ctx .ctrl) := h.unused rfl
  have hname := CtrlCtx.unused h (r := .name) rfl ⟨false, false, false⟩
  have hcacheNow := CtrlCtx.unused h (r := .cacheNow) rfl ⟨ctx.name, false, false⟩
  have hprefixes := CtrlCtx.unused h (r := .prefixes) rfl ⟨ctx.name, ctx.cacheNow, false⟩
  obtain ⟨name, cacheNow, prefixes⟩ := ctx
  cases name <;> cases cacheNow <;> cases prefixes <;>
    simp_all [ctrlExitCtx, CtrlCtx.owned, give_head]

theorem ctrlExitListenfd_run (h : w.Free 0) (ctx : CtrlCtx) (errno : Int32) :
    (ctrlExitListenfd ctx).run { w with live := .sockfd .ctrl :: (ctx.owned ++ w.live), errno } =
      .ok (errno, { w with errno }) := by
  have hunused := CtrlCtx.unused h (r := .sockfd .ctrl) rfl ctx
  simp [ctrlExitListenfd, give_head hunused, ctrlExitCtx_run h]

theorem ctrlExitSunPath_run (h : w.Free 0) (ctx : CtrlCtx) (errno : Int32) :
    (ctrlExitSunPath ctx).run
        { w with live := .sunPath .ctrl :: .sockfd .ctrl :: (ctx.owned ++ w.live), errno } =
      .ok (errno, { w with errno }) := by
  have hunused : Resource.Unused w.tasks (.sockfd .ctrl :: (ctx.owned ++ w.live))
      (.sunPath .ctrl) := (CtrlCtx.unused h rfl ctx).cons rfl
  simp [ctrlExitSunPath, give_head hunused, ctrlExitListenfd_run h]

/-- What the ctrl server has, in the order in which it is given back. -/
def ctrlOwned : List Resource :=
  [.server .ctrl, .sunPath .ctrl, .sockfd .ctrl, .prefixes, .cacheNow, .name, .ctx .ctrl]

variable (env) in
theorem startCtrlServer_spec (h : w.Free 0) :
    Creates (startCtrlServer env) (· = 0) (fun _ => ctrlOwned) w := by
  have hctx : .ctx .ctrl ∉ w.live := h.notMem rfl
  have hname : .name ∉ w.live := h.notMem rfl
  have hcacheNow : .cacheNow ∉ w.live := h.notMem rfl
  have hprefixes : .prefixes ∉ w.live := h.notMem rfl
  have hfd : .sockfd .ctrl ∉ w.live := h.notMem rfl
  have hpath : .sunPath .ctrl ∉ w.live := h.notMem rfl
  have hserver : .server .ctrl ∉ w.live := h.notMem rfl
  cases hc : env.fails (.ctx .ctrl) with
  | some e => exact .failed (e := e) (by simp [startCtrlServer, call_error hc]) e.2
  | none =>
    cases hn : env.fails .name with
    | some e =>
      refine .failed (e := e) ?_ e.2
      simpa [startCtrlServer, call_ok hc hctx, call_error hn, CtrlCtx.owned] using
        ctrlExitCtx_run h ⟨false, false, false⟩ e.1
    | none =>
      cases hcn : env.fails .cacheNow with
      | some e =>
        refine .failed (e := e) ?_ e.2
        simpa [startCtrlServer, call_ok hc hctx, call_ok hn, hname, call_error hcn,
          CtrlCtx.owned] using ctrlExitCtx_run h ⟨true, false, false⟩ e.1
      | none =>
        cases hp : env.fails .prefixes with
        | some e =>
          refine .failed (e := e) ?_ e.2
          simpa [startCtrlServer, call_ok hc hctx, call_ok hn, hname, call_ok hcn, hcacheNow,
            call_error hp, CtrlCtx.owned] using ctrlExitCtx_run h ⟨true, true, false⟩ e.1
        | none =>
          cases hf : env.fails (.sockfd .ctrl) with
          | some e =>
            refine .failed (e := e) ?_ e.2
            simpa [startCtrlServer, call_ok hc hctx, call_ok hn, hname, call_ok hcn, hcacheNow,
              call_ok hp, hprefixes, call_error hf, CtrlCtx.owned] using
              ctrlExitCtx_run h ⟨true, true, true⟩ e.1
          | none =>
            cases hu : env.fails (.sunPath .ctrl) with
            | some e =>
              refine .failed (e := e) ?_ e.2
              simpa [startCtrlServer, call_ok hc hctx, call_ok hn, hname, call_ok hcn, hcacheNow,
                call_ok hp, hprefixes, call_ok hf, hfd, call_error hu, CtrlCtx.owned] using
                ctrlExitListenfd_run h ⟨true, true, true⟩ e.1
            | none =>
              cases hs : env.fails (.server .ctrl) with
              | some e =>
                refine .failed (e := e) ?_ e.2
                simpa [startCtrlServer, call_ok hc hctx, call_ok hn, hname, call_ok hcn,
                  hcacheNow, call_ok hp, hprefixes, call_ok hf, hfd, call_ok hu, hpath,
                  callRet_error hs, e.2, CtrlCtx.owned] using
                  ctrlExitSunPath_run h ⟨true, true, true⟩ e.1
              | none =>
                refine ⟨0, ctrlOwned ++ w.live, w.errno, ?_, .inl ⟨rfl, .refl _⟩⟩
                simp [startCtrlServer, call_ok hc hctx, call_ok hn, hname, call_ok hcn,
                  hcacheNow, call_ok hp, hprefixes, call_ok hf, hfd, call_ok hu, hpath,
                  callRet_ok hs, hserver, ctrlOwned]

end Propd.Launch
