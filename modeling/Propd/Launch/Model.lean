import Propd.Core.Route
import Propd.Infra.NamedMutex
import Propd.Lib.Ledger
import Propd.Server.Loops

/-!
# Starting and ending a node

`__propd_run`, with what it creates: the pool of threads, the namespace of named mutexes, the cache,
the route table and the two servers. Any of the calls of the system may fail, and then what is there
so far is taken down again.

What is followed is a ledger of what the process has, and `errno`. A block, a lock, a descriptor, a
thread and the name of a socket is each one entry of the ledger. To acquire an entry that is there,
to give one back that is not, or one that a thread uses, is a fault.
-/

namespace Propd.Launch

open Lib

/-- What a node acquires, after the variable or the field that has it; `item` is an item of the route
table, by its address. -/
inductive Resource
  | tpool
  | pool
  | taskQueue
  | queue
  | mutex
  | notEmpty
  | notFull
  | worker (i : ℕ)
  | nmtxNs
  | nmtxMutex
  | cache
  | cacheRwlock
  | cleanNotice
  | cleaner
  | route
  | routeRwlock
  | item (addr : ℕ)
  | ctx (kind : ServerKind)
  | name
  | cacheNow
  | prefixes
  | sockfd (kind : ServerKind)
  | sunPath (kind : ServerKind)
  | server (kind : ServerKind)
  deriving DecidableEq

namespace Resource

/-- A block or a lock of the task queue. -/
def ofQueue : Resource → Bool
  | taskQueue | queue | mutex | notEmpty | notFull => true
  | _ => false

/-- A part of `io_ctx_t`. -/
def ofIoCtx : Resource → Bool
  | nmtxNs | nmtxMutex | cache | cacheRwlock | cleanNotice | route | routeRwlock => true
  | _ => false

/-- A field of the context of a server. -/
def ofServer (kind : ServerKind) : Resource → Bool
  | ctx k | sockfd k | sunPath k => k = kind
  | name | cacheNow | prefixes => kind = .ctrl
  | _ => false

/-- Threads use what they run on. A thread of the pool has the queue, and the parts of `io_ctx` once
there are `tasks`; items are protected by their counters. What a task of the ctrl server has of the
context of its server is not counted here. -/
def uses (tasks : Bool) : Resource → Resource → Bool
  | worker _, r => r.ofQueue || tasks && r.ofIoCtx
  | cleaner, r => r = cache || r = cacheRwlock || r = cleanNotice
  | server kind, r => r.ofServer kind || r = tpool || r.ofQueue
  | _, _ => false

def isItem : Resource → Bool
  | item _ => true
  | _ => false

end Resource

/-- A request to a ctrl server, with the server that it goes to. -/
inductive NodeCall
  | registerParent (server parent : CString)
  | unregisterChild (server child : CString)

/-- The process of a node. `table` are the items that it has in a list: that of the configuration,
and then that of the route table. -/
structure World where
  live : List Resource
  errno : Int32
  table : RouteList
  /-- The entries of the namespace of named mutexes. -/
  nmtxTree : List (Nmtx ℕ)
  /-- The servers have submitted tasks. -/
  tasks : Bool
  /-- What is written to `syncfd`. -/
  written : List Int32
  sent : List NodeCall

/-- A misuse of the ledger, or another fault. -/
abbrev RunM := StateT World (Except (Misuse ⊕ Fault))

/-- What the system answers, and what other threads do. -/
structure Environment where
  /-- How the call fails that acquires a resource. -/
  fails : Resource → Option Errno
  ncpu : Int64
  /-- The directory of the sockets is there. -/
  access : Bool
  mkdir : Option Errno
  listen : Option Errno
  /-- The results for the children and for the parents. -/
  child : ℕ → Option Errno
  parent : ℕ → Option Errno
  /-- What the tasks of the pool make of the route table until it is emptied, and the named mutexes
  that they leave. -/
  table : RouteList → RouteList
  nmtxTree : List (Nmtx ℕ)

/-- What `__propd_run` reads of `propd_config_t`. -/
structure RunConfig where
  name : CString
  threadNum : UInt16
  threadNumMaxIfAuto : UInt16
  cacheInterval : Timestamp
  localRoute : RouteList
  children : List CString
  parents : List CString

/-! ## Calls of the system -/

def take (r : Resource) : RunM Unit := fun w =>
  match Ledger.acquire r w.live with
  | .ok live => .ok ((), { w with live })
  | .error e => .error (.inl e)

def give (r : Resource) : RunM Unit := fun w =>
  match Ledger.release (Resource.uses w.tasks) r w.live with
  | .ok live => .ok ((), { w with live })
  | .error e => .error (.inl e)

def setErrno (e : Int32) : RunM Unit := modify fun w => { w with errno := e }

def getErrno : RunM Int32 := return (← get).errno

def retOfAnswer : Option Errno → Int32
  | none => 0
  | some e => e.1

/-- A call that acquires, or fails with `errno`. -/
def call (env : Environment) (r : Resource) : RunM Bool :=
  match env.fails r with
  | none => do
    take r
    return true
  | some e => do
    setErrno e.1
    return false

/-- A call that acquires, or returns what it failed with. -/
def callRet (env : Environment) (r : Resource) : RunM Int32 :=
  match env.fails r with
  | none => do
    take r
    return 0
  | some e => return e.1

/-! ## The thread pool -/

/-- `task_queue_t` and `thread_pool_t`, as far as they are filled in; a pointer is there or `NULL`. -/
structure ThreadPool where
  num : ℕ
  pool : Bool
  /-- `num` of the queue. -/
  taskQueue : Option UInt16

/-- `task_queue_init` -/
def taskQueueInit (env : Environment) (num : UInt16) : RunM (Int32 × UInt16) := do
  if ← call env .queue then
    take .mutex
    take .notEmpty
    take .notFull
    return (0, num)
  else return (← getErrno, 0)

/-- `task_queue_deinit` -/
def taskQueueDeinit (num : UInt16) : RunM Unit := do
  if num ≠ 0 then
    give .mutex
    give .notEmpty
    give .notFull
    give .queue

/-- `pthread_cancel` and `pthread_join` of the threads from `i` on. -/
def joinWorkers (i : ℕ) : ℕ → RunM Unit
  | 0 => return ()
  | n + 1 => do
    give (.worker i)
    joinWorkers (i + 1) n

/-- `thread_pool_destroy` -/
def threadPoolDestroy : Option ThreadPool → RunM Unit
  | none => return ()
  | some tpool => do
    if tpool.pool then
      joinWorkers 0 tpool.num
      give .pool
      match tpool.taskQueue with
      | none => pure ()
      | some num =>
        taskQueueDeinit num
        give .taskQueue
    give .tpool

/-- `exit` of `thread_pool_create` -/
def threadPoolExit (tpool : Option ThreadPool) : RunM (Option ThreadPool) := do
  threadPoolDestroy tpool
  return none

/-- The threads from `i` on; how many there are then, and what `pthread_create` returned. -/
def createWorkers (env : Environment) (i : ℕ) : ℕ → RunM (ℕ × Int32)
  | 0 => return (i, 0)
  | n + 1 => do
    let ret ← callRet env (.worker i)
    if ret ≠ 0 then
      setErrno ret
      return (i, ret)
    else createWorkers env (i + 1) n

/-- The number of threads where none is asked for. -/
def autoThreadNum (ncpu : Int64) (minIfAuto maxIfAuto : UInt16) : UInt16 :=
  let n : UInt16 := if ncpu < 0 then 0 else ncpu.toUInt64.toUInt16
  if n < minIfAuto then minIfAuto else if maxIfAuto < n then maxIfAuto else n

/-- `thread_pool_create` from `task_queue_init` on. -/
def threadPoolFill (env : Environment) (threadNum taskNum : UInt16) : RunM (Option ThreadPool) := do
  let (ret, queueNum) ← taskQueueInit env taskNum
  if ret ≠ 0 then threadPoolExit (some ⟨0, true, some queueNum⟩)
  else
    let (num, ret) ← createWorkers env 0 threadNum.toNat
    if ret ≠ 0 then threadPoolExit (some ⟨num, true, some queueNum⟩)
    else return some ⟨num, true, some queueNum⟩

/-- `thread_pool_create` -/
def threadPoolCreate (env : Environment) (threadNum minIfAuto maxIfAuto taskNum : UInt16) :
    RunM (Option ThreadPool) := do
  let threadNum := if threadNum = 0 then autoThreadNum env.ncpu minIfAuto maxIfAuto else threadNum
  let taskNum := if taskNum = 0 then threadNum else taskNum
  if ← call env .tpool then
    if ← call env .pool then
      if ← call env .taskQueue then threadPoolFill env threadNum taskNum
      else threadPoolExit (some ⟨0, true, none⟩)
    else threadPoolExit (some ⟨0, false, none⟩)
  else threadPoolExit none

/-! ## Mutexes, cache and route table -/

/-- `named_mutex_create_namespace` -/
def namedMutexCreateNamespace (env : Environment) : RunM Bool := do
  if ← call env .nmtxNs then
    take .nmtxMutex
    return true
  else return false

/-- `named_mutex_destroy_namespace` -/
def namedMutexDestroyNamespace (ns : Bool) : RunM Unit := do
  if ns then
    match Propd.namedMutexDestroyNamespace (← get).nmtxTree with
    | .error e => throw (.inr e)
    | .ok () =>
      give .nmtxMutex
      give .nmtxNs

/-- `cache_create` -/
def cacheCreate (env : Environment) : RunM Bool := do
  if ← call env .cache then
    let ret ← callRet env .cacheRwlock
    if ret ≠ 0 then
      give .cache
      setErrno ret
      return false
    else
      take .cleanNotice
      let ret ← callRet env .cleaner
      if ret ≠ 0 then
        give .cleanNotice
        give .cacheRwlock
        give .cache
        setErrno ret
        return false
      else return true
  else return false

/-- `cache_destroy` -/
def cacheDestroy (cache : Bool) : RunM Unit := do
  if cache then
    give .cleaner
    give .cleanNotice
    give .cacheRwlock
    give .cache

/-- `route_create` -/
def routeCreate (env : Environment) : RunM Bool := do
  if ← call env .route then
    let ret ← callRet env .routeRwlock
    setErrno ret
    if ret ≠ 0 then
      give .route
      return false
    else return true
  else return false

/-- `route_item_destroy` of items that are off the list -/
def routeItemsDestroy : List RouteItem → RunM Unit
  | [] => return ()
  | item :: items => do
    give (.item item.addr)
    routeItemsDestroy items

/-- `route_unregister(route, NULL)` -/
def routeUnregisterAll : RunM Unit := do
  let (left, gone, _) := routeUnregister (← get).table none
  modify fun w => { w with table := left }
  routeItemsDestroy gone

/-- `route_destroy` -/
def routeDestroy (route : Bool) : RunM Unit := do
  if route then
    match Propd.routeDestroy (← get).table with
    | .error e => throw (.inr e)
    | .ok () =>
      give .routeRwlock
      give .route

/-! ## The servers -/

/-- `exit_ctx` of `start_io_server`, and what is above it. -/
def ioExitCtx : RunM Int32 := do
  give (.ctx .io)
  getErrno

def ioExitListenfd : RunM Int32 := do
  give (.sockfd .io)
  ioExitCtx

def ioExitSunPath : RunM Int32 := do
  give (.sunPath .io)
  ioExitListenfd

/-- `start_io_server` -/
def startIoServer (env : Environment) : RunM Int32 := do
  if ← call env (.ctx .io) then
    if ← call env (.sockfd .io) then
      if ← call env (.sunPath .io) then
        match env.listen with
        | some e => do
          setErrno e.1
          ioExitSunPath
        | none =>
          let ret ← callRet env (.server .io)
          if ret ≠ 0 then
            setErrno ret
            ioExitSunPath
          else return 0
      else ioExitListenfd
    else ioExitCtx
  else getErrno

/-- The fields of the context of the ctrl server that are `NULL` at first. -/
structure CtrlCtx where
  name : Bool
  cacheNow : Bool
  prefixes : Bool

/-- `exit_ctx` of `start_ctrl_server`, and what is above it. -/
def ctrlExitCtx (ctx : CtrlCtx) : RunM Int32 := do
  if ctx.prefixes then give .prefixes
  if ctx.cacheNow then give .cacheNow
  if ctx.name then give .name
  give (.ctx .ctrl)
  getErrno

def ctrlExitListenfd (ctx : CtrlCtx) : RunM Int32 := do
  give (.sockfd .ctrl)
  ctrlExitCtx ctx

def ctrlExitSunPath (ctx : CtrlCtx) : RunM Int32 := do
  give (.sunPath .ctrl)
  ctrlExitListenfd ctx

/-- `start_ctrl_server` -/
def startCtrlServer (env : Environment) : RunM Int32 := do
  if ← call env (.ctx .ctrl) then
    if ← call env .name then
      if ← call env .cacheNow then
        if ← call env .prefixes then
          if ← call env (.sockfd .ctrl) then
            if ← call env (.sunPath .ctrl) then
              let ret ← callRet env (.server .ctrl)
              if ret ≠ 0 then
                setErrno ret
                ctrlExitSunPath ⟨true, true, true⟩
              else return 0
            else ctrlExitListenfd ⟨true, true, true⟩
          else ctrlExitCtx ⟨true, true, true⟩
        else ctrlExitCtx ⟨true, true, false⟩
      else ctrlExitCtx ⟨true, false, false⟩
    else ctrlExitCtx ⟨false, false, false⟩
  else getErrno

/-- `server_cleanup` of the io server, the last thing its thread does when it is cancelled. -/
def ioServerCleanup : RunM Unit := do
  give (.sunPath .io)
  give (.sockfd .io)
  give (.ctx .io)

/-- `server_cleanup` of the ctrl server -/
def ctrlServerCleanup : RunM Unit := do
  give (.sunPath .ctrl)
  give (.sockfd .ctrl)
  give .prefixes
  give .cacheNow
  give .name
  give (.ctx .ctrl)

/-! ## The node -/

/-- The variables of `__propd_run`; a pointer is there or `NULL`. -/
structure RunVars where
  ret : Int32
  tpool : Option ThreadPool
  nmtxNs : Bool
  cache : Bool
  route : Bool
  ioTid : Bool
  ctrlTid : Bool

def RunVars.init : RunVars := ⟨0, none, false, false, false, false, false⟩

section

variable (config : RunConfig) (env : Environment)

def runNamespace (v : RunVars) : RunM RunVars := do
  if v.ret = 0 ∧ !env.access ∧ env.mkdir.isSome then
    setErrno (retOfAnswer env.mkdir)
    return { v with ret := -1 }
  else return v

def runThreadPool (v : RunVars) : RunM RunVars := do
  if v.ret = 0 then
    let tpool ← threadPoolCreate env config.threadNum 5 config.threadNumMaxIfAuto 0
    return { v with tpool, ret := if tpool.isSome then 0 else -1 }
  else return v

def runNamedMutex (v : RunVars) : RunM RunVars := do
  if v.ret = 0 then
    let nmtxNs ← namedMutexCreateNamespace env
    return { v with nmtxNs, ret := if nmtxNs then 0 else -1 }
  else return v

def runCache (v : RunVars) : RunM RunVars := do
  if v.ret = 0 ∧ config.cacheInterval ≠ 0 then
    let cache ← cacheCreate env
    return { v with cache, ret := if cache then 0 else -1 }
  else return v

/-- `route_create` and `route_init`; what was in the list of the configuration is in the table. -/
def runRoute (v : RunVars) : RunM RunVars := do
  if v.ret = 0 then
    let route ← routeCreate env
    return { v with route, ret := if route then 0 else -1 }
  else return v

def runIoServer (v : RunVars) : RunM RunVars := do
  if v.ret = 0 then
    let ret ← startIoServer env
    return { v with ret, ioTid := ret = 0 }
  else return v

def runCtrlServer (v : RunVars) : RunM RunVars := do
  if v.ret = 0 then
    let ret ← startCtrlServer env
    return { v with ret, ctrlTid := ret = 0 }
  else return v

/-- The loop over the children, from the `i`-th on. -/
def registerChildren (i : ℕ) : List CString → RunM Int32
  | [] => return 0
  | child :: children => do
    modify fun w => { w with sent := w.sent ++ [.registerParent child config.name] }
    match env.child i with
    | some e => return e.1
    | none => registerChildren (i + 1) children

/-- The loop over the parents, from the `i`-th on. -/
def registerParents (i : ℕ) : List CString → RunM Int32
  | [] => return 0
  | parent :: parents => do
    modify fun w => { w with sent := w.sent ++ [.registerParent config.name parent] }
    match env.parent i with
    | some e => return e.1
    | none => registerParents (i + 1) parents

def runChildren (v : RunVars) : RunM RunVars := do
  if v.ret = 0 then return { v with ret := ← registerChildren config env 0 config.children }
  else return v

def runParents (v : RunVars) : RunM RunVars := do
  if v.ret = 0 then return { v with ret := ← registerParents config env 0 config.parents }
  else return v

/-- `__propd_run` until the node runs, or something has failed. -/
def propdStart : RunM RunVars := do
  let v ← runNamespace env .init
  let v ← runThreadPool config env v
  let v ← runNamedMutex env v
  let v ← runCache config env v
  let v ← runRoute env v
  let v ← runIoServer env v
  let v ← runCtrlServer env v
  let v ← runChildren config env v
  runParents config env v

/-- The tasks of the pool have changed the route table, and may have left named mutexes. -/
def tasksRun : RunM Unit := modify fun w =>
  { w with
    tasks := true
    table := env.table w.table
    nmtxTree := env.nmtxTree
    live := w.live.filter (fun r => !r.isItem) ++ (env.table w.table).map fun it => .item it.addr }

/-- `pthread_cancel` and `pthread_join` of the ctrl server, if there is one. -/
def stopCtrlServer (tid : Bool) : RunM Unit := do
  if tid then
    give (.server .ctrl)
    ctrlServerCleanup

/-- `pthread_cancel` and `pthread_join` of the io server, if there is one. -/
def stopIoServer (tid : Bool) : RunM Unit := do
  if tid then
    give (.server .io)
    ioServerCleanup

/-- The loop over the parents at the end. -/
def unregisterParents : List CString → RunM Unit
  | [] => return ()
  | parent :: parents => do
    modify fun w => { w with sent := w.sent ++ [.unregisterChild parent config.name] }
    unregisterParents parents

/-- What is unregistered, if there is a route table. -/
def stopRoute (route : Bool) : RunM Unit := do
  if route then
    unregisterParents config config.parents
    routeUnregisterAll

/-- `__propd_run` from there on. -/
def stopNode (v : RunVars) : RunM Unit := do
  stopCtrlServer v.ctrlTid
  stopIoServer v.ioTid
  stopRoute config v.route
  threadPoolDestroy v.tpool
  routeDestroy v.route
  cacheDestroy v.cache
  namedMutexDestroyNamespace v.nmtxNs

/-- If the servers were reachable for a while, there were tasks. -/
def propdStop (v : RunVars) : RunM Unit :=
  if v.ioTid then do
    tasksRun env
    stopNode config v
  else stopNode config v

/-- A write to `syncfd`, if there is one. -/
def report (syncfd : Bool) (ret : Int32) : RunM Unit := do
  if syncfd then modify fun w => { w with written := w.written ++ [ret] }

/-- `__propd_run` -/
def propdRun (syncfd : Bool) : RunM Int32 := do
  let v ← propdStart config env
  -- `0` before the node runs, or what went wrong, before and after the cleanup
  report syncfd v.ret
  propdStop config env v
  if v.ret ≠ 0 then report syncfd v.ret
  return v.ret

end

end Propd.Launch
