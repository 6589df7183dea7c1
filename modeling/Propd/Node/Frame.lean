import Propd.Core.Io

/-!
# The io functions, step by step

`io_get`, `io_update`, `io_set` and `io_del` as programs over what the threads of
a node share. A frame is one call in progress; its program counter names the next
atomic step: the cache lookup, `route_match`, `named_mutex_lock`, the storage call,
`cache_set` or `cache_del`, `named_mutex_unlock` and `route_deref`.

A step may wait (the key is locked by another thread), and it may fault. Whatever
the environment decides, the reading of the clock, the outcome of allocations and
the reply of a storage, is an argument of the step.

A thread can be cancelled inside the storage call, and only there: the callbacks
wait for sockets and files. Log output is not taken for a cancellation point.
-/

namespace Propd

/-- What an io function is called for; `update` is `io_update` on a given storage. -/
inductive IoOp
  | request (req : IoRequest)
  | update (storage : StorageCtx)
  deriving DecidableEq

/-- `cleanup_ctx_t`: a pointer into the route table, and the key that is locked. -/
structure CleanupCtx where
  storage : Option ℕ
  key : Option CString
  deriving DecidableEq

/-- The next step of a frame. `cacheStore` knows what it stores, `none` where it
deletes; `unlock` and `deref` are the two halves of `cleanup`. -/
inductive IoPc
  | entry
  | routeMatch
  | lock
  | storage
  | cacheStore (item : Option (Value × Timestamp))
  | unlock
  | deref
  | done
  deriving DecidableEq

/-- A call in progress. -/
structure IoFrame where
  op : IoOp
  key : CString
  ctx : CleanupCtx
  pc : IoPc
  ret : IoResult
  cancelled : Bool

/-- What the environment decides in one step. `table` and `item` are the allocations
of `register_child` and `route_register`. -/
structure Inputs where
  now : Timestamp
  alloc : IoAlloc
  table : Bool
  item : Bool
  getReply : GetResult
  setReply : SetResult

/-- What the threads of a node share: `io_ctx_t`, with the holder of every named mutex,
and the state of the world behind the storages. -/
structure Shared (σ ι : Type) where
  cache : Option Cache
  route : RouteList
  locks : CString → Option ι
  world : σ

namespace IoFrame

/-- A call that starts. -/
def start (op : IoOp) (key : CString) : IoFrame where
  op := op
  key := key
  ctx := ⟨none, none⟩
  pc := match op with
    | .request .get | .update _ => .entry
    | .request (.set _) | .request .del => .routeMatch
  ret := .ok none
  cancelled := false

/-- The storage a frame calls: the item its pointer leads to, or the argument of
`io_update`. -/
def target (f : IoFrame) (route : RouteList) : Except Fault StorageCtx :=
  match f.op with
  | .update storage => .ok storage
  | .request _ =>
    match f.ctx.storage with
    | none => .error .nullDeref
    | some addr =>
      match route.itemAt addr with
      | none => .error .useAfterFree
      | some item => .ok item.storage

/-- What goes to the cache after a storage call that gave `x`. -/
def cacheWrite (f : IoFrame) (x : Option (Value × Timestamp)) : Option (Value × Timestamp) :=
  match f.op with
  | .request .get | .update _ => x
  | .request (.set value) => some (value, 0)
  | .request .del => none

/-- The item of the route table the frame holds a reference to. -/
def held (f : IoFrame) : Option ℕ :=
  if f.pc = .done then none else f.ctx.storage

/-- The key the frame has locked. -/
def locked (f : IoFrame) : Option CString :=
  if f.pc = .deref ∨ f.pc = .done then none else f.ctx.key

/-- Up to its unlock step a frame has locked what its context says. -/
theorem locked_of_pc {f : IoFrame} (h : f.pc ≠ .deref ∧ f.pc ≠ .done) : f.locked = f.ctx.key :=
  if_neg (not_or.mpr h)

theorem locked_of_over {f : IoFrame} (h : f.pc = .deref ∨ f.pc = .done) : f.locked = none :=
  if_pos h

end IoFrame

/-! ## The steps -/

variable {σ ι : Type} (env : StorageEnv σ)

/-- The cache part of `io_get`, and the test `io_update` starts with. -/
def entryStep (inp : Inputs) (sh : Shared σ ι) (f : IoFrame) : Except Fault IoFrame :=
  match f.op, sh.cache with
  | .update _, none => .ok { f with pc := .done, ret := .ok none }
  | .update _, some _ => .ok { f with pc := .lock }
  | .request .get, some c =>
    match c.cacheGet f.key inp.now inp.alloc.dup with
    | .error e => .error e
    | .ok ret =>
      if ret ≠ .error ENOENT then .ok { f with pc := .done, ret := ret.map some }
      else .ok { f with pc := .routeMatch }
  | .request _, _ => .ok { f with pc := .routeMatch }

/-- `route_match` -/
def matchStep (sh : Shared σ ι) (f : IoFrame) : Shared σ ι × IoFrame :=
  match routeMatch sh.route f.key with
  | .error e => (sh, { f with pc := .unlock, ret := .error e })
  | .ok (route, item) =>
    ({ sh with route := route }, { f with pc := .lock, ctx.storage := some item.addr })

/-- `named_mutex_lock`; `none` while another thread has the key. -/
def lockStep (t : ι) (inp : Inputs) (sh : Shared σ ι) (f : IoFrame) :
    Option (Shared σ ι × IoFrame) :=
  if !inp.alloc.lock then some (sh, { f with pc := .unlock, ret := .error ENOMEM })
  else
    match sh.locks f.key with
    | some _ => none
    | none =>
      some ({ sh with locks := Function.update sh.locks f.key (some t) },
        { f with pc := .storage, ctx.key := some f.key })

/-- The storage function of a frame, on its target. `none` where the callback does not
give the reply of `inp`. -/
def callStorage (inp : Inputs) (f : IoFrame) (storage : StorageCtx) (w : σ) :
    Except Fault (Option (σ × IoResult)) :=
  match f.op with
  | .request .get | .update _ =>
    storageGet storage
      (fun priv => .ok ((env.get priv f.key w inp.getReply).map (·, inp.getReply.map some)))
      (fun reply => reply.bind fun _ => gotValue inp.getReply)
      fun e => some (w, .error e)
  | .request (.set value) =>
    storageSet storage value
      (fun priv => .ok ((env.set priv f.key value w inp.setReply).map
        (·, inp.setReply.map fun _ => none)))
      fun e => some (w, .error e)
  | .request .del =>
    storageDel storage
      (fun priv => .ok ((env.del priv f.key w inp.setReply).map
        (·, inp.setReply.map fun _ => none)))
      fun e => some (w, .error e)

/-- The storage call and the test of its status. -/
def storageStep (inp : Inputs) (sh : Shared σ ι) (f : IoFrame) :
    Option (Except Fault (Shared σ ι × IoFrame)) :=
  match f.target sh.route with
  | .error e => some (.error e)
  | .ok storage =>
    match callStorage env inp f storage sh.world with
    | .error e => some (.error e)
    | .ok none => none
    | .ok (some (w, .error e)) =>
      some (.ok ({ sh with world := w }, { f with pc := .unlock, ret := .error e }))
    | .ok (some (w, .ok x)) =>
      -- the pointer to the cache never changes
      let pc := if sh.cache.isSome then .cacheStore (f.cacheWrite x) else .unlock
      some (.ok ({ sh with world := w }, { f with pc := pc, ret := .ok x }))

/-- `cache_set` or `cache_del`, whose status is not looked at. -/
def cacheStoreStep (inp : Inputs) (sh : Shared σ ι) (f : IoFrame)
    (item : Option (Value × Timestamp)) : Except Fault (Shared σ ι × IoFrame) :=
  match item with
  | none => .ok ({ sh with cache := cacheDrop sh.cache f.key }, { f with pc := .unlock })
  | some (value, duration) =>
    match cacheFill sh.cache f.key value duration inp.now inp.alloc.set with
    | .error e => .error e
    | .ok cache => .ok ({ sh with cache := cache }, { f with pc := .unlock })

/-- `if (ctx->key) named_mutex_unlock(...)` -/
def unlockStep (sh : Shared σ ι) (f : IoFrame) : Shared σ ι × IoFrame :=
  match f.ctx.key with
  | none => (sh, { f with pc := .deref })
  | some key => ({ sh with locks := Function.update sh.locks key none }, { f with pc := .deref })

/-- `if (ctx->storage) route_deref(...)` -/
def derefStep (sh : Shared σ ι) (f : IoFrame) : Except Fault (Shared σ ι × IoFrame) :=
  match f.ctx.storage with
  | none => .ok (sh, { f with pc := .done })
  | some addr =>
    match routeDeref sh.route addr with
    | .error e => .error e
    | .ok route => .ok ({ sh with route := route }, { f with pc := .done })

/-- One step of a frame of thread `t`: `none` where it waits, or the callback does not
give the reply, or the call is over. -/
def ioStep (t : ι) (inp : Inputs) (sh : Shared σ ι) (f : IoFrame) :
    Option (Except Fault (Shared σ ι × IoFrame)) :=
  match f.pc with
  | .entry => some ((entryStep inp sh f).map (sh, ·))
  | .routeMatch => some (.ok (matchStep sh f))
  | .lock => (lockStep t inp sh f).map .ok
  | .storage => storageStep env inp sh f
  | .cacheStore item => some (cacheStoreStep inp sh f item)
  | .unlock => some (.ok (unlockStep sh f))
  | .deref => some (derefStep sh f)
  | .done => none

/-- Cancellation inside the storage call: the callback has not acted yet, or has acted
and its reply is lost. The cleanup handler runs next. -/
def cancelStep (effect : Option Inputs) (sh : Shared σ ι) (f : IoFrame) :
    Option (Except Fault (Shared σ ι × IoFrame)) :=
  if f.pc = .storage then
    match effect with
    | none => some (.ok (sh, { f with pc := .unlock, cancelled := true }))
    | some inp =>
      (storageStep env inp sh f).map fun r =>
        r.map fun (sh', _) => (sh', { f with pc := .unlock, cancelled := true })
  else none

/-! ## What a step can do -/

/-- All that one step of a frame can do. -/
inductive IoStep (t : ι) (inp : Inputs) (sh : Shared σ ι) (f : IoFrame) :
    Shared σ ι → IoFrame → Prop
  /-- `io_get` returns what the cache answers -/
  | hit {c : Cache} {ret : GetResult} (hpc : f.pc = .entry) (hop : f.op = .request .get)
      (hc : sh.cache = some c) (hget : c.cacheGet f.key inp.now inp.alloc.dup = .ok ret)
      (hret : ret ≠ .error ENOENT) :
      IoStep t inp sh f sh { f with pc := .done, ret := ret.map some }
  /-- the cache has no answer, or is not asked -/
  | miss {req : IoRequest} (hpc : f.pc = .entry) (hop : f.op = .request req) :
      IoStep t inp sh f sh { f with pc := .routeMatch }
  | noCache {storage : StorageCtx} (hpc : f.pc = .entry) (hop : f.op = .update storage)
      (hc : sh.cache = none) :
      IoStep t inp sh f sh { f with pc := .done, ret := .ok none }
  | hasCache {storage : StorageCtx} (hpc : f.pc = .entry) (hop : f.op = .update storage) :
      IoStep t inp sh f sh { f with pc := .lock }
  | unmatched (hpc : f.pc = .routeMatch) (hm : routeMatch sh.route f.key = .error ENOENT) :
      IoStep t inp sh f sh { f with pc := .unlock, ret := .error ENOENT }
  | matched {item : RouteItem} (hpc : f.pc = .routeMatch)
      (hm : routeMatch sh.route f.key = .ok (sh.route.addRef item.addr 1, item)) :
      IoStep t inp sh f { sh with route := sh.route.addRef item.addr 1 }
        { f with pc := .lock, ctx.storage := some item.addr }
  | lockFailed (hpc : f.pc = .lock) (ha : inp.alloc.lock = false) :
      IoStep t inp sh f sh { f with pc := .unlock, ret := .error ENOMEM }
  | locked (hpc : f.pc = .lock) (hfree : sh.locks f.key = none) :
      IoStep t inp sh f { sh with locks := Function.update sh.locks f.key (some t) }
        { f with pc := .storage, ctx.key := some f.key }
  | storageFailed {storage : StorageCtx} {w : σ} {e : Errno} (hpc : f.pc = .storage)
      (ht : f.target sh.route = .ok storage)
      (hcall : callStorage env inp f storage sh.world = .ok (some (w, .error e))) :
      IoStep t inp sh f { sh with world := w } { f with pc := .unlock, ret := .error e }
  | storageOk {storage : StorageCtx} {w : σ} {x : Option (Value × Timestamp)}
      (hpc : f.pc = .storage) (ht : f.target sh.route = .ok storage)
      (hcall : callStorage env inp f storage sh.world = .ok (some (w, .ok x))) :
      IoStep t inp sh f { sh with world := w }
        { f with pc := if sh.cache.isSome then .cacheStore (f.cacheWrite x) else .unlock,
                 ret := .ok x }
  | stored {value : Value} {duration : Timestamp} {cache : Option Cache}
      (hpc : f.pc = .cacheStore (some (value, duration)))
      (hfill : cacheFill sh.cache f.key value duration inp.now inp.alloc.set = .ok cache) :
      IoStep t inp sh f { sh with cache := cache } { f with pc := .unlock }
  | dropped (hpc : f.pc = .cacheStore none) :
      IoStep t inp sh f { sh with cache := cacheDrop sh.cache f.key } { f with pc := .unlock }
  | unlocked {key : CString} (hpc : f.pc = .unlock) (hkey : f.ctx.key = some key) :
      IoStep t inp sh f { sh with locks := Function.update sh.locks key none }
        { f with pc := .deref }
  | noKey (hpc : f.pc = .unlock) (hkey : f.ctx.key = none) :
      IoStep t inp sh f sh { f with pc := .deref }
  | dereffed {addr : ℕ} (hpc : f.pc = .deref) (hs : f.ctx.storage = some addr) :
      IoStep t inp sh f { sh with route := sh.route.addRef addr (-1) } { f with pc := .done }
  | noStorage (hpc : f.pc = .deref) (hs : f.ctx.storage = none) :
      IoStep t inp sh f sh { f with pc := .done }

variable {env}

variable {t : ι} {inp : Inputs} {sh sh' : Shared σ ι} {f f' : IoFrame}

private theorem entryStep_cases (hpc : f.pc = .entry) (h : entryStep inp sh f = .ok f') :
    IoStep env t inp sh f sh f' := by
  unfold entryStep at h
  split at h
  · rename_i hop hc
    cases h
    exact .noCache hpc hop hc
  · rename_i hop hc
    cases h
    exact .hasCache hpc hop
  · rename_i c hop hc
    split at h
    · cases h
    · rename_i ret hget
      split at h
      · rename_i hret
        cases h
        exact .hit hpc hop hc hget hret
      · -- `ENOENT` is no answer: the call goes on to its route
        cases h
        exact .miss hpc hop
  · rename_i req _ hop _
    cases h
    exact .miss hpc hop

private theorem matchStep_cases (hpc : f.pc = .routeMatch) (h : matchStep sh f = (sh', f')) :
    IoStep env t inp sh f sh' f' := by
  unfold matchStep at h
  split at h
  · rename_i e hm
    obtain ⟨rfl, -⟩ := routeMatch_error hm
    cases h
    exact .unmatched hpc hm
  · rename_i route item hm
    obtain ⟨-, rfl⟩ := routeMatch_ok hm
    cases h
    exact .matched hpc hm

private theorem lockStep_cases (hpc : f.pc = .lock) (h : lockStep t inp sh f = some (sh', f')) :
    IoStep env t inp sh f sh' f' := by
  unfold lockStep at h
  split at h
  · rename_i ha
    cases h
    exact .lockFailed hpc (by simpa using ha)
  · split at h
    · -- another thread has the key: the call waits
      cases h
    · rename_i hfree
      cases h
      exact .locked hpc hfree

private theorem storageStep_cases (hpc : f.pc = .storage)
    (h : storageStep env inp sh f = some (.ok (sh', f'))) : IoStep env t inp sh f sh' f' := by
  unfold storageStep at h
  split at h
  · cases h
  · rename_i storage ht
    split at h
    · cases h
    · -- the callback does not give this reply
      cases h
    · rename_i w e hcall
      cases h
      exact .storageFailed hpc ht hcall
    · rename_i w x hcall
      cases h
      exact .storageOk hpc ht hcall

private theorem cacheStoreStep_cases {item : Option (Value × Timestamp)}
    (hpc : f.pc = .cacheStore item) (h : cacheStoreStep inp sh f item = .ok (sh', f')) :
    IoStep env t inp sh f sh' f' := by
  unfold cacheStoreStep at h
  split at h
  · cases h
    exact .dropped hpc
  · rename_i value duration
    split at h
    · cases h
    · rename_i cache hfill
      cases h
      exact .stored hpc hfill

private theorem unlockStep_cases (hpc : f.pc = .unlock) (h : unlockStep sh f = (sh', f')) :
    IoStep env t inp sh f sh' f' := by
  unfold unlockStep at h
  split at h
  · rename_i hkey
    cases h
    exact .noKey hpc hkey
  · rename_i key hkey
    cases h
    exact .unlocked hpc hkey

private theorem derefStep_cases (hpc : f.pc = .deref) (h : derefStep sh f = .ok (sh', f')) :
    IoStep env t inp sh f sh' f' := by
  unfold derefStep at h
  split at h
  · rename_i hnone
    cases h
    exact .noStorage hpc hnone
  · rename_i addr hsome
    split at h
    · cases h
    · rename_i route hd
      obtain ⟨-, rfl⟩ := routeDeref_ok hd
      cases h
      exact .dereffed hpc hsome

/-- **Inversion of a step**: the later proofs split these cases, never the definition. -/
theorem ioStep_cases (h : ioStep env t inp sh f = some (.ok (sh', f'))) :
    IoStep env t inp sh f sh' f' := by
  unfold ioStep at h
  -- one case a program counter
  split at h
  case h_1 hpc =>
    obtain ⟨f₁, hf, hpair⟩ := exceptMap_ok (Option.some.inj h)
    cases hpair
    exact entryStep_cases hpc hf
  case h_2 hpc => exact matchStep_cases hpc (Except.ok.inj (Option.some.inj h))
  case h_3 hpc =>
    obtain ⟨r, hr, heq⟩ := Option.map_eq_some_iff.mp h
    cases heq
    exact lockStep_cases hpc hr
  case h_4 hpc => exact storageStep_cases hpc h
  case h_5 item hpc => exact cacheStoreStep_cases hpc (Option.some.inj h)
  case h_6 hpc => exact unlockStep_cases hpc (Except.ok.inj (Option.some.inj h))
  case h_7 hpc => exact derefStep_cases hpc (Option.some.inj h)
  case h_8 => cases h

/-- A frame stays the call of one function on one key. -/
theorem IoStep.same_call (h : IoStep env t inp sh f sh' f') :
    f'.op = f.op ∧ f'.key = f.key := by
  cases h <;> exact ⟨rfl, rfl⟩

/-- A cancelled frame goes on with its cleanup; of the shared state only the world may
have changed. -/
theorem cancelStep_cases {effect : Option Inputs}
    (h : cancelStep env effect sh f = some (.ok (sh', f'))) :
    f.pc = .storage ∧ f' = { f with pc := .unlock, cancelled := true } ∧
      ∃ w, sh' = { sh with world := w } := by
  unfold cancelStep at h
  split at h
  · rename_i hpc
    cases effect with
    | none =>
      cases h
      exact ⟨hpc, rfl, sh.world, rfl⟩
    | some inp =>
      obtain ⟨r, hr, hmap⟩ := Option.map_eq_some_iff.mp h
      obtain ⟨⟨sh₁, f₁⟩, rfl, hpair⟩ := exceptMap_ok hmap
      cases hpair
      refine ⟨hpc, rfl, ?_⟩
      unfold storageStep at hr
      split at hr
      · cases hr
      · split at hr <;> cases hr
        · exact ⟨_, rfl⟩
        · exact ⟨_, rfl⟩
  · cases h

end Propd
