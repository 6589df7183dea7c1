import Propd.Core.Cache
import Propd.Core.Route

/-!
# The io functions, run alone

`io.c` over a cache, a route table and the storages behind it, as one call runs
when no other thread interferes. `call` runs the callback of the storage the
route selects: it gives the state it leaves and its reply.

The same functions as programs that interleave step by step are in
`Propd.Node.Model`.
-/

namespace Propd

/-- `io_ctx_t`; the namespace of named mutexes is free when a call runs alone. -/
@[ext] structure IoCtx where
  cache : Option Cache
  route : RouteList

/-- A request to a node. -/
inductive IoRequest
  | get
  | set (value : Value)
  | del
  deriving DecidableEq

/-- The status an io function returns, with `*value` and `*duration` where it gets. -/
abbrev IoResult := Except Errno (Option (Value × Timestamp))

/-- The allocations of one io call: the copy `cache_get` returns, the named mutex,
and those of `cache_set`. -/
structure IoAlloc where
  dup : Bool
  lock : Bool
  set : SetAlloc

def IoAlloc.all : IoAlloc := ⟨true, true, .all⟩

variable {σ α : Type}

/-- `if (io->cache) cache_set(...)`; the status is not looked at. -/
def cacheFill (cache : Option Cache) (key : CString) (value : Value) (duration now : Timestamp)
    (a : SetAlloc) : Except Fault (Option Cache) :=
  match cache with
  | none => .ok none
  | some c =>
    match c.cacheSet key value duration now a with
    | .error e => .error e
    | .ok (c', _) => .ok (some c')

/-- `if (io->cache) cache_del(...)` -/
def cacheDrop (cache : Option Cache) (key : CString) : Option Cache :=
  cache.map fun c => (c.cacheDel key).1

/-- What `io_get`, `io_set` and `io_del` share: match the route, lock the key, run
`body` on the storage, and clean up. -/
def withStorage (io : IoCtx) (key : CString) (lock : Bool) (w : σ)
    (body : StorageCtx → Except Fault (Option Cache × σ × Except Errno α)) :
    Except Fault (IoCtx × σ × Except Errno α) :=
  match routeMatch io.route key with
  | .error e => .ok (io, w, .error e)
  | .ok (route, item) =>
    -- without the named mutex the cleanup still drops the reference
    match if lock then body item.storage else .ok (io.cache, w, .error ENOMEM) with
    | .error e => .error e
    | .ok (cache, w', ret) =>
      match routeDeref route item.addr with
      | .error e => .error e
      | .ok route' => .ok (⟨cache, route'⟩, w', ret)

/-- `ret = storage_...(...); if (!ret) { ... }`: what follows a successful storage call is
`fill`, on the cache. -/
def storageThen (cache : Option Cache) (outcome : Except Fault (σ × Except Errno α))
    (fill : α → Except Fault (Option Cache)) : Except Fault (Option Cache × σ × Except Errno α) :=
  match outcome with
  | .error e => .error e
  | .ok (w, .error e) => .ok (cache, w, .error e)
  | .ok (w, .ok x) =>
    match fill x with
    | .error e => .error e
    | .ok cache' => .ok (cache', w, .ok x)

/-- `io_get` past its cache lookup. -/
def ioGetMiss (io : IoCtx) (key : CString) (now : Timestamp) (a : IoAlloc)
    (call : ℕ → Except Fault (σ × GetResult)) (w : σ) : Except Fault (IoCtx × σ × GetResult) :=
  withStorage io key a.lock w fun storage =>
    storageThen io.cache (storageGet storage call (fun r => gotValue r.2) fun e => (w, .error e))
      fun (value, duration) => cacheFill io.cache key value duration now a.set

/-- `io_get` -/
def ioGet (io : IoCtx) (key : CString) (now : Timestamp) (a : IoAlloc)
    (call : ℕ → Except Fault (σ × GetResult)) (w : σ) : Except Fault (IoCtx × σ × GetResult) :=
  match io.cache with
  | none => ioGetMiss io key now a call w
  | some c =>
    match c.cacheGet key now a.dup with
    | .error e => .error e
    | .ok (.ok r) => .ok (io, w, .ok r)
    | .ok (.error e) =>
      if e ≠ ENOENT then .ok (io, w, .error e) else ioGetMiss io key now a call w

/-- `io_set` -/
def ioSet (io : IoCtx) (key : CString) (value : Value) (now : Timestamp) (a : IoAlloc)
    (call : ℕ → Except Fault (σ × SetResult)) (w : σ) : Except Fault (IoCtx × σ × SetResult) :=
  withStorage io key a.lock w fun storage =>
    storageThen io.cache (storageSet storage value call fun e => (w, .error e)) fun _ =>
      cacheFill io.cache key value 0 now a.set

/-- `io_del` -/
def ioDel (io : IoCtx) (key : CString) (a : IoAlloc)
    (call : ℕ → Except Fault (σ × SetResult)) (w : σ) : Except Fault (IoCtx × σ × SetResult) :=
  withStorage io key a.lock w fun storage =>
    storageThen io.cache (storageDel storage call fun e => (w, .error e)) fun _ =>
      .ok (cacheDrop io.cache key)

/-- `io_update`, on a storage that is not in the table. -/
def ioUpdate (io : IoCtx) (key : CString) (storage : StorageCtx) (now : Timestamp) (a : IoAlloc)
    (call : ℕ → Except Fault (σ × GetResult)) (w : σ) : Except Fault (IoCtx × σ × SetResult) :=
  match io.cache with
  -- there is nothing to update without a cache
  | none => .ok (io, w, .ok ())
  | some _ =>
    if !a.lock then .ok (io, w, .error ENOMEM)
    else
      match storageThen io.cache
          (storageGet storage call (fun r => gotValue r.2) fun e => (w, .error e))
          fun (value, duration) => cacheFill io.cache key value duration now a.set with
      | .error e => .error e
      | .ok (cache, w', ret) => .ok ({ io with cache := cache }, w', ret.map fun _ => ())

/-! ## What the functions do -/

/-- A reference taken and dropped leaves the table as it was. -/
theorem RouteList.addRef_addRef_neg (list : RouteList) (addr : ℕ) (d : ℤ) :
    (list.addRef addr d).addRef addr (-d) = list := by
  unfold RouteList.addRef
  rw [List.map_map]
  refine (List.map_congr_left fun it _ => ?_).trans (List.map_id list)
  by_cases h : it.addr = addr
  · subst h
    simp only [Function.comp_apply, if_true, Int.add_neg_cancel_right, id]
  · simp only [Function.comp_apply, if_neg h, id]

/-- The table is as before, and the rest is what `body` did on the storage of the
first item that serves the key; without such an item nothing happens. -/
theorem withStorage_ok {io io' : IoCtx} {key : CString} {lock : Bool} {w w' : σ}
    {body : StorageCtx → Except Fault (Option Cache × σ × Except Errno α)}
    {ret : Except Errno α} (h : withStorage io key lock w body = .ok (io', w', ret)) :
    (io' = io ∧ w' = w ∧ ret = .error ENOENT ∧ ∀ item ∈ io.route, item.serves key = false) ∨
    (∃ item, io.route.find? (fun it => it.serves key) = some item ∧ io'.route = io.route ∧
      ((lock = false ∧ io' = io ∧ w' = w ∧ ret = .error ENOMEM) ∨
        (lock = true ∧ body item.storage = .ok (io'.cache, w', ret)))) := by
  unfold withStorage at h
  split at h
  · rename_i e he
    -- no item serves the key
    obtain ⟨rfl, hnone⟩ := routeMatch_error he
    cases h
    exact .inl ⟨rfl, rfl, rfl, hnone⟩
  · rename_i route item hm
    -- the reference is taken, and dropped after the body
    obtain ⟨hfind, rfl⟩ := routeMatch_ok hm
    refine .inr ⟨item, hfind, ?_⟩
    split at h
    · cases h
    · rename_i cache w₁ ret₁ hbody
      split at h
      · cases h
      · rename_i route' hd
        obtain ⟨-, rfl⟩ := routeDeref_ok hd
        cases h
        refine ⟨RouteList.addRef_addRef_neg _ _ _, ?_⟩
        cases lock with
        | true => exact .inr ⟨rfl, hbody⟩
        | false =>
          cases hbody
          exact .inl ⟨rfl, by rw [RouteList.addRef_addRef_neg], rfl, rfl⟩

/-- `cacheFill` leaves the cache alone, or stores the item, or leaves an item without a
value; the last two only under its own key. -/
theorem cacheFill_cases {c : Cache} {cache : Option Cache} {key : CString} {value : Value}
    {duration now : Timestamp} {a : SetAlloc}
    (h : cacheFill (some c) key value duration now a = .ok cache) :
    cache = some c ∨ cache = some (c.put key (some (c.stored value duration now))) ∨
      ∃ old, c.tree key = some old ∧ cache = some (c.put key (some { old with value := none })) := by
  unfold cacheFill at h
  simp only at h
  split at h
  · cases h
  · rename_i c' r hset
    cases h
    -- the status is dropped, so all that `cache_set` can do can happen
    rcases Cache.cacheSet_cases hset with ⟨rfl, -⟩ | ⟨rfl, -⟩ | ⟨old, hold, rfl, -⟩
    · exact .inl rfl
    · exact .inr (.inl rfl)
    · exact .inr (.inr ⟨old, hold, rfl⟩)

/-- A get is a hit of the cache, or fails with the cache, or goes past it. -/
theorem ioGet_cases {io io' : IoCtx} {key : CString} {now : Timestamp} {a : IoAlloc}
    {call : ℕ → Except Fault (σ × GetResult)} {w w' : σ} {r : GetResult}
    (h : ioGet io key now a call w = .ok (io', w', r)) :
    (∃ c res, io.cache = some c ∧ c.cacheGet key now a.dup = .ok res ∧ io' = io ∧ w' = w ∧
      r = res ∧ r ≠ .error ENOENT) ∨
    ioGetMiss io key now a call w = .ok (io', w', r) := by
  unfold ioGet at h
  split at h
  · -- no cache
    exact .inr h
  · rename_i c hc
    split at h
    · -- the cache may have a value it cannot read
      cases h
    · rename_i res hget
      cases h
      -- a hit
      exact .inl ⟨c, .ok res, hc, hget, rfl, rfl, rfl, by simp⟩
    · rename_i e hget
      -- of the errors of the cache only `ENOENT` goes on to the storage
      split at h
      · rename_i hne
        cases h
        exact .inl ⟨c, .error e, hc, hget, rfl, rfl, rfl, by simpa using hne⟩
      · exact .inr h

/-- What can follow a storage call: the callback did not run or failed, and nothing
else happens, or it succeeded and `fill` ran. -/
theorem storageThen_ok {cache cache' : Option Cache} {outcome : Except Fault (σ × Except Errno α)}
    {fill : α → Except Fault (Option Cache)} {w : σ} {r : Except Errno α}
    (h : storageThen cache outcome fill = .ok (cache', w, r)) :
    outcome = .ok (w, r) ∧
      ((cache' = cache ∧ ∃ e, r = .error e) ∨ ∃ x, r = .ok x ∧ fill x = .ok cache') := by
  unfold storageThen at h
  split at h
  · cases h
  · cases h
    -- the callback failed
    exact ⟨rfl, .inl ⟨rfl, _, rfl⟩⟩
  · rename_i w₁ x
    -- the callback succeeded, and `fill` runs
    split at h
    · cases h
    · rename_i cache₁ hfill
      cases h
      exact ⟨rfl, .inr ⟨x, rfl, hfill⟩⟩

/-- What a call of `io_get` past the cache, `io_set` or `io_del` can do: nothing, with
an error, or the storage of the first item that serves the key is called once, and
its success is followed by `fill` on the cache. -/
def CallsStorage (io io' : IoCtx) (key : CString) (w w' : σ) (r : Except Errno α)
    (call : ℕ → Except Fault (σ × Except Errno α)) (fill : α → Except Fault (Option Cache)) : Prop :=
  (io' = io ∧ w' = w ∧ ∃ e, r = .error e) ∨
    ∃ item, io.route.find? (fun it => it.serves key) = some item ∧ io'.route = io.route ∧
      call item.storage.priv = .ok (w', r) ∧
      ((io'.cache = io.cache ∧ ∃ e, r = .error e) ∨ ∃ x, r = .ok x ∧ fill x = .ok io'.cache)

private theorem callsStorage_of_ask {io io' : IoCtx} {key : CString} {lock : Bool} {w w' : σ}
    (call : ℕ → Except Fault (σ × Except Errno α))
    {ask : StorageCtx → Except Fault (σ × Except Errno α)}
    (hask : ∀ storage r, ask storage = .ok r →
      r = (w, .error EOPNOTSUPP) ∨ call storage.priv = .ok r)
    {fill : α → Except Fault (Option Cache)} {r : Except Errno α}
    (h : withStorage io key lock w (fun storage => storageThen io.cache (ask storage) fill) =
      .ok (io', w', r)) :
    CallsStorage io io' key w w' r call fill := by
  rcases withStorage_ok h with ⟨rfl, rfl, rfl, -⟩ | ⟨item, hfind, hroute, hbody⟩
  · -- no item serves the key
    exact .inl ⟨rfl, rfl, _, rfl⟩
  · rcases hbody with ⟨-, rfl, rfl, rfl⟩ | ⟨-, hbody⟩
    · -- the named mutex could not be created
      exact .inl ⟨rfl, rfl, _, rfl⟩
    · obtain ⟨hout, hfill⟩ := storageThen_ok hbody
      rcases hask _ _ hout with heq | hcall
      · -- the storage has no such callback
        cases heq
        rcases hfill with ⟨hcache, -⟩ | ⟨x, hx, -⟩
        · exact .inl ⟨IoCtx.ext hcache hroute, rfl, _, rfl⟩
        · cases hx
      · exact .inr ⟨item, hfind, hroute, hcall, hfill⟩

variable {io io' : IoCtx} {key : CString} {value : Value} {now : Timestamp} {a : IoAlloc} {w w' : σ}

theorem ioGetMiss_ok {call : ℕ → Except Fault (σ × GetResult)} {r : GetResult}
    (h : ioGetMiss io key now a call w = .ok (io', w', r)) :
    CallsStorage io io' key w w' r call fun (v, d) => cacheFill io.cache key v d now a.set :=
  callsStorage_of_ask call (fun _ _ hr => (storageGet_ok hr).imp And.right And.left) h

theorem ioSet_ok {call : ℕ → Except Fault (σ × SetResult)} {r : SetResult}
    (h : ioSet io key value now a call w = .ok (io', w', r)) :
    CallsStorage io io' key w w' r call fun _ => cacheFill io.cache key value 0 now a.set :=
  callsStorage_of_ask call (fun _ _ hr => (storageSet_ok hr).imp And.right And.right) h

theorem ioDel_ok {call : ℕ → Except Fault (σ × SetResult)} {r : SetResult}
    (h : ioDel io key a call w = .ok (io', w', r)) :
    CallsStorage io io' key w w' r call fun _ => .ok (cacheDrop io.cache key) :=
  callsStorage_of_ask call (fun _ _ => storageDel_ok) h

/-- With memory for all of it, an `io_update` whose child returns a value that can be formatted
stores this value. -/
theorem ioUpdate_all {c : Cache} (hc : io.cache = some c) (name : CString) {priv : ℕ}
    {call : ℕ → Except Fault (σ × GetResult)} {duration : Timestamp}
    (hcall : call priv = .ok (w', .ok (value, duration))) (hvalue : value.WellFormed) :
    ioUpdate io key (unixStorage name priv) now .all call w =
      .ok ({ io with cache := some (c.put key (some (c.stored value duration now))) },
        w', .ok ()) := by
  have hget : storageGet (unixStorage name priv) call (fun r => gotValue r.2)
      (fun e => (w, .error e)) = .ok (w', .ok (value, duration)) := by
    refine (storageGet_wellFormed rfl fun r hr v hv => ?_).trans hcall
    cases hcall.symm.trans hr
    cases hv
    exact hvalue
  have hset := Cache.cacheSet_all c key value duration now
  rw [ioUpdate, hc]
  simp only [IoAlloc.all, Bool.not_true, Bool.false_eq_true, if_false, hget, storageThen, cacheFill,
    hset]
  rfl

end Propd
