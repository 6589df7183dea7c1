import Propd.Lib.Linearizability
import Propd.Node.Model

/-!
# One key of a node is linearizable

The clients of a node that ask for one key see the map behind its storage, whatever the
cache does in between: `io_get` looks into the cache without a lock while a writer has
changed the storage and not yet the cache, items expire and sweeps come at any moment.

The points. A get takes effect at its cache lookup where that is a hit, else at the
storage call. A set or del that succeeds takes effect when it writes the cache, and not
before: until then readers still see the old value, in the cache. Without a cache, and
where the storage refuses, the point is the storage call.

So the value of the map is the one behind the storage, except while the holder of the
key lock is between its storage call and its cache write: `HolderSim` says what is then
behind the storage. An item of the cache never disagrees with the map.
-/

namespace Propd

open Lib

/-! ## The sequential map -/

/-- The status and value a client sees. -/
abbrev MapResult := Except Errno (Option Value)

def IoResult.view (r : IoResult) : MapResult :=
  r.map fun x => x.map Prod.fst

/-- A map, at one key: a get returns the value or `ENOENT`, a set or del succeeds and
takes effect, or fails and changes nothing. -/
def mapObject : SeqObject (Option Value) IoRequest MapResult where
  apply v req r v' :=
    match req with
    | .get => v' = v ∧ r = (match v with | some x => .ok (some x) | none => .error ENOENT)
    | .set x => (r = .ok none ∧ v' = some x) ∨ ((∃ e, r = .error e) ∧ v' = v)
    | .del => (r = .ok none ∧ v' = none) ∨ ((∃ e, r = .error e) ∧ v' = v)

variable {σ ι : Type}

/-- The callbacks of the storage `p` act on `key` as a map whose value is `val`. -/
structure ActsAsMap (env : StorageEnv σ) (p : ℕ) (key : CString) (val : σ → Option Value) :
    Prop where
  get : ∀ w w' r, env.get p key w r = some w' → val w' = val w ∧
    ((∃ v d, r = .ok (v, d) ∧ val w = some v) ∨ (r = .error ENOENT ∧ val w = none))
  set : ∀ v w w' r, env.set p key v w r = some w' →
    (r = .ok () ∧ val w' = some v) ∨ ((∃ e, r = .error e) ∧ val w' = val w)
  del : ∀ w w' r, env.del p key w r = some w' →
    (r = .ok () ∧ val w' = none) ∨ ((∃ e, r = .error e) ∧ val w' = val w)

/-- What a run of the clients of `key` consists of: requests for the key, their steps
with the allocations they need, and sweeps. -/
def OnKey (key : CString) (_ : Node σ ι) : Action ι → Prop
  | .call _ _ key' => key' = key
  | .step _ inp => inp.alloc = .all
  | .ret _ _ => True
  | .sweep _ => True
  | _ => False

/-- What the clients see of a step. -/
def Action.hist : Action ι → Option (HistEvent ι IoRequest MapResult)
  | .call t req _ => some (.call t req)
  | .ret t r => some (.ret t r.view)
  | _ => none

theorem mapObject_error {v v' : Option Value} {req : IoRequest} {e : Errno}
    (h : mapObject.apply v req (.error e) v') : v' = v := by
  cases req with
  | get => exact h.1
  | set x =>
    rcases h with ⟨hr, -⟩ | ⟨-, hv⟩
    · cases hr
    · exact hv
  | del =>
    rcases h with ⟨hr, -⟩ | ⟨-, hv⟩
    · cases hr
    · exact hv

/-- A get that succeeds has found the value. -/
theorem mapObject_get {v v' : Option Value} {x : Value}
    (h : mapObject.apply v .get (.ok (some x)) v') : v' = v ∧ v = some x := by
  refine ⟨h.1, ?_⟩
  have hr := h.2
  cases v with
  | none => cases hr
  | some y =>
    cases hr
    rfl

/-- A set or del that succeeds leaves what it was to leave. -/
theorem mapObject_set {v v' : Option Value} {x : Value}
    (h : mapObject.apply v (.set x) (.ok none) v') : v' = some x := by
  rcases h with ⟨-, hv⟩ | ⟨⟨e, he⟩, -⟩
  · exact hv
  · cases he

theorem mapObject_del {v v' : Option Value} (h : mapObject.apply v .del (.ok none) v') :
    v' = none := by
  rcases h with ⟨-, hv⟩ | ⟨⟨e, he⟩, -⟩
  · exact hv
  · cases he

/-- A storage call on such a storage does what the map does. -/
theorem callStorage_map {env : StorageEnv σ} {storage : StorageCtx} {val : σ → Option Value}
    {inp : Inputs} {f : IoFrame} {req : IoRequest} {w w' : σ} {r : IoResult}
    (hmap : ActsAsMap env storage.priv f.key val) (hget : storage.hasGet = true)
    (hop : f.op = .request req) (h : callStorage env inp f storage w = .ok (some (w', r))) :
    mapObject.apply (val w) req r.view (val w') ∧
      ∀ x, r = .ok x → (req = .get ∧ ∃ v d, x = some (v, d)) ∨ (req ≠ .get ∧ x = none) := by
  unfold callStorage at h
  rw [hop] at h
  cases req with
  | get =>
    rcases storageGet_ok h with ⟨hnone, -⟩ | ⟨hcall, -⟩
    · rw [hget] at hnone
      cases hnone
    · obtain ⟨w₁, hw, hpair⟩ := Option.map_eq_some_iff.mp (Except.ok.inj hcall)
      cases hpair
      obtain ⟨hsame, ⟨v, d, hr, hv⟩ | ⟨hr, hv⟩⟩ := hmap.get _ _ _ hw
      · rw [hr]
        refine ⟨⟨hsame, by rw [hv]; rfl⟩, fun x hx => .inl ⟨rfl, v, d, ?_⟩⟩
        exact (Except.ok.inj hx).symm
      · rw [hr]
        exact ⟨⟨hsame, by rw [hv]; rfl⟩, fun x hx => by cases hx⟩
  | set v =>
    rcases storageSet_ok h with ⟨-, hrefused⟩ | ⟨-, hcall⟩
    · cases hrefused
      exact ⟨.inr ⟨⟨_, rfl⟩, rfl⟩, fun x hx => by cases hx⟩
    · obtain ⟨w₁, hw, hpair⟩ := Option.map_eq_some_iff.mp (Except.ok.inj hcall)
      cases hpair
      rcases hmap.set _ _ _ _ hw with ⟨hr, hv⟩ | ⟨⟨e, hr⟩, hv⟩
      · rw [hr]
        exact ⟨.inl ⟨rfl, hv⟩, fun x hx => .inr ⟨by simp, (Except.ok.inj hx).symm⟩⟩
      · rw [hr]
        exact ⟨.inr ⟨⟨e, rfl⟩, hv⟩, fun x hx => by cases hx⟩
  | del =>
    rcases storageDel_ok h with hrefused | hcall
    · cases hrefused
      exact ⟨.inr ⟨⟨_, rfl⟩, rfl⟩, fun x hx => by cases hx⟩
    · obtain ⟨w₁, hw, hpair⟩ := Option.map_eq_some_iff.mp (Except.ok.inj hcall)
      cases hpair
      rcases hmap.del _ _ _ hw with ⟨hr, hv⟩ | ⟨⟨e, hr⟩, hv⟩
      · rw [hr]
        exact ⟨.inl ⟨rfl, hv⟩, fun x hx => .inr ⟨by simp, (Except.ok.inj hx).symm⟩⟩
      · rw [hr]
        exact ⟨.inr ⟨⟨e, rfl⟩, hv⟩, fun x hx => by cases hx⟩

/-! ## The simulation -/

section Simulation

variable (key : CString) (storage : StorageCtx) (addr : ℕ) (val : σ → Option Value)

/-- What a frame between its storage call and its cache write has done: a get is at its
point, a set or del that succeeded is not. -/
def Pending (req : IoRequest) (item : Option (Value × Timestamp)) (ret : IoResult)
    (p : Phase IoRequest MapResult) : Prop :=
  match req with
  | .get => ∃ v d, item = some (v, d) ∧ ret = .ok (some (v, d)) ∧ p = .done (.ok (some v))
  | .set v => item = some (v, 0) ∧ ret = .ok none ∧ p = .called req
  | .del => item = none ∧ ret = .ok none ∧ p = .called req

/-- A frame against the phase of its thread. -/
def FrameSim (req : IoRequest) (f : IoFrame) (p : Phase IoRequest MapResult) : Prop :=
  match f.pc with
  | .entry | .routeMatch => f.ctx = ⟨none, none⟩ ∧ p = .called req
  | .lock => f.ctx = ⟨some addr, none⟩ ∧ p = .called req
  | .storage => f.ctx = ⟨some addr, some key⟩ ∧ p = .called req
  | .cacheStore item => f.ctx = ⟨some addr, some key⟩ ∧ Pending req item f.ret p
  | .unlock | .deref => f.ctx = ⟨some addr, some key⟩ ∧ p = .done f.ret.view
  | .done => p = .done f.ret.view

/-- A task against the phase of its thread. -/
def TaskSim : Task → Phase IoRequest MapResult → Prop
  | .idle, p => p = .idle
  | .io f, p => ∃ req, f.op = .request req ∧ f.key = key ∧ f.cancelled = false ∧
      FrameSim key addr req f p
  | _, _ => False

/-- What is behind the storage while a task holds the key: `w`, where the map has `v`. -/
def HolderSim (v w : Option Value) : Task → Prop
  | .io f =>
    match f.pc, f.op with
    | .cacheStore item, .request .get => item.map Prod.fst = v ∧ w = v
    | .cacheStore item, _ => w = item.map Prod.fst
    | _, _ => w = v
  | _ => True

/-- The route of the key: the item the table selects, and the storage at its address. -/
structure Routed (route : RouteList) : Prop where
  selected : ∃ item, route.find? (fun it => it.serves key) = some item ∧ item.addr = addr
  target : ∃ item, route.itemAt addr = some item ∧ item.storage = storage

/-- The items of the key in the cache agree with the map. -/
def CacheSim (v : Option Value) (cache : Option Cache) : Prop :=
  ∀ c item, cache = some c → c.tree key = some item → ∃ x, item.value = some x ∧ v = some x

/-- The relation between a node and the canonical automaton of the map. -/
structure MapSim (n : Node σ ι) (a : SpecState (Option Value) ι IoRequest MapResult) : Prop where
  routed : Routed key storage addr n.shared.route
  tasks : ∀ t, TaskSim key addr (n.tasks t) (a.phase t)
  locks : ∀ t, (n.tasks t).locked = some key ↔ n.shared.locks key = some t
  free : n.shared.locks key = none → val n.shared.world = a.val
  holder : ∀ t, n.shared.locks key = some t → HolderSim a.val (val n.shared.world) (n.tasks t)
  cache : CacheSim key a.val n.shared.cache

variable {key storage addr val}

theorem Routed.addRef {route : RouteList} (h : Routed key storage addr route) (addr' : ℕ) (d : ℤ) :
    Routed key storage addr (route.addRef addr' d) where
  selected := by
    obtain ⟨item, hfind, haddr⟩ := h.selected
    obtain ⟨n, hn⟩ := RouteList.find?_addRef (fun _ _ => rfl) hfind addr' d
    exact ⟨_, hn, haddr⟩
  target := by
    obtain ⟨item, hfind, hstorage⟩ := h.target
    obtain ⟨n, hn⟩ := RouteList.find?_addRef (fun _ _ => rfl) hfind addr' d
    exact ⟨_, hn, hstorage⟩

namespace MapSim

variable [DecidableEq ι] {n : Node σ ι} {a : SpecState (Option Value) ι IoRequest MapResult}
  {t : ι} {task : Task} {p : Phase IoRequest MapResult}

private theorem tasks_update (h : MapSim key storage addr val n a) (htask : TaskSim key addr task p)
    (t' : ι) : TaskSim key addr (Function.update n.tasks t task t') (Function.update a.phase t p t') := by
  by_cases ht : t' = t
  · rw [ht, Function.update_self, Function.update_self]
    exact htask
  · rw [Function.update_of_ne ht, Function.update_of_ne ht]
    exact h.tasks t'

/-- A step of a thread that does not hold the key, before and after. -/
theorem outside (h : MapSim key storage addr val n a) (task : Task)
    (hbefore : (n.tasks t).locked ≠ some key) (hafter : task.locked ≠ some key)
    (htask : TaskSim key addr task p) {route : RouteList}
    (hroute : Routed key storage addr route) :
    MapSim key storage addr val { n.withTask t task with shared := { n.shared with route := route } }
      { a with phase := Function.update a.phase t p } where
  routed := hroute
  tasks := h.tasks_update htask
  locks t' := by
    show (Function.update n.tasks t task t').locked = some key ↔ n.shared.locks key = some t'
    -- the thread has no lock, and the others have those they had
    by_cases ht : t' = t
    · rw [ht, Function.update_self]
      exact iff_of_false hafter (mt (h.locks t).mpr hbefore)
    · rw [Function.update_of_ne ht]
      exact h.locks t'
  free := h.free
  holder t' ht' := by
    have ht : t' ≠ t := by
      rintro rfl
      exact hbefore ((h.locks t').mpr ht')
    show HolderSim _ _ (Function.update n.tasks t task t')
    rw [Function.update_of_ne ht]
    exact h.holder t' ht'
  cache := h.cache

/-- A step of the holder of the key, who may change the world, the cache and the map. -/
theorem inside (h : MapSim key storage addr val n a) (task : Task)
    (hbefore : (n.tasks t).locked = some key) (hafter : task.locked = some key)
    (htask : TaskSim key addr task p) {w : σ}
    {cache : Option Cache} {v : Option Value} (hholder : HolderSim v (val w) task)
    (hcache : CacheSim key v cache) :
    MapSim key storage addr val
      { n.withTask t task with shared := { n.shared with cache := cache, world := w } }
      { val := v, phase := Function.update a.phase t p } where
  routed := h.routed
  tasks := h.tasks_update htask
  locks t' := by
    show (Function.update n.tasks t task t').locked = some key ↔ n.shared.locks key = some t'
    by_cases ht : t' = t
    · rw [ht, Function.update_self]
      exact iff_of_true hafter ((h.locks t).mp hbefore)
    · rw [Function.update_of_ne ht]
      exact h.locks t'
  free hfree := by
    have hlock : n.shared.locks key = none := hfree
    rw [(h.locks t).mp hbefore] at hlock
    cases hlock
  holder t' ht' := by
    have hlock : n.shared.locks key = some t' := ht'
    rw [(h.locks t).mp hbefore] at hlock
    -- the holder is this thread and no other
    cases hlock
    show HolderSim _ _ (Function.update n.tasks t task t)
    rw [Function.update_self]
    exact hholder
  cache := hcache

/-- The key is locked. -/
theorem acquire (h : MapSim key storage addr val n a) (task : Task)
    (hfree : n.shared.locks key = none) (hafter : task.locked = some key)
    (htask : TaskSim key addr task p)
    (hholder : ∀ v, HolderSim v v task) :
    MapSim key storage addr val
      { n.withTask t task with
        shared := { n.shared with locks := Function.update n.shared.locks key (some t) } }
      { a with phase := Function.update a.phase t p } where
  routed := h.routed
  tasks := h.tasks_update htask
  locks t' := by
    show (Function.update n.tasks t task t').locked = some key ↔
      Function.update n.shared.locks key (some t) key = some t'
    rw [Function.update_self]
    by_cases ht : t' = t
    · rw [ht, Function.update_self]
      exact iff_of_true hafter rfl
    · rw [Function.update_of_ne ht, h.locks t', hfree]
      exact iff_of_false nofun fun he => ht (Option.some.inj he).symm
  free hnone := by
    have hlock : Function.update n.shared.locks key (some t) key = none := hnone
    rw [Function.update_self] at hlock
    cases hlock
  holder t' ht' := by
    have hlock : Function.update n.shared.locks key (some t) key = some t' := ht'
    rw [Function.update_self] at hlock
    cases hlock
    show HolderSim _ (val n.shared.world) (Function.update n.tasks t task t)
    -- nobody had the key, so the storage agrees with the map
    rw [Function.update_self, h.free hfree]
    exact hholder a.val
  cache := h.cache

/-- The key is unlocked, when the storage and the map agree. -/
theorem release (h : MapSim key storage addr val n a) (task : Task)
    (hbefore : (n.tasks t).locked = some key) (hagree : val n.shared.world = a.val)
    (hafter : task.locked ≠ some key) (htask : TaskSim key addr task p) :
    MapSim key storage addr val
      { n.withTask t task with
        shared := { n.shared with locks := Function.update n.shared.locks key none } }
      { a with phase := Function.update a.phase t p } where
  routed := h.routed
  tasks := h.tasks_update htask
  locks t' := by
    show (Function.update n.tasks t task t').locked = some key ↔
      Function.update n.shared.locks key none key = some t'
    rw [Function.update_self]
    -- nobody has the key any more
    refine iff_of_false ?_ nofun
    by_cases ht : t' = t
    · rw [ht, Function.update_self]
      exact hafter
    · rw [Function.update_of_ne ht, h.locks t', (h.locks t).mp hbefore]
      exact fun he => ht (Option.some.inj he).symm
  free _ := hagree
  holder t' ht' := by
    have hlock : Function.update n.shared.locks key none key = some t' := ht'
    rw [Function.update_self] at hlock
    cases hlock
  cache := h.cache

end MapSim

/-! ## Every step is matched -/

private theorem same_phase [DecidableEq ι] (a : SpecState (Option Value) ι IoRequest MapResult)
    (t : ι) : { a with phase := Function.update a.phase t (a.phase t) } = a := by
  rw [Function.update_eq_self]

theorem Task.not_locked_of_ctx {f : IoFrame} (h : f.ctx.key = none) (key : CString) :
    (io f).locked ≠ some key := by
  show f.locked ≠ some key
  unfold IoFrame.locked
  split
  · nofun
  · rw [h]
    nofun

theorem Task.not_locked_of_pc {f : IoFrame} (h : f.pc = .deref ∨ f.pc = .done) (key : CString) :
    (io f).locked ≠ some key := by
  show f.locked ≠ some key
  rw [IoFrame.locked, if_pos h]
  nofun

/-- A write of the cache keeps it in agreement with a map that has the new value. -/
theorem CacheSim.fill {x : Value} {cache cache' : Option Cache} {duration now : Timestamp}
    (hfill : cacheFill cache key x duration now .all = .ok cache') :
    CacheSim key (some x) cache' := by
  intro c item hc hitem
  cases cache with
  | none =>
    cases hfill
    cases hc
  | some c₀ =>
    simp only [cacheFill, Cache.cacheSet_all] at hfill
    cases hfill
    cases hc
    rw [Cache.put_tree_self] at hitem
    cases hitem
    exact ⟨x, rfl, rfl⟩

theorem CacheSim.drop (cache : Option Cache) : CacheSim key none (cacheDrop cache key) := by
  intro c item hc hitem
  obtain ⟨c₀, -, rfl⟩ := Option.map_eq_some_iff.mp hc
  rw [Cache.cacheDel_tree, Cache.put_tree_self] at hitem
  cases hitem

variable [DecidableEq ι] {env : StorageEnv σ} {n : Node σ ι}
  {a : SpecState (Option Value) ι IoRequest MapResult} {t : ι} {inp : Inputs} {f f' : IoFrame}

omit [DecidableEq ι] in
/-- A thread that is past the lock of the key and not yet past its release holds the key. -/
private theorem MapSim.holds (h : MapSim key storage addr val n a) (htask : n.tasks t = .io f)
    (hpc : f.pc ≠ .deref ∧ f.pc ≠ .done) (hctx : f.ctx = ⟨some addr, some key⟩) :
    (n.tasks t).locked = some key ∧ HolderSim a.val (val n.shared.world) (.io f) := by
  have hlocked : (n.tasks t).locked = some key := by
    rw [htask]
    show f.locked = some key
    rw [IoFrame.locked_of_pc hpc, hctx]
  have hholder := h.holder t ((h.locks t).mp hlocked)
  rw [htask] at hholder
  exact ⟨hlocked, hholder⟩

/-- The storage call. Its failure is a point; its success is one for a get, and without a
cache. -/
private theorem MapSim.storage_call (hmap : ActsAsMap env storage.priv key val)
    (hget : storage.hasGet = true) (h : MapSim key storage addr val n a)
    (htask : n.tasks t = .io f) (hpc : f.pc = .storage) {st : StorageCtx} {w : σ} {r : IoResult}
    (ht : f.target n.shared.route = .ok st)
    (hcall : callStorage env inp f st n.shared.world = .ok (some (w, r))) (pc : IoPc)
    (hok : ∀ x, r = .ok x →
      pc = if n.shared.cache.isSome then .cacheStore (f.cacheWrite x) else .unlock)
    (herr : ∀ e, r = .error e → pc = .unlock) :
    ∃ a', MapSim key storage addr val
        { n.withTask t (.io { f with pc := pc, ret := r }) with
          shared := { n.shared with world := w } } a' ∧
      mapObject.Matches none a a' := by
  have hsim := h.tasks t
  rw [htask] at hsim
  obtain ⟨req, hop, hkey, hcanc, hframe⟩ := hsim
  simp only [FrameSim, hpc] at hframe
  obtain ⟨hctx, hphase⟩ := hframe
  obtain ⟨hlocked, hholder⟩ := h.holds htask (by rw [hpc]; exact ⟨nofun, nofun⟩) hctx
  have hagree : val n.shared.world = a.val := by
    simpa only [HolderSim, hpc] using hholder
  -- the pointer leads to the storage of the route
  have hst : st = storage := by
    obtain ⟨item, hitem, rfl⟩ := h.routed.target
    simp only [IoFrame.target, hop, hctx, hitem] at ht
    exact (Except.ok.inj ht).symm
  subst hst
  obtain ⟨happly, hshape⟩ := callStorage_map (hkey ▸ hmap) hget hop hcall
  rw [hagree] at happly
  have hpoint : mapObject.Step a (.point t req r.view)
      { val := val w, phase := Function.update a.phase t (.done r.view) } :=
    .point hphase happly
  -- without a cache write the call is over, and this is its point
  have hunlock : ∀ hcache : CacheSim key (val w) n.shared.cache, pc = .unlock →
      ∃ a', MapSim key st addr val
          { n.withTask t (.io { f with pc := pc, ret := r }) with
            shared := { n.shared with world := w } } a' ∧
        mapObject.Matches none a a' := by
    rintro hcache rfl
    have htask' : TaskSim key addr (.io { f with pc := .unlock, ret := r }) (.done r.view) :=
      ⟨req, hop, hkey, hcanc, hctx, rfl⟩
    refine ⟨_, h.inside _ hlocked ?_ htask' ?_ hcache, .inr ⟨t, req, _, hpoint⟩⟩
    · exact congrArg CleanupCtx.key hctx
    · rfl
  cases r with
  -- a storage that refuses changes nothing
  | error e =>
    refine hunlock ?_ (herr e rfl)
    rw [mapObject_error happly]
    exact h.cache
  | ok x =>
    have hpc' := hok x rfl
    cases hcache : n.shared.cache with
    | none =>
      rw [hcache] at hpc'
      refine hunlock ?_ hpc'
      intro c item hc
      rw [hcache] at hc
      cases hc
    | some c =>
      rw [hcache] at hpc'
      have hpc' : pc = .cacheStore (f.cacheWrite x) := hpc'
      subst hpc'
      have hafter : (Task.io { f with pc := .cacheStore (f.cacheWrite x), ret := .ok x }).locked =
          some key := congrArg CleanupCtx.key hctx
      rcases hshape x rfl with ⟨rfl, v, d, rfl⟩ | ⟨hreq, rfl⟩
      · -- a get is at its point
        have hwrite : f.cacheWrite (some (v, d)) = some (v, d) := by
          simp only [IoFrame.cacheWrite, hop]
        obtain ⟨hsame, hval⟩ : val w = a.val ∧ a.val = some v := mapObject_get happly
        have htask' : TaskSim key addr (.io { f with
            pc := .cacheStore (f.cacheWrite (some (v, d))), ret := .ok (some (v, d)) })
            (.done (.ok (some v))) :=
          ⟨.get, hop, hkey, hcanc, hctx, v, d, hwrite, rfl, rfl⟩
        refine ⟨_, h.inside _ hlocked hafter htask' ?_ ?_, .inr ⟨t, .get, _, hpoint⟩⟩
        · simp only [HolderSim, hop, hwrite]
          exact ⟨hval.symm.trans hsame.symm, trivial⟩
        · rw [hsame]
          exact h.cache
      · -- a set or del waits for the cache
        refine ⟨a, ?_, .inl rfl⟩
        rw [← same_phase a t]
        refine h.inside _ hlocked hafter ⟨req, hop, hkey, hcanc, ?_⟩ ?_ h.cache
        · cases req with
          | get => exact absurd rfl hreq
          | set v =>
            refine ⟨hctx, ?_, rfl, hphase⟩
            simp only [IoFrame.cacheWrite, hop]
          | del =>
            refine ⟨hctx, ?_, rfl, hphase⟩
            simp only [IoFrame.cacheWrite, hop]
        · cases req with
          | get => exact absurd rfl hreq
          | set v =>
            simp only [HolderSim, IoFrame.cacheWrite, hop]
            exact mapObject_set happly
          | del =>
            simp only [HolderSim, IoFrame.cacheWrite, hop]
            exact mapObject_del happly

/-- A hit of the cache is the point of its get: the cache never disagrees with the map. -/
private theorem MapSim.cache_hit (h : MapSim key storage addr val n a)
    (htask : n.tasks t = .io f) {c : Cache} {ret : GetResult} (hpc : f.pc = .entry)
    (hop : f.op = .request .get) (hc : n.shared.cache = some c)
    (hcache : c.cacheGet f.key inp.now inp.alloc.dup = .ok ret) (hret : ret ≠ .error ENOENT)
    (halloc : inp.alloc = .all) :
    ∃ a', MapSim key storage addr val
        (n.withTask t (.io { f with pc := .done, ret := ret.map some })) a' ∧
      mapObject.Matches none a a' := by
  have hsim := h.tasks t
  rw [htask] at hsim
  obtain ⟨req, hop', hkey, hcanc, hframe⟩ := hsim
  cases hop.symm.trans hop'
  simp only [FrameSim, hpc] at hframe
  obtain ⟨hctx, hphase⟩ := hframe
  have hbefore : (n.tasks t).locked ≠ some key := by
    rw [htask]
    exact Task.not_locked_of_ctx (by rw [hctx]) key
  rw [hkey] at hcache
  rcases Cache.cacheGet_cases hcache with ⟨rfl, -⟩ | ⟨rfl, hdup⟩ | ⟨item, v, hitem, -, hv, rfl⟩
  · exact absurd rfl hret
  · rw [halloc] at hdup
    cases hdup
  · -- the item has the value of the map
    obtain ⟨x, hx, hval⟩ := h.cache c item hc hitem
    cases hv.symm.trans hx
    have happly : mapObject.apply a.val .get (.ok (some v)) a.val := ⟨rfl, by rw [hval]⟩
    let g : IoFrame := { f with pc := .done, ret := .ok (some (v, c.remain item inp.now)) }
    have hafter : (Task.io g).locked ≠ some key := Task.not_locked_of_pc (.inr rfl) key
    have htask' : TaskSim key addr (.io g) (.done (.ok (some v))) :=
      ⟨.get, hop, hkey, hcanc, rfl⟩
    exact ⟨_, h.outside (.io g) hbefore hafter htask' h.routed,
      .inr ⟨t, .get, _, .point hphase happly⟩⟩

/-- A write of the cache is the point of a set, and nothing for a get, which is past its own. -/
private theorem MapSim.cache_store (h : MapSim key storage addr val n a)
    (htask : n.tasks t = .io f) {x : Value} {d : Timestamp} {cache : Option Cache}
    (hpc : f.pc = .cacheStore (some (x, d)))
    (hfill : cacheFill n.shared.cache f.key x d inp.now inp.alloc.set = .ok cache)
    (halloc : inp.alloc = .all) :
    ∃ a', MapSim key storage addr val
        { n.withTask t (.io { f with pc := .unlock }) with
          shared := { n.shared with cache := cache } } a' ∧
      mapObject.Matches none a a' := by
  have hsim := h.tasks t
  rw [htask] at hsim
  obtain ⟨req, hop, hkey, hcanc, hframe⟩ := hsim
  simp only [FrameSim, hpc] at hframe
  obtain ⟨hctx, hpend⟩ := hframe
  rw [halloc, hkey] at hfill
  obtain ⟨hbefore, hholder⟩ := h.holds htask (by rw [hpc]; exact ⟨nofun, nofun⟩) hctx
  have hafter : (Task.io { f with pc := .unlock }).locked = some key :=
    congrArg CleanupCtx.key hctx
  cases req with
  | get =>
    obtain ⟨v, d', hitem, hret, hphase⟩ := hpend
    cases hitem
    simp only [HolderSim, hpc, hop] at hholder
    refine ⟨a, ?_, .inl rfl⟩
    rw [← same_phase a t]
    refine h.inside _ hbefore hafter ⟨.get, hop, hkey, hcanc, hctx, ?_⟩ hholder.2 ?_
    · rw [hphase, hret]
      rfl
    · -- what the get found is still there, since it holds the key
      rw [← hholder.1]
      exact CacheSim.fill hfill
  | set v =>
    obtain ⟨hitem, hret, hphase⟩ := hpend
    obtain ⟨rfl, rfl⟩ := Prod.mk.inj (Option.some.inj hitem)
    simp only [HolderSim, hpc, hop] at hholder
    have happly : mapObject.apply a.val (.set x) (.ok none) (some x) := .inl ⟨rfl, rfl⟩
    refine ⟨_, h.inside _ hbefore hafter ⟨.set x, hop, hkey, hcanc, hctx, ?_⟩ hholder
      (CacheSim.fill hfill), .inr ⟨t, .set x, _, .point hphase happly⟩⟩
    rw [hret]
    rfl
  | del => cases hpend.1

/-- A `cache_del` is the point of a del. -/
private theorem MapSim.cache_drop (h : MapSim key storage addr val n a)
    (htask : n.tasks t = .io f) (hpc : f.pc = .cacheStore none) :
    ∃ a', MapSim key storage addr val
        { n.withTask t (.io { f with pc := .unlock }) with
          shared := { n.shared with cache := cacheDrop n.shared.cache f.key } } a' ∧
      mapObject.Matches none a a' := by
  have hsim := h.tasks t
  rw [htask] at hsim
  obtain ⟨req, hop, hkey, hcanc, hframe⟩ := hsim
  simp only [FrameSim, hpc] at hframe
  obtain ⟨hctx, hpend⟩ := hframe
  obtain ⟨hbefore, hholder⟩ := h.holds htask (by rw [hpc]; exact ⟨nofun, nofun⟩) hctx
  have hafter : (Task.io { f with pc := .unlock }).locked = some key :=
    congrArg CleanupCtx.key hctx
  cases req with
  | get =>
    obtain ⟨v, d', hitem, -⟩ := hpend
    cases hitem
  | set v => cases hpend.1
  | del =>
    simp only [HolderSim, hpc, hop] at hholder
    have happly : mapObject.apply a.val .del (.ok none) none := .inl ⟨rfl, rfl⟩
    refine ⟨_, h.inside _ hbefore hafter ⟨.del, hop, hkey, hcanc, hctx, ?_⟩ hholder ?_,
      .inr ⟨t, .del, _, .point hpend.2.2 happly⟩⟩
    · rw [hpend.2.1]
      rfl
    · rw [hkey]
      exact CacheSim.drop _

/-- **Every step of a frame is matched.** -/
private theorem MapSim.frame_step (hmap : ActsAsMap env storage.priv key val)
    (hget : storage.hasGet = true) (h : MapSim key storage addr val n a)
    (htask : n.tasks t = .io f) {sh : Shared σ ι} (hs : IoStep env t inp n.shared f sh f')
    (halloc : inp.alloc = .all) :
    ∃ a', MapSim key storage addr val { n.withTask t (.io f') with shared := sh } a' ∧
      mapObject.Matches none a a' := by
  have hsim := h.tasks t
  rw [htask] at hsim
  obtain ⟨req, hop, hkey, hcanc, hframe⟩ := hsim
  -- a step without a point, of a thread that does not hold the key
  have hquiet : ∀ {g : IoFrame} {route : RouteList}, (Task.io f).locked ≠ some key →
      (Task.io g).locked ≠ some key → TaskSim key addr (.io g) (a.phase t) →
      Routed key storage addr route →
      ∃ a', MapSim key storage addr val
          { n.withTask t (.io g) with shared := { n.shared with route := route } } a' ∧
        mapObject.Matches none a a' := by
    intro g route hf hg htask' hroute
    refine ⟨a, ?_, .inl rfl⟩
    rw [← same_phase a t]
    refine h.outside (.io g) ?_ hg htask' hroute
    rw [htask]
    exact hf
  cases hs with
  | hit hpc hop' hc hcache hret => exact h.cache_hit htask hpc hop' hc hcache hret halloc
  | @miss req' hpc hop' =>
    cases hop.symm.trans hop'
    simp only [FrameSim, hpc] at hframe
    have hkeyless : f.ctx.key = none := by rw [hframe.1]
    exact hquiet (Task.not_locked_of_ctx hkeyless key) (Task.not_locked_of_ctx (by exact hkeyless) key)
      ⟨req, hop, hkey, hcanc, hframe⟩ h.routed
  | noCache hpc hop' => cases hop.symm.trans hop'
  | hasCache hpc hop' => cases hop.symm.trans hop'
  | unmatched hpc hm =>
    -- the key has its route
    obtain ⟨item, hfind, -⟩ := h.routed.selected
    rw [hkey, routeMatch, hfind] at hm
    cases hm
  | @matched item hpc hm =>
    simp only [FrameSim, hpc] at hframe
    obtain ⟨item', hfind, rfl⟩ := h.routed.selected
    -- the item that is matched is the one of the route
    have hitem : item' = item := by
      have hfind' := (routeMatch_ok hm).1
      rw [hkey, hfind] at hfind'
      exact Option.some.inj hfind'
    subst hitem
    have hkeyless : f.ctx.key = none := by rw [hframe.1]
    refine hquiet (Task.not_locked_of_ctx hkeyless key) (Task.not_locked_of_ctx (by exact hkeyless) key)
      ⟨req, hop, hkey, hcanc, ?_, hframe.2⟩ (h.routed.addRef _ _)
    rw [hframe.1]
  | lockFailed hpc ha =>
    rw [halloc] at ha
    cases ha
  | locked hpc hfree =>
    simp only [FrameSim, hpc] at hframe
    subst hkey
    refine ⟨a, ?_, .inl rfl⟩
    rw [← same_phase a t]
    -- the lock is taken
    refine h.acquire _ hfree rfl ⟨req, hop, rfl, hcanc, ?_, hframe.2⟩ fun v => rfl
    rw [hframe.1]
  | storageFailed hpc ht hcall =>
    exact h.storage_call hmap hget htask hpc ht hcall _ nofun fun _ _ => rfl
  | @storageOk st w x hpc ht hcall =>
    refine h.storage_call hmap hget htask hpc ht hcall _ (fun y hy => ?_) nofun
    cases hy
    rfl
  | stored hpc hfill => exact h.cache_store htask hpc hfill halloc
  | dropped hpc => exact h.cache_drop htask hpc
  | @unlocked key' hpc hctxkey =>
    simp only [FrameSim, hpc] at hframe
    obtain ⟨hctx, hphase⟩ := hframe
    rw [hctx] at hctxkey
    cases hctxkey
    obtain ⟨hbefore, hholder⟩ := h.holds htask (by rw [hpc]; exact ⟨nofun, nofun⟩) hctx
    simp only [HolderSim, hpc] at hholder
    refine ⟨a, ?_, .inl rfl⟩
    rw [← same_phase a t]
    exact h.release _ hbefore hholder (Task.not_locked_of_pc (.inl rfl) key)
      ⟨req, hop, hkey, hcanc, hctx, hphase⟩
  | noKey hpc hctxkey =>
    simp only [FrameSim, hpc] at hframe
    rw [hframe.1] at hctxkey
    cases hctxkey
  | dereffed hpc =>
    simp only [FrameSim, hpc] at hframe
    exact hquiet (Task.not_locked_of_pc (.inl hpc) key) (Task.not_locked_of_pc (.inr rfl) key)
      ⟨req, hop, hkey, hcanc, hframe.2⟩ (h.routed.addRef _ _)
  | noStorage hpc hctx =>
    simp only [FrameSim, hpc] at hframe
    rw [hframe.1] at hctx
    cases hctx

/-- **Every step of a node is matched** by the canonical automaton of the map. -/
theorem MapSim.step (hmap : ActsAsMap env storage.priv key val) (hget : storage.hasGet = true)
    {n' : Node σ ι} {l : Action ι} (h : MapSim key storage addr val n a)
    (hs : NodeStep env n l n') (hon : OnKey key n l) :
    ∃ a', MapSim key storage addr val n' a' ∧ mapObject.Matches l.hist a a' := by
  -- no child is registered
  have hnochild : ∀ {t c}, n.tasks t ≠ .child c := by
    intro t c hc
    have hsim := h.tasks t
    rw [hc] at hsim
    exact hsim
  cases hs with
  | @call t req key' hidle =>
    cases hon
    have hsim := h.tasks t
    rw [hidle] at hsim
    -- a call
    refine ⟨_, h.outside (.io _) (by rw [hidle]; nofun) (Task.not_locked_of_ctx rfl _)
      ⟨req, rfl, rfl, rfl, ?_⟩ h.routed, .call hsim⟩
    cases req <;> exact ⟨rfl, rfl⟩
  | @frame t inp f f' sh hf hs =>
    rcases Task.frame_eq_some hf with hio | ⟨c, hc, -⟩
    · rw [hio]
      exact h.frame_step hmap hget hio hs hon
    · exact absurd hc hnochild
  | @ret t r hend =>
    rcases taskEnd_eq_some hend with ⟨f, hio, hpc, he⟩ | ⟨c, hc, -⟩
    · have hsim := h.tasks t
      rw [hio] at hsim
      obtain ⟨req, hop, hkey, hcanc, hframe⟩ := hsim
      simp only [FrameSim, hpc] at hframe
      obtain ⟨-, rfl⟩ := Prod.mk.inj he
      -- a return gives what the point gave
      refine ⟨_, h.outside .idle ?_ nofun rfl h.routed, .ret hframe⟩
      rw [hio]
      exact Task.not_locked_of_pc (.inr hpc) key
    · exact absurd hc hnochild
  | sweep =>
    refine ⟨a, ⟨h.routed, h.tasks, h.locks, h.free, h.holder, ?_⟩, .inl rfl⟩
    intro c item hc hitem
    obtain ⟨c₀, hc₀, rfl⟩ := Option.map_eq_some_iff.mp hc
    -- what a sweep leaves was there before
    exact h.cache c₀ item hc₀ (Cache.cleanerSweep_tree.mp hitem).1
  | register | cancel | exit | unregister => exact hon.elim
  | nextKey hc | lastKey hc | noPrefixes hc | updated hc | updateFailed hc | registerFailed hc
  | registered hc | destructed hc => exact absurd hc hnochild

end Simulation

/-! ## The result -/

/-- A node that starts, with a route for the key to a storage that acts on it as a map,
and nothing in the cache that disagrees. -/
structure ServesMap (env : StorageEnv σ) (key : CString) (val : σ → Option Value)
    (n : Node σ ι) : Prop where
  starts : n.Starts
  routed : ∃ item, n.shared.route.find? (fun it => it.serves key) = some item ∧
    item.storage.hasGet = true ∧ ActsAsMap env item.storage.priv key val
  cache : CacheSim key (val n.shared.world) n.shared.cache

/-- **Linearizability**: what the clients of one key of a node see is a linearizable
history of the map behind the storage, with a cache or without, whenever items expire
and sweeps come. -/
theorem io_linearizable [DecidableEq ι] {env : StorageEnv σ} {key : CString}
    {val : σ → Option Value} {n₀ n : Node σ ι} {tr : List (Node σ ι × Action ι)}
    (h₀ : ServesMap env key val n₀) (hp : ((nodeSystem env).during (OnKey key)).Path n₀ tr n) :
    mapObject.Linearizable (val n₀.shared.world) ((tr.map Prod.snd).filterMap Action.hist) := by
  obtain ⟨item, hfind, hget, hmap⟩ := h₀.routed
  have hroute : Routed key item.storage item.addr n₀.shared.route := by
    obtain ⟨storages, hlocal⟩ := h₀.starts.route
    have horder := (localRoute_spec storages).2.1
    rw [← hlocal] at horder
    -- the table starts with the items at distinct addresses
    exact ⟨⟨item, hfind, rfl⟩, item,
      RouteList.itemAt_of_mem horder (List.mem_of_find?_eq_some hfind), rfl⟩
  refine SeqObject.linearizable_of_simulation Action.hist
    (MapSim key item.storage item.addr val) (fun s l s' a hR hs => ?_) ?_ hp
  · exact hR.step hmap hget (nodeStep_cases hs.1) hs.2
  · -- at the start nobody has called
    refine ⟨hroute, fun t => ?_, fun t => ?_, fun _ => rfl, fun t ht => ?_, h₀.cache⟩
    · rw [h₀.starts.tasks t]
      rfl
    · rw [h₀.starts.tasks t, h₀.starts.locks key]
      exact iff_of_false nofun nofun
    · rw [h₀.starts.locks key] at ht
      cases ht

section Example

theorem cellEnv_map (p : ℕ) (key : CString) : ActsAsMap cellEnv p key id where
  get w w' r h := by
    cases w with
    | none =>
      cases r with
      | ok x => cases h
      | error e =>
        simp only [cellEnv] at h
        split at h
        · rename_i he
          cases h
          exact ⟨rfl, .inr ⟨by rw [he], rfl⟩⟩
        · cases h
    | some v =>
      cases r with
      | error e => cases h
      | ok x =>
        simp only [cellEnv] at h
        split at h
        · rename_i hv
          cases h
          exact ⟨rfl, .inl ⟨v, x.2, by rw [hv], rfl⟩⟩
        · cases h
  set v w w' r h := by
    simp only [cellEnv] at h
    split at h
    · rename_i hr
      cases h
      exact .inl ⟨hr, rfl⟩
    · cases h
  del w w' r h := by
    simp only [cellEnv] at h
    split at h
    · rename_i hr
      cases h
      exact .inl ⟨hr, rfl⟩
    · cases h

theorem exampleNode_servesMap (w : Option Value) :
    ServesMap cellEnv exampleKey id (exampleNode ι w) where
  starts := exampleNode_starts w
  routed := ⟨⟨exampleLocal, [exampleAny], 0, 0⟩, rfl, rfl, cellEnv_map _ _⟩
  cache c item hc hitem := by
    cases hc
    cases hitem

/-- Thread `0` sets the key; then thread `1` gets it, from the cache. -/
def exampleSetGet : List (Action (Fin 2)) :=
  [.call 0 (.set exampleValue) exampleKey] ++
    List.replicate 6 (.step 0 (exampleInputs 0 (.error ENOENT))) ++
    [.ret 0 (.ok none), .call 1 .get exampleKey, .step 1 (exampleInputs 0 (.error ENOENT)),
      .ret 1 (.ok (some (exampleValue, 1000000000)))]

theorem io_linearizable_setGet :
    mapObject.Linearizable (ι := Fin 2) none
      [.call 0 (.set exampleValue), .ret 0 (.ok none), .call 1 .get,
        .ret 1 (.ok (some exampleValue))] := by
  obtain ⟨n, hrun⟩ : ∃ n, LTS.exec (LTS.stepsOk (nodeStep cellEnv)) (exampleNode (Fin 2) none)
      exampleSetGet = some n := ⟨_, rfl⟩
  obtain ⟨tr, hp, htr⟩ := LTS.exec_path (M := nodeSystem cellEnv)
    (fun _ _ _ => LTS.stepsOk_eq_some) hrun
  have hon : ∀ x ∈ tr, OnKey exampleKey x.1 x.2 := by
    have hlabels : ∀ l ∈ exampleSetGet, ∀ n : Node (Option Value) (Fin 2), OnKey exampleKey n l := by
      intro l hl n
      simp only [exampleSetGet, List.replicate, List.cons_append, List.nil_append, List.mem_cons,
        List.not_mem_nil, or_false] at hl
      rcases hl with rfl | rfl | rfl | rfl | rfl | rfl | rfl | rfl | rfl | rfl | rfl <;>
        first | rfl | trivial
    intro x hx
    exact hlabels x.2 (by rw [← htr]; exact List.mem_map_of_mem hx) x.1
  have hlin := io_linearizable (exampleNode_servesMap none) (hp.during hon)
  rwa [htr] at hlin

end Example

end Propd
