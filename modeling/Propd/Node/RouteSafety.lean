import Propd.Node.Ownership

/-!
# Safety of the route table

The result about references, assembled from the two invariants of a node: the counters
of the table against the tasks that hold its items, and the one hand every storage is in.
-/

namespace Propd

open Lib

variable {σ ι : Type} {env : StorageEnv σ}

/-! ## Faults

Only a dangling pointer into the table makes a step use an item after it is freed. -/

theorem IoFrame.target_fault {f : IoFrame} {route : RouteList}
    (h : f.target route = .error .useAfterFree) :
    ∃ addr, f.ctx.storage = some addr ∧ route.itemAt addr = none := by
  unfold target at h
  split at h
  · cases h
  · split at h
    · cases h
    · rename_i addr haddr
      split at h
      · rename_i hitem
        exact ⟨addr, haddr, hitem⟩
      · cases h

/-- A storage call runs a null pointer, or formats a value it must not. -/
theorem callStorage_fault {inp : Inputs} {f : IoFrame} {storage : StorageCtx} {w : σ} {e : Fault}
    (h : callStorage env inp f storage w = .error e) : e = .nullDeref ∨ e = .outOfBounds := by
  have hget : ∀ {call : ℕ → Option (σ × IoResult)} {got : Option (σ × IoResult) → Option Value}
      {deny}, storageGet storage (fun priv => .ok (call priv)) got deny = .error e →
        e = .outOfBounds := by
    intro call got deny hget
    unfold storageGet at hget
    split at hget
    · cases hget
    · dsimp only at hget
      split at hget
      · cases hget
      · split at hget
        · rename_i hfmt
          cases hget
          exact Value.valueFmt_fault hfmt
        · cases hget
  unfold callStorage at h
  split at h
  · exact .inr (hget h)
  · exact .inr (hget h)
  · unfold storageSet at h
    split at h
    · cases h
    · split at h
      · rename_i hfmt
        cases h
        exact .inr (Value.valueFmt_fault hfmt)
      · cases h
  · unfold storageDel at h
    split at h
    · cases h
    · split at h <;> cases h
      exact .inl rfl

theorem Cache.cacheGet_fault {c : Cache} {key : CString} {now : Timestamp} {alloc : Bool}
    {e : Fault} (h : c.cacheGet key now alloc = .error e) : e = .nullDeref := by
  unfold cacheGet at h
  split at h
  · cases h
  · split at h
    · cases h
    · split at h
      · cases h
        rfl
      · split at h <;> cases h

theorem cacheFill_fault {cache : Option Cache} {key : CString} {value : Value}
    {duration now : Timestamp} {a : SetAlloc} {e : Fault}
    (h : cacheFill cache key value duration now a = .error e) : e = .uninitFree := by
  unfold cacheFill at h
  split at h
  · cases h
  · split at h
    · rename_i c e' hset
      cases h
      unfold Cache.cacheSet at hset
      split at hset
      · rename_i e'' hitem
        cases hset
        unfold itemCreate at hitem
        split at hitem
        · cases hitem
        · split at hitem
          · cases hitem
            rfl
          · split at hitem <;> cases hitem
      · cases hset
      · split at hset
        · cases hset
        · split at hset <;> cases hset
    · cases h

theorem storageStep_fault {inp : Inputs} {sh : Shared σ ι} {f : IoFrame}
    (h : storageStep env inp sh f = some (.error .useAfterFree)) :
    ∃ addr, f.ctx.storage = some addr ∧ sh.route.itemAt addr = none := by
  unfold storageStep at h
  split at h
  · rename_i e ht
    cases h
    exact IoFrame.target_fault ht
  · split at h
    · rename_i e hcall
      cases h
      rcases callStorage_fault hcall with he | he <;> cases he
    · cases h
    · cases h
    · cases h

theorem entryStep_fault {inp : Inputs} {sh : Shared σ ι} {f : IoFrame} {e : Fault}
    (h : entryStep inp sh f = .error e) : e = .nullDeref := by
  unfold entryStep at h
  split at h
  · cases h
  · cases h
  · split at h
    · rename_i e' hget
      cases h
      exact Cache.cacheGet_fault hget
    · split at h <;> cases h
  · cases h

theorem cacheStoreStep_fault {inp : Inputs} {sh : Shared σ ι} {f : IoFrame}
    {item : Option (Value × Timestamp)} {e : Fault}
    (h : cacheStoreStep inp sh f item = .error e) : e = .uninitFree := by
  unfold cacheStoreStep at h
  split at h
  · cases h
  · split at h
    · rename_i e' hfill
      cases h
      exact cacheFill_fault hfill
    · cases h

theorem derefStep_fault {sh : Shared σ ι} {f : IoFrame} {e : Fault}
    (h : derefStep sh f = .error e) :
    ∃ addr, f.ctx.storage = some addr ∧ sh.route.itemAt addr = none := by
  unfold derefStep at h
  split at h
  · cases h
  · rename_i addr haddr
    unfold routeDeref at h
    split at h
    · rename_i e' he
      split at he
      · rename_i hitem
        exact ⟨addr, haddr, hitem⟩
      · cases he
    · cases h

/-- A frame that uses an item after it is freed holds the address of no item. -/
theorem ioStep_fault {t : ι} {inp : Inputs} {sh : Shared σ ι} {f : IoFrame}
    (h : ioStep env t inp sh f = some (.error .useAfterFree)) :
    ∃ addr, f.held = some addr ∧ sh.route.itemAt addr = none := by
  unfold ioStep at h
  -- only the storage call and `route_deref` follow the pointer into the table
  split at h
  case h_1 =>
    cases hstep : entryStep inp sh f with
    | ok f' =>
      rw [hstep] at h
      cases h
    | error e =>
      rw [hstep] at h
      cases h
      cases entryStep_fault hstep
  case h_2 => cases h
  case h_3 => cases hlock : lockStep t inp sh f <;> rw [hlock] at h <;> cases h
  case h_4 hpc =>
    obtain ⟨addr, haddr, hitem⟩ := storageStep_fault h
    exact ⟨addr, (IoFrame.held_of_ne_done (by rw [hpc]; nofun)).trans haddr, hitem⟩
  case h_5 => cases cacheStoreStep_fault (Option.some.inj h)
  case h_6 => cases h
  case h_7 hpc =>
    obtain ⟨addr, haddr, hitem⟩ := derefStep_fault (Option.some.inj h)
    exact ⟨addr, (IoFrame.held_of_ne_done (by rw [hpc]; nofun)).trans haddr, hitem⟩
  case h_8 => cases h

theorem cancelStep_fault {effect : Option Inputs} {sh : Shared σ ι} {f : IoFrame}
    (h : cancelStep env effect sh f = some (.error .useAfterFree)) :
    ∃ addr, f.held = some addr ∧ sh.route.itemAt addr = none := by
  unfold cancelStep at h
  split at h
  · rename_i hpc
    cases effect with
    | none => cases h
    | some inp =>
      obtain ⟨r, hr, hmap⟩ := Option.map_eq_some_iff.mp h
      cases r with
      | ok x => cases hmap
      | error e =>
        cases hmap
        obtain ⟨addr, haddr, hitem⟩ := storageStep_fault hr
        exact ⟨addr, (IoFrame.held_of_ne_done (by rw [hpc]; nofun)).trans haddr, hitem⟩
  · cases h

variable [DecidableEq ι]

/-- A node uses an item after it is freed only in a step of a frame with a dangling pointer. -/
theorem nodeStep_fault {n : Node σ ι} {a : Action ι}
    (h : nodeStep env n a = some (.error .useAfterFree)) :
    ∃ t addr, (n.tasks t).held = some addr ∧ n.shared.route.itemAt addr = none := by
  -- the fault of a frame is the fault of its step
  have hframe : ∀ {t f} {step : Shared σ ι → IoFrame → Option (Except Fault (Shared σ ι × IoFrame))},
      frameStep n t step f = some (.error .useAfterFree) →
        step n.shared f = some (.error .useAfterFree) := by
    intro t f step hs
    obtain ⟨r, hr, hmap⟩ := Option.map_eq_some_iff.mp hs
    cases r with
    | ok x => cases hmap
    | error e =>
      cases hmap
      exact hr
  -- `register_child` itself does not follow a pointer into the table
  have hchild : ∀ {x : Option (Node σ ι)},
      x.map Except.ok ≠ some (Except.error Fault.useAfterFree) := by
    intro x hx
    cases x <;> cases hx
  cases a with
  | call t req key =>
    simp only [nodeStep] at h
    split at h <;> cases h
  | register t name cacheNow prefixes =>
    simp only [nodeStep] at h
    split at h
    · split at h <;> cases h
    · cases h
  | step t inp =>
    simp only [nodeStep] at h
    split at h
    · rename_i f hf
      obtain ⟨addr, haddr, hitem⟩ := ioStep_fault (hframe h)
      exact ⟨t, addr, (Task.held_of_frame (by rw [hf]; rfl)).trans haddr, hitem⟩
    · rename_i c hc
      split at h
      · rename_i f hpc
        split at h
        · exact absurd h hchild
        · obtain ⟨addr, haddr, hitem⟩ := ioStep_fault (hframe h)
          refine ⟨t, addr, (Task.held_of_frame ?_).trans haddr, hitem⟩
          rw [hc, Task.frame, hpc]
          rfl
      · exact absurd h hchild
    · cases h
  | ret t r =>
    simp only [nodeStep] at h
    split at h <;> cases h
  | cancel t effect =>
    simp only [nodeStep] at h
    split at h
    · rename_i f hf
      obtain ⟨addr, haddr, hitem⟩ := cancelStep_fault (hframe h)
      exact ⟨t, addr, (Task.held_of_frame hf).trans haddr, hitem⟩
    · cases h
  | exit t =>
    simp only [nodeStep] at h
    split at h <;> cases h
  | unregister name => cases h
  | sweep now => cases h

/-! ## The table -/

/-- Only an unregistration takes items off the table. -/
theorem NodeStep.keeps_items {n n' : Node σ ι} {a : Action ι} (h : NodeStep env n a n') :
    (∃ name, a = .unregister name ∧ n' = unregisterStep n name) ∨
      ∀ item ∈ n.shared.route, ∃ it ∈ n'.shared.route, it.addr = item.addr := by
  have haddRef : ∀ addr d, ∀ item ∈ n.shared.route,
      ∃ it ∈ n.shared.route.addRef addr d, it.addr = item.addr := by
    intro addr d item hitem
    refine List.mem_map.mp ?_
    rw [RouteList.addRef_map RouteItem.addr (fun _ _ => rfl)]
    exact List.mem_map_of_mem hitem
  cases h with
  | @unregister name => exact .inl ⟨name, rfl, rfl⟩
  | frame hf hs =>
    cases hs with
    | matched => exact .inr (haddRef _ _)
    | dereffed => exact .inr (haddRef _ _)
    | _ => exact .inr fun item hitem => ⟨item, hitem, rfl⟩
  | registered => exact .inr fun item hitem => ⟨item, List.mem_cons_of_mem _ hitem, rfl⟩
  | _ => exact .inr fun item hitem => ⟨item, hitem, rfl⟩

variable [Fintype ι]

variable (env) in
/-- What holds of the route table of a node in every reachable state. -/
structure RouteSafe (n : Node σ ι) : Prop where
  /-- the names in the table are distinct -/
  names : (n.shared.route.map fun item => item.storage.name).Nodup
  /-- a counter is the number of the operations that matched the item and are not through
  with their cleanup -/
  counters : ∀ item ∈ n.shared.route,
    item.nref = countThreads (fun task : Task => task.held = some item.addr) n.tasks
  /-- an item is destroyed only when no operation holds it -/
  destroyed : ∀ a n', nodeStep env n a = some (.ok n') → ∀ item ∈ n.shared.route,
    (∀ it ∈ n'.shared.route, it.addr ≠ item.addr) → ∀ t, (n.tasks t).held ≠ some item.addr
  /-- no step uses an item that is freed -/
  noFault : ∀ a, nodeStep env n a ≠ some (.error .useAfterFree)
  /-- the storage an operation calls is there, and its destructor did not run -/
  called : ∀ t f, (n.tasks t).frame = some f → f.pc = .storage →
    ∃ storage, f.target n.shared.route = .ok storage ∧ storage.priv ∉ n.destructed
  /-- `route_match` yields the most recent of the items that serve the key -/
  matched : ∀ key route item, routeMatch n.shared.route key = .ok (route, item) →
    item ∈ n.shared.route ∧ item.serves key = true ∧
      ∀ other ∈ n.shared.route, other.serves key = true → other = item ∨ other.addr < item.addr
  unmatched : ∀ key e, routeMatch n.shared.route key = .error e →
    ∀ item ∈ n.shared.route, item.serves key = false
  /-- a refused registration or unregistration leaves the table unchanged -/
  registerRefused : ∀ storage prefixes addr alloc route e,
    routeRegister n.shared.route storage prefixes addr alloc = (route, .error e) →
      route = n.shared.route
  unregisterRefused : ∀ name route gone e,
    routeUnregister n.shared.route (some name) = (route, gone, .error e) →
      route = n.shared.route ∧ gone = []
  /-- unregister-all removes exactly the items in front of the first referenced one -/
  unregisterAll : routeUnregister n.shared.route none =
    (n.shared.route.dropWhile (fun item => item.nref = 0),
      n.shared.route.takeWhile (fun item => item.nref = 0),
      if n.shared.route.dropWhile (fun item => item.nref = 0) = [] then .ok () else .error EBUSY)

/-- The first item of a list sorted by age that meets a test is the newest that does. -/
private theorem find_newest {list : RouteList} {p : RouteItem → Bool} {item : RouteItem}
    (horder : list.Pairwise fun newer older => older.addr < newer.addr)
    (h : list.find? p = some item) :
    ∀ other ∈ list, p other = true → other = item ∨ other.addr < item.addr := by
  obtain ⟨-, l₁, l₂, rfl, hnot⟩ := List.find?_eq_some_iff_append.mp h
  intro other hother hp
  rcases List.mem_append.mp hother with hmem | hmem
  · -- in front of the item nothing meets the test
    have hneg := hnot other hmem
    rw [hp] at hneg
    cases hneg
  · rcases List.mem_cons.mp hmem with rfl | hmem
    · exact .inl rfl
    · -- behind it all are older
      exact .inr ((List.pairwise_cons.mp (List.pairwise_append.mp horder).2.1).1 other hmem)

omit [DecidableEq ι] in
/-- An item in the table or with a `register_child` is not destructed. -/
theorem OwnInv.not_destructed {n : Node σ ι} (h : OwnInv n) {p : ℕ}
    (hp : p ∈ n.shared.route.instances ∨ ∃ t, (n.tasks t).owned = some p) :
    p ∉ n.destructed := by
  intro hmem
  have hu := h.unique p
  have hd : 1 ≤ n.destructed.count p := List.one_le_count_iff.mpr hmem
  -- two owners of one storage would be one too many
  rcases hp with htable | ⟨t, ht⟩
  · have ht : 1 ≤ n.shared.route.instances.count p := List.one_le_count_iff.mpr htable
    omega
  · have ht : 0 < owners p n.tasks :=
      countThreads_pos (fun task : Task => task.owned = some p) ht
    omega

omit [DecidableEq ι] in
/-- A frame at its storage call has a target nobody destructed. -/
theorem RefInv.target_live {n : Node σ ι} (h : n.RefInv) (hown : OwnInv n) {t : ι} {f : IoFrame}
    (hf : (n.tasks t).frame = some f) (hpc : f.pc = .storage) :
    ∃ storage, f.target n.shared.route = .ok storage ∧ storage.priv ∉ n.destructed := by
  have hok := h.taskOk t
  rcases Task.frame_eq_some hf with hio | ⟨c, hc, hcpc⟩
  · -- a request calls the item it holds a reference to
    rw [hio] at hok
    obtain ⟨hfok, req, hreq⟩ := hok
    obtain ⟨addr, haddr⟩ := Option.ne_none_iff_exists'.mp (hfok.target req hreq (.inr hpc))
    have hheld : (n.tasks t).held = some addr := by
      rw [Task.held_of_frame hf, IoFrame.held_of_ne_done (by rw [hpc]; nofun), haddr]
    obtain ⟨item, hitem⟩ := RouteList.itemAt_isSome.mpr (h.live t addr hheld)
    refine ⟨item.storage, ?_, hown.not_destructed (.inl ?_)⟩
    · simp only [IoFrame.target, hreq, haddr, hitem]
    · exact List.mem_map_of_mem (RouteList.itemAt_eq_some hitem).1
  · -- an `io_update` calls the storage of its child
    rw [hc] at hok
    obtain ⟨-, hop⟩ := hok f hcpc
    refine ⟨c.storage, ?_, hown.not_destructed (.inr ⟨t, ?_⟩)⟩
    · simp only [IoFrame.target, hop]
    · rw [hc, Task.owned_child (by rw [hcpc]; nofun)]

/-- **References to the route table are safe** in every reachable state of a node. -/
theorem route_references {n : Node σ ι} (h : (nodeSystem env).Reachable n) : RouteSafe env n := by
  have href := refInv_of_reachable h
  have hown := ownInv_of_reachable h
  refine ⟨href.names, href.refs, ?_, ?_, fun t f => href.target_live hown, ?_, ?_, ?_, ?_,
    routeUnregister_none _⟩
  · intro a n' hstep item hitem hgone t hheld
    have hs := nodeStep_cases hstep
    rcases hs.keeps_items with ⟨name, rfl, rfl⟩ | hkeep
    · -- the tasks are those before the step, and what they hold is in the table after it
      obtain ⟨it, hit, haddr⟩ := (hs.refInv href).live t item.addr hheld
      exact hgone it hit haddr
    · obtain ⟨it, hit, haddr⟩ := hkeep item hitem
      exact hgone it hit haddr
  · intro a hfault
    obtain ⟨t, addr, hheld, hnone⟩ := nodeStep_fault hfault
    -- the item of a held address is there
    obtain ⟨item, hitem⟩ := RouteList.itemAt_isSome.mpr (href.live t addr hheld)
    rw [hnone] at hitem
    cases hitem
  · intro key route item hm
    obtain ⟨hfind, -⟩ := routeMatch_ok hm
    have hserves := List.find?_some hfind
    exact ⟨List.mem_of_find?_eq_some hfind, hserves, find_newest href.order hfind⟩
  · exact fun key e he => (routeMatch_error he).2
  · intro storage prefixes addr alloc route e hreg
    rcases routeRegister_cases hreg with ⟨rfl, -⟩ | ⟨-, hok, -⟩
    · rfl
    · cases hok
  · intro name route gone e hun
    simp only [routeUnregister] at hun
    split at hun <;> cases hun
    exact ⟨rfl, rfl⟩

section Example

/-- Two steps into a get: the thread holds the only item. -/
def exampleGet : List (Action (Fin 2)) :=
  [.call exampleThread .get exampleKey, .step exampleThread (exampleInputs 0 (.error ENOENT)),
    .step exampleThread (exampleInputs 0 (.error ENOENT))]

theorem route_references_get :
    ∃ n, LTS.exec (LTS.stepsOk (nodeStep cellEnv)) (exampleNode (Fin 2) none) exampleGet = some n ∧
      (n.tasks 0).held = some 0 ∧ RouteSafe cellEnv n := by
  obtain ⟨n, hrun, hheld⟩ : ∃ n,
      LTS.exec (LTS.stepsOk (nodeStep cellEnv)) (exampleNode (Fin 2) none) exampleGet = some n ∧
        (n.tasks 0).held = some 0 := ⟨_, rfl, rfl⟩
  have hreach : (nodeSystem cellEnv).Reachable n :=
    LTS.exec_reachable (fun _ _ _ => LTS.stepsOk_eq_some) (exampleNode_starts none) hrun
  exact ⟨n, hrun, hheld, route_references hreach⟩

end Example

end Propd
