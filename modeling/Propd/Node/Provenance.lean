import Propd.Node.References

/-!
# Where a cached value comes from

The cache is looked at before the route, and an item does not say which storage its value
came from. So a node goes on serving a value after the storage it came from was
unregistered, or another one was registered in front of it, until the item expires.

What does hold in every run: a cached value was given or taken, in a storage call for its
key, by a storage that `route_match` had selected for the key, or by the storage of a
child whose `register_child` asked for the key.
-/

namespace Propd

open Lib

variable {σ ι : Type}

/-! ## The origin of a value in a run -/

/-- Before some step of the run `route_match` selects the storage for the key. -/
def Selected (tr : List (Node σ ι × Action ι)) (key : CString) (storage : StorageCtx) : Prop :=
  ∃ x ∈ tr, ∃ route item, routeMatch x.1.shared.route key = .ok (route, item) ∧
    item.storage = storage

/-- Some `register_child` of the run built the storage and asked for the key. -/
def Offered (tr : List (Node σ ι × Action ι)) (key : CString) (storage : StorageCtx) : Prop :=
  ∃ x ∈ tr, ∃ t name cacheNow prefixes, x.2 = .register t name cacheNow prefixes ∧
    key ∈ cacheNow ∧ storage = unixStorage name x.1.nextPriv

/-- Some step of the run is a call of the storage for the key that gave or took `v`. -/
def Supplied (env : StorageEnv σ) (tr : List (Node σ ι × Action ι)) (key : CString)
    (storage : StorageCtx) (v : Value) : Prop :=
  ∃ x ∈ tr, ∃ t inp f w r, x.2 = .step t inp ∧ (x.1.tasks t).frame = some f ∧
    f.pc = .storage ∧ f.key = key ∧ f.target x.1.shared.route = .ok storage ∧
    callStorage env inp f storage x.1.shared.world = .ok (some (w, .ok r)) ∧
    (f.cacheWrite r).map Prod.fst = some v

/-- The value was supplied for the key by a storage selected for it or offered for it. -/
def Provenance (env : StorageEnv σ) (tr : List (Node σ ι × Action ι)) (key : CString)
    (v : Value) : Prop :=
  ∃ storage, (Selected tr key storage ∨ Offered tr key storage) ∧ Supplied env tr key storage v

section Mono

variable {tr tr' : List (Node σ ι × Action ι)} {key : CString} {storage : StorageCtx}

theorem Selected.mono (hsub : tr ⊆ tr') (h : Selected tr key storage) :
    Selected tr' key storage := by
  obtain ⟨x, hx, rest⟩ := h
  exact ⟨x, hsub hx, rest⟩

theorem Offered.mono (hsub : tr ⊆ tr') (h : Offered tr key storage) : Offered tr' key storage := by
  obtain ⟨x, hx, rest⟩ := h
  exact ⟨x, hsub hx, rest⟩

theorem Provenance.mono {env : StorageEnv σ} {v : Value} (hsub : tr ⊆ tr')
    (h : Provenance env tr key v) : Provenance env tr' key v := by
  obtain ⟨storage, horigin, x, hx, rest⟩ := h
  exact ⟨storage, horigin.imp (.mono hsub) (.mono hsub), x, hsub hx, rest⟩

end Mono

/-! ## The invariant -/

variable [DecidableEq ι] {env : StorageEnv σ}

variable (env) in
/-- What the run so far says about a node: where the pointers of its frames, the values on
their way to the cache, the keys its children ask for and its cached values come from. -/
structure ProvInv (tr : List (Node σ ι × Action ι)) (n : Node σ ι) : Prop where
  chosen : ∀ t f addr, (n.tasks t).frame = some f → f.held = some addr →
    ∃ storage, Selected tr f.key storage ∧
      ∀ item ∈ n.shared.route, item.addr = addr → item.storage = storage
  fetched : ∀ t f v d, (n.tasks t).frame = some f → f.pc = .cacheStore (some (v, d)) →
    Provenance env tr f.key v
  offered : ∀ t c, n.tasks t = .child c → (∀ key ∈ c.cacheNow, Offered tr key c.storage) ∧
    ∀ f, c.pc = .io f → Offered tr f.key c.storage
  cached : ∀ c key item v, n.shared.cache = some c → c.tree key = some item →
    item.value = some v → Provenance env tr key v

/-- An item of the table after a step, at an address that was in use, stood there before
with the same storage and the same prefixes. -/
theorem NodeStep.old_item {n n' : Node σ ι} {a : Action ι} (h : NodeStep env n a n')
    {item : RouteItem} (hitem : item ∈ n'.shared.route) (hold : item.addr < n.nextAddr) :
    ∃ it ∈ n.shared.route, it.addr = item.addr ∧ it.storage = item.storage ∧
      it.prefixes = item.prefixes := by
  -- a counter that changes leaves the rest of its item
  have haddRef : ∀ addr d, item ∈ n.shared.route.addRef addr d →
      ∃ it ∈ n.shared.route, it.addr = item.addr ∧ it.storage = item.storage ∧
        it.prefixes = item.prefixes := by
    intro addr d hmem
    rcases RouteList.mem_addRef.mp hmem with ⟨it, hit, -, rfl⟩ | ⟨hit, -⟩
    · exact ⟨it, hit, rfl, rfl, rfl⟩
    · exact ⟨item, hit, rfl, rfl, rfl⟩
  cases h with
  | frame hf hs =>
    cases hs with
    | matched => exact haddRef _ _ hitem
    | dereffed => exact haddRef _ _ hitem
    | _ => exact ⟨item, hitem, rfl, rfl, rfl⟩
  | registered =>
    rcases List.mem_cons.mp hitem with rfl | hitem
    · -- the new item has a new address
      exact absurd hold (lt_irrefl _)
    · exact ⟨item, hitem, rfl, rfl, rfl⟩
  | @unregister name =>
    obtain ⟨left, gone, ret, hun⟩ : ∃ left gone ret,
        routeUnregister n.shared.route name = (left, gone, ret) := ⟨_, _, _, rfl⟩
    simp only [unregisterStep, hun] at hitem
    -- what is left was there
    exact ⟨item, (routeUnregister_split hun).1.subset hitem, rfl, rfl, rfl⟩
  | _ => exact ⟨item, hitem, rfl, rfl, rfl⟩

/-- Where the frame of a thread after a step comes from: it is the frame before the step,
or that frame took one step or was cancelled, or it has just started. -/
inductive FrameOrigin (env : StorageEnv σ) (n : Node σ ι) (a : Action ι) (t : ι)
    (f' : IoFrame) : Prop
  | same (h : (n.tasks t).frame = some f')
  | step {inp : Inputs} {f : IoFrame} {sh : Shared σ ι} (ha : a = .step t inp)
      (hf : (n.tasks t).frame = some f) (hs : IoStep env t inp n.shared f sh f')
  | cancelled {f : IoFrame} (hf : (n.tasks t).frame = some f) (hpc : f.pc = .storage)
      (hf' : f' = { f with pc := .unlock, cancelled := true })
  | start {op : IoOp} {key : CString} (hf' : f' = .start op key)

theorem NodeStep.frameOrigin {n n' : Node σ ι} {a : Action ι} (h : NodeStep env n a n') {t : ι}
    {f' : IoFrame} (hf' : (n'.tasks t).frame = some f') : FrameOrigin env n a t f' := by
  -- the thread that moves, and the others
  have hmove : ∀ {s : ι} {task : Task}, (Function.update n.tasks s task t).frame = some f' →
      (t = s ∧ task.frame = some f') ∨ (t ≠ s ∧ (n.tasks t).frame = some f') :=
    update_cases Task.frame
  cases h with
  | call =>
    rcases hmove hf' with ⟨-, hf⟩ | ⟨-, hf⟩
    · exact .start (Option.some.inj hf).symm
    · exact .same hf
  | nextKey =>
    rcases hmove hf' with ⟨-, hf⟩ | ⟨-, hf⟩
    · exact .start (Option.some.inj hf).symm
    · exact .same hf
  | @frame s inp f g sh hf hs =>
    rcases hmove hf' with ⟨rfl, hg⟩ | ⟨-, hsame⟩
    · rw [Task.frame_withFrame hf] at hg
      cases hg
      exact .step rfl hf hs
    · exact .same hsame
  | @cancel s effect f w hf hpc =>
    rcases hmove hf' with ⟨rfl, hg⟩ | ⟨-, hsame⟩
    · rw [Task.frame_withFrame hf] at hg
      exact .cancelled hf hpc (Option.some.inj hg).symm
    · exact .same hsame
  | unregister => exact .same hf'
  | sweep => exact .same hf'
  | _ =>
    rcases hmove hf' with ⟨-, hf⟩ | ⟨-, hf⟩
    · cases hf
    · exact .same hf

/-! ## Every step keeps the invariant -/

namespace ProvInv

variable [Fintype ι] {n n' : Node σ ι} {a : Action ι} {tr : List (Node σ ι × Action ι)}

omit [DecidableEq ι] in
/-- The storage a frame calls was selected for its key, or offered for it. -/
theorem target_origin (h : ProvInv env tr n) (href : n.RefInv) {t : ι} {f : IoFrame}
    (hf : (n.tasks t).frame = some f) (hpc : f.pc = .storage) {storage : StorageCtx}
    (ht : f.target n.shared.route = .ok storage) :
    Selected tr f.key storage ∨ Offered tr f.key storage := by
  have hok := href.taskOk t
  rcases Task.frame_eq_some hf with hio | ⟨c, hc, hcpc⟩
  · -- a request: the item its pointer leads to was selected
    rw [hio] at hok
    obtain ⟨hfok, req, hreq⟩ := hok
    obtain ⟨addr, haddr⟩ := Option.ne_none_iff_exists'.mp (hfok.target req hreq (.inr hpc))
    have hheld : f.held = some addr := by
      rw [IoFrame.held_of_ne_done (by rw [hpc]; nofun), haddr]
    obtain ⟨storage', hsel, hsame⟩ := h.chosen t f addr hf hheld
    simp only [IoFrame.target, hreq, haddr] at ht
    cases hitem : n.shared.route.itemAt addr with
    | none =>
      rw [hitem] at ht
      cases ht
    | some item =>
      rw [hitem] at ht
      obtain ⟨hmem, hat⟩ := RouteList.itemAt_eq_some hitem
      have heq : storage = storage' := (Except.ok.inj ht).symm.trans (hsame item hmem hat)
      rw [heq]
      exact .inl hsel
  · -- an `io_update`: the storage of the child that offers it
    rw [hc] at hok
    obtain ⟨-, hop⟩ := hok f hcpc
    simp only [IoFrame.target, hop] at ht
    cases ht
    exact .inr ((h.offered t c hc).2 f hcpc)

theorem chosen_step (h : ProvInv env tr n) (href : n.RefInv) (hs : NodeStep env n a n') {t : ι}
    {f' : IoFrame} {addr : ℕ} (hf' : (n'.tasks t).frame = some f') (hheld' : f'.held = some addr) :
    ∃ storage, Selected (tr ++ [(n, a)]) f'.key storage ∧
      ∀ item ∈ n'.shared.route, item.addr = addr → item.storage = storage := by
  -- a frame that held the item before the step
  have hold : ∀ f, (n.tasks t).frame = some f → f.key = f'.key → f.held = some addr →
      ∃ storage, Selected (tr ++ [(n, a)]) f'.key storage ∧
        ∀ item ∈ n'.shared.route, item.addr = addr → item.storage = storage := by
    intro f hf hkey hheld
    obtain ⟨storage, hsel, hsame⟩ := h.chosen t f addr hf hheld
    refine ⟨storage, hkey ▸ hsel.mono (List.subset_append_left _ _), fun item hitem hat => ?_⟩
    obtain ⟨it, hit, haddr, hst, -⟩ := hs.old_item hitem (by rw [hat]; exact href.held_lt hf hheld)
    exact hst.symm.trans (hsame it hit (haddr.trans hat))
  rcases hs.frameOrigin hf' with hsame | ⟨rfl, hf, hio⟩ | ⟨hf, hpc, rfl⟩ | @⟨op, key, rfl⟩
  · exact hold f' hsame rfl hheld'
  · cases ((href.taskOk t).frame hf).refEffect hio with
    | quiet hroute hheld => exact hold _ hf hio.same_call.2.symm (hheld.symm.trans hheld')
    | @take item hm hbefore hafter hroute =>
      -- the step selects the item
      cases hheld'.symm.trans hafter
      refine ⟨item.storage, ⟨_, List.mem_append_right _ (List.mem_singleton_self _), _, item,
        by rw [hio.same_call.2]; exact hm, rfl⟩, fun it' hit' hat => ?_⟩
      have hitem := List.mem_of_find?_eq_some (routeMatch_ok hm).1
      obtain ⟨it, hit, haddr, hst, -⟩ := hs.old_item hit' (by rw [hat]; exact href.bound item hitem)
      -- two items at one address are one item
      have heq := RouteList.itemAt_of_mem href.order hit
      rw [haddr.trans hat, RouteList.itemAt_of_mem href.order hitem] at heq
      rw [← hst, ← Option.some.inj heq]
    | drop hbefore hafter => cases hheld'.symm.trans hafter
  · -- cancelled: the reference is kept
    refine hold _ hf rfl (Eq.trans ?_ hheld')
    rw [IoFrame.held_of_ne_done (by rw [hpc]; nofun)]
    rfl
  · -- a frame that starts holds nothing
    cases op with
    | request req => cases req <;> cases hheld'
    | update => cases hheld'

theorem fetched_step (h : ProvInv env tr n) (href : n.RefInv) (hs : NodeStep env n a n') {t : ι}
    {f' : IoFrame} {v : Value} {d : Timestamp} (hf' : (n'.tasks t).frame = some f')
    (hpc' : f'.pc = .cacheStore (some (v, d))) : Provenance env (tr ++ [(n, a)]) f'.key v := by
  have hsub : tr ⊆ tr ++ [(n, a)] := List.subset_append_left _ _
  rcases hs.frameOrigin hf' with hsame | @⟨inp, f, sh, rfl, hf, hio⟩ | ⟨-, -, rfl⟩ | @⟨op, key, rfl⟩
  · exact (h.fetched t f' v d hsame hpc').mono hsub
  · cases hio with
    | @storageOk storage w x hpc ht hcall =>
      -- a storage call that succeeds, with a cache behind it
      have hwrite : f.cacheWrite x = some (v, d) := by
        simp only at hpc'
        split at hpc'
        · exact IoPc.cacheStore.inj hpc'
        · cases hpc'
      have horigin := h.target_origin href hf hpc ht
      refine ⟨storage, horigin.imp (.mono hsub) (.mono hsub), _,
        List.mem_append_right _ (List.mem_singleton_self _), t, _, _, w, x, rfl, hf, hpc, rfl, ht,
        hcall, ?_⟩
      rw [hwrite]
      rfl
    | _ => cases hpc'
  · cases hpc'
  · cases op with
    | request req => cases req <;> cases hpc'
    | update => cases hpc'

omit [Fintype ι] [DecidableEq ι] in
/-- A child whose frame moves within its key has the keys it had. -/
theorem offered_withFrame (h : ∀ t c, n.tasks t = .child c →
      (∀ key ∈ c.cacheNow, Offered tr key c.storage) ∧
        ∀ f, c.pc = .io f → Offered tr f.key c.storage)
    {t : ι} {f f' : IoFrame} {c' : ChildFrame} (hf : (n.tasks t).frame = some f)
    (hc' : (n.tasks t).withFrame f' = .child c') (hkey : f'.key = f.key) :
    (∀ key ∈ c'.cacheNow, Offered tr key c'.storage) ∧
      ∀ g, c'.pc = .io g → Offered tr g.key c'.storage := by
  rcases Task.frame_eq_some hf with hio | ⟨c, hc, hpc⟩
  · rw [hio] at hc'
    cases hc'
  · rw [hc] at hc'
    cases hc'
    refine ⟨(h t c hc).1, ?_⟩
    rintro g hg
    cases hg
    rw [hkey]
    exact (h t c hc).2 f hpc

omit [Fintype ι] in
theorem offered_step (h : ∀ t c, n.tasks t = .child c →
      (∀ key ∈ c.cacheNow, Offered tr key c.storage) ∧
        ∀ f, c.pc = .io f → Offered tr f.key c.storage)
    (hs : NodeStep env n a n') {t : ι} {c' : ChildFrame} (hc' : n'.tasks t = .child c') :
    (∀ key ∈ c'.cacheNow, Offered (tr ++ [(n, a)]) key c'.storage) ∧
      ∀ f, c'.pc = .io f → Offered (tr ++ [(n, a)]) f.key c'.storage := by
  have hsub : tr ⊆ tr ++ [(n, a)] := List.subset_append_left _ _
  have hold : n.tasks t = .child c' → (∀ key ∈ c'.cacheNow, Offered (tr ++ [(n, a)]) key c'.storage) ∧
      ∀ f, c'.pc = .io f → Offered (tr ++ [(n, a)]) f.key c'.storage := fun hc =>
    ⟨fun key hkey => ((h t c' hc).1 key hkey).mono hsub, fun f hf => ((h t c' hc).2 f hf).mono hsub⟩
  have hmove : ∀ {s : ι} {task : Task}, Function.update n.tasks s task t = .child c' →
      (t = s ∧ task = .child c') ∨ (t ≠ s ∧ n.tasks t = .child c') := update_cases id
  cases hs with
  | @register s name cacheNow prefixes hidle =>
    rcases hmove hc' with ⟨-, hc⟩ | ⟨-, hc⟩
    · -- the keys of a new child are those of its package
      cases hc
      refine ⟨fun key hkey => ?_, fun f hf => by cases hf⟩
      exact ⟨_, List.mem_append_right _ (List.mem_singleton_self _), s, name, cacheNow, prefixes,
        rfl, hkey, rfl⟩
    · exact hold hc
  | @nextKey s inp c key rest hc hpc hnow =>
    rcases hmove hc' with ⟨rfl, he⟩ | ⟨-, hc⟩
    · cases he
      -- the next of its keys
      have hkeys := (h t c hc).1
      rw [hnow] at hkeys
      refine ⟨fun key' hkey' => (hkeys key' (List.mem_cons_of_mem _ hkey')).mono hsub, ?_⟩
      rintro f hf
      cases hf
      exact (hkeys key List.mem_cons_self).mono hsub
    · exact hold hc
  | @frame s inp f f' sh hf hio =>
    rcases hmove hc' with ⟨rfl, he⟩ | ⟨-, hc⟩
    · -- an `io_update` stays on its key
      obtain ⟨hkeys, hframe⟩ := offered_withFrame h hf he hio.same_call.2
      exact ⟨fun key hkey => (hkeys key hkey).mono hsub, fun g hg => (hframe g hg).mono hsub⟩
    · exact hold hc
  | @cancel s effect f w hf hpc =>
    rcases hmove hc' with ⟨rfl, he⟩ | ⟨-, hc⟩
    · obtain ⟨hkeys, hframe⟩ := offered_withFrame h hf he rfl
      exact ⟨fun key hkey => (hkeys key hkey).mono hsub, fun g hg => (hframe g hg).mono hsub⟩
    · exact hold hc
  | unregister => exact hold hc'
  | sweep => exact hold hc'
  | call | ret | exit =>
    rcases hmove hc' with ⟨-, hc⟩ | ⟨-, hc⟩
    · cases hc
    · exact hold hc
  | lastKey hc | noPrefixes hc | updated hc | updateFailed hc | registerFailed hc | registered hc
  | destructed hc =>
    rcases hmove hc' with ⟨rfl, he⟩ | ⟨-, hc'⟩
    · cases he
      exact ⟨fun key hkey => ((h t _ hc).1 key hkey).mono hsub, fun f hf => by cases hf⟩
    · exact hold hc'

omit [Fintype ι] in
theorem cached_step (hcached : ∀ c key item v, n.shared.cache = some c → c.tree key = some item →
      item.value = some v → Provenance env tr key v)
    (hfetched : ∀ t f v d, (n.tasks t).frame = some f → f.pc = .cacheStore (some (v, d)) →
      Provenance env tr f.key v)
    (hs : NodeStep env n a n') {c' : Cache} {key : CString} {item : CacheItem} {v : Value}
    (hc' : n'.shared.cache = some c') (hitem : c'.tree key = some item)
    (hv : item.value = some v) : Provenance env (tr ++ [(n, a)]) key v := by
  have hsub : tr ⊆ tr ++ [(n, a)] := List.subset_append_left _ _
  have hold : n.shared.cache = some c' → Provenance env (tr ++ [(n, a)]) key v := fun hc =>
    (hcached c' key item v hc hitem hv).mono hsub
  cases hs with
  | @frame t inp f f' sh hf hio =>
    cases hio with
    | @stored value duration cache hpc hfill =>
      cases hc : n.shared.cache with
      | none =>
        rw [hc] at hfill
        cases hfill
        cases hc'
      | some c =>
        rw [hc] at hfill
        rcases cacheFill_cases hfill with rfl | rfl | ⟨old, hold', rfl⟩
        · -- nothing was written
          exact hold (hc.trans hc')
        · -- the value that was fetched, under the key of the frame
          cases hc'
          rcases Cache.put_tree_eq_some hitem with ⟨rfl, hnew⟩ | ⟨-, hother⟩
          · cases hnew
            cases hv
            exact (hfetched t f _ duration hf hpc).mono hsub
          · exact (hcached c key item v hc hother hv).mono hsub
        · -- the item has lost its value
          cases hc'
          rcases Cache.put_tree_eq_some hitem with ⟨rfl, hnew⟩ | ⟨-, hother⟩
          · cases hnew
            cases hv
          · exact (hcached c key item v hc hother hv).mono hsub
    | dropped hpc =>
      -- the item of the key is deleted
      obtain ⟨c, hc, rfl⟩ := Option.map_eq_some_iff.mp hc'
      rw [Cache.cacheDel_tree] at hitem
      rcases Cache.put_tree_eq_some hitem with ⟨-, hnew⟩ | ⟨-, hother⟩
      · cases hnew
      · exact (hcached c key item v hc hother hv).mono hsub
    | _ => exact hold hc'
  | sweep =>
    -- a sweep adds nothing
    obtain ⟨c, hc, rfl⟩ := Option.map_eq_some_iff.mp hc'
    exact (hcached c key item v hc (Cache.cleanerSweep_tree.mp hitem).1 hv).mono hsub
  | unregister => exact hold hc'
  | _ => exact hold hc'

/-- **Every step keeps the invariant.** -/
theorem step (h : ProvInv env tr n) (href : n.RefInv) (hs : NodeStep env n a n') :
    ProvInv env (tr ++ [(n, a)]) n' where
  chosen _ _ _ hf hheld := h.chosen_step href hs hf hheld
  fetched _ _ _ _ hf hpc := h.fetched_step href hs hf hpc
  offered _ _ hc := offered_step h.offered hs hc
  cached _ _ _ _ hc hitem hv := cached_step h.cached h.fetched hs hc hitem hv

omit [Fintype ι] [DecidableEq ι] in
theorem start (h : n.Starts) (hempty : ∀ c, n.shared.cache = some c → ∀ key, c.tree key = none) :
    ProvInv env [] n where
  chosen t f addr hf := by
    rw [h.tasks t] at hf
    cases hf
  fetched t f v d hf := by
    rw [h.tasks t] at hf
    cases hf
  offered t c hc := by
    rw [h.tasks t] at hc
    cases hc
  cached c key item v hc hitem := by
    rw [hempty c hc key] at hitem
    cases hitem

end ProvInv

/-! ## What a get serves -/

/-- The cache has an item of the key that is not out of date at `now`. -/
def Unexpired (cache : Option Cache) (key : CString) (now : Timestamp) (item : CacheItem) : Prop :=
  ∃ c, cache = some c ∧ c.tree key = some item ∧ durationIsOutdate item now = false

/-- **What `io_get` serves**, after any run of a node that starts with an empty cache. A
value it returns is one of two: an unexpired one of the cache, which a storage selected or
offered for the key before has supplied; or, past the cache, what the storage the route
selects now has just returned. Without an unexpired item and without a route it fails. -/
theorem io_get_origin [Fintype ι] {n₀ n : Node σ ι} {tr : List (Node σ ι × Action ι)}
    (h₀ : n₀.Starts) (hempty : ∀ c, n₀.shared.cache = some c → ∀ key, c.tree key = none)
    (hp : (nodeSystem env).Path n₀ tr n) {key : CString} {now : Timestamp} {a : IoAlloc}
    {call : ℕ → Except Fault (σ × GetResult)} {io' : IoCtx} {w' : σ} {r : GetResult}
    (h : ioGet ⟨n.shared.cache, n.shared.route⟩ key now a call n.shared.world = .ok (io', w', r)) :
    (∀ v d, r = .ok (v, d) →
      (∃ item, Unexpired n.shared.cache key now item ∧ item.value = some v ∧
        Provenance env tr key v) ∨
      (∃ route item, routeMatch n.shared.route key = .ok (route, item) ∧
        call item.storage.priv = .ok (w', .ok (v, d)))) ∧
    ((∀ item, ¬ Unexpired n.shared.cache key now item) →
      routeMatch n.shared.route key = .error ENOENT → ∃ e, r = .error e) := by
  have hinv : ProvInv env tr n := by
    refine hp.invariant (.start h₀ hempty) fun tr s a s' hp' hi hs => ?_
    exact hi.step (refInv_of_reachable ⟨n₀, tr, h₀, hp'⟩) (nodeStep_cases hs)
  rcases ioGet_cases h with ⟨c, res, hc, hget, -, -, rfl, -⟩ | hmiss
  · -- the cache answers
    rcases Cache.cacheGet_cases hget with ⟨rfl, -⟩ | ⟨rfl, -⟩ | ⟨item, v, hitem, hlive, hv, rfl⟩
    · exact ⟨nofun, fun _ _ => ⟨_, rfl⟩⟩
    · exact ⟨nofun, fun _ _ => ⟨_, rfl⟩⟩
    · refine ⟨fun v' d hr => ?_, fun hnone => absurd ⟨c, hc, hitem, hlive⟩ (hnone item)⟩
      cases hr
      exact .inl ⟨item, ⟨c, hc, hitem, hlive⟩, hv, hinv.cached c key item v hc hitem hv⟩
  · -- the storage is asked
    rcases ioGetMiss_ok hmiss with ⟨-, -, e, rfl⟩ | ⟨item, hfind, -, hcall, -⟩
    · exact ⟨nofun, fun _ _ => ⟨e, rfl⟩⟩
    · have hmatch : routeMatch n.shared.route key = .ok (n.shared.route.addRef item.addr 1, item) := by
        simp only [routeMatch]
        rw [hfind]
      refine ⟨fun v d hr => ?_, fun _ hnone => ?_⟩
      · rw [hr] at hcall
        exact .inr ⟨_, item, hmatch, hcall⟩
      · rw [hmatch] at hnone
        cases hnone

section Example

/-- Thread `0` gets the key, and then the storage it came from is unregistered. -/
def exampleGetUnregister : List (Action (Fin 2)) :=
  [.call exampleThread .get exampleKey] ++
    List.replicate 7 (.step exampleThread (exampleInputs 0 (.ok (exampleValue, 0)))) ++
    [.ret exampleThread (.ok (some (exampleValue, 0))), .unregister (some exampleLocal.name)]

/-- Nothing is in progress, no route matches the key, and a get succeeds all the same: it
serves a value of the storage that is gone. -/
theorem io_get_serves_unregistered :
    ∃ n, LTS.exec (LTS.stepsOk (nodeStep cellEnv)) (exampleNode (Fin 2) (some exampleValue))
        exampleGetUnregister = some n ∧
      n.tasks 0 = .idle ∧ n.tasks 1 = .idle ∧
      routeMatch n.shared.route exampleKey = .error ENOENT ∧ n.destructed = [0] ∧
      ∃ io' d, ioGet ⟨n.shared.cache, n.shared.route⟩ exampleKey 0 .all
        (fun _ => .error .useAfterFree) n.shared.world =
          .ok (io', n.shared.world, .ok (exampleValue, d)) :=
  ⟨_, rfl, rfl, rfl, rfl, rfl, _, _, rfl⟩

theorem io_get_origin_cached :
    ∃ n tr, (nodeSystem cellEnv).Path (exampleNode (Fin 2) (some exampleValue)) tr n ∧
      routeMatch n.shared.route exampleKey = .error ENOENT ∧
      Provenance cellEnv tr exampleKey exampleValue := by
  obtain ⟨n, hrun, -, -, hroute, -, io', d, hget⟩ := io_get_serves_unregistered
  obtain ⟨tr, hp, -⟩ := LTS.exec_path (M := nodeSystem cellEnv)
    (fun _ _ _ => LTS.stepsOk_eq_some) hrun
  refine ⟨n, tr, hp, hroute, ?_⟩
  have horigin := io_get_origin (exampleNode_starts (some exampleValue))
    (fun c hc key => by cases hc; rfl) hp hget
  rcases horigin.1 exampleValue d rfl with ⟨-, -, -, hprov⟩ | ⟨route, item, hm, -⟩
  · exact hprov
  · rw [hroute] at hm
    cases hm

end Example

end Propd
