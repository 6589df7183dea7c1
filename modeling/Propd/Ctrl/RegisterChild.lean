import Propd.Core.Io

/-!
# Registering a child

`register_child` of the ctrl server, run alone: it builds a storage for the child,
fetches every `cache_now` key of the package through it into the cache, one `io_update`
after the other, and then registers the storage for the prefixes.

The cache is written before it is known whether the registration goes through, and
nothing takes it back: a key whose `io_update` succeeded stays cached when a later one
fails or the table refuses the child. What a failed call leaves is stated exactly.
-/

namespace Propd

/-- `ctrl_package_register_child_t`, with the strings of its slots. -/
structure ChildPackage where
  name : CString
  cacheNow : List CString
  prefixes : List CString

/-- What one `io_update` meets: the clock, its allocations, and what the callback of the
child does in a state of the world. -/
structure UpdateTurn (σ : Type) where
  now : Timestamp
  alloc : IoAlloc
  call : ℕ → CString → σ → Except Fault (σ × GetResult)

/-- What the rest of `register_child` meets: the instance `constructor_unix` builds, or
its status, the allocation of the prefix array and of the item, and its address. -/
structure ChildAlloc where
  instance' : Except Errno ℕ
  table : Bool
  item : Bool
  addr : ℕ

variable {σ : Type}

/-- The loop over the `cache_now` keys; `i` counts its turns. -/
def updateLoop (storage : StorageCtx) (turn : ℕ → UpdateTurn σ) :
    ℕ → List CString → IoCtx → σ → Except Fault (IoCtx × σ × SetResult)
  | _, [], io, w => .ok (io, w, .ok ())
  | i, key :: rest, io, w =>
    match ioUpdate io key storage (turn i).now (turn i).alloc
        (fun priv => (turn i).call priv key w) w with
    | .error e => .error e
    | .ok (io', w', .error e) => .ok (io', w', .error e)
    | .ok (io', w', .ok ()) => updateLoop storage turn (i + 1) rest io' w'

/-- `register_child` -/
def registerChild (io : IoCtx) (child : ChildPackage) (a : ChildAlloc) (turn : ℕ → UpdateTurn σ)
    (w : σ) : Except Fault (IoCtx × σ × SetResult) :=
  if child.cacheNow = [] ∧ child.prefixes = [] then .ok (io, w, .error EINVAL)
  else
    match a.instance' with
    | .error e => .ok (io, w, .error e)
    | .ok priv =>
      let storage := unixStorage child.name priv
      match updateLoop storage turn 0 child.cacheNow io w with
      | .error e => .error e
      | .ok (io', w', .error e) => .ok (io', w', .error e)
      | .ok (io', w', .ok ()) =>
        if child.prefixes = [] then .ok (io', w', .ok ())
        else if !a.table then .ok (io', w', .error ENOMEM)
        else
          let (route, ret) := routeRegister io'.route storage child.prefixes a.addr a.item
          .ok ({ io' with route := route }, w', ret)

/-! ## What stays behind -/

/-- What an `io_update` of `key` may leave under its key: the item that was there, the item
a `cache_set` of a value the child returned stores, or the old item without its value. -/
def LeftBy (turn : ℕ → UpdateTurn σ) (c c' : Cache) (key : CString) : Prop :=
  c'.tree key = c.tree key ∨
    (∃ i priv w w' value duration, (turn i).call priv key w = .ok (w', .ok (value, duration)) ∧
      c'.tree key = some (c.stored value duration (turn i).now)) ∨
    ∃ old : CacheItem, c'.tree key = some { old with value := none }

/-- What is left of a cache after the keys of `done` were updated: the other keys are as
they were. -/
structure CacheLeft (turn : ℕ → UpdateTurn σ) (done : List CString) (c c' : Cache) : Prop where
  other : ∀ key, key ∉ done → c'.tree key = c.tree key
  updated : ∀ key ∈ done, LeftBy turn c c' key
  settings : c'.minDuration = c.minDuration ∧ c'.defaultDuration = c.defaultDuration

theorem CacheLeft.nil (turn : ℕ → UpdateTurn σ) (c : Cache) : CacheLeft turn [] c c where
  other _ _ := rfl
  updated _ h := absurd h List.not_mem_nil
  settings := ⟨rfl, rfl⟩

theorem Cache.stored_congr {c c' : Cache}
    (h : c'.minDuration = c.minDuration ∧ c'.defaultDuration = c.defaultDuration)
    (value : Value) (duration now : Timestamp) :
    c'.stored value duration now = c.stored value duration now := by
  unfold stored clampDuration
  rw [h.1, h.2]

/-- Keys updated first, then others. -/
theorem CacheLeft.append {turn : ℕ → UpdateTurn σ} {done done' : List CString} {c c₁ c₂ : Cache}
    (h : CacheLeft turn done c c₁) (h' : CacheLeft turn done' c₁ c₂) :
    CacheLeft turn (done ++ done') c c₂ where
  other key hkey := by
    rw [List.mem_append, not_or] at hkey
    rw [h'.other key hkey.2, h.other key hkey.1]
  updated key hkey := by
    by_cases hin : key ∈ done'
    · rcases h'.updated key hin with heq | ⟨i, priv, w, w', value, duration, hcall, heq⟩ | hold
      · by_cases hbefore : key ∈ done
        · have hleft := h.updated key hbefore
          unfold LeftBy at hleft ⊢
          rwa [heq]
        · exact .inl (heq.trans (h.other key hbefore))
      · refine .inr (.inl ⟨i, priv, w, w', value, duration, hcall, ?_⟩)
        rw [heq, Cache.stored_congr h.settings]
      · exact .inr (.inr hold)
    · have hleft := h.updated key ((List.mem_append.mp hkey).resolve_right hin)
      unfold LeftBy at hleft ⊢
      rwa [h'.other key hin]
  settings := ⟨h'.settings.1.trans h.settings.1, h'.settings.2.trans h.settings.2⟩

/-- What some keys being updated leaves of the table and the cache of a node. -/
def Left (turn : ℕ → UpdateTurn σ) (done : List CString) (io io' : IoCtx) : Prop :=
  io'.route = io.route ∧
    match io.cache with
    | none => io'.cache = none
    | some c => ∃ c', io'.cache = some c' ∧ CacheLeft turn done c c'

theorem Left.refl (turn : ℕ → UpdateTurn σ) (io : IoCtx) : Left turn [] io io := by
  refine ⟨rfl, ?_⟩
  cases io.cache with
  | none => rfl
  | some c => exact ⟨c, rfl, .nil turn c⟩

theorem Left.append {turn : ℕ → UpdateTurn σ} {done done' : List CString} {io io₁ io₂ : IoCtx}
    (h : Left turn done io io₁) (h' : Left turn done' io₁ io₂) :
    Left turn (done ++ done') io io₂ := by
  refine ⟨h'.1.trans h.1, ?_⟩
  have hfirst := h.2
  have hsecond := h'.2
  cases hc : io.cache with
  | none =>
    rw [hc] at hfirst
    simp only at hfirst
    rw [hfirst] at hsecond
    exact hsecond
  | some c =>
    rw [hc] at hfirst
    obtain ⟨c₁, hc₁, hleft⟩ := hfirst
    rw [hc₁] at hsecond
    obtain ⟨c₂, hc₂, hleft'⟩ := hsecond
    exact ⟨c₂, hc₂, hleft.append hleft'⟩

/-- One `io_update`: a failure changes nothing, and a success at most its own key. -/
theorem ioUpdate_left {turn : ℕ → UpdateTurn σ} {i : ℕ} {io io' : IoCtx} {key : CString}
    {storage : StorageCtx} {w w' : σ} {ret : SetResult}
    (h : ioUpdate io key storage (turn i).now (turn i).alloc
      (fun priv => (turn i).call priv key w) w = .ok (io', w', ret)) :
    (io' = io ∧ ∃ e, ret = .error e) ∨ (ret = .ok () ∧ Left turn [key] io io') := by
  unfold ioUpdate at h
  split at h
  · rename_i hc
    cases h
    refine .inr ⟨rfl, rfl, ?_⟩
    simp only [hc]
  · rename_i c hc
    split at h
    · cases h
      exact .inl ⟨rfl, _, rfl⟩
    · split at h
      · cases h
      · rename_i cache w₁ r hthen
        cases h
        obtain ⟨hout, ⟨rfl, e, rfl⟩ | ⟨⟨value, duration⟩, rfl, hfill⟩⟩ := storageThen_ok hthen
        · exact .inl ⟨rfl, e, rfl⟩
        · have hcall : (turn i).call storage.priv key w = .ok (w', .ok (value, duration)) := by
            rcases storageGet_ok hout with ⟨-, heq⟩ | ⟨hcall, -⟩
            · cases heq
            · exact hcall
          rw [hc] at hfill
          refine .inr ⟨rfl, rfl, ?_⟩
          simp only [hc]
          have hone : ∀ item, LeftBy turn c (c.put key item) key →
              CacheLeft turn [key] c (c.put key item) := by
            refine fun item hleft => ⟨fun key' hkey => ?_, fun key' hkey => ?_, rfl, rfl⟩
            · exact Cache.put_tree_of_ne c item (by simpa using hkey)
            · rw [List.mem_singleton.mp hkey]
              exact hleft
          rcases cacheFill_cases hfill with rfl | rfl | ⟨old, -, rfl⟩
          · exact ⟨c, rfl, fun _ _ => rfl, fun _ _ => .inl rfl, rfl, rfl⟩
          · refine ⟨_, rfl, hone _ (.inr (.inl ⟨i, storage.priv, w, w', value, duration, hcall, ?_⟩))⟩
            exact Cache.put_tree_self c key _
          · exact ⟨_, rfl, hone _ (.inr (.inr ⟨old, Cache.put_tree_self c key _⟩))⟩

/-- The loop stops at the first failure: what it leaves is what it leaves after the keys
before it. -/
theorem updateLoop_left {storage : StorageCtx} {turn : ℕ → UpdateTurn σ} {i : ℕ}
    {keys : List CString} {io io' : IoCtx} {w w' : σ} {ret : SetResult}
    (h : updateLoop storage turn i keys io w = .ok (io', w', ret)) :
    ∃ done rest w₁, keys = done ++ rest ∧ Left turn done io io' ∧
      updateLoop storage turn i done io w = .ok (io', w₁, .ok ()) := by
  induction keys generalizing i io w with
  | nil =>
    cases h
    exact ⟨[], [], w', rfl, .refl turn io', rfl⟩
  | cons key rest ih =>
    unfold updateLoop at h
    split at h
    · cases h
    · rename_i io₁ w₁ e hupdate
      cases h
      rcases ioUpdate_left hupdate with ⟨rfl, -⟩ | ⟨hok, -⟩
      · exact ⟨[], key :: rest, w, rfl, .refl turn _, rfl⟩
      · cases hok
    · rename_i io₁ w₁ hupdate
      rcases ioUpdate_left hupdate with ⟨-, e, he⟩ | ⟨-, hleft⟩
      · cases he
      · obtain ⟨done, rest', w₂, rfl, hleft', hloop⟩ := ih h
        refine ⟨key :: done, rest', w₂, rfl, hleft.append hleft', ?_⟩
        rw [updateLoop, hupdate]
        exact hloop

/-- A key that was not updated gets the answer it got before. -/
theorem Left.cacheGet {turn : ℕ → UpdateTurn σ} {done : List CString} {io io' : IoCtx}
    (h : Left turn done io io') {key : CString} (hkey : key ∉ done) (now : Timestamp) (alloc : Bool) :
    (io'.cache.map fun c => c.cacheGet key now alloc) =
      io.cache.map fun c => c.cacheGet key now alloc := by
  have hcache := h.2
  cases hc : io.cache with
  | none =>
    rw [hc] at hcache
    rw [hcache]
  | some c =>
    rw [hc] at hcache
    obtain ⟨c', hc', hleft⟩ := hcache
    rw [hc', Option.map_some, Option.map_some, Cache.cacheGet, Cache.cacheGet, hleft.other key hkey]
    simp only [Cache.remain, hleft.settings.1]

/-- **What a failed registration leaves**: the route table is as it was, and the cache
answers every key as it did, except the `cache_now` keys whose `io_update` had succeeded
before the failure. These hold what that left. -/
theorem registerChild_failed {io io' : IoCtx} {child : ChildPackage} {a : ChildAlloc}
    {turn : ℕ → UpdateTurn σ} {w w' : σ} {e : Errno}
    (h : registerChild io child a turn w = .ok (io', w', .error e)) :
    io'.route = io.route ∧ ∃ done rest, child.cacheNow = done ++ rest ∧
      (∃ priv io₁ w₁, updateLoop (unixStorage child.name priv) turn 0 done io w =
        .ok (io₁, w₁, .ok ()) ∧ io'.cache = io₁.cache) ∧
      Left turn done io io' ∧
      ∀ key, key ∉ done → ∀ now alloc, (io'.cache.map fun c => c.cacheGet key now alloc) =
        io.cache.map fun c => c.cacheGet key now alloc := by
  suffices hleft : ∃ priv done rest w₁, child.cacheNow = done ++ rest ∧ Left turn done io io' ∧
      updateLoop (unixStorage child.name priv) turn 0 done io w = .ok (io', w₁, .ok ()) by
    obtain ⟨priv, done, rest, w₁, hkeys, hleft, hloop⟩ := hleft
    exact ⟨hleft.1, done, rest, hkeys, ⟨priv, io', w₁, hloop, rfl⟩, hleft,
      fun key hkey => hleft.cacheGet hkey⟩
  unfold registerChild at h
  split at h
  · cases h
    exact ⟨0, [], child.cacheNow, w, rfl, .refl turn _, rfl⟩
  · split at h
    · cases h
      exact ⟨0, [], child.cacheNow, w, rfl, .refl turn _, rfl⟩
    · rename_i priv hpriv
      simp only at h
      split at h
      · cases h
      · rename_i hloop
        cases h
        exact ⟨priv, updateLoop_left hloop⟩
      · rename_i io₁ w₁ hloop
        split at h
        · cases h
        · split at h
          · cases h
            exact ⟨priv, updateLoop_left hloop⟩
          · cases hreg : routeRegister io₁.route (unixStorage child.name priv) child.prefixes
              a.addr a.item with
            | mk route ret =>
              rw [hreg] at h
              cases h
              rcases routeRegister_cases hreg with ⟨rfl, -⟩ | ⟨-, hok, -⟩
              · exact ⟨priv, updateLoop_left hloop⟩
              · cases hok

section Example

/-- A node with an empty cache that routes every key to a child of the same name. -/
def exampleParent : IoCtx where
  cache := some ⟨fun _ => none, 500000000, 1000000000, 1000000000, 100000000⟩
  route := [⟨unixStorage exampleName 0, [exampleAny], 0, 0⟩]

/-- A child whose name is taken, with one key to fetch. -/
def exampleChild : ChildPackage := ⟨exampleName, [exampleKey], [exampleKey]⟩

def exampleChildAlloc : ChildAlloc := ⟨.ok 1, true, true, 1⟩

/-- The child answers. -/
def exampleTurn (_ : ℕ) : UpdateTurn Unit :=
  ⟨0, .all, fun _ _ w => .ok (w, .ok (exampleValue, 0))⟩

/-- The registration is refused, and the value of the refused child stays in the cache: the
key had no answer before, and has one now. -/
theorem registerChild_leaves_value :
    ∃ io', registerChild exampleParent exampleChild exampleChildAlloc exampleTurn () =
        .ok (io', (), .error EEXIST) ∧
      (exampleParent.cache.map fun c => c.cacheGet exampleKey 0 true) =
        some (.ok (.error ENOENT)) ∧
      (io'.cache.map fun c => c.cacheGet exampleKey 0 true) =
        some (.ok (.ok (exampleValue, 1000000000))) :=
  ⟨_, rfl, rfl, rfl⟩

/-- The table is as before, and no key but the one that was fetched is touched. -/
theorem registerChild_failed_refused :
    ∃ io' done rest, registerChild exampleParent exampleChild exampleChildAlloc exampleTurn () =
        .ok (io', (), .error EEXIST) ∧
      io'.route = exampleParent.route ∧ exampleChild.cacheNow = done ++ rest ∧
      Left exampleTurn done exampleParent io' := by
  obtain ⟨io', hrun⟩ : ∃ io', registerChild exampleParent exampleChild exampleChildAlloc
      exampleTurn () = .ok (io', (), .error EEXIST) := ⟨_, rfl⟩
  obtain ⟨hroute, done, rest, hkeys, -, hleft, -⟩ := registerChild_failed hrun
  exact ⟨io', done, rest, hrun, hroute, hkeys, hleft⟩

end Example

end Propd
