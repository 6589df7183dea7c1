import Propd.Node.Calls
import Propd.Node.RouteSafety

/-!
# Storages without a callback

A storage may lack any of its three callbacks. This module is about one call of `io_get`,
`io_set` or `io_del`, among whatever the other threads of the node do: which callback it
runs, what it returns, and what it leaves of itself in the state the threads share.

`storage_get` and `storage_set` test the callback they are going to call, and format the value
for the log line: `storage_get` after its callback, `storage_set` before. `storage_del` tests
the `set` callback: it refuses where only `del` is there, and calls a null pointer where only
`set` is.
-/

namespace Propd

open Lib

variable {σ ι : Type}

/-! ## The storage functions -/

/-- The callback for a request is there. -/
def StorageCtx.supports (storage : StorageCtx) : IoRequest → Bool
  | .get => storage.hasGet
  | .set _ => storage.hasSet
  | .del => storage.hasDel

/-- The callback the storage function of a request tests is there. -/
def StorageCtx.tests (storage : StorageCtx) : IoRequest → Bool
  | .get => storage.hasGet
  | .set _ | .del => storage.hasSet

theorem StorageCtx.tests_eq_supports {storage : StorageCtx} {req : IoRequest} :
    storage.tests req = storage.supports req ↔ (req = .del → storage.hasSet = storage.hasDel) := by
  cases req with
  | get => exact iff_of_true rfl nofun
  | set value => exact iff_of_true rfl nofun
  | del => exact ⟨fun h _ => h, fun h => h rfl⟩

/-- The callback of a request, on the instance `priv`: the state it leaves and what the io
function makes of its reply. `none` where it does not give the reply of `inp`. -/
def StorageEnv.callback (env : StorageEnv σ) (req : IoRequest) (priv : ℕ) (key : CString)
    (inp : Inputs) (w : σ) : Option (σ × IoResult) :=
  match req with
  | .get => (env.get priv key w inp.getReply).map (·, inp.getReply.map some)
  | .set value => (env.set priv key value w inp.setReply).map (·, inp.setReply.map fun _ => none)
  | .del => (env.del priv key w inp.setReply).map (·, inp.setReply.map fun _ => none)

/-- The value a storage function formats for its log line: the one to set, or the one a get
was given. -/
def IoRequest.formats (req : IoRequest) (inp : Inputs) : Option Value :=
  match req with
  | .get => gotValue inp.getReply
  | .set value => some value
  | .del => none

section StorageCall

variable {inp : Inputs} {f : IoFrame} {req : IoRequest} (hop : f.op = .request req)
  {storage : StorageCtx}

include hop

/-- A storage function refuses where the callback it tests is missing. -/
theorem callStorage_refused (htests : storage.tests req = false) (env : StorageEnv σ) (w : σ) :
    callStorage env inp f storage w = .ok (some (w, .error EOPNOTSUPP)) := by
  unfold callStorage
  rw [hop]
  cases req with
  | get => simp only [storageGet, show storage.hasGet = false from htests, Bool.not_false, if_true]
  | set value =>
    simp only [storageSet, show storage.hasSet = false from htests, Bool.not_false, if_true]
  | del => simp only [storageDel, show storage.hasSet = false from htests, Bool.not_false, if_true]

/-- With the callback there and a value that can be formatted, it runs the callback. -/
theorem callStorage_runs (htests : storage.tests req = true) (hsupports : storage.supports req = true)
    (hformats : ∀ v ∈ req.formats inp, v.WellFormed) (env : StorageEnv σ) (w : σ) :
    callStorage env inp f storage w = .ok (env.callback req storage.priv f.key inp w) := by
  unfold callStorage
  rw [hop]
  cases req with
  | get =>
    refine storageGet_wellFormed hsupports fun r _ v hv => ?_
    obtain ⟨-, -, hv⟩ := Option.bind_eq_some_iff.mp hv
    exact hformats v hv
  | set value => exact storageSet_wellFormed hsupports (hformats value rfl)
  | del =>
    simp only [storageDel, show storage.hasSet = true from htests,
      show storage.hasDel = true from hsupports, Bool.not_true, Bool.false_eq_true, if_false]
    rfl

/-- A storage call that is not a fault: it is refused, or the callback ran, and if there was a
reply the value could be formatted. -/
theorem callStorage_cases {env : StorageEnv σ} {w : σ} {x : Option (σ × IoResult)}
    (h : callStorage env inp f storage w = .ok x) :
    (storage.tests req = false ∧ x = some (w, .error EOPNOTSUPP)) ∨
      (storage.tests req = true ∧ storage.supports req = true ∧
        env.callback req storage.priv f.key inp w = x ∧
        (x ≠ none → ∀ v ∈ req.formats inp, v.WellFormed)) := by
  cases htests : storage.tests req with
  | false =>
    rw [callStorage_refused hop htests] at h
    exact .inl ⟨rfl, (Except.ok.inj h).symm⟩
  | true =>
    refine .inr ⟨rfl, ?_⟩
    unfold callStorage at h
    rw [hop] at h
    cases req with
    | get =>
      rcases storageGet_ok h with ⟨hnone, -⟩ | ⟨hcall, hformats⟩
      · cases hnone.symm.trans htests
      · refine ⟨htests, Except.ok.inj hcall, fun hx v hv => hformats v ?_⟩
        obtain ⟨r, rfl⟩ := Option.ne_none_iff_exists'.mp hx
        exact hv
    | set value =>
      rcases storageSet_ok h with ⟨hnone, -⟩ | ⟨hvalue, hcall⟩
      · cases hnone.symm.trans htests
      · refine ⟨htests, Except.ok.inj hcall, fun _ v hv => ?_⟩
        cases hv
        exact hvalue
    | del =>
      have hset : storage.hasSet = true := htests
      cases hdel : storage.hasDel with
      | false =>
        -- the callback is not the one that was tested
        simp only [storageDel, hset, hdel] at h
        cases h
      | true =>
        simp only [storageDel, hset, hdel] at h
        exact ⟨hdel, Except.ok.inj h, fun _ => nofun⟩

/-- The faults of a storage call: the callback is not the one that was tested, or the value is
one that cannot be formatted. -/
theorem callStorage_error {env : StorageEnv σ} {w : σ} {e : Fault}
    (h : callStorage env inp f storage w = .error e) :
    storage.tests req = true ∧
      (storage.supports req = false ∨ ∃ v ∈ req.formats inp, ¬ v.WellFormed) := by
  cases htests : storage.tests req with
  | false =>
    rw [callStorage_refused hop htests] at h
    cases h
  | true =>
    refine ⟨rfl, or_iff_not_imp_left.mpr fun hsupports => ?_⟩
    by_contra hformats
    push Not at hformats
    rw [callStorage_runs hop htests (by simpa using hsupports) hformats] at h
    cases h

end StorageCall

/-! ## What a call owes -/

section Call

variable [DecidableEq ι]

/-- What a call owes where the callback of its request is there: in one of its steps the
storage function runs this callback, whatever it does, and what it replies is returned. -/
def AnsweredCall (env : StorageEnv σ) (req : IoRequest) (storage : StorageCtx)
    (steps : List (CallStep σ ι)) (out : Except Fault IoResult) : Prop :=
  ∃ s ∈ steps, ∃ w r, s.frame.pc = .storage ∧
    s.frame.target s.node.shared.route = .ok storage ∧
    (∀ env' : StorageEnv σ, callStorage env' s.inp s.frame storage s.node.shared.world =
      .ok (env'.callback req storage.priv s.frame.key s.inp s.node.shared.world)) ∧
    env.callback req storage.priv s.frame.key s.inp s.node.shared.world = some (w, r) ∧ out = .ok r

/-- The named mutex of the key can be created. -/
def MutexProvided (steps : List (CallStep σ ι)) : Prop :=
  ∀ s ∈ steps, s.frame.pc = .lock → s.inp.alloc.lock = true

/-- The value of the storage call can be formatted. -/
def ValueFormatted (req : IoRequest) (steps : List (CallStep σ ι)) : Prop :=
  ∀ s ∈ steps, s.frame.pc = .storage → ∀ v ∈ req.formats s.inp, v.WellFormed

/-- Where `del` is called the storage has `set` and `del` or neither, the named mutex of the
key can be created, the value a callback that is there takes or gives can be formatted, and
`cache_set` does not get an item whose key it cannot copy. -/
structure Provided (req : IoRequest) (storage : StorageCtx) (steps : List (CallStep σ ι)) :
    Prop where
  callbacks : req = .del → storage.hasSet = storage.hasDel
  mutex : MutexProvided steps
  value : storage.supports req = true → ValueFormatted req steps
  item : ∀ s ∈ steps, ∀ x, s.frame.pc = .cacheStore (some x) → s.node.shared.cache ≠ none →
    s.inp.alloc.set.item = true → s.inp.alloc.set.key = true

end Call

/-! ## Where a call stands -/

variable {env : StorageEnv σ} {t : ι} {req : IoRequest} {key : CString} {storage : StorageCtx}

variable (env req storage) in
/-- The storage function ran the callback, and its reply is `ret`. -/
structure Answering (steps : List (CallStep σ ι)) (ret : IoResult) : Prop where
  tests : storage.tests req = true
  supports : storage.supports req = true
  mutex : MutexProvided steps
  value : ValueFormatted req steps
  answer : AnsweredCall env req storage steps (.ok ret)

variable (env req storage) in
/-- How a call that was routed to the storage came to its cleanup: without the named mutex,
refused by the storage function, or with the reply of the callback. -/
inductive CameTo (steps : List (CallStep σ ι)) (ret : IoResult) : Prop
  | failed (hret : ret = .error ENOMEM) (hmutex : ¬ MutexProvided steps)
      (hnone : ∀ s ∈ steps, s.frame.pc ≠ .storage)
  | refused (hret : ret = .error EOPNOTSUPP) (htests : storage.tests req = false)
      (hmutex : MutexProvided steps)
      (hsteps : ∀ s ∈ steps, (∀ x, s.frame.pc ≠ .cacheStore x) ∧
        (s.frame.pc = .storage → s.frame.target s.node.shared.route = .ok storage))
  | answered (h : Answering env req storage steps ret)

variable (env req storage) in
/-- Where a call stands that was routed to the storage. -/
def Seen (steps : List (CallStep σ ι)) (f : IoFrame) : Prop :=
  match f.pc with
  | .entry | .routeMatch => False
  | .lock | .storage => (∀ s ∈ steps, 5 ≤ s.frame.pc.left) ∧ MutexProvided steps
  | .cacheStore _ => Answering env req storage steps f.ret
  | .unlock | .deref | .done => CameTo env req storage steps f.ret

section Append

variable {steps : List (CallStep σ ι)} {s : CallStep σ ι} {out : Except Fault IoResult}

theorem mutexProvided_append : MutexProvided (steps ++ [s]) ↔
    MutexProvided steps ∧ (s.frame.pc = .lock → s.inp.alloc.lock = true) := by
  simp only [MutexProvided, List.forall_mem_append, List.forall_mem_singleton]

/-- A step outside the lock. -/
theorem MutexProvided.append (h : MutexProvided steps) (hpc : s.frame.pc ≠ .lock) :
    MutexProvided (steps ++ [s]) :=
  mutexProvided_append.mpr ⟨h, fun hlock => absurd hlock hpc⟩

theorem AnsweredCall.append (h : AnsweredCall env req storage steps out) :
    AnsweredCall env req storage (steps ++ [s]) out := by
  obtain ⟨s', hs', rest⟩ := h
  exact ⟨s', List.mem_append_left _ hs', rest⟩

theorem Answering.append {ret : IoResult} (h : Answering env req storage steps ret)
    (hpc : s.frame.pc ≠ .lock) (hstorage : s.frame.pc ≠ .storage) :
    Answering env req storage (steps ++ [s]) ret :=
  ⟨h.tests, h.supports, h.mutex.append hpc, List.forall_mem_append.mpr
    ⟨h.value, List.forall_mem_singleton.mpr fun hs => absurd hs hstorage⟩, h.answer.append⟩

/-- The cleanup changes nothing of how it was come to. -/
theorem CameTo.append {ret : IoResult} (h : CameTo env req storage steps ret)
    (hpc : s.frame.pc = .unlock ∨ s.frame.pc = .deref) :
    CameTo env req storage (steps ++ [s]) ret := by
  have hlock : s.frame.pc ≠ .lock := by
    rcases hpc with hpc | hpc <;> rw [hpc] <;> nofun
  cases h with
  | failed hret hmutex hnone =>
    refine .failed hret (fun h => hmutex (mutexProvided_append.mp h).1) ?_
    refine List.forall_mem_append.mpr ⟨hnone, List.forall_mem_singleton.mpr ?_⟩
    rcases hpc with hpc | hpc <;> rw [hpc] <;> nofun
  | refused hret htests hmutex hsteps =>
    refine .refused hret htests (hmutex.append hlock) ?_
    refine List.forall_mem_append.mpr ⟨hsteps, List.forall_mem_singleton.mpr ?_⟩
    rcases hpc with hpc | hpc <;> rw [hpc] <;> exact ⟨nofun, nofun⟩
  | answered h =>
    refine .answered (h.append hlock ?_)
    rcases hpc with hpc | hpc <;> rw [hpc] <;> nofun

end Append

/-- The storage call of a call that was routed to the storage. -/
theorem Seen.storageCall {steps : List (CallStep σ ι)} {n : Node σ ι} {f : IoFrame} {inp : Inputs}
    {w : σ} {r : IoResult} (h : Seen env req storage steps f) (hop : f.op = .request req)
    (hpc : f.pc = .storage) (ht : f.target n.shared.route = .ok storage)
    (hcall : callStorage env inp f storage n.shared.world = .ok (some (w, r))) :
    (storage.tests req = false ∧ r = .error EOPNOTSUPP ∧
      CameTo env req storage (steps ++ [⟨n, inp, f⟩]) r) ∨
      Answering env req storage (steps ++ [⟨n, inp, f⟩]) r := by
  simp only [Seen, hpc] at h
  have hmutex : MutexProvided (steps ++ [⟨n, inp, f⟩]) := h.2.append (by simp [hpc])
  -- a call that is not past its storage call has not come to it, nor written the cache
  have hbefore : ∀ s ∈ steps, s.frame.pc ≠ .storage := by
    intro s hs hst
    have hleft := h.1 s hs
    rw [hst] at hleft
    exact absurd hleft (by decide)
  rcases callStorage_cases hop hcall with ⟨htests, hx⟩ | ⟨htests, hsupports, hx, hformats⟩
  · cases hx
    refine .inl ⟨htests, rfl, .refused rfl htests hmutex ?_⟩
    refine List.forall_mem_append.mpr
      ⟨fun s hs => ⟨fun x hx => ?_, fun hst => absurd hst (hbefore s hs)⟩,
        List.forall_mem_singleton.mpr ⟨?_, fun _ => ht⟩⟩
    · have hleft := h.1 s hs
      rw [hx] at hleft
      exact absurd hleft (by simp [IoPc.left])
    · simp [hpc]
  · have hvalue : ∀ v ∈ req.formats inp, v.WellFormed := hformats (by simp)
    refine .inr ⟨htests, hsupports, hmutex, ?_, _,
      List.mem_append_right _ (List.mem_singleton_self _), w, r, hpc, ht,
      fun env' => callStorage_runs hop htests hsupports hvalue env' _, hx, rfl⟩
    exact List.forall_mem_append.mpr ⟨fun s hs hst => absurd hst (hbefore s hs),
      List.forall_mem_singleton.mpr fun _ => hvalue⟩

/-- A call that gets its lock got the named mutex of its key. -/
theorem ioStep_mutex {inp : Inputs} {sh sh' : Shared σ ι} {f f' : IoFrame}
    (h : ioStep env t inp sh f = some (.ok (sh', f'))) (hpc : f.pc = .lock)
    (hpc' : f'.pc = .storage) : inp.alloc.lock = true := by
  cases ha : inp.alloc.lock with
  | true => rfl
  | false =>
    simp only [ioStep, hpc, lockStep, ha, Bool.not_false, if_true] at h
    cases h
    cases hpc'

/-- A step of a call that was routed to the storage. -/
theorem Seen.step {steps : List (CallStep σ ι)} {n : Node σ ι} {f f' : IoFrame} {inp : Inputs}
    {sh : Shared σ ι} (h : Seen env req storage steps f) (hop : f.op = .request req)
    (htarget : f.pc = .storage → f.target n.shared.route = .ok storage)
    (hs : ioStep env t inp n.shared f = some (.ok (sh, f'))) :
    Seen env req storage (steps ++ [⟨n, inp, f⟩]) f' := by
  have halloc := ioStep_mutex hs
  have hstep := ioStep_cases hs
  clear hs
  cases hstep with
  | hit hpc | miss hpc | noCache hpc | hasCache hpc | unmatched hpc | matched hpc =>
    simp only [Seen, hpc] at h
  | lockFailed hpc ha =>
    simp only [Seen, hpc] at h
    refine .failed rfl (fun hmutex => ?_) ?_
    · have hlock := (mutexProvided_append.mp hmutex).2 hpc
      rw [ha] at hlock
      cases hlock
    · refine List.forall_mem_append.mpr ⟨fun s hs hst => ?_, List.forall_mem_singleton.mpr ?_⟩
      · have hleft := h.1 s hs
        rw [hst] at hleft
        exact absurd hleft (by decide)
      · rw [hpc]
        nofun
  | locked hpc hfree =>
    simp only [Seen, hpc] at h
    refine ⟨List.forall_mem_append.mpr ⟨h.1, List.forall_mem_singleton.mpr ?_⟩,
      mutexProvided_append.mpr ⟨h.2, fun _ => halloc hpc rfl⟩⟩
    rw [hpc]
    decide
  | storageFailed hpc ht hcall =>
    cases (htarget hpc).symm.trans ht
    rcases h.storageCall hop hpc ht hcall with ⟨-, -, hcame⟩ | hans
    · exact hcame
    · exact .answered hans
  | @storageOk _ w x hpc ht hcall =>
    cases (htarget hpc).symm.trans ht
    rcases h.storageCall hop hpc ht hcall with ⟨-, hr, -⟩ | hans
    · cases hr
    · -- the reply goes to the cache first, where there is one
      cases hcache : n.shared.cache with
      | none => simpa [Seen, hcache] using CameTo.answered hans
      | some c => simpa [Seen, hcache] using hans
  | stored hpc =>
    simp only [Seen, hpc] at h
    exact .answered (h.append (by rw [hpc]; nofun) (by rw [hpc]; nofun))
  | dropped hpc =>
    simp only [Seen, hpc] at h
    exact .answered (h.append (by rw [hpc]; nofun) (by rw [hpc]; nofun))
  | unlocked hpc =>
    simp only [Seen, hpc] at h
    exact h.append (.inl hpc)
  | noKey hpc =>
    simp only [Seen, hpc] at h
    exact h.append (.inl hpc)
  | dereffed hpc =>
    simp only [Seen, hpc] at h
    exact h.append (.inr hpc)
  | noStorage hpc =>
    simp only [Seen, hpc] at h
    exact h.append (.inr hpc)

/-- A step that is not a storage call, or whose storage refuses, runs no callback. -/
theorem ioStep_env {inp : Inputs} {sh : Shared σ ι} {f : IoFrame} (hop : f.op = .request req)
    (hrefuse : f.pc = .storage → ∃ storage, f.target sh.route = .ok storage ∧
      storage.tests req = false) (env env' : StorageEnv σ) :
    ioStep env' t inp sh f = ioStep env t inp sh f := by
  unfold ioStep
  split
  case h_4 hpc =>
    obtain ⟨storage, ht, htests⟩ := hrefuse hpc
    simp only [storageStep, ht, callStorage_refused hop htests]
  all_goals rfl

/-- `cache_set` faults exactly where it gets an item and cannot copy its key. -/
theorem cacheFill_faults_iff {cache : Option Cache} {value : Value} {duration now : Timestamp}
    {a : SetAlloc} : (∃ e, cacheFill cache key value duration now a = .error e) ↔
      cache ≠ none ∧ a.item = true ∧ a.key = false := by
  cases cache with
  | none => simp [cacheFill]
  | some c =>
    cases hitem : a.item with
    | false => simp [cacheFill, Cache.cacheSet, itemCreate, hitem]
    | true =>
      cases hkey : a.key with
      | false => simp [cacheFill, Cache.cacheSet, itemCreate, hitem, hkey]
      | true =>
        refine iff_of_false ?_ (by simp)
        rintro ⟨e, he⟩
        simp only [cacheFill, Cache.cacheSet, itemCreate, hitem, hkey] at he
        cases hvalue : a.value with
        | false => simp [hvalue] at he
        | true =>
          simp only [hvalue, Bool.not_true, Bool.false_eq_true, if_false] at he
          cases htree : c.tree key with
          | none => simp [htree] at he
          | some old => cases hr : a.replacement <;> simp [htree, hr] at he

/-- The faults of a call past the cache: its storage function tests another callback than the
one it calls, or formats a value that cannot be, or `cache_set` cannot copy its key. -/
theorem ioStep_faults {inp : Inputs} {sh : Shared σ ι} {f : IoFrame} {e : Fault}
    (hop : f.op = .request req) (hentry : f.pc ≠ .entry)
    (htarget : f.pc = .storage → f.target sh.route = .ok storage)
    (hlive : ∀ addr, f.ctx.storage = some addr → f.pc = .deref →
      ∃ item, sh.route.itemAt addr = some item)
    (h : ioStep env t inp sh f = some (.error e)) :
    (f.pc = .storage ∧ storage.tests req = true ∧
      (storage.supports req = false ∨ ∃ v ∈ req.formats inp, ¬ v.WellFormed)) ∨
      ∃ x, f.pc = .cacheStore (some x) ∧ sh.cache ≠ none ∧ inp.alloc.set.item = true ∧
        inp.alloc.set.key = false := by
  unfold ioStep at h
  split at h
  case h_1 hpc => exact absurd hpc hentry
  case h_2 => cases h
  case h_3 => cases hlock : lockStep t inp sh f <;> rw [hlock] at h <;> cases h
  case h_4 hpc =>
    refine .inl ⟨hpc, ?_⟩
    simp only [storageStep, htarget hpc] at h
    split at h
    · rename_i hcall
      exact callStorage_error hop hcall
    all_goals cases h
  case h_5 item hpc =>
    cases item with
    | none => cases h
    | some x =>
      obtain ⟨value, duration⟩ := x
      simp only [cacheStoreStep] at h
      split at h
      · rename_i e' hfill
        exact .inr ⟨_, hpc, cacheFill_faults_iff.mp ⟨e', hfill⟩⟩
      · cases h
  case h_6 => cases h
  case h_7 hpc =>
    obtain ⟨addr, haddr, hnone⟩ := derefStep_fault (Option.some.inj h)
    obtain ⟨item, hitem⟩ := hlive addr haddr hpc
    rw [hnone] at hitem
    cases hitem
  case h_8 => cases h

/-! ## Every step of a node keeps it -/

variable [DecidableEq ι]

variable (env req storage) in
/-- How far a call is: it has not matched a route, or is not routed to the storage, or is. -/
inductive Stage (steps : List (CallStep σ ι)) (n : Node σ ι) (f : IoFrame) : Prop
  | early (hpc : f.pc = .entry ∨ f.pc = .routeMatch) (hearly : ∀ s ∈ steps, s.frame.pc = .entry)
  | elsewhere (hpc : f.pc.left ≤ 5) (hnot : ¬ RoutedTo steps storage)
  | routed {addr : ℕ} (hpc : f.pc.left ≤ 5) (hctx : f.ctx.storage = some addr)
      (hlive : f.pc ≠ .done →
        ∃ item, n.shared.route.itemAt addr = some item ∧ item.storage = storage)
      (hseen : Seen env req storage steps f)

variable (env t req key storage) in
/-- The call of thread `t`, between its steps and those of the other threads. -/
structure CallInv (tr : List (Node σ ι × Action ι)) (n : Node σ ι) (f : IoFrame) : Prop where
  frame : n.tasks t = .io f
  op : f.op = .request req
  key : f.key = key
  ops : ∀ s ∈ ownSteps t tr, s.frame.op = .request req
  left : (ownSteps t tr).length + f.pc.left ≤ 7
  stage : Stage env req storage (ownSteps t tr) n f

/-- A call that starts. -/
theorem CallInv.start (n₀ : Node σ ι) :
    CallInv env t req key storage [] (n₀.withTask t (.io (.start (.request req) key)))
      (.start (.request req) key) where
  frame := Function.update_self ..
  op := rfl
  key := rfl
  ops := List.forall_mem_nil _
  left := by cases req <;> simp [ownSteps, IoFrame.start, IoPc.left]
  stage := by
    refine .early ?_ (List.forall_mem_nil _)
    cases req with
    | get => exact .inl rfl
    | set value => exact .inr rfl
    | del => exact .inr rfl

section Run

variable [Fintype ι] {tr : List (Node σ ι × Action ι)} {n n' : Node σ ι} {f f' : IoFrame}

/-- Whatever another thread does, the item of the call keeps its storage. -/
theorem Stage.other {steps : List (CallStep σ ι)} (h : Stage env req storage steps n f)
    (href : n.RefInv) {a : Action ι} (hs : NodeStep env n a n') (hf : n'.tasks t = .io f) :
    Stage env req storage steps n' f := by
  cases h with
  | early hpc hearly => exact .early hpc hearly
  | elsewhere hpc hnot => exact .elsewhere hpc hnot
  | routed hpc hctx hlive hseen =>
    refine .routed hpc hctx (fun hdone => ?_) hseen
    obtain ⟨item, hitem, hst⟩ := hlive hdone
    obtain ⟨it, hit, hsame⟩ :=
      hs.item_of_held href ((Node.held_of_io hf hdone).trans hctx) hitem
    exact ⟨it, hit, hsame.trans hst⟩

/-- A step of the call itself. -/
theorem Stage.own {steps : List (CallStep σ ι)} {inp : Inputs} {sh : Shared σ ι}
    (h : Stage env req storage steps n f) (href : n.RefInv)
    (hop : f.op = .request req) (hs : ioStep env t inp n.shared f = some (.ok (sh, f')))
    (hn : NodeStep env n (.step t inp) n') (hf' : n'.tasks t = .io f') :
    Stage env req storage (steps ++ [⟨n, inp, f⟩]) n' f' := by
  have hstep := ioStep_cases hs
  have hleft := hstep.left_lt
  cases h with
  | elsewhere hpc hnot =>
    refine .elsewhere (by omega) fun hr => hnot (hr.of_append fun hm => ?_)
    rw [hm] at hpc
    exact absurd hpc (by decide)
  | @routed addr hpc hctx hlive hseen =>
    have hmatch : f.pc ≠ .routeMatch := by
      intro hm
      rw [hm] at hpc
      exact absurd hpc (by decide)
    have hctx' : f'.ctx.storage = some addr := (hstep.keeps_storage hmatch).trans hctx
    have hdone : f.pc ≠ .done := by
      intro hdone
      rw [hdone] at hleft
      exact absurd hleft (Nat.not_lt_zero _)
    obtain ⟨item, hitem, rfl⟩ := hlive hdone
    refine .routed (by omega) hctx' (fun hdone' => ?_)
      (hseen.step hop (fun _ => IoFrame.target_item hop hctx hitem) hs)
    exact hn.item_of_held href ((Node.held_of_io hf' hdone').trans hctx') hitem
  | early hpc hearly =>
    have hpc' : f.pc.left = 7 ∨ f.pc.left = 6 := hpc.imp (congrArg _) (congrArg _)
    cases hstep with
    | hit hentry =>
      refine .elsewhere (Nat.zero_le _) fun hr => not_routedTo hearly (hr.of_append ?_)
      simp [hentry]
    | miss hentry =>
      exact .early (.inr rfl)
        (List.forall_mem_append.mpr ⟨hearly, List.forall_mem_singleton.mpr hentry⟩)
    | noCache _ hup => cases hop.symm.trans hup
    | hasCache _ hup => cases hop.symm.trans hup
    | unmatched hmatch hm =>
      refine .elsewhere (by simp [IoPc.left]) fun hr => ?_
      obtain ⟨route, item, hm', -⟩ := hr.of_early hearly
      cases hm.symm.trans hm'
    | @matched item hmatch hm =>
      by_cases hst : item.storage = storage
      · have hmem := List.mem_of_find?_eq_some (routeMatch_ok hm).1
        have hheld : (n'.tasks t).held = some item.addr := Node.held_of_io hf' (by simp)
        subst hst
        refine .routed (by simp [IoPc.left]) rfl
          (fun _ => hn.item_of_held href hheld (RouteList.itemAt_of_mem href.order hmem)) ⟨?_, ?_⟩
        · refine List.forall_mem_append.mpr ⟨fun s hs => ?_, List.forall_mem_singleton.mpr ?_⟩
          · rw [hearly s hs]
            decide
          · rw [hmatch]
            decide
        · refine MutexProvided.append (fun s hs hlock => ?_) (by simp [hmatch])
          rw [hearly s hs] at hlock
          cases hlock
      · refine .elsewhere (by simp [IoPc.left]) fun hr => hst ?_
        obtain ⟨route, item', hm', rfl⟩ := hr.of_early hearly
        cases hm.symm.trans hm'
        rfl
    | lockFailed h | locked h | storageFailed h | storageOk h | stored h | dropped h | unlocked h
    | noKey h | dereffed h | noStorage h =>
      rw [h] at hpc'
      exact absurd hpc' (by simp [IoPc.left])

/-- Every step of a node keeps the invariant of a call that is under way. -/
theorem CallInv.step {a : Action ι} (h : CallInv env t req key storage tr n f) (href : n.RefInv)
    (ha : a.thread = some t → ∃ inp, a = .step t inp) (hs : nodeStep env n a = some (.ok n')) :
    ∃ f', CallInv env t req key storage (tr ++ [(n, a)]) n' f' := by
  have hn := nodeStep_cases hs
  by_cases hthread : a.thread = some t
  · obtain ⟨inp, rfl⟩ := ha hthread
    rw [nodeStep_io h.frame] at hs
    obtain ⟨r, hr, hmap⟩ := Option.map_eq_some_iff.mp hs
    obtain ⟨⟨sh, f'⟩, rfl, rfl⟩ := exceptMap_ok hmap
    have hstep := ioStep_cases hr
    have hf' : (n.withTask t (.io f')).tasks t = .io f' := Function.update_self ..
    refine ⟨f', hf', hstep.same_call.1.trans h.op, hstep.same_call.2.trans h.key, ?_, ?_, ?_⟩
    · rw [ownSteps_append_own h.frame]
      exact List.forall_mem_append.mpr ⟨h.ops, List.forall_mem_singleton.mpr h.op⟩
    · have hlt := hstep.left_lt
      have hleft := h.left
      rw [ownSteps_append_own h.frame, List.length_append, List.length_singleton]
      omega
    · rw [ownSteps_append_own h.frame]
      exact h.stage.own href h.op hr hn hf'
  · -- the steps of the call are those so far
    have hf' : n'.tasks t = .io f := (hn.tasks_of_ne hthread).trans h.frame
    refine ⟨f, hf', h.op, h.key, ?_, ?_, ?_⟩
    · rw [ownSteps_append_other hthread]
      exact h.ops
    · rw [ownSteps_append_other hthread]
      exact h.left
    · rw [ownSteps_append_other hthread]
      exact h.stage.other href hn hf'

/-- **A refused call is quiet**, step by step. -/
theorem CallStep.quiet {s : CallStep σ ι} (href : s.node.RefInv) (hlock : s.node.LockInv)
    (hf : s.node.tasks t = .io s.frame) (hop : s.frame.op = .request req)
    (hstore : ∀ x, s.frame.pc ≠ .cacheStore x)
    (hrefuse : s.frame.pc = .storage → ∃ storage,
      s.frame.target s.node.shared.route = .ok storage ∧ storage.tests req = false)
    {m : Node σ ι} (hs : nodeStep env s.node (.step t s.inp) = some (.ok m)) : s.Quiet t := by
  refine ⟨m, fun env' => ?_, ?_⟩
  · rw [nodeStep_io hf, ioStep_env hop hrefuse env env', ← nodeStep_io hf, hs]
  · rw [nodeStep_io hf] at hs
    obtain ⟨r, hr, hmap⟩ := Option.map_eq_some_iff.mp hs
    obtain ⟨⟨sh, f'⟩, rfl, rfl⟩ := exceptMap_ok hmap
    have hframe : (s.node.tasks t).frame = some s.frame := by rw [hf]; rfl
    have hstep := ioStep_cases hr
    rw [Node.besides_step hf ((href.taskOk t).frame hframe) (hlock.keyOk t _ hframe) hstep]
    -- neither the cache nor the world is touched
    suffices hsame : sh.cache = s.node.shared.cache ∧ sh.world = s.node.shared.world by
      rw [hsame.1, hsame.2]
      rfl
    clear hmap hr hs
    cases hstep with
    | storageFailed hpc ht hcall =>
      obtain ⟨storage, ht', htests⟩ := hrefuse hpc
      cases ht'.symm.trans ht
      rw [callStorage_refused hop htests] at hcall
      cases hcall
      exact ⟨rfl, rfl⟩
    | storageOk hpc ht hcall =>
      obtain ⟨storage, ht', htests⟩ := hrefuse hpc
      cases ht'.symm.trans ht
      rw [callStorage_refused hop htests] at hcall
      cases hcall
    | stored hpc => exact absurd hpc (hstore _)
    | dropped hpc => exact absurd hpc (hstore _)
    | _ => exact ⟨rfl, rfl⟩

omit [Fintype ι] in
/-- A routed call, as its invariant has it. -/
theorem CallInv.routed (h : CallInv env t req key storage tr n f)
    (hr : RoutedTo (ownSteps t tr) storage) :
    f.pc.left ≤ 5 ∧ Seen env req storage (ownSteps t tr) f ∧
      ∃ addr, f.ctx.storage = some addr ∧ (f.pc ≠ .done →
        ∃ item, n.shared.route.itemAt addr = some item ∧ item.storage = storage) := by
  cases h.stage with
  | early hpc hearly => exact absurd hr (not_routedTo hearly)
  | elsewhere hpc hnot => exact absurd hr hnot
  | routed hpc hctx hlive hseen => exact ⟨hpc, hseen, _, hctx, hlive⟩

omit [Fintype ι] in
/-- At its storage call it has the storage for target. -/
theorem CallInv.target (h : CallInv env t req key storage tr n f)
    (hr : RoutedTo (ownSteps t tr) storage) (hpc : f.pc = .storage) :
    f.target n.shared.route = .ok storage := by
  obtain ⟨-, -, addr, hctx, hlive⟩ := h.routed hr
  obtain ⟨item, hitem, rfl⟩ := hlive (by rw [hpc]; nofun)
  exact IoFrame.target_item h.op hctx hitem

omit [Fintype ι] in
/-- A call that faults. -/
theorem CallInv.faulted (hinv : CallInv env t req key storage tr n f)
    (hr : RoutedTo (ownSteps t tr) storage) {inp : Inputs} {e : Fault}
    (hfault : nodeStep env n (.step t inp) = some (.error e)) :
    ¬ Provided req storage (ownSteps t tr ++ [⟨n, inp, f⟩]) := by
  intro hp
  obtain ⟨hpc, -, addr, hctx, hlive⟩ := hinv.routed hr
  have hentry : f.pc ≠ .entry := by
    intro he
    rw [he] at hpc
    exact absurd hpc (by decide)
  rw [nodeStep_io hinv.frame] at hfault
  obtain ⟨r, hr', hmap⟩ := Option.map_eq_some_iff.mp hfault
  cases r with
  | ok x => cases hmap
  | error e' =>
    have hfaults := ioStep_faults hinv.op hentry (hinv.target hr) (fun addr' haddr hderef => by
      cases hctx.symm.trans haddr
      obtain ⟨item, hitem, -⟩ := hlive (by rw [hderef]; nofun)
      exact ⟨item, hitem⟩) hr'
    rcases hfaults with ⟨hstorage, htests, hwhy⟩ | ⟨x, hstore, hcache, hitem, hkey⟩
    · have hsupports := (StorageCtx.tests_eq_supports.mpr hp.callbacks).symm.trans htests
      rcases hwhy with hmissing | ⟨v, hv, hbad⟩
      · rw [hsupports] at hmissing
        cases hmissing
      · exact hbad (hp.value hsupports _
          (List.mem_append_right _ (List.mem_singleton_self _)) hstorage v hv)
    · have hcopied := hp.item _ (List.mem_append_right _ (List.mem_singleton_self _)) x hstore
        hcache hitem
      rw [hkey] at hcopied
      cases hcopied

end Run

section Example

end Example

end Propd
