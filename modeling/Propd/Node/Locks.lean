import Propd.Node.Provenance

/-!
# The key locks of a node

Who has the lock of a key, and what the item of a call is for. An io function locks its own key
and no other, past `route_match` and before its storage call, so the holder of a lock is a call
for this key that is past the lock; and the item it calls serves the key.

Both hold over every run of a node, whatever else its threads do.
-/

namespace Propd

open Lib

variable {σ ι : Type} {env : StorageEnv σ}

/-! ## Frames -/

/-- A call has locked nothing before its lock step, and then no key but its own. -/
structure KeyOk (f : IoFrame) : Prop where
  early : f.pc = .entry ∨ f.pc = .routeMatch ∨ f.pc = .lock → f.ctx.key = none
  own : ∀ key, f.ctx.key = some key → key = f.key

/-- What a step of a frame of thread `t` does to the locks: nothing, or it takes the lock of its
key, or it gives it back. -/
inductive LockEffect (t : ι) (sh sh' : Shared σ ι) (f f' : IoFrame) : Prop
  | quiet (hlocks : sh'.locks = sh.locks) (hlocked : f'.locked = f.locked)
  | take (hfree : sh.locks f.key = none) (hbefore : f.locked = none) (hafter : f'.locked = some f.key)
      (hlocks : sh'.locks = Function.update sh.locks f.key (some t))
  | drop {key : CString} (hbefore : f.locked = some key) (hafter : f'.locked = none)
      (hlocks : sh'.locks = Function.update sh.locks key none)

theorem KeyOk.start (op : IoOp) (key : CString) : KeyOk (.start op key) where
  early _ := rfl
  own _ h := nomatch h

/-- Past the lock a frame only has to keep its key. -/
theorem KeyOk.past {f f' : IoFrame} (h : KeyOk f) (hkey : f'.key = f.key)
    (hctx : f'.ctx.key = f.ctx.key)
    (hpc : f'.pc ≠ .entry ∧ f'.pc ≠ .routeMatch ∧ f'.pc ≠ .lock) : KeyOk f' where
  early := by
    rintro (he | he | he)
    · exact absurd he hpc.1
    · exact absurd he hpc.2.1
    · exact absurd he hpc.2.2
  own key hsome := by
    rw [hkey]
    exact h.own key (hctx.symm.trans hsome)

/-- A step keeps a frame in order. -/
theorem KeyOk.step {t : ι} {inp : Inputs} {sh sh' : Shared σ ι} {f f' : IoFrame} (h : KeyOk f)
    (hs : IoStep env t inp sh f sh' f') : KeyOk f' := by
  cases hs with
  | miss hpc => exact ⟨fun _ => h.early (.inl hpc), h.own⟩
  | hasCache hpc => exact ⟨fun _ => h.early (.inl hpc), h.own⟩
  | matched hpc => exact ⟨fun _ => h.early (.inr (.inl hpc)), h.own⟩
  | locked hpc =>
    refine ⟨?_, fun key hkey => (Option.some.inj hkey).symm⟩
    rintro (he | he | he)
    · cases he
    · cases he
    · cases he
  | storageOk hpc =>
    refine h.past rfl rfl ?_
    split
    · exact ⟨nofun, nofun, nofun⟩
    · exact ⟨nofun, nofun, nofun⟩
  | _ => exact h.past rfl rfl ⟨nofun, nofun, nofun⟩

theorem KeyOk.cancel {f : IoFrame} (h : KeyOk f) :
    KeyOk { f with pc := .unlock, cancelled := true } :=
  h.past rfl rfl ⟨nofun, nofun, nofun⟩

/-- A key that is locked was put into the cleanup context. -/
theorem IoFrame.key_of_locked {f : IoFrame} {key : CString} (h : f.locked = some key) :
    f.ctx.key = some key := by
  unfold IoFrame.locked at h
  split at h
  · cases h
  · exact h

/-- **The locks of a step**: it takes the lock of its own key, or gives back the one it has. -/
theorem KeyOk.lockEffect {t : ι} {inp : Inputs} {sh sh' : Shared σ ι} {f f' : IoFrame}
    (h : KeyOk f) (hs : IoStep env t inp sh f sh' f') : LockEffect t sh sh' f f' := by
  -- between the lock and its release the context says what is locked
  have hmid : ∀ g : IoFrame, (f.pc ≠ .deref ∧ f.pc ≠ .done) → (g.pc ≠ .deref ∧ g.pc ≠ .done) →
      g.ctx.key = f.ctx.key → g.locked = f.locked := by
    intro g hf hg hctx
    rw [IoFrame.locked_of_pc hf, IoFrame.locked_of_pc hg, hctx]
  have hentry : f.pc = .entry → f.locked = none := by
    intro hpc
    rw [IoFrame.locked_of_pc (by rw [hpc]; exact ⟨nofun, nofun⟩), h.early (.inl hpc)]
  cases hs with
  | hit hpc => exact .quiet rfl ((IoFrame.locked_of_over (.inr rfl)).trans (hentry hpc).symm)
  | noCache hpc => exact .quiet rfl ((IoFrame.locked_of_over (.inr rfl)).trans (hentry hpc).symm)
  | locked hpc hfree =>
    refine .take hfree ?_ rfl rfl
    rw [IoFrame.locked_of_pc (by rw [hpc]; exact ⟨nofun, nofun⟩), h.early (.inr (.inr hpc))]
  | storageOk hpc =>
    refine .quiet rfl (hmid _ (by rw [hpc]; exact ⟨nofun, nofun⟩) ?_ rfl)
    split
    · exact ⟨nofun, nofun⟩
    · exact ⟨nofun, nofun⟩
  | unlocked hpc hkey =>
    exact .drop ((IoFrame.locked_of_pc (by rw [hpc]; exact ⟨nofun, nofun⟩)).trans hkey)
      (IoFrame.locked_of_over (.inl rfl)) rfl
  | noKey hpc hkey =>
    refine .quiet rfl ((IoFrame.locked_of_over (.inl rfl)).trans ?_)
    rw [IoFrame.locked_of_pc (by rw [hpc]; exact ⟨nofun, nofun⟩), hkey]
  | dereffed hpc =>
    exact .quiet rfl ((IoFrame.locked_of_over (.inr rfl)).trans
      (IoFrame.locked_of_over (.inl hpc)).symm)
  | noStorage hpc =>
    exact .quiet rfl ((IoFrame.locked_of_over (.inr rfl)).trans
      (IoFrame.locked_of_over (.inl hpc)).symm)
  | miss hpc | hasCache hpc | unmatched hpc | matched hpc | lockFailed hpc | storageFailed hpc
  | stored hpc | dropped hpc =>
    exact .quiet rfl (hmid _ (by rw [hpc]; exact ⟨nofun, nofun⟩) ⟨nofun, nofun⟩ rfl)

/-! ## The invariant of the locks and the tasks -/

/-- The locks against the tasks: the holder of a key is the thread that has it locked. -/
structure LockInv (locks : CString → Option ι) (tasks : ι → Task) : Prop where
  keyOk : ∀ t f, (tasks t).frame = some f → KeyOk f
  holder : ∀ key t, locks key = some t ↔ (tasks t).locked = some key

theorem Task.locked_of_frame {task : Task} {f : IoFrame} (hf : task.frame = some f) :
    task.locked = f.locked := by
  rw [Task.locked, hf, Option.bind_some]

/-- A task without a frame has locked nothing. -/
theorem Task.locked_of_none {task : Task} (hf : task.frame = none) : task.locked = none := by
  rw [Task.locked, hf, Option.bind_none]

/-- A task that is over has locked nothing. -/
theorem locked_of_taskEnd {task : Task} {e : Bool × IoResult} (h : taskEnd task = some e) :
    task.locked = none := by
  rcases taskEnd_eq_some h with ⟨f, rfl, hpc, -⟩ | ⟨c, rfl, hpc, -⟩
  · exact IoFrame.locked_of_over (.inr hpc)
  · refine Task.locked_of_none ?_
    rw [Task.frame, hpc]
    rfl

namespace LockInv

variable [DecidableEq ι] {locks : CString → Option ι} {tasks : ι → Task} {t : ι} {task : Task}

private theorem keyOk_update (h : LockInv locks tasks) (hok : ∀ f, task.frame = some f → KeyOk f)
    (t' : ι) (f : IoFrame) (hf : (Function.update tasks t task t').frame = some f) : KeyOk f := by
  by_cases ht : t' = t
  · rw [ht, Function.update_self] at hf
    exact hok f hf
  · rw [Function.update_of_ne ht] at hf
    exact h.keyOk t' f hf

/-- A move of a task that keeps what it has locked. -/
theorem quiet (h : LockInv locks tasks) (hok : ∀ f, task.frame = some f → KeyOk f)
    (hlocked : task.locked = (tasks t).locked) : LockInv locks (Function.update tasks t task) where
  keyOk := h.keyOk_update hok
  holder key t' := by
    rw [h.holder]
    by_cases ht : t' = t
    · rw [ht, Function.update_self, hlocked]
    · rw [Function.update_of_ne ht]

/-- A task takes a lock that is free. -/
theorem take (h : LockInv locks tasks) (hok : ∀ f, task.frame = some f → KeyOk f) {key : CString}
    (hfree : locks key = none) (hbefore : (tasks t).locked = none) (hafter : task.locked = some key) :
    LockInv (Function.update locks key (some t)) (Function.update tasks t task) where
  keyOk := h.keyOk_update hok
  holder key' t' := by
    by_cases ht : t' = t
    · subst ht
      rw [Function.update_self, hafter]
      by_cases hkey : key' = key
      · subst hkey
        rw [Function.update_self]
        exact iff_of_true rfl rfl
      · rw [Function.update_of_ne hkey, h.holder, hbefore]
        exact iff_of_false nofun fun he => hkey (Option.some.inj he).symm
    · rw [Function.update_of_ne ht]
      by_cases hkey : key' = key
      · subst hkey
        rw [Function.update_self, ← h.holder, hfree]
        exact iff_of_false (fun he => ht (Option.some.inj he).symm) nofun
      · rw [Function.update_of_ne hkey, h.holder]

/-- A task gives its lock back. -/
theorem drop (h : LockInv locks tasks) (hok : ∀ f, task.frame = some f → KeyOk f) {key : CString}
    (hbefore : (tasks t).locked = some key) (hafter : task.locked = none) :
    LockInv (Function.update locks key none) (Function.update tasks t task) where
  keyOk := h.keyOk_update hok
  holder key' t' := by
    by_cases ht : t' = t
    · subst ht
      rw [Function.update_self, hafter]
      by_cases hkey : key' = key
      · subst hkey
        rw [Function.update_self]
        exact iff_of_false nofun nofun
      · rw [Function.update_of_ne hkey, h.holder, hbefore]
        exact iff_of_false (fun he => hkey (Option.some.inj he).symm) nofun
    · rw [Function.update_of_ne ht]
      by_cases hkey : key' = key
      · subst hkey
        -- the key has one holder, and it is the thread that moves
        have hholder := (h.holder key' t).mpr hbefore
        rw [Function.update_self, ← h.holder, hholder]
        exact iff_of_false nofun fun he => ht (Option.some.inj he).symm
      · rw [Function.update_of_ne hkey, h.holder]

end LockInv

variable [DecidableEq ι]

/-- The invariant, of a node. -/
abbrev Node.LockInv (n : Node σ ι) : Prop :=
  Propd.LockInv n.shared.locks n.tasks

/-- A child outside `io_update` has locked nothing. -/
private theorem LockInv.child {locks : CString → Option ι} {tasks : ι → Task} {t : ι}
    {c c' : ChildFrame} (h : Propd.LockInv locks tasks) (hc : tasks t = .child c)
    (hbefore : ∀ f, c.pc = .io f → f.pc = .done) (hafter : c'.pc.frame = none) :
    Propd.LockInv locks (Function.update tasks t (.child c')) := by
  have hnone : (Task.child c').frame = none := hafter
  refine h.quiet (fun f hf => absurd (hnone.symm.trans hf) nofun) ?_
  rw [Task.locked_of_none hnone]
  cases hf : (tasks t).frame with
  | none => exact (Task.locked_of_none hf).symm
  | some f =>
    rw [Task.locked_of_frame hf]
    rcases Task.frame_eq_some hf with hio | ⟨c', hc', hpc⟩
    · cases hc.symm.trans hio
    · cases hc.symm.trans hc'
      exact (IoFrame.locked_of_over (.inr (hbefore f hpc))).symm

/-- **Every step of a node keeps the invariant of its locks.** -/
theorem NodeStep.lockInv {n n' : Node σ ι} {a : Action ι} (h : n.LockInv)
    (hs : NodeStep env n a n') : n'.LockInv := by
  cases hs with
  | @call t req key hidle =>
    refine LockInv.quiet h (fun f hf => ?_) ?_
    · cases hf
      exact .start _ _
    · rw [hidle]
      cases req <;> rfl
  | register hidle => exact LockInv.quiet h (fun _ hf => by cases hf) (by rw [hidle]; rfl)
  | @frame t inp f f' sh hf hs =>
    have hkey := h.keyOk t f hf
    have hok : ∀ g, ((n.tasks t).withFrame f').frame = some g → KeyOk g := by
      intro g hg
      rw [Task.frame_withFrame hf] at hg
      cases hg
      exact hkey.step hs
    have hbefore := Task.locked_of_frame hf
    have hafter := Task.locked_of_frame (Task.frame_withFrame hf f')
    unfold Node.LockInv
    cases hkey.lockEffect hs with
    | quiet hlocks hlocked =>
      simp only [hlocks]
      exact LockInv.quiet h hok (by rw [hafter, hbefore, hlocked])
    | take hfree hb ha hlocks =>
      simp only [hlocks]
      exact LockInv.take h hok hfree (hbefore.trans hb) (hafter.trans ha)
    | drop hb ha hlocks =>
      simp only [hlocks]
      exact LockInv.drop h hok (hbefore.trans hb) (hafter.trans ha)
  | @nextKey t inp c key rest hc hpc =>
    refine LockInv.quiet h (fun f hf => ?_) ?_
    · cases hf
      exact .start _ _
    · have hnone : (n.tasks t).frame = none := by
        rw [hc, Task.frame, hpc]
        rfl
      rw [Task.locked_of_none hnone]
      rfl
  | lastKey hc hpc => exact LockInv.child h hc (ChildFrame.noUpdate (by rw [hpc]; rfl)) rfl
  | noPrefixes hc hpc => exact LockInv.child h hc (ChildFrame.noUpdate (by rw [hpc]; rfl)) rfl
  | updated hc hpc hf => exact LockInv.child h hc (ChildFrame.updateOver hpc hf) rfl
  | updateFailed hc hpc hf => exact LockInv.child h hc (ChildFrame.updateOver hpc hf) rfl
  | registerFailed hc hpc => exact LockInv.child h hc (ChildFrame.noUpdate (by rw [hpc]; rfl)) rfl
  | registered hc hpc => exact LockInv.child h hc (ChildFrame.noUpdate (by rw [hpc]; rfl)) rfl
  | destructed hc hpc => exact LockInv.child h hc (ChildFrame.noUpdate (by rw [hpc]; rfl)) rfl
  | ret hend => exact LockInv.quiet h (fun _ hf => by cases hf) (locked_of_taskEnd hend).symm
  | @cancel t effect f w hf hpc =>
    refine LockInv.quiet h (fun g hg => ?_) ?_
    · rw [Task.frame_withFrame hf] at hg
      cases hg
      exact (h.keyOk t f hf).cancel
    · have hmid : f.pc ≠ .deref ∧ f.pc ≠ .done := by simp [hpc]
      rw [Task.locked_of_frame hf, Task.locked_of_frame (Task.frame_withFrame hf _),
        IoFrame.locked_of_pc hmid]
      rfl
  | exit hend =>
    refine LockInv.quiet h (fun _ hf => by cases hf) ?_
    rcases hend with hidle | ⟨r, hend⟩
    · rw [hidle]
      rfl
    · exact (locked_of_taskEnd hend).symm
  | unregister => exact h
  | sweep => exact h

omit [DecidableEq ι] in
theorem Node.Starts.lockInv {n : Node σ ι} (h : n.Starts) : n.LockInv where
  keyOk t f hf := by
    rw [h.tasks t] at hf
    cases hf
  holder key t := by
    rw [h.locks key, h.tasks t]
    exact iff_of_false nofun nofun

/-- **The holder of a lock is the thread that has locked the key**, in every reachable state. -/
theorem lockInv_of_reachable {n : Node σ ι} (h : (nodeSystem env).Reachable n) : n.LockInv :=
  LTS.invariant (M := nodeSystem env) (fun _ h₀ => Node.Starts.lockInv h₀)
    (fun _ _ _ hi hs => (nodeStep_cases hs).lockInv hi) h

/-! ## What the item of a call is for -/

/-- The item a call holds serves the key of the call. -/
def Node.Serves (n : Node σ ι) : Prop :=
  ∀ t f addr, (n.tasks t).frame = some f → f.held = some addr →
    ∀ item ∈ n.shared.route, item.addr = addr → item.serves f.key = true

variable [Fintype ι]

/-- Every step of a node keeps it: the item is selected for the key, and no item changes. -/
theorem NodeStep.serves {n n' : Node σ ι} {a : Action ι} (h : n.Serves) (href : n.RefInv)
    (hs : NodeStep env n a n') : n'.Serves := by
  intro t f' addr hf' hheld' item' hitem' hat
  -- the item of a frame that held it before the step
  have hold : ∀ f, (n.tasks t).frame = some f → f.key = f'.key → f.held = some addr →
      item'.serves f'.key = true := by
    intro f hf hkey hheld
    obtain ⟨it, hit, haddr, -, hprefixes⟩ :=
      hs.old_item hitem' (by rw [hat]; exact href.held_lt hf hheld)
    have hserves := h t f addr hf hheld it hit (haddr.trans hat)
    rw [← hkey, RouteItem.serves, ← hprefixes]
    exact hserves
  rcases hs.frameOrigin hf' with hsame | ⟨rfl, hf, hio⟩ | ⟨hf, hpc, rfl⟩ | @⟨op, key, rfl⟩
  · exact hold f' hsame rfl hheld'
  · cases ((href.taskOk t).frame hf).refEffect hio with
    | quiet hroute hheld => exact hold _ hf hio.same_call.2.symm (hheld.symm.trans hheld')
    | @take item hm hbefore hafter hroute =>
      cases hheld'.symm.trans hafter
      have hfind := (routeMatch_ok hm).1
      have hitem := List.mem_of_find?_eq_some hfind
      have hserves := List.find?_some hfind
      obtain ⟨it, hit, haddr, -, hprefixes⟩ :=
        hs.old_item hitem' (by rw [hat]; exact href.bound item hitem)
      -- two items at one address are one item
      have heq := RouteList.itemAt_of_mem href.order hit
      rw [haddr.trans hat, RouteList.itemAt_of_mem href.order hitem] at heq
      cases heq
      rw [hio.same_call.2, RouteItem.serves, ← hprefixes]
      exact hserves
    | drop hbefore hafter => cases hheld'.symm.trans hafter
  · refine hold _ hf rfl (Eq.trans ?_ hheld')
    rw [IoFrame.held_of_ne_done (by rw [hpc]; nofun)]
    rfl
  · cases op with
    | request req => cases req <;> cases hheld'
    | update => cases hheld'

/-- **The item of a call serves its key**, in every reachable state. -/
theorem serves_of_reachable {n : Node σ ι} (h : (nodeSystem env).Reachable n) : n.Serves := by
  have hboth : n.RefInv ∧ n.Serves := by
    refine LTS.invariant (M := nodeSystem env) (I := fun n : Node σ ι => n.RefInv ∧ n.Serves)
      (fun n h₀ => ⟨Node.Starts.refInv h₀, fun t f addr hf => ?_⟩)
      (fun _ _ _ hi hs => ⟨(nodeStep_cases hs).refInv hi.1, (nodeStep_cases hs).serves hi.2 hi.1⟩) h
    rw [h₀.tasks t] at hf
    cases hf
  exact hboth.2

/-! ## Threads that do not move -/

/-- The thread an action is one of. -/
def Action.thread : Action ι → Option ι
  | .call t _ _ | .register t _ _ _ | .step t _ | .ret t _ | .cancel t _ | .exit t => some t
  | .unregister _ | .sweep _ => none

omit [Fintype ι] in
/-- A step moves no thread but its own. -/
theorem NodeStep.tasks_of_ne {n n' : Node σ ι} {a : Action ι} (hs : NodeStep env n a n') {t : ι}
    (ht : a.thread ≠ some t) : n'.tasks t = n.tasks t := by
  have hne : ∀ {s : ι} {task : Task}, some s ≠ some t →
      Function.update n.tasks s task t = n.tasks t :=
    fun h => Function.update_of_ne (fun he => h (congrArg some he.symm)) _ _
  cases hs with
  | unregister => rfl
  | sweep => rfl
  | _ => exact hne ht

/-- **An item a thread holds after a step is the one before it**: it has the same storage. -/
theorem NodeStep.item_of_held {n n' : Node σ ι} {a : Action ι} (hs : NodeStep env n a n')
    (href : n.RefInv) {t : ι} {addr : ℕ} (hheld : (n'.tasks t).held = some addr)
    {item : RouteItem} (hitem : n.shared.route.itemAt addr = some item) :
    ∃ it, n'.shared.route.itemAt addr = some it ∧ it.storage = item.storage := by
  obtain ⟨hmem, hat⟩ := RouteList.itemAt_eq_some hitem
  -- the item is referenced, so it is there after the step
  have href' := hs.refInv href
  obtain ⟨it', hit', hat'⟩ := href'.live t addr hheld
  obtain ⟨it, hit, haddr, hstorage, -⟩ :=
    hs.old_item hit' (by rw [hat', ← hat]; exact href.bound item hmem)
  have hnow := RouteList.itemAt_of_mem href.order hit
  have hthen := RouteList.itemAt_of_mem href'.order hit'
  rw [haddr.trans hat', hitem] at hnow
  rw [hat'] at hthen
  refine ⟨it', hthen, ?_⟩
  rw [Option.some.inj hnow, hstorage]

/-- **The target of a storage call stays** while the call is under way and others move. -/
theorem NodeStep.target_of_ne {n n' : Node σ ι} {a : Action ι} (hs : NodeStep env n a n')
    (href : n.RefInv) {t : ι} (ht : a.thread ≠ some t) {f : IoFrame}
    (hf : (n.tasks t).frame = some f) (hpc : f.pc = .storage) {storage : StorageCtx}
    (htarget : f.target n.shared.route = .ok storage) : f.target n'.shared.route = .ok storage := by
  unfold IoFrame.target at htarget ⊢
  cases hop : f.op with
  | update storage' =>
    rw [hop] at htarget
    exact htarget
  | request req =>
    rw [hop] at htarget
    dsimp only at htarget ⊢
    cases hctx : f.ctx.storage with
    | none =>
      rw [hctx] at htarget
      cases htarget
    | some addr =>
      rw [hctx] at htarget
      dsimp only at htarget ⊢
      have hheld : f.held = some addr := by
        rw [IoFrame.held_of_ne_done (by rw [hpc]; nofun), hctx]
      cases hitem : n.shared.route.itemAt addr with
      | none =>
        rw [hitem] at htarget
        cases htarget
      | some item =>
        -- the item is held, so it stays
        obtain ⟨it, hit, hstorage⟩ := hs.item_of_held href
          (by rw [hs.tasks_of_ne ht, Task.held_of_frame hf, hheld]) hitem
        rw [hitem] at htarget
        rw [hit]
        dsimp only at htarget ⊢
        rwa [hstorage]

end Propd
