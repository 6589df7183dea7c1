import Propd.Lib.Counting
import Propd.Node.Model

/-!
# References to the route table

An operation takes a reference when `route_match` selects an item and drops it at
the end of its cleanup. This module proves that the counter of an item is the number
of the operations that are in between, over every run of a node: whatever fails, and
wherever an operation is cancelled. An item that is destroyed is therefore nobody's.

The table and the tasks carry the invariant; what else a node holds plays no part.
-/

namespace Propd

open Lib

variable {σ ι : Type} {env : StorageEnv σ}

/-! ## Frames -/

/-- Where a frame is, its cleanup context holds what it should. -/
structure FrameOk (f : IoFrame) : Prop where
  fresh : f.pc = .entry ∨ f.pc = .routeMatch → f.ctx = ⟨none, none⟩
  target : ∀ req, f.op = .request req → f.pc = .lock ∨ f.pc = .storage → f.ctx.storage ≠ none
  update : ∀ storage, f.op = .update storage → f.ctx.storage = none ∧ f.pc ≠ .routeMatch

/-- What a step of a frame does to the references: nothing, or it takes the one of the
item that matches, or it drops its own. -/
inductive RefEffect (sh sh' : Shared σ ι) (f f' : IoFrame) : Prop
  | quiet (hroute : sh'.route = sh.route) (hheld : f'.held = f.held)
  | take {item : RouteItem}
      (hm : routeMatch sh.route f.key = .ok (sh.route.addRef item.addr 1, item))
      (hbefore : f.held = none) (hafter : f'.held = some item.addr)
      (hroute : sh'.route = sh.route.addRef item.addr 1)
  | drop {addr : ℕ} (hbefore : f.held = some addr) (hafter : f'.held = none)
      (hroute : sh'.route = sh.route.addRef addr (-1))

theorem FrameOk.start (op : IoOp) (key : CString) : FrameOk (.start op key) where
  fresh _ := rfl
  target := by
    rintro req rfl
    cases req <;> rintro (h | h) <;> cases h
  update := by
    rintro storage rfl
    exact ⟨rfl, nofun⟩

/-- Past the storage call a frame only has to keep its pointer. -/
theorem FrameOk.past {f f' : IoFrame} (h : FrameOk f) (hop : f'.op = f.op)
    (hctx : f'.ctx.storage = f.ctx.storage)
    (hpc : f'.pc ≠ .entry ∧ f'.pc ≠ .routeMatch ∧ f'.pc ≠ .lock ∧ f'.pc ≠ .storage) :
    FrameOk f' where
  fresh := by
    rintro (he | he)
    · exact absurd he hpc.1
    · exact absurd he hpc.2.1
  target _ _ := by
    rintro (he | he)
    · exact absurd he hpc.2.2.1
    · exact absurd he hpc.2.2.2
  update storage hup := by
    rw [hop] at hup
    exact ⟨hctx.trans (h.update storage hup).1, hpc.2.1⟩

/-- A step keeps a frame in order. -/
theorem FrameOk.step {t : ι} {inp : Inputs} {sh sh' : Shared σ ι} {f f' : IoFrame}
    (h : FrameOk f) (hs : IoStep env t inp sh f sh' f') : FrameOk f' := by
  cases hs with
  | miss hpc hop =>
    refine ⟨fun _ => h.fresh (.inl hpc), fun _ _ => ?_, fun storage hup => ?_⟩
    · rintro (he | he) <;> cases he
    · cases hop.symm.trans hup
  | hasCache hpc hop =>
    refine ⟨?_, fun req hreq => ?_, fun storage hup => ⟨(h.update storage hup).1, nofun⟩⟩
    · rintro (he | he) <;> cases he
    · cases hop.symm.trans hreq
  | matched hpc hm =>
    refine ⟨?_, fun _ _ _ => Option.some_ne_none _, fun storage hup => ?_⟩
    · rintro (he | he) <;> cases he
    · -- `io_update` does not match a route
      exact absurd hpc (h.update storage hup).2
  | locked hpc hfree =>
    refine ⟨?_, fun req hreq _ => h.target req hreq (.inl hpc),
      fun storage hup => ⟨(h.update storage hup).1, nofun⟩⟩
    rintro (he | he) <;> cases he
  | storageOk =>
    refine h.past rfl rfl ?_
    split
    · exact ⟨nofun, nofun, nofun, nofun⟩
    · exact ⟨nofun, nofun, nofun, nofun⟩
  | _ => exact h.past rfl rfl ⟨nofun, nofun, nofun, nofun⟩

theorem FrameOk.cancel {f : IoFrame} (h : FrameOk f) :
    FrameOk { f with pc := .unlock, cancelled := true } :=
  h.past rfl rfl ⟨nofun, nofun, nofun, nofun⟩

theorem IoFrame.held_of_ne_done {f : IoFrame} (h : f.pc ≠ .done) : f.held = f.ctx.storage :=
  if_neg h

theorem IoFrame.held_of_done {f : IoFrame} (h : f.pc = .done) : f.held = none :=
  if_pos h

/-- **The references of a step**: it takes at most one and drops at most its own. -/
theorem FrameOk.refEffect {t : ι} {inp : Inputs} {sh sh' : Shared σ ι} {f f' : IoFrame}
    (h : FrameOk f) (hs : IoStep env t inp sh f sh' f') : RefEffect sh sh' f f' := by
  -- neither the program counter before the step nor the one after it is `done`
  have hmid : ∀ g : IoFrame, f.pc ≠ .done → g.pc ≠ .done → g.ctx.storage = f.ctx.storage →
      g.held = f.held := by
    intro g hf hg hctx
    rw [IoFrame.held_of_ne_done hf, IoFrame.held_of_ne_done hg, hctx]
  have hentry : f.pc = .entry → f.held = none := by
    intro hpc
    rw [IoFrame.held_of_ne_done (by rw [hpc]; nofun), h.fresh (.inl hpc)]
  cases hs with
  | hit hpc => exact .quiet rfl ((IoFrame.held_of_done rfl).trans (hentry hpc).symm)
  | noCache hpc => exact .quiet rfl ((IoFrame.held_of_done rfl).trans (hentry hpc).symm)
  | @matched item hpc hm =>
    refine .take hm ?_ rfl rfl
    rw [IoFrame.held_of_ne_done (by rw [hpc]; nofun), h.fresh (.inr hpc)]
  | storageOk hpc =>
    refine .quiet rfl (hmid _ (by rw [hpc]; nofun) ?_ rfl)
    split <;> nofun
  | dereffed hpc hst =>
    exact .drop ((IoFrame.held_of_ne_done (by rw [hpc]; nofun)).trans hst)
      (IoFrame.held_of_done rfl) rfl
  | noStorage hpc hst =>
    refine .quiet rfl ((IoFrame.held_of_done rfl).trans ?_)
    rw [IoFrame.held_of_ne_done (by rw [hpc]; nofun), hst]
  | miss hpc | hasCache hpc | unmatched hpc | lockFailed hpc | locked hpc | storageFailed hpc
  | stored hpc | dropped hpc | unlocked hpc | noKey hpc =>
    exact .quiet rfl (hmid _ (by rw [hpc]; nofun) nofun rfl)

/-! ## The invariant of the table and the tasks -/

/-- A task in order: its frame is, and it is called for what the task is about. -/
def TaskOk : Task → Prop
  | .io f => FrameOk f ∧ ∃ req, f.op = .request req
  | .child c => ∀ f, c.pc = .io f → FrameOk f ∧ f.op = .update c.storage
  | _ => True

/-- The table against the tasks: names and addresses are distinct, newer items stand in
front, a counter counts the tasks that hold the item, and what a task holds is there. -/
structure RefInv [Fintype ι] (route : RouteList) (nextAddr : ℕ) (tasks : ι → Task) : Prop where
  names : (route.map fun item => item.storage.name).Nodup
  order : route.Pairwise fun newer older => older.addr < newer.addr
  bound : ∀ item ∈ route, item.addr < nextAddr
  taskOk : ∀ t, TaskOk (tasks t)
  refs : ∀ item ∈ route,
    item.nref = countThreads (fun task : Task => task.held = some item.addr) tasks
  live : ∀ t addr, (tasks t).held = some addr → ∃ item ∈ route, item.addr = addr

namespace RefInv

variable [Fintype ι] {route : RouteList} {nextAddr : ℕ} {tasks : ι → Task} {t : ι} {task : Task}

/-- A registration: nobody holds the new item. -/
theorem add (h : RefInv route nextAddr tasks) {storage : StorageCtx} {prefixes : List CString}
    (hfree : ∀ item ∈ route, item.storage.name ≠ storage.name) :
    RefInv (⟨storage, prefixes, 0, nextAddr⟩ :: route) (nextAddr + 1) tasks where
  names := by
    rw [List.map_cons, List.nodup_cons]
    refine ⟨fun hmem => ?_, h.names⟩
    obtain ⟨item, hitem, hname⟩ := List.mem_map.mp hmem
    exact hfree item hitem hname
  order := List.pairwise_cons.mpr ⟨h.bound, h.order⟩
  bound item hitem := by
    rcases List.mem_cons.mp hitem with rfl | hitem
    · exact Nat.lt_succ_self _
    · exact Nat.lt_succ_of_lt (h.bound item hitem)
  taskOk := h.taskOk
  refs item hitem := by
    rcases List.mem_cons.mp hitem with rfl | hitem
    · -- a task holds only addresses that were in use, and the new one was not
      rw [eq_comm, Int.natCast_eq_zero, countThreads_eq_zero]
      intro t hh
      obtain ⟨item, hitem, ha⟩ := h.live t _ hh
      exact absurd (h.bound item hitem) (by rw [ha]; exact lt_irrefl _)
    · exact h.refs item hitem
  live t addr hh := by
    obtain ⟨item, hitem, ha⟩ := h.live t addr hh
    exact ⟨item, List.mem_cons_of_mem _ hitem, ha⟩

/-- An unregistration: what it destroys is nobody's. -/
theorem remove (h : RefInv route nextAddr tasks) {left : RouteList} {gone : List RouteItem}
    (hsub : left.Sublist route) (hperm : route.Perm (gone ++ left))
    (hzero : ∀ item ∈ gone, item.nref = 0) : RefInv left nextAddr tasks where
  names := h.names.sublist (hsub.map _)
  order := h.order.sublist hsub
  bound item hitem := h.bound item (hsub.subset hitem)
  taskOk := h.taskOk
  refs item hitem := h.refs item (hsub.subset hitem)
  live t addr hh := by
    obtain ⟨item, hitem, ha⟩ := h.live t addr hh
    rcases List.mem_append.mp (hperm.subset hitem) with hgone | hleft
    · -- an item with the counter 0 is held by nobody
      have hcount := h.refs item hitem
      rw [hzero item hgone, eq_comm, Int.natCast_eq_zero, countThreads_eq_zero] at hcount
      exact absurd hh (by rw [← ha]; exact hcount t)
    · exact ⟨item, hleft, ha⟩

private theorem addRef_live (h : RefInv route nextAddr tasks) {addr d} {t' : ι} {addr' : ℕ}
    (hh : (tasks t').held = some addr') : ∃ item ∈ route.addRef addr d, item.addr = addr' := by
  obtain ⟨item, hitem, ha⟩ := h.live t' addr' hh
  have hmem : item.addr ∈ (route.addRef addr d).map RouteItem.addr := by
    rw [RouteList.addRef_map _ fun _ _ => rfl]
    exact List.mem_map_of_mem hitem
  obtain ⟨item', hitem', ha'⟩ := List.mem_map.mp hmem
  exact ⟨item', hitem', ha'.trans ha⟩

private theorem addRef_order (h : RefInv route nextAddr tasks) (addr : ℕ) (d : ℤ) :
    (route.addRef addr d).Pairwise fun newer older => older.addr < newer.addr := by
  rw [← List.pairwise_map (f := RouteItem.addr) (R := fun newer older => older < newer),
    RouteList.addRef_map _ fun _ _ => rfl, List.pairwise_map]
  exact h.order

private theorem addRef_bound (h : RefInv route nextAddr tasks) {addr : ℕ} {d : ℤ}
    {item : RouteItem} (hitem : item ∈ route.addRef addr d) : item.addr < nextAddr := by
  rcases RouteList.mem_addRef.mp hitem with ⟨it, hit, -, rfl⟩ | ⟨hit, -⟩
  · exact h.bound it hit
  · exact h.bound item hit

variable [DecidableEq ι]

private theorem tasks_update (h : RefInv route nextAddr tasks) (hok : TaskOk task) (t' : ι) :
    TaskOk (Function.update tasks t task t') := by
  by_cases ht : t' = t
  · rw [ht, Function.update_self]
    exact hok
  · rw [Function.update_of_ne ht]
    exact h.taskOk t'

/-- A move of a task that keeps what it holds. -/
theorem quiet (h : RefInv route nextAddr tasks) (hok : TaskOk task)
    (hheld : task.held = (tasks t).held) :
    RefInv route nextAddr (Function.update tasks t task) where
  names := h.names
  order := h.order
  bound := h.bound
  taskOk := h.tasks_update hok
  refs item hitem := by
    rw [countThreads_update_of_iff _ (by rw [hheld])]
    exact h.refs item hitem
  live t' addr hh := by
    by_cases ht : t' = t
    · rw [ht, Function.update_self, hheld] at hh
      exact h.live t addr hh
    · rw [Function.update_of_ne ht] at hh
      exact h.live t' addr hh

/-- A task takes the reference of an item: the counter of this item goes up. -/
theorem take (h : RefInv route nextAddr tasks) (hok : TaskOk task) {item : RouteItem}
    (hitem : item ∈ route) (hbefore : (tasks t).held = none) (hafter : task.held = some item.addr) :
    RefInv (route.addRef item.addr 1) nextAddr (Function.update tasks t task) where
  names := by
    rw [RouteList.addRef_map _ fun _ _ => rfl]
    exact h.names
  order := h.addRef_order _ _
  bound _ := h.addRef_bound
  taskOk := h.tasks_update hok
  refs it hit := by
    rcases RouteList.mem_addRef.mp hit with ⟨it, hold, ha, rfl⟩ | ⟨hold, ha⟩
    · rw [countThreads_update_gain _ (by rw [hafter, ha]) (by rw [hbefore]; nofun), h.refs it hold]
      push_cast
      rfl
    · have hne : ¬ task.held = some it.addr := by
        rw [hafter]
        exact fun he => ha (Option.some.inj he).symm
      have hno : ¬ (tasks t).held = some it.addr := by
        rw [hbefore]
        nofun
      rw [countThreads_update_of_iff (fun task : Task => task.held = some it.addr)
        (iff_of_false hne hno)]
      exact h.refs it hold
  live t' addr hh := by
    by_cases ht : t' = t
    · rw [ht, Function.update_self, hafter] at hh
      cases hh
      exact ⟨_, RouteList.mem_addRef.mpr (.inl ⟨item, hitem, rfl, rfl⟩), rfl⟩
    · rw [Function.update_of_ne ht] at hh
      exact h.addRef_live hh

/-- A task drops the reference it holds: the counter of this item goes down. -/
theorem drop (h : RefInv route nextAddr tasks) (hok : TaskOk task) {addr : ℕ}
    (hbefore : (tasks t).held = some addr) (hafter : task.held = none) :
    RefInv (route.addRef addr (-1)) nextAddr (Function.update tasks t task) where
  names := by
    rw [RouteList.addRef_map _ fun _ _ => rfl]
    exact h.names
  order := h.addRef_order _ _
  bound _ := h.addRef_bound
  taskOk := h.tasks_update hok
  refs it hit := by
    rcases RouteList.mem_addRef.mp hit with ⟨it, hold, ha, rfl⟩ | ⟨hold, ha⟩
    · have hcount := countThreads_update_lose (fun task : Task => task.held = some it.addr)
        (f := tasks) (t := t) (x := task) (by rw [hafter]; nofun) (by rw [hbefore, ha])
      rw [h.refs it hold, ← hcount]
      push_cast
      omega
    · have hne : ¬ task.held = some it.addr := by
        rw [hafter]
        nofun
      have hno : ¬ (tasks t).held = some it.addr := by
        rw [hbefore]
        exact fun he => ha (Option.some.inj he).symm
      rw [countThreads_update_of_iff (fun task : Task => task.held = some it.addr)
        (iff_of_false hne hno)]
      exact h.refs it hold
  live t' addr' hh := by
    by_cases ht : t' = t
    · rw [ht, Function.update_self, hafter] at hh
      cases hh
    · rw [Function.update_of_ne ht] at hh
      exact h.addRef_live hh

end RefInv

/-! ## The invariant over a run -/

theorem TaskOk.frame {task : Task} (h : TaskOk task) {f : IoFrame} (hf : task.frame = some f) :
    FrameOk f := by
  rcases Task.frame_eq_some hf with rfl | ⟨c, rfl, hpc⟩
  · exact h.1
  · exact (h f hpc).1

theorem TaskOk.withFrame {task : Task} (h : TaskOk task) {f f' : IoFrame}
    (hf : task.frame = some f) (hok : FrameOk f') (hop : f'.op = f.op) :
    TaskOk (task.withFrame f') := by
  rcases Task.frame_eq_some hf with rfl | ⟨c, rfl, hpc⟩
  · obtain ⟨-, req, hreq⟩ := h
    exact ⟨hok, req, hop.trans hreq⟩
  · rintro g hg
    cases hg
    exact ⟨hok, hop.trans (h f hpc).2⟩

theorem Task.held_of_frame {task : Task} {f : IoFrame} (hf : task.frame = some f) :
    task.held = f.held := by
  rw [Task.held, hf, Option.bind_some]

/-- A child outside `io_update` holds nothing. -/
theorem Task.held_child {c : ChildFrame} (hpc : c.pc.frame = none) : (Task.child c).held = none := by
  rw [Task.held, Task.frame, hpc, Option.bind_none]

/-- A task that is over holds nothing. -/
theorem held_of_taskEnd {task : Task} {e : Bool × IoResult} (h : taskEnd task = some e) :
    task.held = none := by
  rcases taskEnd_eq_some h with ⟨f, rfl, hpc, -⟩ | ⟨c, rfl, hpc, -⟩
  · exact IoFrame.held_of_done hpc
  · exact Task.held_child (by rw [hpc]; rfl)

/-- What a frame holds stands in the table, so its address was in use. -/
theorem RefInv.held_lt [Fintype ι] {route : RouteList} {nextAddr : ℕ} {tasks : ι → Task}
    (h : RefInv route nextAddr tasks) {t : ι} {f : IoFrame} {addr : ℕ}
    (hf : (tasks t).frame = some f) (hheld : f.held = some addr) : addr < nextAddr := by
  obtain ⟨item, hitem, rfl⟩ := h.live t addr ((Task.held_of_frame hf).trans hheld)
  exact h.bound item hitem

variable [Fintype ι] [DecidableEq ι]

/-- The invariant, of a node. -/
abbrev Node.RefInv (n : Node σ ι) : Prop :=
  Propd.RefInv n.shared.route n.nextAddr n.tasks

/-- A child that moves outside `io_update`. -/
private theorem RefInv.child {route : RouteList} {nextAddr : ℕ} {tasks : ι → Task} {t : ι}
    {c c' : ChildFrame} (h : Propd.RefInv route nextAddr tasks) (hc : tasks t = .child c)
    (hbefore : ∀ f, c.pc = .io f → f.pc = .done) (hafter : c'.pc.frame = none) :
    Propd.RefInv route nextAddr (Function.update tasks t (.child c')) := by
  refine h.quiet (fun f hf => ?_) ?_
  · rw [hf] at hafter
    cases hafter
  · rw [Task.held_child hafter]
    cases hf : (tasks t).frame with
    | none => rw [Task.held, hf, Option.bind_none]
    | some f =>
      rw [Task.held_of_frame hf]
      rcases Task.frame_eq_some hf with hio | ⟨c', hc', hpc⟩
      · cases hc.symm.trans hio
      · cases hc.symm.trans hc'
        rw [IoFrame.held_of_done (hbefore f hpc)]

/-- **Every step of a node keeps the invariant.** -/
theorem NodeStep.refInv {n n' : Node σ ι} {a : Action ι} (h : n.RefInv)
    (hs : NodeStep env n a n') : n'.RefInv := by
  cases hs with
  | @call t req key hidle =>
    refine RefInv.quiet h ⟨.start _ _, req, rfl⟩ ?_
    rw [hidle]
    cases req <;> rfl
  | register hidle => exact RefInv.quiet h (fun _ hf => by cases hf) (by rw [hidle]; rfl)
  | @frame t inp f f' sh hf hs =>
    have hfok := (h.taskOk t).frame hf
    have hok := (h.taskOk t).withFrame hf (hfok.step hs) hs.same_call.1
    have hbefore := Task.held_of_frame hf
    have hafter := Task.held_of_frame (Task.frame_withFrame hf f')
    unfold Node.RefInv
    cases hfok.refEffect hs with
    | quiet hroute hheld =>
      simp only [hroute]
      exact RefInv.quiet h hok (by rw [hafter, hbefore, hheld])
    | take hm hb ha hroute =>
      -- the item is the one `route_match` selects
      have hitem := List.mem_of_find?_eq_some (routeMatch_ok hm).1
      simp only [hroute]
      exact RefInv.take h hok hitem (hbefore.trans hb) (hafter.trans ha)
    | drop hb ha hroute =>
      simp only [hroute]
      exact RefInv.drop h hok (hbefore.trans hb) (hafter.trans ha)
  | @nextKey t inp c key rest hc hpc =>
    refine RefInv.quiet h (fun f hf => ?_) ?_
    · cases hf
      exact ⟨.start _ _, rfl⟩
    · rw [hc, Task.held_child (c := c) (by rw [hpc]; rfl)]
      rfl
  | lastKey hc hpc => exact RefInv.child h hc (ChildFrame.noUpdate (by rw [hpc]; rfl)) rfl
  | noPrefixes hc hpc => exact RefInv.child h hc (ChildFrame.noUpdate (by rw [hpc]; rfl)) rfl
  | updated hc hpc hf => exact RefInv.child h hc (ChildFrame.updateOver hpc hf) rfl
  | updateFailed hc hpc hf => exact RefInv.child h hc (ChildFrame.updateOver hpc hf) rfl
  | registerFailed hc hpc => exact RefInv.child h hc (ChildFrame.noUpdate (by rw [hpc]; rfl)) rfl
  | @registered t inp c hc hpc htable hitem hfree =>
    -- the child is done before its item stands in the table
    have hmoved : (n.withTask t (.child { c with pc := .done })).RefInv :=
      RefInv.child h hc (ChildFrame.noUpdate (by rw [hpc]; rfl)) rfl
    exact RefInv.add hmoved hfree
  | destructed hc hpc => exact RefInv.child h hc (ChildFrame.noUpdate (by rw [hpc]; rfl)) rfl
  | ret hend => exact RefInv.quiet h trivial (held_of_taskEnd hend).symm
  | @cancel t _ f w hf hpc =>
    have hfok := (h.taskOk t).frame hf
    refine RefInv.quiet h ((h.taskOk t).withFrame hf hfok.cancel rfl) ?_
    -- the reference is kept until the cleanup
    have hbefore : f.pc ≠ .done := by
      rw [hpc]
      nofun
    rw [Task.held_of_frame hf, Task.held_of_frame (Task.frame_withFrame hf _),
      IoFrame.held_of_ne_done hbefore]
    rfl
  | exit hend =>
    refine RefInv.quiet h trivial ?_
    rcases hend with hidle | ⟨r, hend⟩
    · rw [hidle]
      rfl
    · exact (held_of_taskEnd hend).symm
  | @unregister name =>
    obtain ⟨left, gone, ret, hun⟩ : ∃ left gone ret,
        routeUnregister n.shared.route name = (left, gone, ret) := ⟨_, _, _, rfl⟩
    obtain ⟨hsub, hperm, hzero⟩ := routeUnregister_split hun
    simp only [unregisterStep, hun]
    exact RefInv.remove h hsub hperm hzero
  | sweep => exact h

omit [DecidableEq ι] in
theorem Node.Starts.refInv {n : Node σ ι} (h : n.Starts) : n.RefInv := by
  obtain ⟨storages, hroute⟩ := h.route
  have hlen := h.nextAddr
  rw [hroute] at hlen
  obtain ⟨hnames, horder, hitems⟩ := localRoute_spec storages
  have hheld : ∀ t, (n.tasks t).held = none := fun t => by rw [h.tasks t]; rfl
  constructor
  · rwa [hroute]
  · rwa [hroute]
  · rw [hroute, hlen]
    exact fun item hitem => (hitems item hitem).1
  · intro t
    rw [h.tasks t]
    trivial
  · intro item hitem
    rw [hroute] at hitem
    rw [(hitems item hitem).2, eq_comm, Int.natCast_eq_zero, countThreads_eq_zero]
    exact fun t hh => by rw [hheld t] at hh; cases hh
  · intro t addr hh
    rw [hheld t] at hh
    cases hh

/-- **The invariant holds in every reachable state.** -/
theorem refInv_of_reachable {n : Node σ ι} (h : (nodeSystem env).Reachable n) : n.RefInv :=
  LTS.invariant (M := nodeSystem env) (fun _ h₀ => Node.Starts.refInv h₀)
    (fun _ _ _ hi hs => (nodeStep_cases hs).refInv hi) h

end Propd
