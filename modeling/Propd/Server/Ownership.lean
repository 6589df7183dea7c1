import Propd.Server.Loops
import Mathlib.Data.List.Count

/-!
# Who releases an argument

A block is allocated in a turn of a loop and handed to the worker that the turn submits, which
releases it. A turn whose call fails is meant to release its blocks and to be over; but the jumps
that end it stand in the block of a cleanup handler and end that one only, so the turn goes on with
the argument that it has released.
-/

namespace Propd

open Lib

/-! ## Turns -/

section Turns

variable {s s' : Serving} {b : Block} {call : Call} {o : Turn}

/-- The block can be used. -/
theorem Serving.touch_ok (h : b ∈ s.live) : s.touch (some b) = .ok s := if_pos h

theorem Serving.touch_released (h : b ∉ s.live) : s.touch (some b) = .error .useAfterFree :=
  if_neg h

theorem Serving.free_ok (h : b ∈ s.live) : s.free (some b) = .ok (s.without b) := if_pos h

theorem Serving.freeAll_cons (bs : List Block) (h : b ∈ s.live) :
    Serving.freeAll (b :: bs) s = Serving.freeAll bs (s.without b) := by
  rw [Serving.freeAll, s.free_ok h]
  rfl

theorem cancellable_of_ne (h : call ≠ .cancelled) : cancellable call s = .ok (s, .next) :=
  Stmt.cond_false (decide_eq_false h)

/-- **A scope ends in the same way however its body does**, with its handler gone. -/
theorem cleanupScope_ok (block : Serving → Option Block) {body : Stmt Fault Serving} {f : Flow}
    (h : body { s with handlers := (block s).toList ++ s.handlers } = .ok (s', f))
    (hf : f ≠ .stop) :
    cleanupScope block body s = .ok ({ s' with handlers := s'.handlers.tail }, .next) := by
  have hpush : Stmt.act (fun s => s.pushHandler (block s)) s =
      .ok ({ s with handlers := (block s).toList ++ s.handlers }, .next) := Stmt.act_ok rfl
  have hpop : Stmt.act Serving.popHandler s' =
      .ok ({ s' with handlers := s'.handlers.tail }, .next) := Stmt.act_ok rfl
  refine Stmt.once_ok (f := .next) ?_
  rw [Stmt.all_next hpush, Stmt.all_once h hf, Stmt.all_next hpop, Stmt.all_nil]

/-- A scope whose body is left by a cancellation keeps what the handlers have made. -/
theorem cleanupScope_stop (block : Serving → Option Block) {body : Stmt Fault Serving}
    (h : body { s with handlers := (block s).toList ++ s.handlers } = .ok (s', .stop)) :
    cleanupScope block body s = .ok (s', .stop) := by
  have hpush : Stmt.act (fun s => s.pushHandler (block s)) s =
      .ok ({ s with handlers := (block s).toList ++ s.handlers }, .next) := Stmt.act_ok rfl
  refine Stmt.once_ok (f := .stop) ?_
  rw [Stmt.all_next hpush, Stmt.all_jump (Stmt.once_ok h) (by decide)]
  rfl

/-- What `accept` leaves behind, by its outcome: a failed one has released the argument. -/
theorem ioAccept_success (harg : s.arg = some b) (hlive : b ∈ s.live) :
    ioAccept .success s = .ok (s, .next) := by
  have htouch : Stmt.act (fun s : Serving => s.touch s.arg) s = .ok (s, .next) :=
    Stmt.act_ok (by rw [harg, s.touch_ok hlive])
  rw [ioAccept, Stmt.all_next (cancellable_of_ne (by decide)), Stmt.all_next htouch,
    Stmt.all_next (Stmt.cond_false rfl), Stmt.all_nil]

theorem ioAccept_failed (harg : s.arg = some b) (hlive : b ∈ s.live) (hcall : call.failed = true) :
    ∃ f, f ≠ .stop ∧ ioAccept call s = .ok (s.without b, f) := by
  have htouch : Stmt.act (fun s : Serving => s.touch s.arg) s = .ok (s, .next) :=
    Stmt.act_ok (by rw [harg, s.touch_ok hlive])
  have hfree : Stmt.act (fun s : Serving => s.free s.arg) s = .ok (s.without b, .next) :=
    Stmt.act_ok (by rw [harg]; exact s.free_ok hlive)
  have hne : call ≠ .cancelled := by
    rintro rfl
    cases hcall
  rw [ioAccept, Stmt.all_next (cancellable_of_ne hne), Stmt.all_next htouch]
  by_cases hintr : call = .interrupted
  · refine ⟨.cont, by decide, Stmt.all_jump ?_ (by decide)⟩
    rw [Stmt.cond_true (c := fun _ => call.failed) hcall, Stmt.all_next hfree]
    exact Stmt.all_jump (Stmt.cond_true (decide_eq_true hintr)) (by decide)
  · refine ⟨.brk, by decide, Stmt.all_jump ?_ (by decide)⟩
    rw [Stmt.cond_true (c := fun _ => call.failed) hcall, Stmt.all_next hfree,
      Stmt.all_next
        (Stmt.cond_false (c := fun _ => decide (call = .interrupted)) (decide_eq_false hintr))]
    exact Stmt.all_jump rfl (by decide)

/-- The handlers of the thread release what it holds. -/
theorem cancellable_cancelled {ps : List (Stmt Fault Serving)}
    (h : s.freeAll s.handlers = .ok s') :
    Stmt.all (cancellable .cancelled :: ps) s = .ok ({ s' with handlers := [] }, .stop) := by
  have hrun : Stmt.act Serving.runHandlers s = .ok ({ s' with handlers := [] }, .next) :=
    Stmt.act_ok (by rw [Serving.runHandlers, h]; rfl)
  refine Stmt.all_jump ?_ (by decide)
  rw [cancellable, Stmt.cond_true (c := fun _ => decide (Call.cancelled = .cancelled)) rfl,
    Stmt.all_next hrun]
  exact Stmt.all_jump rfl (by decide)

theorem ctrlRecvfrom_success (hpkg : s.pkg = some b) (hlive : b ∈ s.live) :
    ctrlRecvfrom .success s = .ok (s, .next) := by
  have htouch : Stmt.act (fun s : Serving => s.touch s.pkg) s = .ok (s, .next) :=
    Stmt.act_ok (by rw [hpkg, s.touch_ok hlive])
  rw [ctrlRecvfrom, Stmt.all_next (cancellable_of_ne (by decide)), Stmt.all_next htouch,
    Stmt.all_next (Stmt.cond_false rfl), Stmt.all_nil]

/-- A failed `recvfrom` has released the argument and the package. -/
theorem ctrlRecvfrom_failed {p : Block} (harg : s.arg = some b) (hpkg : s.pkg = some p)
    (hlive : b ∈ s.live) (hlive' : p ∈ s.live) (hne : p ≠ b) (hcall : call.failed = true) :
    ctrlRecvfrom call s = .ok ((s.without b).without p, .brk) := by
  have htouch : Stmt.act (fun s : Serving => s.touch s.pkg) s = .ok (s, .next) :=
    Stmt.act_ok (by rw [hpkg, s.touch_ok hlive'])
  have hfree : Stmt.act (fun s : Serving => s.free s.arg) s = .ok (s.without b, .next) :=
    Stmt.act_ok (by rw [harg]; exact s.free_ok hlive)
  have hfree' : Stmt.act (fun s : Serving => s.free s.pkg) (s.without b) =
      .ok ((s.without b).without p, .next) := by
    refine Stmt.act_ok ?_
    show (s.without b).free s.pkg = _
    rw [hpkg]
    exact Serving.free_ok ((List.mem_erase_of_ne hne).mpr hlive')
  have hnc : call ≠ .cancelled := by
    rintro rfl
    cases hcall
  rw [ctrlRecvfrom, Stmt.all_next (cancellable_of_ne hnc), Stmt.all_next htouch]
  refine Stmt.all_jump ?_ (by decide)
  rw [Stmt.cond_true (c := fun _ => call.failed) hcall, Stmt.all_next hfree, Stmt.all_next hfree']
  exact Stmt.all_jump rfl (by decide)

/-! ## The io server -/

/-- With its argument a turn comes to `accept`. -/
theorem ioServerTurn_eq (harg : o.arg = true) :
    ioServerTurn o s = Stmt.all [cleanupScope (fun s => s.arg) (ioAccept o.call),
      .act fun s => s.touch s.arg, .act (Serving.submit none)] { s.grown with arg := some s.next } := by
  have hmalloc : Stmt.act (Serving.mallocArg o.arg) s =
      .ok ({ s.grown with arg := some s.next }, .next) :=
    Stmt.act_ok (by rw [harg]; rfl)
  have htouch : Stmt.act (fun s : Serving => s.touch s.arg) { s.grown with arg := some s.next } =
      .ok ({ s.grown with arg := some s.next }, .next) :=
    Stmt.act_ok (Serving.touch_ok List.mem_cons_self)
  rw [ioServerTurn, Stmt.all_next hmalloc, Stmt.all_next (Stmt.cond_false rfl),
    Stmt.all_next htouch]

theorem ioServerTurn_noMemory (harg : o.arg = false) :
    ioServerTurn o s = .ok ({ s with arg := none }, .brk) := by
  have hmalloc : Stmt.act (Serving.mallocArg o.arg) s = .ok ({ s with arg := none }, .next) :=
    Stmt.act_ok (by rw [harg]; rfl)
  rw [ioServerTurn, Stmt.all_next hmalloc]
  exact Stmt.all_jump (Stmt.cond_true rfl) (by decide)

/-- A connection goes to a worker. -/
theorem ioServerTurn_success (harg : o.arg = true) (hcall : o.call = .success) :
    ioServerTurn o s = .ok ({ s.grown with
      arg := some s.next
      submitted := s.submitted ++ [⟨s.next, none⟩]
      pool := s.pool ++ [⟨s.next, none⟩] }, .next) := by
  have haccept : ioAccept .success { s.grown with
        arg := some s.next
        handlers := (some s.next).toList ++ s.handlers } = .ok (_, .next) :=
    ioAccept_success rfl List.mem_cons_self
  have hscope := cleanupScope_ok (fun s => s.arg) (s := { s.grown with arg := some s.next })
    haccept (by decide)
  have htouch : Stmt.act (fun s : Serving => s.touch s.arg) { s.grown with arg := some s.next } =
      .ok ({ s.grown with arg := some s.next }, .next) :=
    Stmt.act_ok (Serving.touch_ok List.mem_cons_self)
  rw [ioServerTurn_eq harg, hcall, Stmt.all_next hscope]
  exact (Stmt.all_next htouch).trans (Stmt.all_next (Stmt.act_ok rfl))

/-- **After a failed `accept` the turn goes on with the argument that was released.** -/
theorem ioServerTurn_failed (harg : o.arg = true) (hcall : o.call.failed = true)
    (hfresh : s.next ∉ s.live) : ioServerTurn o s = .error .useAfterFree := by
  obtain ⟨f, hf, haccept⟩ := ioAccept_failed (s := { s.grown with
      arg := some s.next
      handlers := (some s.next).toList ++ s.handlers }) rfl List.mem_cons_self hcall
  have hscope := cleanupScope_ok (fun s => s.arg) (s := { s.grown with arg := some s.next })
    haccept hf
  rw [ioServerTurn_eq harg, Stmt.all_next hscope]
  refine Stmt.all_error (Stmt.act_error (Serving.touch_released ?_))
  show s.next ∉ (s.next :: s.live).erase s.next
  rwa [List.erase_cons_head]

theorem ioServerTurn_cancelled (harg : o.arg = true) (hcall : o.call = .cancelled)
    (hhandlers : s.handlers = []) :
    ioServerTurn o s = .ok ({ s.grown.without s.next with
      arg := some s.next
      handlers := [] }, .stop) := by
  have hfree : Serving.freeAll ((some s.next).toList ++ s.handlers) { s.grown with
        arg := some s.next
        handlers := (some s.next).toList ++ s.handlers } =
      .ok (Serving.without { s.grown with
        arg := some s.next
        handlers := (some s.next).toList ++ s.handlers } s.next) := by
    rw [hhandlers]
    exact Serving.freeAll_cons [] List.mem_cons_self
  have hcancel : ioAccept .cancelled { s.grown with
        arg := some s.next
        handlers := (some s.next).toList ++ s.handlers } = .ok (_, .stop) :=
    cancellable_cancelled hfree
  have hscope := cleanupScope_stop (fun s => s.arg) (s := { s.grown with arg := some s.next })
    hcancel
  rw [ioServerTurn_eq harg, hcall]
  exact Stmt.all_jump hscope (by decide)

/-! ## The ctrl server -/

/-- A ctrl server with a package and an argument. -/
def Serving.furnished (s : Serving) : Serving :=
  { s.grown.grown with arg := some (s.next + 1), pkg := some s.next }

/-- With both a turn comes to `recvfrom`. -/
theorem ctrlServerTurn_eq (hpkg : o.package = true) (harg : o.arg = true) :
    ctrlServerTurn o s = Stmt.all [
      cleanupScope (fun s => s.pkg) (cleanupScope (fun s => s.arg) (ctrlRecvfrom o.call)),
      .act fun s => s.touch s.arg, .act fun s => s.submit s.pkg] s.furnished := by
  have hmalloc : Stmt.act (Serving.mallocPkg o.package) s =
      .ok ({ s.grown with pkg := some s.next }, .next) :=
    Stmt.act_ok (by rw [hpkg]; rfl)
  have hmalloc' : Stmt.act (Serving.mallocArg o.arg) { s.grown with pkg := some s.next } =
      .ok (s.furnished, .next) :=
    Stmt.act_ok (by rw [harg]; rfl)
  rw [ctrlServerTurn, Stmt.all_next hmalloc, Stmt.all_next (Stmt.cond_false rfl),
    Stmt.all_next hmalloc', Stmt.all_next (Stmt.cond_false rfl)]

theorem ctrlServerTurn_noPackage (hpkg : o.package = false) :
    ctrlServerTurn o s = .ok ({ s with pkg := none }, .brk) := by
  have hmalloc : Stmt.act (Serving.mallocPkg o.package) s = .ok ({ s with pkg := none }, .next) :=
    Stmt.act_ok (by rw [hpkg]; rfl)
  rw [ctrlServerTurn, Stmt.all_next hmalloc]
  exact Stmt.all_jump (Stmt.cond_true rfl) (by decide)

/-- Without an argument the package is released. -/
theorem ctrlServerTurn_noArg (hpkg : o.package = true) (harg : o.arg = false) :
    ctrlServerTurn o s = .ok ({ s.grown.without s.next with
      arg := none
      pkg := some s.next }, .brk) := by
  have hmalloc : Stmt.act (Serving.mallocPkg o.package) s =
      .ok ({ s.grown with pkg := some s.next }, .next) :=
    Stmt.act_ok (by rw [hpkg]; rfl)
  have hmalloc' : Stmt.act (Serving.mallocArg o.arg) { s.grown with pkg := some s.next } =
      .ok ({ s.grown with arg := none, pkg := some s.next }, .next) :=
    Stmt.act_ok (by rw [harg]; rfl)
  have hfree : Stmt.act (fun s : Serving => s.free s.pkg)
      { s.grown with arg := none, pkg := some s.next } = .ok (_, .next) :=
    Stmt.act_ok (Serving.free_ok List.mem_cons_self)
  rw [ctrlServerTurn, Stmt.all_next hmalloc, Stmt.all_next (Stmt.cond_false rfl),
    Stmt.all_next hmalloc']
  refine Stmt.all_jump ?_ (by decide)
  rw [Stmt.cond_true (c := fun s : Serving => s.arg.isNone) rfl, Stmt.all_next hfree]
  exact Stmt.all_jump rfl (by decide)

/-- The two handlers of a turn that comes to `recvfrom`. -/
def Serving.guarded (s : Serving) : Serving :=
  { s.furnished with handlers := (s.next + 1) :: s.next :: s.handlers }

/-- A package goes to a worker. -/
theorem ctrlServerTurn_success (hpkg : o.package = true) (harg : o.arg = true)
    (hcall : o.call = .success) :
    ctrlServerTurn o s = .ok ({ s.furnished with
      submitted := s.submitted ++ [⟨s.next + 1, some s.next⟩]
      pool := s.pool ++ [⟨s.next + 1, some s.next⟩] }, .next) := by
  have hrecv : ctrlRecvfrom .success s.guarded = .ok (_, .next) :=
    ctrlRecvfrom_success rfl (List.mem_cons_of_mem _ List.mem_cons_self)
  have hinner := cleanupScope_ok (fun s => s.arg)
    (s := { s.furnished with handlers := s.next :: s.handlers }) hrecv (by decide)
  have hscope := cleanupScope_ok (fun s => s.pkg) (s := s.furnished) hinner (by decide)
  have htouch : Stmt.act (fun s : Serving => s.touch s.arg) s.furnished =
      .ok (s.furnished, .next) :=
    Stmt.act_ok (Serving.touch_ok List.mem_cons_self)
  rw [ctrlServerTurn_eq hpkg harg, hcall, Stmt.all_next hscope]
  exact (Stmt.all_next htouch).trans (Stmt.all_next (Stmt.act_ok rfl))

/-- **After a failed `recvfrom` too the turn goes on with what was released.** -/
theorem ctrlServerTurn_failed (hpkg : o.package = true) (harg : o.arg = true)
    (hcall : o.call.failed = true) (hfresh : s.next + 1 ∉ s.live) :
    ctrlServerTurn o s = .error .useAfterFree := by
  have hrecv : ctrlRecvfrom o.call s.guarded = .ok (_, .brk) :=
    ctrlRecvfrom_failed rfl rfl List.mem_cons_self (List.mem_cons_of_mem _ List.mem_cons_self)
      (Nat.ne_of_lt (Nat.lt_succ_self s.next)) hcall
  have hinner := cleanupScope_ok (fun s => s.arg)
    (s := { s.furnished with handlers := s.next :: s.handlers }) hrecv (by decide)
  have hscope := cleanupScope_ok (fun s => s.pkg) (s := s.furnished) hinner (by decide)
  rw [ctrlServerTurn_eq hpkg harg, Stmt.all_next hscope]
  refine Stmt.all_error (Stmt.act_error (Serving.touch_released ?_))
  show s.next + 1 ∉ (((s.next + 1) :: s.next :: s.live).erase (s.next + 1)).erase s.next
  rwa [List.erase_cons_head, List.erase_cons_head]

theorem ctrlServerTurn_cancelled (hpkg : o.package = true) (harg : o.arg = true)
    (hcall : o.call = .cancelled) (hhandlers : s.handlers = []) :
    ctrlServerTurn o s = .ok ({ (s.furnished.without (s.next + 1)).without s.next with
      handlers := [] }, .stop) := by
  have hfree : Serving.freeAll s.guarded.handlers s.guarded =
      .ok ((s.guarded.without (s.next + 1)).without s.next) := by
    have hmem : s.next ∈ (s.guarded.without (s.next + 1)).live := by
      show s.next ∈ ((s.next + 1) :: s.next :: s.live).erase (s.next + 1)
      rw [List.erase_cons_head]
      exact List.mem_cons_self
    rw [Serving.guarded, hhandlers]
    exact (Serving.freeAll_cons [s.next] List.mem_cons_self).trans (Serving.freeAll_cons [] hmem)
  have hrecv : ctrlRecvfrom .cancelled s.guarded = .ok (_, .stop) := cancellable_cancelled hfree
  have hinner := cleanupScope_stop (fun s => s.arg)
    (s := { s.furnished with handlers := s.next :: s.handlers }) hrecv
  have hscope := cleanupScope_stop (fun s => s.pkg) (s := s.furnished) hinner
  rw [ctrlServerTurn_eq hpkg harg, hcall]
  exact Stmt.all_jump hscope (by decide)

end Turns

end Propd
