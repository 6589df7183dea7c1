import Propd.Server.Ownership

/-!
# Runs of the servers

What the loops are meant to do, whatever their calls meet, and that they do it exactly where no
call fails: every block has one holder, which is a worker that has not come to its end, and is
released once.
-/

namespace Propd

open Lib

/-- There is memory for the turn. -/
def ServerKind.memory : ServerKind → Turn → Bool
  | .io, o => o.arg
  | .ctrl, o => o.package && o.arg

/-- The workers have packages. -/
def ServerKind.hasPackage : ServerKind → Bool
  | .io => false
  | .ctrl => true

/-- The loop is meant to go on after the call. -/
def ServerKind.resumes : ServerKind → Call → Bool
  | .io, .interrupted => true
  | _, _ => false

namespace ServingLabel

/-- The turn gets a connection, or a package. -/
def succeeds (kind : ServerKind) : ServingLabel → Bool
  | .turn o => kind.memory o && o.call = .success
  | _ => false

/-- `accept` or `recvfrom` fails. -/
def failed (kind : ServerKind) : ServingLabel → Bool
  | .turn o => kind.memory o && o.call.failed
  | _ => false

/-- What the step is meant to do: a turn that succeeds submits one worker, with blocks that are
there; any other submits none and keeps no block, and the loop ends, unless it is to go on. A worker
disturbs nobody. -/
def Meant (kind : ServerKind) (l : ServingLabel) (s s' : Serving) : Prop :=
  match l with
  | .turn o =>
    if l.succeeds kind then
      s'.running = true ∧ ∃ t, s'.submitted = s.submitted ++ [t] ∧
        t.package.isSome = kind.hasPackage ∧ ∀ b ∈ t.blocks, b ∈ s'.live
    else
      s'.running = (kind.memory o && kind.resumes o.call) ∧ s'.submitted = s.submitted ∧
        s'.live = s.live
  | .use _ => s' = s
  | .finish t => s'.running = s.running ∧ s'.submitted = s.submitted ∧ s'.pool = s.pool.erase t

end ServingLabel

/-- Every block is live or was released once, the live ones are those of the workers that have not
come to their end, and no two workers have had the same. -/
structure Owned (s : Serving) : Prop where
  counted : (s.live ++ s.released).Perm (List.range s.next)
  held : (s.pool.flatMap WorkerTask.blocks).Perm s.live
  own : (s.submitted.flatMap WorkerTask.blocks).Nodup
  known : ∀ t ∈ s.submitted, ∀ b ∈ t.blocks, b < s.next
  handlers : s.handlers = []

/-! ## What a turn does to the blocks -/

/-- The turn hands new blocks to a worker. -/
structure Submits (s s' : Serving) (t : WorkerTask) : Prop where
  blocks : t.blocks.Perm (List.range' s.next t.blocks.length)
  next : s'.next = s.next + t.blocks.length
  live : s'.live = t.blocks ++ s.live
  released : s'.released = s.released
  handlers : s'.handlers = s.handlers
  submitted : s'.submitted = s.submitted ++ [t]
  pool : s'.pool = s.pool ++ [t]

/-- The turn has released its blocks. -/
structure Drops (s s' : Serving) (bs : List Block) : Prop where
  blocks : bs.Perm (List.range' s.next bs.length)
  next : s'.next = s.next + bs.length
  live : s'.live = s.live
  released : s'.released = s.released ++ bs
  handlers : s'.handlers = []
  submitted : s'.submitted = s.submitted
  pool : s'.pool = s.pool

section Steps

variable {kind : ServerKind} {s s' : Serving} {o : Turn} {t : WorkerTask} {bs : List Block}

theorem range_add_perm (n : ℕ) (h : bs.Perm (List.range' n bs.length)) :
    (List.range n ++ bs).Perm (List.range (n + bs.length)) := by
  have happend : List.range n ++ List.range' n bs.length = List.range (n + bs.length) := by
    rw [List.range_eq_range', List.range_eq_range']
    simpa using List.range'_append_1 (s := 0) (m := n) (n := bs.length)
  exact happend ▸ h.append_left (List.range n)

/-- A block that is live has been allocated. -/
theorem Owned.lt (h : Owned s) {b : Block} (hb : b ∈ s.live) : b < s.next :=
  List.mem_range.mp (h.counted.subset (List.mem_append_left _ hb))

/-- The blocks of a worker that is not at its end are live. -/
theorem Owned.live (h : Owned s) (ht : t ∈ s.pool) {b : Block} (hb : b ∈ t.blocks) : b ∈ s.live :=
  h.held.subset (List.mem_flatMap.mpr ⟨t, ht, hb⟩)

/-- **New blocks of a new worker.** -/
theorem Owned.submits (h : Owned s) (hs : Submits s s' t) : Owned s' := by
  have hnew : ∀ b ∈ t.blocks, s.next ≤ b ∧ b < s.next + t.blocks.length := fun b hb =>
    List.mem_range'_1.mp (hs.blocks.subset hb)
  refine ⟨?_, ?_, ?_, ?_, hs.handlers.trans h.handlers⟩
  · rw [hs.live, hs.released, hs.next, List.append_assoc]
    exact (List.perm_append_comm.trans (h.counted.append_right _)).trans
      (range_add_perm _ hs.blocks)
  · rw [hs.pool, hs.live, List.flatMap_append, List.flatMap_singleton]
    exact (h.held.append_right _).trans List.perm_append_comm
  · rw [hs.submitted, List.flatMap_append, List.flatMap_singleton]
    refine List.nodup_append.mpr ⟨h.own, hs.blocks.nodup_iff.mpr List.nodup_range', ?_⟩
    -- the older workers have older blocks
    intro b hb b' hb'
    obtain ⟨t', ht', hbt⟩ := List.mem_flatMap.mp hb
    exact Nat.ne_of_lt ((h.known t' ht' b hbt).trans_le (hnew b' hb').1)
  · intro t' ht' b hb
    rw [hs.submitted] at ht'
    rw [hs.next]
    rcases List.mem_append.mp ht' with ht' | ht'
    · exact Nat.lt_add_right _ (h.known t' ht' b hb)
    · rw [List.mem_singleton.mp ht'] at hb
      exact (hnew b hb).2

/-- **Blocks that no worker gets.** -/
theorem Owned.drops (h : Owned s) (hs : Drops s s' bs) : Owned s' := by
  refine ⟨?_, ?_, ?_, ?_, hs.handlers⟩
  · rw [hs.live, hs.released, hs.next, ← List.append_assoc]
    exact (h.counted.append_right _).trans (range_add_perm _ hs.blocks)
  · rw [hs.pool, hs.live]
    exact h.held
  · rw [hs.submitted]
    exact h.own
  · intro t ht b hb
    rw [hs.submitted] at ht
    rw [hs.next]
    exact Nat.lt_add_right _ (h.known t ht b hb)

/-- A turn that succeeds. -/
theorem body_success (hmem : kind.memory o = true) (hcall : o.call = .success) :
    ∃ s' t, kind.body o s = .ok (s', .next) ∧ Submits s s' t ∧
      t.package.isSome = kind.hasPackage := by
  cases kind with
  | io =>
    exact ⟨_, ⟨s.next, none⟩, ioServerTurn_success hmem hcall,
      ⟨.refl _, rfl, rfl, rfl, rfl, rfl, rfl⟩, rfl⟩
  | ctrl =>
    obtain ⟨hpkg, harg⟩ := Bool.and_eq_true_iff.mp hmem
    exact ⟨_, ⟨s.next + 1, some s.next⟩, ctrlServerTurn_success hpkg harg hcall,
      ⟨.swap _ _ _, rfl, rfl, rfl, rfl, rfl, rfl⟩, rfl⟩

/-- A turn whose call fails. -/
theorem body_failed (h : Owned s) (hmem : kind.memory o = true) (hcall : o.call.failed = true) :
    kind.body o s = .error .useAfterFree := by
  cases kind with
  | io => exact ioServerTurn_failed hmem hcall fun hlive => Nat.lt_irrefl _ (h.lt hlive)
  | ctrl =>
    obtain ⟨hpkg, harg⟩ := Bool.and_eq_true_iff.mp hmem
    refine ctrlServerTurn_failed hpkg harg hcall fun hlive => ?_
    exact Nat.lt_irrefl _ ((Nat.lt_succ_self s.next).trans (h.lt hlive))

/-- A turn without memory, and one in which the thread is cancelled. -/
theorem body_over (h : Owned s) (hover : kind.memory o = false ∨ o.call = .cancelled) :
    ∃ s' f bs, kind.body o s = .ok (s', f) ∧ f.goesOn = false ∧ Drops s s' bs := by
  cases kind with
  | io =>
    cases harg : o.arg with
    | false =>
      exact ⟨_, .brk, [], ioServerTurn_noMemory harg, rfl,
        ⟨.refl _, rfl, rfl, (List.append_nil _).symm, h.handlers, rfl, rfl⟩⟩
    | true =>
      have hcall : o.call = .cancelled := hover.resolve_left fun hmem => by
        rw [ServerKind.memory, harg] at hmem
        cases hmem
      exact ⟨_, .stop, [s.next], ioServerTurn_cancelled harg hcall h.handlers, rfl,
        ⟨.refl _, rfl, List.erase_cons_head _ _, rfl, rfl, rfl, rfl⟩⟩
  | ctrl =>
    cases hpkg : o.package with
    | false =>
      exact ⟨_, .brk, [], ctrlServerTurn_noPackage hpkg, rfl,
        ⟨.refl _, rfl, rfl, (List.append_nil _).symm, h.handlers, rfl, rfl⟩⟩
    | true =>
      cases harg : o.arg with
      | false =>
        exact ⟨_, .brk, [s.next], ctrlServerTurn_noArg hpkg harg, rfl,
          ⟨.refl _, rfl, List.erase_cons_head _ _, rfl, h.handlers, rfl, rfl⟩⟩
      | true =>
        have hcall : o.call = .cancelled := hover.resolve_left fun hmem => by
          rw [ServerKind.memory, hpkg, harg] at hmem
          cases hmem
        refine ⟨_, .stop, [s.next + 1, s.next], ctrlServerTurn_cancelled hpkg harg hcall h.handlers,
          rfl, ⟨.swap _ _ _, rfl, ?_, ?_, rfl, rfl, rfl⟩⟩
        · show (((s.next + 1) :: s.next :: s.live).erase (s.next + 1)).erase s.next = s.live
          rw [List.erase_cons_head, List.erase_cons_head]
        · show (s.released ++ [s.next + 1]) ++ [s.next] = _
          rw [List.append_assoc]
          rfl

/-! ## The workers -/

/-- To release a block is to move it. -/
theorem without_perm {b : Block} (hb : b ∈ s.live) :
    ((s.without b).live ++ (s.without b).released).Perm (s.live ++ s.released) := by
  have hmove : (s.live.erase b ++ (s.released ++ [b])).Perm
      (b :: (s.live.erase b ++ s.released)) := by
    rw [← List.append_assoc]
    exact List.perm_append_singleton b _
  exact hmove.trans ((List.perm_cons_erase hb).symm.append_right s.released)

/-- A worker finds what it was given. -/
theorem use_ok (h : Owned s) (ht : t ∈ s.pool) : t.use s = .ok s := by
  have harg : s.touch (some t.arg) = .ok s := Serving.touch_ok (h.live ht List.mem_cons_self)
  rw [WorkerTask.use, harg]
  cases hpkg : t.package with
  | none => rfl
  | some b =>
    have hb : b ∈ t.blocks := by
      rw [WorkerTask.blocks, hpkg]
      exact List.mem_cons_of_mem _ List.mem_cons_self
    exact Serving.touch_ok (h.live ht hb)

/-- **A worker releases what it was given, and nothing else.** -/
theorem finish_ok (h : Owned s) (ht : t ∈ s.pool) :
    ∃ s', t.finish s = .ok s' ∧ Owned s' ∧ s'.running = s.running ∧ s'.submitted = s.submitted ∧
      s'.pool = s.pool.erase t := by
  have harg : t.arg ∈ s.live := h.live ht List.mem_cons_self
  have hheld : (t.blocks ++ (s.pool.erase t).flatMap WorkerTask.blocks).Perm s.live := by
    rw [← List.flatMap_cons]
    exact ((List.perm_cons_erase ht).flatMap_right _).symm.trans h.held
  rw [WorkerTask.finish, Serving.touch_ok harg]
  cases hpkg : t.package with
  | none =>
    rw [WorkerTask.blocks, hpkg] at hheld
    have hrest := hheld.symm.erase t.arg
    rw [List.cons_append, List.erase_cons_head] at hrest
    refine ⟨{ s.without t.arg with pool := s.pool.erase t }, ?_, ?_, rfl, rfl, rfl⟩
    · simp only [bind, Except.bind, Serving.free, if_pos harg]
      rfl
    · exact ⟨(without_perm harg).trans h.counted, hrest.symm, h.own, h.known, h.handlers⟩
  | some b =>
    have hb : b ∈ s.live := h.live ht (by
      rw [WorkerTask.blocks, hpkg]
      exact List.mem_cons_of_mem _ List.mem_cons_self)
    rw [WorkerTask.blocks, hpkg] at hheld
    -- without the package the argument is still there
    have hswap := ((List.Perm.swap t.arg b _).trans hheld).symm.erase b
    rw [List.erase_cons_head] at hswap
    have harg' : t.arg ∈ (s.without b).live := hswap.symm.subset List.mem_cons_self
    have hrest := hswap.erase t.arg
    rw [List.erase_cons_head] at hrest
    refine ⟨{ (s.without b).without t.arg with pool := s.pool.erase t }, ?_, ?_, rfl, rfl, rfl⟩
    · simp only [bind, Except.bind, Serving.free, if_pos hb, if_pos harg']
      rfl
    · exact ⟨(without_perm harg').trans ((without_perm hb).trans h.counted), hrest.symm, h.own,
        h.known, h.handlers⟩

/-! ## Runs -/

/-- The loop after a turn. -/
def Serving.turned (s : Serving) (running : Bool) : Serving := { s with running := running }

theorem Owned.turned (h : Owned s) (running : Bool) : Owned (s.turned running) :=
  ⟨h.counted, h.held, h.own, h.known, h.handlers⟩

/-- What a turn does, by its outcome. -/
theorem turn_meant (h : Owned s) (o : Turn) {r : Except Fault Serving}
    (hr : ((kind.body o).turn s).map (fun r => r.1.turned r.2) = r) :
    ((ServingLabel.turn o).failed kind = false →
      ∃ s', r = .ok s' ∧ Owned s' ∧ (ServingLabel.turn o).Meant kind s s') ∧
    ((ServingLabel.turn o).failed kind = true → r = .error .useAfterFree) := by
  by_cases hover : kind.memory o = false ∨ o.call = .cancelled
  · -- the turn is the last one
    obtain ⟨s', f, bs, hbody, hf, hdrops⟩ := body_over h hover
    rw [Stmt.turn_ok hbody, hf] at hr
    cases hr
    have hfailed : (ServingLabel.turn o).failed kind = false := by
      rcases hover with hmem | hcall
      · rw [ServingLabel.failed, hmem, Bool.false_and]
      · rw [ServingLabel.failed, hcall, show Call.cancelled.failed = false from rfl, Bool.and_false]
    have hsucceeds : (ServingLabel.turn o).succeeds kind = false := by
      rcases hover with hmem | hcall
      · rw [ServingLabel.succeeds, hmem, Bool.false_and]
      · rw [ServingLabel.succeeds, hcall, Bool.and_eq_false_iff]
        exact .inr rfl
    have hends : (kind.memory o && kind.resumes o.call) = false := by
      rcases hover with hmem | hcall
      · rw [hmem, Bool.false_and]
      · rw [hcall]
        cases kind <;> exact Bool.and_false _
    refine ⟨fun _ => ⟨_, rfl, (h.drops hdrops).turned false, ?_⟩, fun hyes => ?_⟩
    · rw [ServingLabel.Meant, if_neg (Bool.eq_false_iff.mp hsucceeds), hends]
      exact ⟨rfl, hdrops.submitted, hdrops.live⟩
    · rw [hfailed] at hyes
      cases hyes
  · obtain ⟨hmem', hcancel⟩ := not_or.mp hover
    have hmem : kind.memory o = true := Bool.not_eq_false _ ▸ hmem'
    cases hcall : o.call.failed with
    | true =>
      -- the turn goes on with what it has released
      rw [Stmt.turn_error (body_failed h hmem hcall)] at hr
      refine ⟨fun hno => ?_, fun _ => hr.symm⟩
      rw [ServingLabel.failed, hmem, hcall] at hno
      cases hno
    | false =>
      have hsuccess : o.call = .success := by
        cases hc : o.call with
        | success => rfl
        | interrupted =>
          rw [hc] at hcall
          cases hcall
        | failure =>
          rw [hc] at hcall
          cases hcall
        | cancelled => exact absurd hc hcancel
      obtain ⟨s', t, hbody, hsubmits, hpackage⟩ := body_success (s := s) hmem hsuccess
      rw [Stmt.turn_ok hbody] at hr
      cases hr
      have hsucceeds : (ServingLabel.turn o).succeeds kind = true := by
        rw [ServingLabel.succeeds, hmem, hsuccess]
        rfl
      refine ⟨fun _ => ⟨_, rfl, (h.submits hsubmits).turned _, ?_⟩, fun hyes => ?_⟩
      · rw [ServingLabel.Meant, if_pos hsucceeds]
        refine ⟨rfl, t, hsubmits.submitted, hpackage, fun b hb => ?_⟩
        show b ∈ s'.live
        rw [hsubmits.live]
        exact List.mem_append_left _ hb
      · rw [ServingLabel.failed, hcall, Bool.and_false] at hyes
        cases hyes

/-- **A step does what it is meant to do and keeps the blocks owned, unless a call fails**; then a
released argument is used. -/
theorem step_meant (h : Owned s) {l : ServingLabel} {r : Except Fault Serving}
    (hs : servingStep kind s l = some r) :
    (l.failed kind = false → ∃ s', r = .ok s' ∧ Owned s' ∧ l.Meant kind s s') ∧
    (l.failed kind = true → r = .error .useAfterFree) := by
  cases l with
  | turn o =>
    simp only [servingStep] at hs
    split at hs
    · exact turn_meant h o (Option.some.inj hs)
    · cases hs
  | use t =>
    simp only [servingStep] at hs
    split at hs
    · rename_i ht
      cases hs
      exact ⟨fun _ => ⟨s, use_ok h ht, h, rfl⟩, fun hyes => by cases hyes⟩
    · cases hs
  | finish t =>
    simp only [servingStep] at hs
    split at hs
    · rename_i ht
      cases hs
      obtain ⟨s', hok, howned, hmeant⟩ := finish_ok h ht
      exact ⟨fun _ => ⟨s', hok, howned, hmeant⟩, fun hyes => by cases hyes⟩
    · cases hs

theorem Owned.start : Owned .start :=
  ⟨.refl _, .refl _, .nil, fun _ ht => absurd ht List.not_mem_nil, rfl⟩

/-- A step that does what it is meant to do submits a worker where a call succeeds. -/
theorem length_submitted {l : ServingLabel} (h : l.Meant kind s s') :
    s'.submitted.length = s.submitted.length + if l.succeeds kind then 1 else 0 := by
  cases l with
  | turn o =>
    unfold ServingLabel.Meant at h
    simp only at h
    split at h
    · rename_i hsucceeds
      obtain ⟨-, t, hsubmitted, -⟩ := h
      rw [hsubmitted, if_pos hsucceeds, List.length_append, List.length_singleton]
    · rename_i hsucceeds
      rw [h.2.1, if_neg hsucceeds, Nat.add_zero]
  | use t => exact congrArg (fun s => s.submitted.length) (show s' = s from h)
  | finish t => exact congrArg List.length h.2.1

/-- **The servers keep their blocks in order exactly where no call fails.** In every run, whatever
its calls met and whenever its workers ran, every block is held by one worker that is not at its end
or was released once, there is one worker for each call that succeeded, and what is tried next does
what it is meant to do if and only if it is not a turn whose call fails. -/
theorem servers_release (kind : ServerKind) {tr : List (Serving × ServingLabel)}
    (hp : (servingSystem kind).Path .start tr s) :
    Owned s ∧ s.submitted.length = tr.countP (fun x => x.2.succeeds kind) ∧
      (s.pool = [] → s.released.Perm (List.range s.next)) ∧
      ∀ l r, servingStep kind s l = some r →
        ((∃ s', r = .ok s' ∧ l.Meant kind s s') ↔ l.failed kind = false) := by
  have hrun : Owned s ∧ s.submitted.length = tr.countP (fun x => x.2.succeeds kind) := by
    refine hp.invariant (I := fun tr s => Owned s ∧
      s.submitted.length = tr.countP (fun x => x.2.succeeds kind)) ⟨.start, rfl⟩ ?_
    rintro tr s l s' - ⟨howned, hcount⟩ hs
    obtain ⟨hmeant, hfails⟩ := step_meant howned hs
    cases hfailed : l.failed kind with
    | true => cases hfails hfailed
    | false =>
      obtain ⟨s'', hok, howned', hmeant'⟩ := hmeant hfailed
      cases hok
      refine ⟨howned', ?_⟩
      rw [length_submitted hmeant', hcount, List.countP_append, List.countP_singleton]
  refine ⟨hrun.1, hrun.2, fun hpool => ?_, fun l r hs => ?_⟩
  · have hlive : s.live = [] := by
      have hheld := hrun.1.held
      rw [hpool] at hheld
      exact List.nil_perm.mp hheld
    have hcounted := hrun.1.counted
    rwa [hlive, List.nil_append] at hcounted
  · obtain ⟨hmeant, hfails⟩ := step_meant hrun.1 hs
    cases hfailed : l.failed kind with
    | true =>
      rw [hfails hfailed]
      refine iff_of_false ?_ (by decide)
      rintro ⟨s', hok, -⟩
      cases hok
    | false =>
      obtain ⟨s', hok, -, hmeant'⟩ := hmeant hfailed
      exact iff_of_true ⟨s', hok, hmeant'⟩ rfl

end Steps

/-- A connection has gone to a worker. -/
def served : Serving := ⟨1, [0], [], some 0, none, [], [⟨0, none⟩], [⟨0, none⟩], true⟩

/-- The worker has come to its end. -/
def servedOut : Serving := ⟨1, [], [0], some 0, none, [], [⟨0, none⟩], [], true⟩

/-- A package has gone to a worker of the other server. -/
def servedPackage : Serving :=
  ⟨2, [1, 0], [], some 1, some 0, [], [⟨1, some 0⟩], [⟨1, some 0⟩], true⟩

def servedPackageOut : Serving := ⟨2, [], [0, 1], some 1, some 0, [], [⟨1, some 0⟩], [], true⟩

/-- A connection and a package, each with a worker that comes to its end. -/
theorem servers_release_served :
    servedOut.released.Perm (List.range servedOut.next) ∧
      servedPackageOut.released.Perm (List.range servedPackageOut.next) := by
  have hturn : (servingSystem .io).step .start (.turn ⟨false, true, .success⟩) served := rfl
  have hfinish : (servingSystem .io).step served (.finish ⟨0, none⟩) servedOut := rfl
  have hpackage : servingStep .ctrl .start (.turn ⟨true, true, .success⟩) =
      some (.ok servedPackage) := by decide +kernel
  have hend : (servingSystem .ctrl).step servedPackage (.finish ⟨1, some 0⟩) servedPackageOut := rfl
  exact ⟨(servers_release .io (.snoc (.snoc .nil hturn) hfinish)).2.2.1 rfl,
    (servers_release .ctrl (.snoc (.snoc .nil hpackage) hend)).2.2.1 rfl⟩

/-- **A first `accept` that is interrupted, or a first call that fails.** -/
theorem servers_use_released :
    (servingStep .io .start (.turn ⟨false, true, .interrupted⟩) = some (.error .useAfterFree) ∧
      servingStep .io .start (.turn ⟨false, true, .failure⟩) = some (.error .useAfterFree) ∧
      servingStep .ctrl .start (.turn ⟨true, true, .failure⟩) = some (.error .useAfterFree)) ∧
    ¬ ∀ kind l r, servingStep kind .start l = some r →
      ∃ s', r = .ok s' ∧ l.Meant kind .start s' := by
  refine ⟨⟨rfl, rfl, rfl⟩, fun hall => ?_⟩
  obtain ⟨s', hok, -⟩ := hall .io (.turn ⟨false, true, .interrupted⟩) _ rfl
  cases hok

end Propd
