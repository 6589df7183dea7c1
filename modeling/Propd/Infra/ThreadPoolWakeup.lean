import Propd.Infra.ThreadPool

/-!
# No lost wakeup in the thread pool

`task_queue_push` and `task_queue_pop` send one signal each. That is enough: while a worker
sleeps, every queued task has a worker that was woken for it, and while a submitter sleeps,
so has every free slot a submitter. A woken thread may be overtaken by one that just came,
and then sleeps again; but the one that overtook it took what it was woken for.
-/

namespace Propd

open Lib

variable {ι κ α : Type}

theorem PoolWorkerPc.waiting_mark (pc : PoolWorkerPc ι α) (h : pc.waiting = .asleep) :
    pc.mark.waiting = .marked := by
  cases pc with
  | asleep => rfl
  | _ => cases h

theorem SubmitterPc.waiting_mark (pc : SubmitterPc ι α) (h : pc.waiting = .asleep) :
    pc.mark.waiting = .marked := by
  cases pc with
  | asleep task => rfl
  | _ => cases h

/-- A push that finds room counts one task more; the sum is below `2 ^ 16`. -/
theorem TaskQueue.push_count {q : TaskQueue ι α} (hroom : q.count < q.num.toNat)
    (task : QueueTask ι α) : (q.push task).count = q.count + 1 := by
  have hnum := q.num.toNat_lt
  exact Nat.mod_eq_of_lt (by omega)

/-- A submitter in `task_queue_push` with the lock is not asleep. -/
theorem SubmitterPc.awake {pc : SubmitterPc ι α} {task : QueueTask ι α}
    (h : pc = .push task ∨ pc = .woken task) : pc.waiting ≠ .asleep := by
  rcases h with rfl | rfl
  · nofun
  · nofun

theorem PoolWorkerPc.awake {pc : PoolWorkerPc ι α} (h : pc = .pop ∨ pc = .woken) :
    pc.waiting ≠ .asleep := by
  rcases h with rfl | rfl
  · nofun
  · nofun

variable [Fintype ι] [Fintype κ]

/-- No wakeup is lost on `not_empty`, where a queued task is waited for, nor on `not_full`,
where a free slot is. -/
structure WakeupInv (s : PoolState ι κ α) : Prop where
  bound : s.queue.count ≤ s.queue.num.toNat
  notEmpty : NoLostWakeup PoolWorkerPc.waiting s.workers s.queue.count
  notFull : NoLostWakeup SubmitterPc.waiting s.submitters (s.queue.num.toNat - s.queue.count)

theorem PoolState.Starts.wakeupInv {s : PoolState ι κ α} (h : s.Starts) : WakeupInv s where
  bound := by
    rw [h.queue]
    exact Nat.zero_le _
  notEmpty := by
    rw [h.queue]
    exact .zero
  notFull := by
    rintro ⟨t, ht⟩
    rw [h.submitters t] at ht
    cases ht

variable [DecidableEq ι] [DecidableEq κ]

variable {s s' : PoolState ι κ α} {a : PoolAction ι κ α}

/-- A task more, and a signal; and a slot less, taken by a submitter that was awake. -/
theorem WakeupInv.pushed (h : WakeupInv s) {t : ι} {task : QueueTask ι α} {signalled : Option κ}
    {workers : κ → PoolWorkerPc ι α}
    (hpc : s.submitters t = .push task ∨ s.submitters t = .woken task)
    (hroom : s.queue.count < s.queue.num.toNat)
    (hsignal : condSignal PoolWorkerPc.waiting PoolWorkerPc.mark s.workers signalled = some workers) :
    NoLostWakeup PoolWorkerPc.waiting workers (s.queue.push task).count ∧
      ∀ pc : SubmitterPc ι α, pc.waiting = .outside →
        NoLostWakeup SubmitterPc.waiting (Function.update s.submitters t pc)
          (s.queue.num.toNat - (s.queue.push task).count) := by
  have hcount := TaskQueue.push_count hroom task
  constructor
  · rw [hcount]
    exact h.notEmpty.signal PoolWorkerPc.waiting_mark hsignal
  · intro pc hout
    have hfree : s.queue.num.toNat - s.queue.count =
        s.queue.num.toNat - (s.queue.push task).count + 1 := by omega
    have hfull := h.notFull
    rw [hfree] at hfull
    exact hfull.take (SubmitterPc.awake hpc) hout

/-- A task less, taken by a worker that was awake; and a slot more, and a signal. -/
theorem WakeupInv.popped (h : WakeupInv s) {w : κ} {signalled : Option ι}
    {submitters : ι → SubmitterPc ι α} (hpc : s.workers w = .pop ∨ s.workers w = .woken)
    (hcount : s.queue.count ≠ 0)
    (hsignal : condSignal SubmitterPc.waiting SubmitterPc.mark s.submitters signalled =
      some submitters) :
    (∀ pc : PoolWorkerPc ι α, pc.waiting = .outside →
      NoLostWakeup PoolWorkerPc.waiting (Function.update s.workers w pc) s.queue.pop.count) ∧
      NoLostWakeup SubmitterPc.waiting submitters (s.queue.num.toNat - s.queue.pop.count) := by
  have hbound := h.bound
  constructor
  · intro pc hout
    have htask : s.queue.count = s.queue.pop.count + 1 := by
      simp only [TaskQueue.pop]
      omega
    have hempty := h.notEmpty
    rw [htask] at hempty
    exact hempty.take (PoolWorkerPc.awake hpc) hout
  · have hfree : s.queue.num.toNat - s.queue.pop.count =
        s.queue.num.toNat - s.queue.count + 1 := by
      simp only [TaskQueue.pop]
      omega
    rw [hfree]
    exact h.notFull.signal SubmitterPc.waiting_mark hsignal

/-- One step loses no wakeup. -/
theorem WakeupInv.step (h : WakeupInv s) (hs : PoolStep s a s') : WakeupInv s' := by
  have hbound := h.bound
  cases hs with
  | submit hpc =>
    refine ⟨hbound, h.notEmpty, ?_⟩
    apply h.notFull.move
    · rw [hpc]
      nofun
    · rfl
  | full hpc hfull =>
    -- no slot is free
    have hzero : s.queue.num.toNat - s.queue.count = 0 := by omega
    refine ⟨hbound, h.notEmpty, ?_⟩
    show NoLostWakeup _ _ (s.queue.num.toNat - s.queue.count)
    rw [hzero]
    exact .zero
  | @pushed t task signalled workers hpc hroom hsignal =>
    obtain ⟨hempty, hfull⟩ := h.pushed hpc hroom hsignal
    refine ⟨(TaskQueue.push_count hroom task).trans_le hroom, hempty, ?_⟩
    apply hfull
    split <;> rfl
  | wakeSubmitter hpc =>
    refine ⟨hbound, h.notEmpty, ?_⟩
    apply h.notFull.move
    · rw [hpc]
      nofun
    · rfl
  | answer hpc hdone =>
    refine ⟨hbound, h.notEmpty, ?_⟩
    apply h.notFull.move
    · rw [hpc]
      nofun
    · rfl
  | empty hpc hcount =>
    -- nothing is queued
    refine ⟨hbound, ?_, h.notFull⟩
    show NoLostWakeup _ _ s.queue.count
    rw [hcount]
    exact .zero
  | @popped w task signalled submitters hpc hcount hsignal hslot =>
    obtain ⟨hempty, hfull⟩ := h.popped hpc hcount hsignal
    exact ⟨(Nat.sub_le _ _).trans hbound, hempty _ rfl, hfull⟩
  | wakeWorker hpc =>
    refine ⟨hbound, ?_, h.notFull⟩
    apply h.notEmpty.move
    · rw [hpc]
      nofun
    · rfl
  | @finish w task result hpc =>
    have hrun : ∀ pc : PoolWorkerPc ι α, pc.waiting = .outside →
        NoLostWakeup PoolWorkerPc.waiting (Function.update s.workers w pc) s.queue.count := by
      intro pc hout
      apply h.notEmpty.move _ hout
      rw [hpc]
      nofun
    cases hresult : task.result with
    | none =>
      simp only [PoolState.finish, hresult]
      exact ⟨hbound, hrun _ rfl, h.notFull⟩
    | some t =>
      simp only [PoolState.finish, hresult]
      exact ⟨hbound, hrun _ rfl, h.notFull⟩
  | post hpc hresult =>
    refine ⟨hbound, ?_, h.notFull⟩
    apply h.notEmpty.move
    · rw [hpc]
      nofun
    · rfl

theorem wakeupInv_of_reachable (h : (poolSystem ι κ α).Reachable s) : WakeupInv s := by
  apply LTS.invariant _ _ h
  · intro s hs
    exact hs.wakeupInv
  · intro s a s' hinv hs
    exact hinv.step (poolStep_ok hs)

/-- **No wakeup is lost.** While a worker sleeps without a signal there are no more queued
tasks than workers with one, and while a submitter does there are no more free slots than
submitters with one. So a task is never left in the queue with every worker asleep, nor a
slot free with every submitter. -/
theorem pool_noLostWakeup (h : (poolSystem ι κ α).Reachable s) :
    ((∃ w, (s.workers w).waiting = .asleep) →
      s.queue.count ≤ countThreads (fun pc : PoolWorkerPc ι α => pc.waiting = .marked) s.workers) ∧
    ((∃ t, (s.submitters t).waiting = .asleep) →
      s.queue.num.toNat - s.queue.count ≤
        countThreads (fun pc : SubmitterPc ι α => pc.waiting = .marked) s.submitters) ∧
    ((∃ w, (s.workers w).waiting = .asleep) → 0 < s.queue.count →
      ∃ w, (s.workers w).waiting = .marked) ∧
    ((∃ t, (s.submitters t).waiting = .asleep) → s.queue.count < s.queue.num.toNat →
      ∃ t, (s.submitters t).waiting = .marked) := by
  have hinv := wakeupInv_of_reachable h
  refine ⟨hinv.notEmpty, hinv.notFull, ?_, ?_⟩
  · intro hasleep hqueued
    by_contra hnone
    have hle := hinv.notEmpty hasleep
    rw [(countThreads_eq_zero fun pc : PoolWorkerPc ι α => pc.waiting = .marked).mpr
      (not_exists.mp hnone)] at hle
    omega
  · intro hasleep hfree
    by_contra hnone
    have hle := hinv.notFull hasleep
    rw [(countThreads_eq_zero fun pc : SubmitterPc ι α => pc.waiting = .marked).mpr
      (not_exists.mp hnone)] at hle
    omega

/-- A submitter sleeps, a slot is free, and the other submitter was woken for it. -/
theorem pool_noLostWakeup_overtake :
    ∃ s, (poolSystem (Fin 3) (Fin 1) Unit).Reachable s ∧
      (s.submitters 2).waiting = .asleep ∧ s.queue.count < s.queue.num.toNat ∧
      ∃ t, (s.submitters t).waiting = .marked := by
  obtain ⟨s, hrun, hasleep, hfree⟩ : ∃ s,
      LTS.exec (LTS.stepsOk poolStep) examplePool exampleOvertake = some s ∧
        (s.submitters 2).waiting = .asleep ∧ s.queue.count < s.queue.num.toNat :=
    ⟨_, rfl, rfl, by decide⟩
  have hs := LTS.exec_reachable (M := poolSystem (Fin 3) (Fin 1) Unit)
    (fun _ _ _ => LTS.stepsOk_eq_some) examplePool_starts hrun
  exact ⟨s, hs, hasleep, hfree, (pool_noLostWakeup hs).2.2.2 ⟨2, hasleep⟩ hfree⟩

end Propd
