import Propd.Core.Types
import Propd.Lib.Condition
import Propd.Lib.Ring
import Propd.Lib.Transition

/-!
# The thread pool

`thread_pool.c`: a bounded queue of tasks with one mutex and two condition variables,
threads that submit tasks, and worker threads that run them. What a thread does with the
mutex of the queue locked, up to `pthread_cond_wait` or the unlock, is one step. Other
threads run between steps. A wait ends with a signal, or for no reason.

`pthread_cond_signal` is told which waiter it wakes; it wakes none only if there is none.
A routine that submits a task itself is one more submitter. Threads are not cancelled here.

The histories at the end of `PoolState` are not in the source: which tasks were pushed and
popped, what the routines returned, and what the synchronous submits did.
-/

namespace Propd

open Lib

/-- `task_t`: a routine with its argument, and for a synchronous submit the thread in whose
stack frame `result` and `done` are. The number is not in the source; no two tasks share it. -/
structure QueueTask (ι α : Type) where
  routine : α
  result : Option ι
  number : ℕ
  deriving DecidableEq

/-- `task_queue_t`, less the mutex and the condition variables. The numbers are of type
`unsigned short`. -/
structure TaskQueue (ι α : Type) where
  num : UInt16
  queue : ℕ → Option (QueueTask ι α)
  head : ℕ
  tail : ℕ
  count : ℕ

variable {ι κ α : Type}

/-- `task_queue_init`, once its array is allocated. -/
def taskQueueInit (num : UInt16) : TaskQueue ι α :=
  ⟨num, fun _ => none, 0, 0, 0⟩

namespace TaskQueue

/-- `task_queue_push` past its loop. The index is computed as an `int`. -/
def push (q : TaskQueue ι α) (task : QueueTask ι α) : TaskQueue ι α :=
  { q with
    queue := Function.update q.queue q.tail (some task)
    tail := (q.tail + 1) % q.num.toNat
    count := (q.count + 1) % 2 ^ 16 }

/-- `task_queue_pop` past its loop. -/
def pop (q : TaskQueue ι α) : TaskQueue ι α :=
  { q with head := (q.head + 1) % q.num.toNat, count := q.count - 1 }

end TaskQueue

/-! ## Threads -/

/-- Where a thread is in `thread_pool_submit`: outside, before the lock of `task_queue_push`,
in its `pthread_cond_wait` without and with a signal, or in `sem_wait`. -/
inductive SubmitterPc (ι α : Type)
  | idle
  | push (task : QueueTask ι α)
  | asleep (task : QueueTask ι α)
  | woken (task : QueueTask ι α)
  | semWait (task : QueueTask ι α)

/-- Where a worker is: before the lock of `task_queue_pop`, in its `pthread_cond_wait` without
and with a signal, in the routine of a task, or before `sem_post`. -/
inductive PoolWorkerPc (ι α : Type)
  | pop
  | asleep
  | woken
  | run (task : QueueTask ι α)
  | semPost (task : QueueTask ι α)

namespace SubmitterPc

/-- How a submitter stands to `not_full`. -/
def waiting : SubmitterPc ι α → Waiting
  | asleep _ => .asleep
  | woken _ => .marked
  | _ => .outside

/-- A signal on `not_full`. -/
def mark : SubmitterPc ι α → SubmitterPc ι α
  | asleep task => woken task
  | pc => pc

end SubmitterPc

namespace PoolWorkerPc

/-- How a worker stands to `not_empty`. -/
def waiting : PoolWorkerPc ι α → Waiting
  | asleep => .asleep
  | woken => .marked
  | _ => .outside

/-- A signal on `not_empty`. -/
def mark : PoolWorkerPc ι α → PoolWorkerPc ι α
  | asleep => woken
  | pc => pc

end PoolWorkerPc

/-- A pool: its queue, the threads that use it, the variables `result` and `done` of each
submitter, and the histories. -/
structure PoolState (ι κ α : Type) where
  queue : TaskQueue ι α
  submitters : ι → SubmitterPc ι α
  workers : κ → PoolWorkerPc ι α
  result : ι → Int32
  done : ι → ℕ
  tasks : ℕ
  pushed : List (QueueTask ι α)
  popped : List (κ × QueueTask ι α)
  returned : List (QueueTask ι α × Int32)
  answers : List (QueueTask ι α × Int32)

/-- A thread begins a call, or goes on. -/
inductive PoolAction (ι κ α : Type)
  | submit (t : ι) (routine : α) (sync : Bool)
  | push (t : ι) (signalled : Option κ)
  | wakeSubmitter (t : ι)
  | answer (t : ι)
  | pop (w : κ) (signalled : Option ι)
  | wakeWorker (w : κ)
  | finish (w : κ) (result : Int32)
  | post (w : κ)

variable [Fintype ι] [DecidableEq ι] [Fintype κ] [DecidableEq κ]

namespace PoolState

/-- `thread_pool_submit` until `task_queue_push`. -/
def submit (s : PoolState ι κ α) (t : ι) (routine : α) (sync : Bool) : PoolState ι κ α :=
  { s with
    submitters := Function.update s.submitters t
      (.push ⟨routine, if sync then some t else none, s.tasks⟩)
    result := Function.update s.result t 0
    done := if sync then Function.update s.done t 0 else s.done
    tasks := s.tasks + 1 }

/-- `task_queue_push`, with the lock: it waits, or it pushes and signals `not_empty`. -/
def push (s : PoolState ι κ α) (t : ι) (task : QueueTask ι α) (signalled : Option κ) :
    Option (PoolState ι κ α) :=
  if s.queue.num.toNat ≤ s.queue.count then
    some { s with submitters := Function.update s.submitters t (.asleep task) }
  else
    (condSignal PoolWorkerPc.waiting PoolWorkerPc.mark s.workers signalled).map fun workers =>
      { s with
        queue := s.queue.push task
        submitters := Function.update s.submitters t
          (if task.result.isSome then .semWait task else .idle)
        workers := workers
        pushed := s.pushed ++ [task] }

/-- `task_queue_pop`, with the lock: it waits, or it takes a task and signals `not_full`. What
was never written into the array is a task without a routine. -/
def pop (s : PoolState ι κ α) (w : κ) (signalled : Option ι) :
    Option (Except Fault (PoolState ι κ α)) :=
  if s.queue.count = 0 then
    some (.ok { s with workers := Function.update s.workers w .asleep })
  else
    (condSignal SubmitterPc.waiting SubmitterPc.mark s.submitters signalled).map fun submitters =>
      match s.queue.queue s.queue.head with
      | none => .error .nullDeref
      | some task =>
        .ok { s with
          queue := s.queue.pop
          submitters := submitters
          workers := Function.update s.workers w (.run task)
          popped := s.popped ++ [(w, task)] }

/-- The routine of a task has returned; `thread_pool_worker` writes what it returned. -/
def finish (s : PoolState ι κ α) (w : κ) (task : QueueTask ι α) (result : Int32) : PoolState ι κ α :=
  match task.result with
  | none =>
    { s with
      workers := Function.update s.workers w .pop
      returned := s.returned ++ [(task, result)] }
  | some t =>
    { s with
      workers := Function.update s.workers w (.semPost task)
      result := Function.update s.result t result
      returned := s.returned ++ [(task, result)] }

/-- `sem_post(task.done)`, of a task with a result. -/
def post (s : PoolState ι κ α) (w : κ) (t : ι) : PoolState ι κ α :=
  { s with
    workers := Function.update s.workers w .pop
    done := Function.update s.done t (s.done t + 1) }

/-- `sem_wait(&done)` ends, and `thread_pool_submit` returns `result`. -/
def answer (s : PoolState ι κ α) (t : ι) (task : QueueTask ι α) : PoolState ι κ α :=
  { s with
    submitters := Function.update s.submitters t .idle
    done := Function.update s.done t (s.done t - 1)
    answers := s.answers ++ [(task, s.result t)] }

end PoolState

/-- One step of one thread; `none` where it cannot take it. -/
def poolStep (s : PoolState ι κ α) : PoolAction ι κ α → Option (Except Fault (PoolState ι κ α))
  | .submit t routine sync =>
    match s.submitters t with
    | .idle => some (.ok (s.submit t routine sync))
    | _ => none
  | .push t signalled =>
    match s.submitters t with
    | .push task => (s.push t task signalled).map .ok
    | .woken task => (s.push t task signalled).map .ok
    | _ => none
  | .wakeSubmitter t =>
    match s.submitters t with
    | .asleep task =>
      some (.ok { s with submitters := Function.update s.submitters t (.push task) })
    | _ => none
  | .answer t =>
    match s.submitters t with
    | .semWait task => if s.done t = 0 then none else some (.ok (s.answer t task))
    | _ => none
  | .pop w signalled =>
    match s.workers w with
    | .pop => s.pop w signalled
    | .woken => s.pop w signalled
    | _ => none
  | .wakeWorker w =>
    match s.workers w with
    | .asleep => some (.ok { s with workers := Function.update s.workers w .pop })
    | _ => none
  | .finish w result =>
    match s.workers w with
    | .run task => some (.ok (s.finish w task result))
    | _ => none
  | .post w =>
    match s.workers w with
    | .semPost task =>
      match task.result with
      | some t => some (.ok (s.post w t))
      | none => some (.error .nullDeref)
    | _ => none

/-! ## What the steps are -/

/-- The steps of `poolStep` that do not fault. -/
inductive PoolStep (s : PoolState ι κ α) : PoolAction ι κ α → PoolState ι κ α → Prop
  | submit {t : ι} {routine : α} {sync : Bool} (hpc : s.submitters t = .idle) :
      PoolStep s (.submit t routine sync) (s.submit t routine sync)
  /-- the queue is full -/
  | full {t : ι} {task : QueueTask ι α} {signalled : Option κ}
      (hpc : s.submitters t = .push task ∨ s.submitters t = .woken task)
      (hfull : s.queue.num.toNat ≤ s.queue.count) :
      PoolStep s (.push t signalled)
        { s with submitters := Function.update s.submitters t (.asleep task) }
  | pushed {t : ι} {task : QueueTask ι α} {signalled : Option κ} {workers : κ → PoolWorkerPc ι α}
      (hpc : s.submitters t = .push task ∨ s.submitters t = .woken task)
      (hroom : s.queue.count < s.queue.num.toNat)
      (hsignal : condSignal PoolWorkerPc.waiting PoolWorkerPc.mark s.workers signalled =
        some workers) :
      PoolStep s (.push t signalled)
        { s with
          queue := s.queue.push task
          submitters := Function.update s.submitters t
            (if task.result.isSome then .semWait task else .idle)
          workers := workers
          pushed := s.pushed ++ [task] }
  | wakeSubmitter {t : ι} {task : QueueTask ι α} (hpc : s.submitters t = .asleep task) :
      PoolStep s (.wakeSubmitter t)
        { s with submitters := Function.update s.submitters t (.push task) }
  | answer {t : ι} {task : QueueTask ι α} (hpc : s.submitters t = .semWait task)
      (hdone : s.done t ≠ 0) : PoolStep s (.answer t) (s.answer t task)
  /-- the queue is empty -/
  | empty {w : κ} {signalled : Option ι} (hpc : s.workers w = .pop ∨ s.workers w = .woken)
      (hcount : s.queue.count = 0) :
      PoolStep s (.pop w signalled) { s with workers := Function.update s.workers w .asleep }
  | popped {w : κ} {task : QueueTask ι α} {signalled : Option ι}
      {submitters : ι → SubmitterPc ι α}
      (hpc : s.workers w = .pop ∨ s.workers w = .woken) (hcount : s.queue.count ≠ 0)
      (hsignal : condSignal SubmitterPc.waiting SubmitterPc.mark s.submitters signalled =
        some submitters) (hslot : s.queue.queue s.queue.head = some task) :
      PoolStep s (.pop w signalled)
        { s with
          queue := s.queue.pop
          submitters := submitters
          workers := Function.update s.workers w (.run task)
          popped := s.popped ++ [(w, task)] }
  | wakeWorker {w : κ} (hpc : s.workers w = .asleep) :
      PoolStep s (.wakeWorker w) { s with workers := Function.update s.workers w .pop }
  | finish {w : κ} {task : QueueTask ι α} {result : Int32} (hpc : s.workers w = .run task) :
      PoolStep s (.finish w result) (s.finish w task result)
  | post {w : κ} {task : QueueTask ι α} {t : ι} (hpc : s.workers w = .semPost task)
      (hresult : task.result = some t) : PoolStep s (.post w) (s.post w t)

/-- What makes a step fault: a cell that was never written is popped, or a task without a
result is posted. -/
def PoolFaults (s : PoolState ι κ α) : Prop :=
  (s.queue.count ≠ 0 ∧ s.queue.queue s.queue.head = none) ∨
    ∃ w task, s.workers w = .semPost task ∧ task.result = none

theorem push_cases {s s' : PoolState ι κ α} {t : ι} {task : QueueTask ι α} {signalled : Option κ}
    (hpc : s.submitters t = .push task ∨ s.submitters t = .woken task)
    (h : s.push t task signalled = some s') : PoolStep s (.push t signalled) s' := by
  unfold PoolState.push at h
  by_cases hfull : s.queue.num.toNat ≤ s.queue.count
  · rw [if_pos hfull] at h
    cases h
    exact .full hpc hfull
  · rw [if_neg hfull] at h
    obtain ⟨workers, hsignal, rfl⟩ := Option.map_eq_some_iff.mp h
    exact .pushed hpc (Nat.lt_of_not_le hfull) hsignal

theorem pop_cases {s : PoolState ι κ α} {w : κ} {signalled : Option ι}
    {r : Except Fault (PoolState ι κ α)}
    (hpc : s.workers w = .pop ∨ s.workers w = .woken) (h : s.pop w signalled = some r) :
    (∃ s', r = .ok s' ∧ PoolStep s (.pop w signalled) s') ∨
      ((∃ e, r = .error e) ∧ PoolFaults s) := by
  unfold PoolState.pop at h
  by_cases hcount : s.queue.count = 0
  · rw [if_pos hcount] at h
    cases h
    exact .inl ⟨_, rfl, .empty hpc hcount⟩
  · rw [if_neg hcount] at h
    obtain ⟨submitters, hsignal, rfl⟩ := Option.map_eq_some_iff.mp h
    cases hslot : s.queue.queue s.queue.head with
    | none => exact .inr ⟨⟨_, rfl⟩, .inl ⟨hcount, hslot⟩⟩
    | some task => exact .inl ⟨_, rfl, .popped hpc hcount hsignal hslot⟩

/-- A step is one of `PoolStep`, or it faults. -/
theorem poolStep_cases {s : PoolState ι κ α} {a : PoolAction ι κ α}
    {r : Except Fault (PoolState ι κ α)} (h : poolStep s a = some r) :
    (∃ s', r = .ok s' ∧ PoolStep s a s') ∨ ((∃ e, r = .error e) ∧ PoolFaults s) := by
  cases a with
  | submit t routine sync =>
    simp only [poolStep] at h
    split at h
    · rename_i hpc
      cases h
      exact .inl ⟨_, rfl, .submit hpc⟩
    · cases h
  | push t signalled =>
    simp only [poolStep] at h
    split at h
    · rename_i hpc
      obtain ⟨s', hs', rfl⟩ := Option.map_eq_some_iff.mp h
      exact .inl ⟨s', rfl, push_cases (.inl hpc) hs'⟩
    · rename_i hpc
      obtain ⟨s', hs', rfl⟩ := Option.map_eq_some_iff.mp h
      exact .inl ⟨s', rfl, push_cases (.inr hpc) hs'⟩
    · cases h
  | wakeSubmitter t =>
    simp only [poolStep] at h
    split at h
    · rename_i hpc
      cases h
      exact .inl ⟨_, rfl, .wakeSubmitter hpc⟩
    · cases h
  | answer t =>
    simp only [poolStep] at h
    split at h
    · rename_i hpc
      split at h
      · cases h
      · rename_i hdone
        cases h
        exact .inl ⟨_, rfl, .answer hpc hdone⟩
    · cases h
  | pop w signalled =>
    simp only [poolStep] at h
    split at h
    · rename_i hpc
      exact pop_cases (.inl hpc) h
    · rename_i hpc
      exact pop_cases (.inr hpc) h
    · cases h
  | wakeWorker w =>
    simp only [poolStep] at h
    split at h
    · rename_i hpc
      cases h
      exact .inl ⟨_, rfl, .wakeWorker hpc⟩
    · cases h
  | finish w result =>
    simp only [poolStep] at h
    split at h
    · rename_i hpc
      cases h
      exact .inl ⟨_, rfl, .finish hpc⟩
    · cases h
  | post w =>
    simp only [poolStep] at h
    split at h
    · rename_i task hpc
      split at h
      · rename_i t hresult
        cases h
        exact .inl ⟨_, rfl, .post hpc hresult⟩
      · rename_i hresult
        cases h
        exact .inr ⟨⟨_, rfl⟩, .inr ⟨w, task, hpc, hresult⟩⟩
    · cases h

theorem poolStep_ok {s s' : PoolState ι κ α} {a : PoolAction ι κ α}
    (h : poolStep s a = some (.ok s')) : PoolStep s a s' := by
  rcases poolStep_cases h with ⟨s'', heq, hstep⟩ | ⟨⟨e, heq⟩, -⟩
  · cases heq
    exact hstep
  · cases heq

/-! ## The system -/

/-- A pool as `thread_pool_create` leaves it: its queue has room for a task, and is empty. -/
structure PoolState.Starts (s : PoolState ι κ α) : Prop where
  capacity : 0 < s.queue.num.toNat
  queue : s.queue = taskQueueInit s.queue.num
  submitters : ∀ t, s.submitters t = .idle
  workers : ∀ w, s.workers w = .pop
  pushed : s.pushed = []
  popped : s.popped = []
  returned : s.returned = []
  answers : s.answers = []

variable (ι κ α) in
/-- Any number of submitters and workers, under any scheduler. -/
def poolSystem : LTS (PoolState ι κ α) (PoolAction ι κ α) :=
  .ofSteps PoolState.Starts poolStep

section Example

/-- Three submitters and a worker on a queue with one slot. -/
def examplePool : PoolState (Fin 3) (Fin 1) Unit where
  queue := taskQueueInit 1
  submitters _ := .idle
  workers _ := .pop
  result _ := 0
  done _ := 0
  tasks := 0
  pushed := []
  popped := []
  returned := []
  answers := []

theorem examplePool_starts : examplePool.Starts where
  capacity := by decide
  queue := rfl
  submitters _ := rfl
  workers _ := rfl
  pushed := rfl
  popped := rfl
  returned := rfl
  answers := rfl

/-- The worker finds nothing and sleeps; one submitter pushes and wakes it, the two others find
the queue full and sleep; the worker takes the task and wakes one of them. -/
def exampleOvertake : List (PoolAction (Fin 3) (Fin 1) Unit) :=
  [.pop 0 none, .submit 0 () true, .push 0 (some 0), .submit 1 () false, .push 1 none,
    .submit 2 () false, .push 2 none, .pop 0 (some 1)]

end Example

end Propd
