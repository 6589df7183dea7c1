import Propd.Infra.ThreadPool

/-!
# The thread pool is a bounded FIFO

The ring of `task_queue_t` stands for the tasks that were pushed and not yet popped, in the
order they were pushed. So a task is handed to one worker, and tasks leave in the order they
came.

A synchronous submit lends the worker its stack frame. As long as a task with a pointer into
the frame is queued or being worked on, the submitter is in `sem_wait` for this very task;
and when it leaves, `result` is what the routine of the task returned.
-/

namespace Propd

open Lib

variable {ι κ α : Type}

/-- The array of a queue with its indices. -/
def TaskQueue.ring (q : TaskQueue ι α) : Lib.Ring (QueueTask ι α) :=
  ⟨q.num.toNat, q.queue, q.head, q.tail, q.count⟩

theorem TaskQueue.ring_push {q : TaskQueue ι α} (hroom : q.count < q.num.toNat)
    (task : QueueTask ι α) : (q.push task).ring = q.ring.push task := by
  have hnum := q.num.toNat_lt
  have hcount : (q.count + 1) % 2 ^ 16 = q.count + 1 := Nat.mod_eq_of_lt (by omega)
  simp only [TaskQueue.ring, TaskQueue.push, Lib.Ring.push, hcount]

/-! ## What a thread has -/

/-- The task a submitter is about to push. -/
def SubmitterPc.entering : SubmitterPc ι α → Option (QueueTask ι α)
  | push task => some task
  | asleep task => some task
  | woken task => some task
  | _ => none

/-- The task whose result a submitter waits for. -/
def SubmitterPc.awaits : SubmitterPc ι α → Option (QueueTask ι α)
  | semWait task => some task
  | _ => none

/-- The task whose routine a worker runs. -/
def PoolWorkerPc.runs : PoolWorkerPc ι α → Option (QueueTask ι α)
  | run task => some task
  | _ => none

/-- The task whose result a worker has written. -/
def PoolWorkerPc.posts : PoolWorkerPc ι α → Option (QueueTask ι α)
  | semPost task => some task
  | _ => none

/-- A worker has the task. -/
def PoolWorkerPc.Has (pc : PoolWorkerPc ι α) (task : QueueTask ι α) : Prop :=
  pc.runs = some task ∨ pc.posts = some task

theorem PoolWorkerPc.not_has_pop (x : QueueTask ι α) : ¬ (pop : PoolWorkerPc ι α).Has x := by
  rintro (hx | hx)
  · cases hx
  · cases hx

theorem PoolWorkerPc.has_run {task x : QueueTask ι α} : (run task).Has x ↔ x = task := by
  constructor
  · rintro (hx | hx)
    · exact (Option.some.inj hx).symm
    · cases hx
  · rintro rfl
    exact .inl rfl

theorem PoolWorkerPc.has_semPost {task x : QueueTask ι α} : (semPost task).Has x ↔ x = task := by
  constructor
  · rintro (hx | hx)
    · cases hx
    · exact (Option.some.inj hx).symm
  · rintro rfl
    exact .inr rfl

@[simp] theorem SubmitterPc.entering_mark (pc : SubmitterPc ι α) :
    pc.mark.entering = pc.entering := by
  cases pc <;> rfl

@[simp] theorem SubmitterPc.awaits_mark (pc : SubmitterPc ι α) : pc.mark.awaits = pc.awaits := by
  cases pc <;> rfl

@[simp] theorem PoolWorkerPc.runs_mark (pc : PoolWorkerPc ι α) : pc.mark.runs = pc.runs := by
  cases pc <;> rfl

@[simp] theorem PoolWorkerPc.posts_mark (pc : PoolWorkerPc ι α) : pc.mark.posts = pc.posts := by
  cases pc <;> rfl

/-! ## The invariant -/

/-- The state of a task that is not pushed yet: its number is new, and if it has a pointer,
then into the frame of its submitter, with the semaphore at 0. -/
structure Entering (s : PoolState ι κ α) (t : ι) (task : QueueTask ι α) : Prop where
  number : task.number < s.tasks
  new : ∀ x ∈ s.pushed, x.number ≠ task.number
  frame : ∀ u, task.result = some u → u = t ∧ s.done t = 0

/-- The task is in the queue or with a worker. -/
def PoolState.Pending (s : PoolState ι κ α) (waiting : List (QueueTask ι α))
    (task : QueueTask ι α) : Prop :=
  task ∈ waiting ∨ ∃ w, (s.workers w).Has task

/-- The state of a submitter in `sem_wait`: its task is on its way, or it is done and nobody
has it any more. -/
structure Awaits (s : PoolState ι κ α) (waiting : List (QueueTask ι α)) (t : ι)
    (task : QueueTask ι α) : Prop where
  frame : task.result = some t
  done : s.done t = 0 ∨
    (s.done t = 1 ∧ (task, s.result t) ∈ s.returned ∧ ¬ s.Pending waiting task)

/-- The tasks of `waiting` are queued, every task was pushed and popped once, and pointers
lead to frames that are waited in. -/
structure PoolInv (s : PoolState ι κ α) (waiting : List (QueueTask ι α)) : Prop where
  ring : s.queue.ring.Holds waiting
  history : s.pushed = s.popped.map Prod.snd ++ waiting
  numbers : (s.pushed.map QueueTask.number).Nodup
  fresh : ∀ task ∈ s.pushed, task.number < s.tasks
  entering : ∀ t task, (s.submitters t).entering = some task → Entering s t task
  distinct : ∀ t u task task', (s.submitters t).entering = some task →
    (s.submitters u).entering = some task' → task.number = task'.number → t = u
  working : ∀ w task, (s.workers w).Has task → (w, task) ∈ s.popped
  pointers : ∀ task t, s.Pending waiting task → task.result = some t →
    (s.submitters t).awaits = some task
  awaits : ∀ t task, (s.submitters t).awaits = some task → Awaits s waiting t task
  posts : ∀ w task, (s.workers w).posts = some task →
    ∃ t, task.result = some t ∧ (task, s.result t) ∈ s.returned
  returned : ∀ x ∈ s.returned, x.1 ∈ s.popped.map Prod.snd ∧ ∀ w, (s.workers w).runs ≠ some x.1
  once : (s.returned.map Prod.fst).Nodup
  answers : ∀ x ∈ s.answers, x ∈ s.returned

variable {s s' : PoolState ι κ α} {waiting : List (QueueTask ι α)}

namespace PoolInv

theorem Has.congr {pc pc' : PoolWorkerPc ι α} (hruns : pc'.runs = pc.runs)
    (hposts : pc'.posts = pc.posts) {task : QueueTask ι α} : pc'.Has task ↔ pc.Has task := by
  unfold PoolWorkerPc.Has
  rw [hruns, hposts]

/-- Submitters that go to sleep, wake or are marked keep what they have. -/
theorem submitters_congr (h : PoolInv s waiting) {f : ι → SubmitterPc ι α}
    (hentering : ∀ t, (f t).entering = (s.submitters t).entering)
    (hawaits : ∀ t, (f t).awaits = (s.submitters t).awaits) :
    PoolInv { s with submitters := f } waiting where
  ring := h.ring
  history := h.history
  numbers := h.numbers
  fresh := h.fresh
  entering := by
    intro t task ht
    have hold := h.entering t task ((hentering t).symm.trans ht)
    exact ⟨hold.number, hold.new, hold.frame⟩
  distinct := by
    intro t u task task' ht hu
    exact h.distinct t u task task' ((hentering t).symm.trans ht) ((hentering u).symm.trans hu)
  working := h.working
  pointers := by
    intro task t hpending hresult
    exact (hawaits t).trans (h.pointers task t hpending hresult)
  awaits := by
    intro t task ht
    have hold := h.awaits t task ((hawaits t).symm.trans ht)
    exact ⟨hold.frame, hold.done⟩
  posts := h.posts
  returned := h.returned
  once := h.once
  answers := h.answers

/-- Workers that go to sleep or wake keep what they have. -/
theorem workers_congr (h : PoolInv s waiting) {f : κ → PoolWorkerPc ι α}
    (hruns : ∀ w, (f w).runs = (s.workers w).runs)
    (hposts : ∀ w, (f w).posts = (s.workers w).posts) :
    PoolInv { s with workers := f } waiting := by
  -- who has which task does not change, and so what is pending does not either
  have hhas : ∀ w task, (f w).Has task ↔ (s.workers w).Has task :=
    fun w task => Has.congr (hruns w) (hposts w)
  have hpending : ∀ task, PoolState.Pending { s with workers := f } waiting task ↔
      s.Pending waiting task := by
    intro task
    unfold PoolState.Pending
    simp only [hhas]
  refine
    { ring := h.ring
      history := h.history
      numbers := h.numbers
      fresh := h.fresh
      entering := ?_
      distinct := h.distinct
      working := ?_
      pointers := ?_
      awaits := ?_
      posts := ?_
      returned := ?_
      once := h.once
      answers := h.answers }
  · intro t task ht
    have hold := h.entering t task ht
    exact ⟨hold.number, hold.new, hold.frame⟩
  · intro w task hw
    exact h.working w task ((hhas w task).mp hw)
  · intro task t hp hresult
    exact h.pointers task t ((hpending task).mp hp) hresult
  · intro t task ht
    have hold := h.awaits t task ht
    refine ⟨hold.frame, ?_⟩
    rw [hpending]
    exact hold.done
  · intro w task hw
    exact h.posts w task ((hposts w).symm.trans hw)
  · intro x hx
    refine ⟨(h.returned x hx).1, ?_⟩
    intro w hw
    exact (h.returned x hx).2 w ((hruns w).symm.trans hw)

/-- Two workers have no task in common. -/
theorem exclusive (h : PoolInv s waiting) {w w' : κ} {task task' : QueueTask ι α}
    (hw : (s.workers w).Has task) (hw' : (s.workers w').Has task')
    (hnumber : task.number = task'.number) : w = w' := by
  -- a task was popped once, by one worker
  have hnodup : (s.popped.map fun x => x.2.number).Nodup := by
    have hall := h.numbers
    rw [h.history, List.map_append, List.map_map] at hall
    exact (List.nodup_append.mp hall).1
  have heq := List.inj_on_of_nodup_map hnodup (h.working w task hw) (h.working w' task' hw') hnumber
  exact congrArg Prod.fst heq

/-- A task that was popped is not in the queue. -/
theorem not_waiting (h : PoolInv s waiting) {task : QueueTask ι α}
    (hpopped : task ∈ s.popped.map Prod.snd) : task ∉ waiting := by
  have hall := h.numbers
  rw [h.history, List.map_append] at hall
  -- a task that waits is behind all that were popped
  intro hwaiting
  exact (List.nodup_append.mp hall).2.2 _ (List.mem_map_of_mem hpopped) _
    (List.mem_map_of_mem hwaiting) rfl

theorem popped_of_has (h : PoolInv s waiting) {w : κ} {task : QueueTask ι α}
    (hw : (s.workers w).Has task) : task ∈ s.popped.map Prod.snd :=
  List.mem_map.mpr ⟨(w, task), h.working w task hw, rfl⟩

/-- Nothing points into the frame of a thread that is outside `sem_wait`. -/
theorem not_pending_of_outside (h : PoolInv s waiting) {t : ι}
    (hout : (s.submitters t).awaits = none) {task : QueueTask ι α}
    (hpending : s.Pending waiting task) : task.result ≠ some t := by
  intro hresult
  have hin := h.pointers task t hpending hresult
  rw [hout] at hin
  cases hin

variable [DecidableEq ι]

/-- A submitter that changes its place within `task_queue_push` has what it had. -/
theorem submitter_stays (h : PoolInv s waiting) {t : ι} {pc : SubmitterPc ι α}
    (hentering : pc.entering = (s.submitters t).entering)
    (hawaits : pc.awaits = (s.submitters t).awaits) :
    PoolInv { s with submitters := Function.update s.submitters t pc } waiting := by
  apply h.submitters_congr
  · intro u
    by_cases hut : u = t
    · rw [hut, Function.update_self, hentering]
    · rw [Function.update_of_ne hut]
  · intro u
    by_cases hut : u = t
    · rw [hut, Function.update_self, hawaits]
    · rw [Function.update_of_ne hut]

/-- A thread that is outside enters with a task of a new number. -/
theorem submit (h : PoolInv s waiting) {t : ι} {routine : α} {sync : Bool}
    (hpc : s.submitters t = .idle) : PoolInv (s.submit t routine sync) waiting := by
  have hout : (s.submitters t).awaits = none := by rw [hpc]; rfl
  have hdone : ∀ u ≠ t, (s.submit t routine sync).done u = s.done u := by
    intro u hu
    simp only [PoolState.submit]
    split
    · rw [Function.update_of_ne hu]
    · rfl
  have hsame : ∀ u ≠ t, (s.submit t routine sync).submitters u = s.submitters u :=
    fun u hu => Function.update_of_ne hu _ _
  have hresult : ∀ u ≠ t, (s.submit t routine sync).result u = s.result u :=
    fun u hu => Function.update_of_ne hu _ _
  -- the frame of `t` is new: its result is 0, and with a semaphore at 0
  have hself : (s.submit t routine sync).submitters t =
      .push ⟨routine, if sync then some t else none, s.tasks⟩ := Function.update_self ..
  refine
    { ring := h.ring
      history := h.history
      numbers := h.numbers
      fresh := fun task htask => Nat.lt_succ_of_lt (h.fresh task htask)
      entering := ?_
      distinct := ?_
      working := h.working
      pointers := ?_
      awaits := ?_
      posts := ?_
      returned := h.returned
      once := h.once
      answers := h.answers }
  · -- the task of the thread itself is the new one
    intro u task hu
    by_cases hut : u = t
    · subst hut
      rw [hself] at hu
      cases hu
      refine ⟨Nat.lt_succ_self _, ?_, ?_⟩
      · intro x hx
        exact (h.fresh x hx).ne
      · intro v hv
        cases sync with
        | true =>
          cases hv
          exact ⟨rfl, Function.update_self ..⟩
        | false => cases hv
    · rw [hsame u hut] at hu
      have hold := h.entering u task hu
      refine ⟨Nat.lt_succ_of_lt hold.number, hold.new, ?_⟩
      intro v hv
      obtain ⟨rfl, hzero⟩ := hold.frame v hv
      exact ⟨rfl, (hdone v hut).trans hzero⟩
  · intro u v task task' hu hv hnumber
    by_cases hut : u = t
    · by_cases hvt : v = t
      · rw [hut, hvt]
      · -- the number of the new task is larger than any other
        rw [hut, hself] at hu
        cases hu
        rw [hsame v hvt] at hv
        exact absurd hnumber (h.entering v task' hv).number.ne'
    · rw [hsame u hut] at hu
      by_cases hvt : v = t
      · rw [hvt, hself] at hv
        cases hv
        exact absurd hnumber (h.entering u task hu).number.ne
      · rw [hsame v hvt] at hv
        exact h.distinct u v task task' hu hv hnumber
  · -- a pointer that is in use leads into the frame of another thread
    intro task u hpending htask
    by_cases hut : u = t
    · subst hut
      exact absurd htask (h.not_pending_of_outside hout hpending)
    · rw [hsame u hut]
      exact h.pointers task u hpending htask
  · -- the thread itself does not wait yet
    intro u task hu
    by_cases hut : u = t
    · rw [hut, hself] at hu
      cases hu
    · rw [hsame u hut] at hu
      have hold := h.awaits u task hu
      refine ⟨hold.frame, ?_⟩
      rw [hdone u hut, hresult u hut]
      exact hold.done
  · -- what a worker is about to post is not for the new call
    intro w task hw
    obtain ⟨u, htask, hret⟩ := h.posts w task hw
    have hut : u ≠ t := by
      rintro rfl
      exact h.not_pending_of_outside hout (.inr ⟨w, .inr hw⟩) htask
    refine ⟨u, htask, ?_⟩
    rw [hresult u hut]
    exact hret

/-- A push appends its task to the queue; the thread waits for it, or is through. -/
theorem pushed (h : PoolInv s waiting) {t : ι} {task : QueueTask ι α}
    (hpc : (s.submitters t).entering = some task) (hout : (s.submitters t).awaits = none)
    (hroom : s.queue.count < s.queue.num.toNat) :
    PoolInv { s with
      queue := s.queue.push task
      submitters := Function.update s.submitters t
        (if task.result.isSome then .semWait task else .idle)
      pushed := s.pushed ++ [task] } (waiting ++ [task]) := by
  have hnew := h.entering t task hpc
  -- nobody has the task yet
  have hfresh : ∀ w, ¬ (s.workers w).Has task := by
    intro w hw
    refine hnew.new task ?_ rfl
    rw [h.history]
    exact List.mem_append_left _ (h.popped_of_has hw)
  have hnone : (if task.result.isSome then SubmitterPc.semWait task else .idle).entering =
      none := by
    split <;> rfl
  have hpending : ∀ x, PoolState.Pending { s with
      queue := s.queue.push task
      submitters := Function.update s.submitters t
        (if task.result.isSome then .semWait task else .idle)
      pushed := s.pushed ++ [task] } (waiting ++ [task]) x ↔
        s.Pending waiting x ∨ x = task := by
    intro x
    simp only [PoolState.Pending, List.mem_append, List.mem_singleton]
    tauto
  refine
    { ring := ?_
      history := ?_
      numbers := ?_
      fresh := ?_
      entering := ?_
      distinct := ?_
      working := h.working
      pointers := ?_
      awaits := ?_
      posts := h.posts
      returned := h.returned
      once := h.once
      answers := h.answers }
  · -- the ring
    show (s.queue.push task).ring.Holds _
    rw [TaskQueue.ring_push hroom]
    exact h.ring.push hroom task
  · -- the history
    show s.pushed ++ [task] = _
    rw [h.history, List.append_assoc]
  · show ((s.pushed ++ [task]).map QueueTask.number).Nodup
    rw [List.map_append]
    refine List.nodup_append.mpr ⟨h.numbers, List.nodup_singleton _, ?_⟩
    -- the number of the task is new
    intro n hn m hm
    obtain ⟨x, hx, rfl⟩ := List.mem_map.mp hn
    rw [List.map_singleton, List.mem_singleton] at hm
    subst hm
    exact hnew.new x hx
  · intro x hx
    rcases List.mem_append.mp hx with hx | hx
    · exact h.fresh x hx
    · rw [List.mem_singleton.mp hx]
      exact hnew.number
  · -- a thread that has pushed its task enters no more
    intro u x hu
    rcases update_cases SubmitterPc.entering hu with ⟨-, hu⟩ | ⟨hut, hu⟩
    · cases hnone.symm.trans hu
    · have hold := h.entering u x hu
      refine ⟨hold.number, ?_, hold.frame⟩
      intro y hy
      rcases List.mem_append.mp hy with hy | hy
      · exact hold.new y hy
      · rw [List.mem_singleton.mp hy]
        intro hnumber
        exact hut (h.distinct t u task x hpc hu hnumber).symm
  · -- and so it is not one of two that enter
    intro u v x y hu hv hnumber
    rcases update_cases SubmitterPc.entering hu with ⟨-, hu⟩ | ⟨-, hu⟩
    · cases hnone.symm.trans hu
    · rcases update_cases SubmitterPc.entering hv with ⟨-, hv⟩ | ⟨-, hv⟩
      · cases hnone.symm.trans hv
      · exact h.distinct u v x y hu hv hnumber
  · intro x u hx hresult
    show (Function.update s.submitters t _ u).awaits = some x
    -- the old pointers, and the one of the new task
    rcases (hpending x).mp hx with hold | rfl
    · have hut : u ≠ t := by
        rintro rfl
        exact h.not_pending_of_outside hout hold hresult
      rw [Function.update_of_ne hut]
      exact h.pointers x u hold hresult
    · obtain ⟨rfl, -⟩ := hnew.frame u hresult
      rw [Function.update_self, hresult]
      rfl
  · intro u x hu
    rcases update_cases SubmitterPc.awaits hu with ⟨hut, hu⟩ | ⟨hut, hu⟩
    · -- the semaphore of the new call is at 0
      rw [hut]
      cases hresult : task.result with
      | none =>
        rw [hresult] at hu
        cases hu
      | some v =>
        rw [hresult] at hu
        cases hu
        obtain ⟨rfl, hzero⟩ := hnew.frame v hresult
        exact ⟨hresult, .inl hzero⟩
    · have hold := h.awaits u x hu
      refine ⟨hold.frame, ?_⟩
      rw [hpending]
      rcases hold.done with hzero | ⟨hone, hret, hgone⟩
      · exact .inl hzero
      · refine .inr ⟨hone, hret, ?_⟩
        rintro (hx | rfl)
        · exact hgone hx
        · exact hut (hnew.frame u hold.frame).1

/-- `sem_wait` ends: the task is done, and nobody has a pointer into the frame any more. -/
theorem answer (h : PoolInv s waiting) {t : ι} {task : QueueTask ι α}
    (hpc : s.submitters t = .semWait task) (hdone : s.done t ≠ 0) :
    PoolInv (s.answer t task) waiting := by
  have hawaits : (s.submitters t).awaits = some task := by rw [hpc]; rfl
  obtain ⟨hframe, hzero | ⟨hone, hret, hgone⟩⟩ := h.awaits t task hawaits
  · -- a semaphore that can be taken was posted
    exact absurd hzero hdone
  have hsame : ∀ u ≠ t, (s.answer t task).submitters u = s.submitters u :=
    fun u hu => Function.update_of_ne hu _ _
  have hdone' : ∀ u ≠ t, (s.answer t task).done u = s.done u :=
    fun u hu => Function.update_of_ne hu _ _
  refine
    { ring := h.ring
      history := h.history
      numbers := h.numbers
      fresh := h.fresh
      entering := ?_
      distinct := ?_
      working := h.working
      pointers := ?_
      awaits := ?_
      posts := h.posts
      returned := h.returned
      once := h.once
      answers := ?_ }
  · -- the thread is outside now, and the frames of the others are theirs
    intro u x hu
    rcases update_cases SubmitterPc.entering hu with ⟨-, hu⟩ | ⟨hut, hu⟩
    · cases hu
    · have hold := h.entering u x hu
      refine ⟨hold.number, hold.new, ?_⟩
      intro v hv
      obtain ⟨rfl, hzero⟩ := hold.frame v hv
      exact ⟨rfl, (hdone' v hut).trans hzero⟩
  · intro u v x y hu hv hnumber
    rcases update_cases SubmitterPc.entering hu with ⟨-, hu⟩ | ⟨-, hu⟩
    · cases hu
    · rcases update_cases SubmitterPc.entering hv with ⟨-, hv⟩ | ⟨-, hv⟩
      · cases hv
      · exact h.distinct u v x y hu hv hnumber
  · intro x u hpending hresult
    by_cases hut : u = t
    · -- it would be the task that is done
      subst hut
      have heq := h.pointers x u hpending hresult
      rw [hawaits] at heq
      cases heq
      exact absurd hpending hgone
    · rw [hsame u hut]
      exact h.pointers x u hpending hresult
  · intro u x hu
    rcases update_cases SubmitterPc.awaits hu with ⟨-, hu⟩ | ⟨hut, hu⟩
    · cases hu
    · have hold := h.awaits u x hu
      refine ⟨hold.frame, ?_⟩
      rw [hdone' u hut]
      exact hold.done
  · intro x hx
    rcases List.mem_append.mp hx with hx | hx
    · exact h.answers x hx
    · rw [List.mem_singleton.mp hx]
      exact hret

variable [DecidableEq κ]

omit [DecidableEq ι] in
/-- A worker that changes its place within `task_queue_pop` has what it had. -/
theorem worker_stays (h : PoolInv s waiting) {w : κ} {pc : PoolWorkerPc ι α}
    (hruns : pc.runs = (s.workers w).runs) (hposts : pc.posts = (s.workers w).posts) :
    PoolInv { s with workers := Function.update s.workers w pc } waiting := by
  apply h.workers_congr
  · intro v
    by_cases hvw : v = w
    · rw [hvw, Function.update_self, hruns]
    · rw [Function.update_of_ne hvw]
  · intro v
    by_cases hvw : v = w
    · rw [hvw, Function.update_self, hposts]
    · rw [Function.update_of_ne hvw]

omit [DecidableEq ι] in
/-- A pop hands the oldest task to a worker that has none. -/
theorem popped {x : QueueTask ι α} {rest : List (QueueTask ι α)} (h : PoolInv s (x :: rest))
    {w : κ} (hnone : ∀ task, ¬ (s.workers w).Has task) :
    PoolInv { s with
      queue := s.queue.pop
      workers := Function.update s.workers w (.run x)
      popped := s.popped ++ [(w, x)] } rest := by
  have hpopped : x ∉ s.popped.map Prod.snd :=
    fun hx => h.not_waiting hx List.mem_cons_self
  -- the task passes from the queue to the worker
  have hpending : ∀ task, PoolState.Pending { s with
      queue := s.queue.pop
      workers := Function.update s.workers w (.run x)
      popped := s.popped ++ [(w, x)] } rest task ↔ s.Pending (x :: rest) task := by
    intro task
    unfold PoolState.Pending
    constructor
    · rintro (hrest | ⟨v, hv⟩)
      · exact .inl (List.mem_cons_of_mem _ hrest)
      · rcases update_holds (fun pc => PoolWorkerPc.Has pc task) hv with ⟨-, hv⟩ | ⟨-, hv⟩
        · rw [PoolWorkerPc.has_run.mp hv]
          exact .inl List.mem_cons_self
        · exact .inr ⟨v, hv⟩
    · rintro (hrest | ⟨v, hv⟩)
      · rcases List.mem_cons.mp hrest with rfl | hrest
        · refine .inr ⟨w, ?_⟩
          simp only [Function.update_self, PoolWorkerPc.has_run]
        · exact .inl hrest
      · have hvw : v ≠ w := by
          rintro rfl
          exact hnone task hv
        refine .inr ⟨v, ?_⟩
        simp only [Function.update_of_ne hvw]
        exact hv
  refine
    { ring := h.ring.pop
      history := ?_
      numbers := h.numbers
      fresh := h.fresh
      entering := ?_
      distinct := h.distinct
      working := ?_
      pointers := ?_
      awaits := ?_
      posts := ?_
      returned := ?_
      once := h.once
      answers := h.answers }
  · -- the head of the queue is the last one that was popped
    show s.pushed = (s.popped ++ [(w, x)]).map Prod.snd ++ rest
    rw [h.history]
    simp
  · intro t task ht
    have hold := h.entering t task ht
    exact ⟨hold.number, hold.new, hold.frame⟩
  · -- the worker has the task it popped
    intro v task hv
    show (v, task) ∈ s.popped ++ [(w, x)]
    rcases update_holds (fun pc => PoolWorkerPc.Has pc task) hv with ⟨rfl, hv'⟩ | ⟨-, hv'⟩
    · rw [PoolWorkerPc.has_run.mp hv']
      exact List.mem_append_right _ (List.mem_singleton_self _)
    · exact List.mem_append_left _ (h.working v task hv')
  · intro task t hp hresult
    exact h.pointers task t ((hpending task).mp hp) hresult
  · intro t task ht
    have hold := h.awaits t task ht
    refine ⟨hold.frame, ?_⟩
    rw [hpending]
    exact hold.done
  · intro v task hv
    rcases update_cases PoolWorkerPc.posts hv with ⟨-, hv⟩ | ⟨-, hv⟩
    · cases hv
    · exact h.posts v task hv
  · intro y hy
    obtain ⟨hin, hruns⟩ := h.returned y hy
    refine ⟨?_, ?_⟩
    · rw [List.map_append]
      exact List.mem_append_left _ hin
    · intro v hv
      rcases update_cases PoolWorkerPc.runs hv with ⟨-, hv⟩ | ⟨-, hv⟩
      · -- the routine of a task that is popped only now did not return
        have hxy : x = y.1 := Option.some.inj hv
        exact hpopped (hxy ▸ hin)
      · exact hruns v hv

omit [DecidableEq ι] in
/-- What is pending once a worker has moved from a task to `pc`, where it has no other. -/
theorem pending_of_update {w : κ} {task : QueueTask ι α} {pc : PoolWorkerPc ι α}
    (hw : (s.workers w).Has task) (hpc : ∀ x, pc.Has x → x = task) {s' : PoolState ι κ α}
    (hworkers : s'.workers = Function.update s.workers w pc) {x : QueueTask ι α}
    (hx : s'.Pending waiting x) : s.Pending waiting x := by
  rcases hx with hx | ⟨v, hv⟩
  · exact .inl hx
  · rw [hworkers] at hv
    rcases update_holds (fun pc => PoolWorkerPc.Has pc x) hv with ⟨-, hv⟩ | ⟨-, hv⟩
    · rw [hpc x hv]
      exact .inr ⟨w, hw⟩
    · exact .inr ⟨v, hv⟩

omit [DecidableEq ι] in
/-- What the workers have once one has moved from a task to `pc` was popped by them. -/
theorem working_of_update (h : PoolInv s waiting) {w : κ} {task : QueueTask ι α}
    {pc : PoolWorkerPc ι α} (hw : (s.workers w).Has task) (hpc : ∀ x, pc.Has x → x = task) {v : κ}
    {x : QueueTask ι α} (hv : (Function.update s.workers w pc v).Has x) : (v, x) ∈ s.popped := by
  rcases update_holds (fun pc => PoolWorkerPc.Has pc x) hv with ⟨rfl, hv'⟩ | ⟨-, hv'⟩
  · rw [hpc x hv']
    exact h.working v task hw
  · exact h.working v x hv'

omit [DecidableEq ι] in
/-- The routine of a task returns once, so what it returned may be noted. -/
theorem noteReturn (h : PoolInv s waiting) {w : κ} {task : QueueTask ι α} (pc : PoolWorkerPc ι α)
    {r : Int32} (hpc : s.workers w = .run task) (hruns : pc.runs = none) :
    (∀ x ∈ s.returned ++ [(task, r)], x.1 ∈ s.popped.map Prod.snd ∧
      ∀ v, (Function.update s.workers w pc v).runs ≠ some x.1) ∧
    ((s.returned ++ [(task, r)]).map Prod.fst).Nodup := by
  have hhas : (s.workers w).Has task := .inl (by rw [hpc]; rfl)
  refine ⟨?_, ?_⟩
  · -- nobody runs a task whose routine has returned
    intro x hx
    rcases List.mem_append.mp hx with hx | hx
    · refine ⟨(h.returned x hx).1, ?_⟩
      intro v
      by_cases hvw : v = w
      · subst hvw
        rw [Function.update_self, hruns]
        nofun
      · rw [Function.update_of_ne hvw]
        exact (h.returned x hx).2 v
    · rw [List.mem_singleton.mp hx]
      refine ⟨h.popped_of_has hhas, ?_⟩
      intro v
      by_cases hvw : v = w
      · subst hvw
        rw [Function.update_self, hruns]
        nofun
      · rw [Function.update_of_ne hvw]
        intro hv
        exact hvw (h.exclusive (.inl hv) hhas rfl)
  · -- the task was still running, so it is not in the history
    rw [List.map_append]
    refine List.nodup_append.mpr ⟨h.once, List.nodup_singleton _, ?_⟩
    intro x hx y hy
    obtain ⟨z, hz, rfl⟩ := List.mem_map.mp hx
    rw [List.map_singleton, List.mem_singleton] at hy
    subst hy
    intro heq
    refine (h.returned z hz).2 w ?_
    rw [hpc, heq]
    rfl

omit [DecidableEq ι] in
/-- The routine of a task without a pointer returns. -/
theorem finishAsync (h : PoolInv s waiting) {w : κ} {task : QueueTask ι α} {r : Int32}
    (hpc : s.workers w = .run task) :
    PoolInv { s with
      workers := Function.update s.workers w .pop
      returned := s.returned ++ [(task, r)] } waiting := by
  have hhas : (s.workers w).Has task := .inl (by rw [hpc]; rfl)
  obtain ⟨hreturned, honce⟩ := h.noteReturn .pop (r := r) hpc rfl
  have hnothing : ∀ x, (PoolWorkerPc.pop : PoolWorkerPc ι α).Has x → x = task :=
    fun x hx => absurd hx (PoolWorkerPc.not_has_pop x)
  have hpending : ∀ x, PoolState.Pending { s with
      workers := Function.update s.workers w .pop
      returned := s.returned ++ [(task, r)] } waiting x → s.Pending waiting x :=
    fun x hx => pending_of_update hhas hnothing rfl hx
  refine
    { ring := h.ring
      history := h.history
      numbers := h.numbers
      fresh := h.fresh
      entering := ?_
      distinct := h.distinct
      working := ?_
      pointers := fun x t hx => h.pointers x t (hpending x hx)
      awaits := ?_
      posts := ?_
      returned := hreturned
      once := honce
      answers := fun x hx => List.mem_append_left _ (h.answers x hx) }
  · intro t x ht
    have hold := h.entering t x ht
    exact ⟨hold.number, hold.new, hold.frame⟩
  · intro v x hv
    exact h.working_of_update hhas hnothing hv
  · intro t x ht
    have hold := h.awaits t x ht
    refine ⟨hold.frame, ?_⟩
    rcases hold.done with hzero | ⟨hone, hret, hgone⟩
    · exact .inl hzero
    · exact .inr ⟨hone, List.mem_append_left _ hret, fun hx => hgone (hpending x hx)⟩
  · intro v x hv
    rcases update_cases PoolWorkerPc.posts hv with ⟨-, hv⟩ | ⟨-, hv⟩
    · cases hv
    · obtain ⟨t, hresult, hret⟩ := h.posts v x hv
      exact ⟨t, hresult, List.mem_append_left _ hret⟩

/-- The routine of a task with a pointer returns, and the worker writes into the frame. -/
theorem finishSync (h : PoolInv s waiting) {w : κ} {task : QueueTask ι α} {r : Int32} {t : ι}
    (hpc : s.workers w = .run task) (hresult : task.result = some t) :
    PoolInv { s with
      workers := Function.update s.workers w (.semPost task)
      result := Function.update s.result t r
      returned := s.returned ++ [(task, r)] } waiting := by
  have hhas : (s.workers w).Has task := .inl (by rw [hpc]; rfl)
  obtain ⟨hreturned, honce⟩ := h.noteReturn (.semPost task) (r := r) hpc rfl
  have honly : ∀ x, (PoolWorkerPc.semPost task).Has x → x = task :=
    fun x hx => PoolWorkerPc.has_semPost.mp hx
  have hpending : ∀ x, PoolState.Pending { s with
      workers := Function.update s.workers w (.semPost task)
      result := Function.update s.result t r
      returned := s.returned ++ [(task, r)] } waiting x → s.Pending waiting x :=
    fun x hx => pending_of_update hhas honly rfl hx
  -- the frame belongs to the thread that waits for this task
  have hframe := h.pointers task t (.inr ⟨w, hhas⟩) hresult
  refine
    { ring := h.ring
      history := h.history
      numbers := h.numbers
      fresh := h.fresh
      entering := ?_
      distinct := h.distinct
      working := ?_
      pointers := fun x t hx => h.pointers x t (hpending x hx)
      awaits := ?_
      posts := ?_
      returned := hreturned
      once := honce
      answers := fun x hx => List.mem_append_left _ (h.answers x hx) }
  · intro u x hu
    have hold := h.entering u x hu
    exact ⟨hold.number, hold.new, hold.frame⟩
  · intro v x hv
    exact h.working_of_update hhas honly hv
  · intro u x hu
    have hold := h.awaits u x hu
    refine ⟨hold.frame, ?_⟩
    rcases hold.done with hzero | ⟨hone, hret, hgone⟩
    · exact .inl hzero
    · -- a thread that is through with its task is not the one that waits for this one
      have hut : u ≠ t := by
        rintro rfl
        rw [hframe] at hu
        cases hu
        exact hgone (.inr ⟨w, hhas⟩)
      refine .inr ⟨hone, ?_, fun hx => hgone (hpending x hx)⟩
      show (x, Function.update s.result t r u) ∈ _
      rw [Function.update_of_ne hut]
      exact List.mem_append_left _ hret
  · intro v x hv
    rcases update_cases PoolWorkerPc.posts hv with ⟨-, hv'⟩ | ⟨hvw, hv'⟩
    · cases hv'
      refine ⟨t, hresult, ?_⟩
      show (task, Function.update s.result t r t) ∈ _
      rw [Function.update_self]
      exact List.mem_append_right _ (List.mem_singleton_self _)
    · obtain ⟨u, hx, hret⟩ := h.posts v x hv'
      -- another worker writes into the frame of another thread
      have hut : u ≠ t := by
        rintro rfl
        have heq := h.pointers x u (.inr ⟨v, .inr hv'⟩) hx
        rw [hframe] at heq
        cases heq
        exact hvw (h.exclusive (.inr hv') hhas rfl)
      refine ⟨u, hx, ?_⟩
      show (x, Function.update s.result t r u) ∈ _
      rw [Function.update_of_ne hut]
      exact List.mem_append_left _ hret

/-- `sem_post`: the worker is through with the frame, and its thread may leave. -/
theorem post (h : PoolInv s waiting) {w : κ} {task : QueueTask ι α} {t : ι}
    (hpc : s.workers w = .semPost task) (hresult : task.result = some t) :
    PoolInv (s.post w t) waiting := by
  have hposts : (s.workers w).posts = some task := by rw [hpc]; rfl
  have hhas : (s.workers w).Has task := .inr hposts
  have hnothing : ∀ x, (PoolWorkerPc.pop : PoolWorkerPc ι α).Has x → x = task :=
    fun x hx => absurd hx (PoolWorkerPc.not_has_pop x)
  have hpending : ∀ x, (s.post w t).Pending waiting x → s.Pending waiting x :=
    fun x hx => pending_of_update hhas hnothing rfl hx
  have hframe := h.pointers task t (.inr ⟨w, hhas⟩) hresult
  have hdone : ∀ u ≠ t, (s.post w t).done u = s.done u :=
    fun u hu => Function.update_of_ne hu _ _
  refine
    { ring := h.ring
      history := h.history
      numbers := h.numbers
      fresh := h.fresh
      entering := ?_
      distinct := h.distinct
      working := ?_
      pointers := fun x u hx => h.pointers x u (hpending x hx)
      awaits := ?_
      posts := ?_
      returned := ?_
      once := h.once
      answers := h.answers }
  · intro u x hu
    have hold := h.entering u x hu
    refine ⟨hold.number, hold.new, ?_⟩
    intro v hv
    obtain ⟨rfl, hzero⟩ := hold.frame v hv
    refine ⟨rfl, ?_⟩
    -- a thread that enters does not wait
    have hvt : v ≠ t := by
      rintro rfl
      have hboth : (s.submitters v).entering = some x := hu
      cases hsub : s.submitters v with
      | semWait y =>
        rw [hsub] at hboth
        cases hboth
      | _ =>
        rw [hsub] at hframe
        cases hframe
    exact (hdone v hvt).trans hzero
  · intro v x hv
    exact h.working_of_update hhas hnothing hv
  · intro u x hu
    have hold := h.awaits u x hu
    refine ⟨hold.frame, ?_⟩
    by_cases hut : u = t
    · subst hut
      have hu' : (s.submitters u).awaits = some x := hu
      -- the thread that waits for this task: nobody has it any more
      rw [hframe] at hu'
      cases hu'
      rcases hold.done with hzero | ⟨-, -, hgone⟩
      · obtain ⟨v, hv, hret⟩ := h.posts w task hposts
        rw [hresult] at hv
        cases hv
        refine .inr ⟨?_, hret, ?_⟩
        · show Function.update s.done u (s.done u + 1) u = 1
          rw [Function.update_self, hzero]
        · rintro (hwaiting | ⟨v, hv⟩)
          · exact h.not_waiting (h.popped_of_has hhas) hwaiting
          · rcases update_holds (fun pc => PoolWorkerPc.Has pc task) hv with ⟨-, hv⟩ | ⟨hvw, hv⟩
            · exact PoolWorkerPc.not_has_pop _ hv
            · exact hvw (h.exclusive hv hhas rfl)
      · exact absurd (.inr ⟨w, hhas⟩) hgone
    · rw [hdone u hut]
      rcases hold.done with hzero | ⟨hone, hret, hgone⟩
      · exact .inl hzero
      · exact .inr ⟨hone, hret, fun hx => hgone (hpending x hx)⟩
  · intro v x hv
    rcases update_cases PoolWorkerPc.posts hv with ⟨-, hv⟩ | ⟨-, hv⟩
    · cases hv
    · exact h.posts v x hv
  · intro x hx
    refine ⟨(h.returned x hx).1, ?_⟩
    intro v hv
    rcases update_cases PoolWorkerPc.runs hv with ⟨-, hv⟩ | ⟨-, hv⟩
    · cases hv
    · exact (h.returned x hx).2 v hv

end PoolInv

/-! ## Every run -/

variable [Fintype ι] [DecidableEq ι] [Fintype κ] [DecidableEq κ] {a : PoolAction ι κ α}

/-- Each step keeps the invariant, with a queue that grew at its end or lost its head. -/
theorem PoolInv.step (h : PoolInv s waiting) (hs : PoolStep s a s') :
    ∃ waiting', PoolInv s' waiting' := by
  cases hs with
  | submit hpc => exact ⟨waiting, h.submit hpc⟩
  | full hpc hfull =>
    refine ⟨waiting, h.submitter_stays ?_ ?_⟩
    · rcases hpc with hpc | hpc <;> rw [hpc] <;> rfl
    · rcases hpc with hpc | hpc <;> rw [hpc] <;> rfl
  | @pushed t task signalled workers hpc hroom hsignal =>
    -- the signal marks a worker, which keeps what it has
    have hmarked : PoolInv { s with workers := workers } waiting := by
      apply h.workers_congr
      · exact condSignal_view _ PoolWorkerPc.runs_mark hsignal
      · exact condSignal_view _ PoolWorkerPc.posts_mark hsignal
    refine ⟨waiting ++ [task], hmarked.pushed ?_ ?_ hroom⟩
    · show (s.submitters t).entering = some task
      rcases hpc with hpc | hpc <;> rw [hpc] <;> rfl
    · show (s.submitters t).awaits = none
      rcases hpc with hpc | hpc <;> rw [hpc] <;> rfl
  | wakeSubmitter hpc =>
    refine ⟨waiting, h.submitter_stays ?_ ?_⟩
    · rw [hpc]
      rfl
    · rw [hpc]
      rfl
  | answer hpc hdone => exact ⟨waiting, h.answer hpc hdone⟩
  | empty hpc hcount =>
    refine ⟨waiting, h.worker_stays ?_ ?_⟩
    · rcases hpc with hpc | hpc <;> rw [hpc] <;> rfl
    · rcases hpc with hpc | hpc <;> rw [hpc] <;> rfl
  | @popped w task signalled submitters hpc hcount hsignal hslot =>
    obtain ⟨x, rest, rfl⟩ := h.ring.exists_cons (Nat.pos_of_ne_zero hcount)
    -- the cell at `head` is the first task that waits
    have htask : task = x := by
      have hfront : s.queue.queue s.queue.head = some x := h.ring.front
      rw [hslot] at hfront
      exact Option.some.inj hfront
    subst htask
    -- the signal marks a submitter, which keeps what it has
    have hmarked : PoolInv { s with submitters := submitters } (task :: rest) := by
      apply h.submitters_congr
      · exact condSignal_view _ SubmitterPc.entering_mark hsignal
      · exact condSignal_view _ SubmitterPc.awaits_mark hsignal
    refine ⟨rest, hmarked.popped ?_⟩
    show ∀ x, ¬ (s.workers w).Has x
    -- a worker in `task_queue_pop` has no task
    rintro x (hx | hx)
    · rcases hpc with hpc | hpc <;> rw [hpc] at hx <;> cases hx
    · rcases hpc with hpc | hpc <;> rw [hpc] at hx <;> cases hx
  | wakeWorker hpc =>
    refine ⟨waiting, h.worker_stays ?_ ?_⟩
    · rw [hpc]
      rfl
    · rw [hpc]
      rfl
  | @finish w task result hpc =>
    refine ⟨waiting, ?_⟩
    cases hresult : task.result with
    | none =>
      simp only [PoolState.finish, hresult]
      exact h.finishAsync hpc
    | some t =>
      simp only [PoolState.finish, hresult]
      exact h.finishSync hpc hresult
  | post hpc hresult => exact ⟨waiting, h.post hpc hresult⟩

omit [Fintype ι] [DecidableEq ι] [Fintype κ] [DecidableEq κ] in
theorem PoolState.Starts.poolInv (h : s.Starts) : PoolInv s [] := by
  have hentering : ∀ t, (s.submitters t).entering = none := by
    intro t
    rw [h.submitters t]
    rfl
  have hawaits : ∀ t, (s.submitters t).awaits = none := by
    intro t
    rw [h.submitters t]
    rfl
  have hruns : ∀ w, (s.workers w).runs = none := by
    intro w
    rw [h.workers w]
    rfl
  have hposts : ∀ w, (s.workers w).posts = none := by
    intro w
    rw [h.workers w]
    rfl
  have hhas : ∀ w task, ¬ (s.workers w).Has task := by
    rintro w task (hw | hw)
    · rw [hruns w] at hw
      cases hw
    · rw [hposts w] at hw
      cases hw
  refine
    { ring := ?_
      history := by rw [h.pushed, h.popped]; rfl
      numbers := by rw [h.pushed]; exact List.nodup_nil
      fresh := by rw [h.pushed]; nofun
      entering := ?_
      distinct := ?_
      working := fun w task hw => absurd hw (hhas w task)
      pointers := ?_
      awaits := ?_
      posts := ?_
      returned := by rw [h.returned]; nofun
      once := by rw [h.returned]; exact List.nodup_nil
      answers := by rw [h.answers]; nofun }
  · apply Lib.Ring.Holds.empty
    · show s.queue.head < s.queue.num.toNat
      rw [h.queue]
      exact h.capacity
    · show s.queue.tail = s.queue.head
      rw [h.queue]
      rfl
    · show s.queue.count = 0
      rw [h.queue]
      rfl
  · intro t task ht
    rw [hentering t] at ht
    cases ht
  · intro t u task task' ht
    rw [hentering t] at ht
    cases ht
  · rintro task t (htask | ⟨w, hw⟩)
    · cases htask
    · exact absurd hw (hhas w task)
  · intro t task ht
    rw [hawaits t] at ht
    cases ht
  · intro w task hw
    rw [hposts w] at hw
    cases hw

theorem poolInv_of_reachable (h : (poolSystem ι κ α).Reachable s) :
    ∃ waiting, PoolInv s waiting := by
  apply LTS.invariant _ _ h
  · intro s hs
    exact ⟨[], hs.poolInv⟩
  · rintro s a s' ⟨waiting, hinv⟩ hs
    exact hinv.step (poolStep_ok hs)

omit [Fintype ι] [DecidableEq ι] [Fintype κ] [DecidableEq κ] in
/-- No step pops a cell without a task, or posts without a semaphore. -/
theorem PoolInv.no_fault (h : PoolInv s waiting) : ¬ PoolFaults s := by
  rintro (⟨hcount, hslot⟩ | ⟨w, task, hpc, hresult⟩)
  · obtain ⟨x, rest, rfl⟩ := h.ring.exists_cons (Nat.pos_of_ne_zero hcount)
    have hfront : s.queue.queue s.queue.head = some x := h.ring.front
    rw [hslot] at hfront
    cases hfront
  · obtain ⟨t, ht, -⟩ := h.posts w task (by rw [hpc]; rfl)
    rw [hresult] at ht
    cases ht

/-- **The pool is a bounded FIFO.** In every reachable state the indices are those of a ring;
the slots from `head` on are the tasks that were pushed and not yet popped, in the order they
were pushed, and the slot of the next push is none of them. Each task that was pushed waits
in the queue or was handed to one worker, once; its routine returned at most once, and what a
synchronous submit returned is what the routine of its task returned. No step faults. -/
theorem pool_fifo (h : (poolSystem ι κ α).Reachable s) :
    (s.queue.count ≤ s.queue.num.toNat ∧ s.queue.head < s.queue.num.toNat ∧
      s.queue.tail < s.queue.num.toNat ∧
      s.queue.tail = (s.queue.head + s.queue.count) % s.queue.num.toNat) ∧
    (∃ waiting, s.pushed = s.popped.map Prod.snd ++ waiting ∧ waiting.length = s.queue.count ∧
      ∀ i < s.queue.count,
        s.queue.queue ((s.queue.head + i) % s.queue.num.toNat) = waiting[i]?) ∧
    (s.queue.count < s.queue.num.toNat → ∀ i < s.queue.count,
      (s.queue.head + i) % s.queue.num.toNat ≠ s.queue.tail) ∧
    ((s.pushed.map QueueTask.number).Nodup ∧
      ∀ w task, (s.workers w).Has task → (w, task) ∈ s.popped) ∧
    ((s.returned.map Prod.fst).Nodup ∧ ∀ x ∈ s.answers, x ∈ s.returned) ∧
    ∀ a e, poolStep s a ≠ some (.error e) := by
  obtain ⟨waiting, hinv⟩ := poolInv_of_reachable h
  have hring := hinv.ring
  refine ⟨⟨hring.bound, hring.head, hring.tail_lt, hring.tail⟩,
    ⟨waiting, hinv.history, hring.length, hring.slots⟩,
    fun hroom i hi => hring.tail_free hroom hi, ⟨hinv.numbers, hinv.working⟩,
    ⟨hinv.once, hinv.answers⟩, ?_⟩
  -- no step faults
  intro a e hfault
  rcases poolStep_cases hfault with ⟨s', heq, -⟩ | ⟨-, hbad⟩
  · cases heq
  · exact hinv.no_fault hbad

/-- The worker goes on, and the synchronous submit returns what the routine returned. -/
theorem pool_fifo_answer :
    ∃ s, (poolSystem (Fin 3) (Fin 1) Unit).Reachable s ∧
      s.answers = [(⟨(), some 0, 0⟩, 7)] ∧ (⟨(), some 0, 0⟩, 7) ∈ s.returned := by
  obtain ⟨s, hrun, hanswers⟩ : ∃ s, LTS.exec (LTS.stepsOk poolStep) examplePool
      (exampleOvertake ++ [.finish 0 7, .post 0, .answer 0]) = some s ∧
        s.answers = [(⟨(), some 0, 0⟩, 7)] := ⟨_, rfl, rfl⟩
  have hs := LTS.exec_reachable (M := poolSystem (Fin 3) (Fin 1) Unit)
    (fun _ _ _ => LTS.stepsOk_eq_some) examplePool_starts hrun
  obtain ⟨-, -, -, -, ⟨-, hreturned⟩, -⟩ := pool_fifo hs
  refine ⟨s, hs, hanswers, hreturned _ ?_⟩
  rw [hanswers]
  exact List.mem_singleton_self _

end Propd
