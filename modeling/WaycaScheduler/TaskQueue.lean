import WaycaScheduler.PoolConservation

/-!
# The task list as a queue

`threadpool_queue_task` and `threadpool_dequeue_task` keep the tasks of a pool
in a ring of `next` and `prev` links.  Every sequence of the two operations on
distinct tasks gives the results of a list to which one appends and from which
the other takes the first, whatever the links of the tasks were before.
-/

namespace WaycaScheduler

open CircularList Transition

inductive QueueCall where
  | queue (task : TaskId)
  | dequeue
deriving DecidableEq

def QueueCall.task : QueueCall → Option TaskId
  | .queue task => some task
  | .dequeue => none

@[simp] theorem tasks_queue (task : TaskId) (rest : List QueueCall) :
    (QueueCall.queue task :: rest).filterMap QueueCall.task =
      task :: rest.filterMap QueueCall.task := rfl

def WaycaThreadpool.queueStep (pool : WaycaThreadpool) :
    QueueCall → WaycaThreadpool × Option TaskId
  | .queue task => (pool.threadpoolQueueTask task, none)
  | .dequeue => pool.threadpoolDequeueTask

def fifoStep (waiting : List TaskId) : QueueCall → List TaskId × Option TaskId
  | .queue task => (waiting ++ [task], none)
  | .dequeue => (waiting.tail, waiting.head?)

theorem fifo_order (waiting : List TaskId) (calls : List QueueCall) :
    waiting ++ calls.filterMap QueueCall.task =
      (replay fifoStep waiting calls).2.filterMap id ++ (replay fifoStep waiting calls).1 := by
  induction calls generalizing waiting with
  | nil => simp [replay]
  | cons call rest ih =>
      cases call with
      | queue task =>
          rw [tasks_queue, List.append_cons]
          exact ih (waiting ++ [task])
      | dequeue =>
          cases waiting with
          | nil => exact ih []
          | cons task later => exact congrArg (task :: ·) (ih later)

namespace WaycaThreadpool

/-- The ring read from its head: the walk over `next` visits the waiting tasks
in order and comes back, and `prev` undoes `next`. -/
structure RingShows (pool : WaycaThreadpool) (waiting : List TaskId) : Prop where
  head_eq : pool.taskHead = waiting.head?
  walk_eq : ∀ head, pool.taskHead = some head →
    (List.range waiting.length).map (fun i => pool.tasks.next^[i] head) = waiting
  walk_back : ∀ head, pool.taskHead = some head →
    pool.tasks.next^[waiting.length] head = head
  prev_next : ∀ task ∈ waiting,
    pool.tasks.next task ∈ waiting ∧ pool.tasks.prev (pool.tasks.next task) = task
  next_prev : ∀ task ∈ waiting,
    pool.tasks.prev task ∈ waiting ∧ pool.tasks.next (pool.tasks.prev task) = task
  num_eq : pool.taskNum = waiting.length

variable {pool : WaycaThreadpool} {waiting : List TaskId}

theorem QueueHolds.ringShows (hholds : QueueHolds pool waiting) : RingShows pool waiting := by
  obtain ⟨hhead, hring, hnum⟩ := hholds
  have hwalk : ∀ head, pool.taskHead = some head →
      (List.range waiting.length).map (fun i => pool.tasks.next^[i] head) = waiting ∧
        pool.tasks.next^[waiting.length] head = head := by
    intro head hsome
    cases waiting with
    | nil => rw [hhead] at hsome; cases hsome
    | cons first rest =>
        rw [hhead, List.head?_cons, Option.some.injEq] at hsome
        rw [← hsome]
        exact hring.walk
  exact ⟨hhead, fun head h => (hwalk head h).1, fun head h => (hwalk head h).2,
    fun task h => (hring.inverse h).1, fun task h => (hring.inverse h).2, hnum⟩

theorem QueueHolds.afterCall {call : QueueCall} (hholds : QueueHolds pool waiting)
    (hnew : ∀ task, call = .queue task → task ∉ waiting) :
    QueueHolds (pool.queueStep call).1 (fifoStep waiting call).1 ∧
      (pool.queueStep call).2 = (fifoStep waiting call).2 ∧
      SameCounters pool (pool.queueStep call).1 := by
  cases call with
  | queue task =>
      obtain ⟨hafter, hsame⟩ := hholds.queueTask (hnew task rfl)
      exact ⟨hafter, rfl, hsame⟩
  | dequeue =>
      cases waiting with
      | nil =>
          simp only [WaycaThreadpool.queueStep, hholds.dequeue_empty]
          exact ⟨hholds, rfl, .refl pool⟩
      | cons task rest =>
          obtain ⟨after, hdequeue, hrest, hsame⟩ := hholds.dequeueTask
          simp only [WaycaThreadpool.queueStep, hdequeue]
          exact ⟨hrest, rfl, hsame⟩

theorem QueueHolds.afterCalls {calls : List QueueCall} (hholds : QueueHolds pool waiting)
    (hdistinct : (waiting ++ calls.filterMap QueueCall.task).Nodup) :
    QueueHolds (replay queueStep pool calls).1 (replay fifoStep waiting calls).1 ∧
      (replay queueStep pool calls).2 = (replay fifoStep waiting calls).2 ∧
      SameCounters pool (replay queueStep pool calls).1 := by
  induction calls generalizing pool waiting with
  | nil => exact ⟨hholds, rfl, .refl pool⟩
  | cons call rest ih =>
      have hnew : ∀ task, call = .queue task → task ∉ waiting := by
        rintro task rfl hmem
        exact List.disjoint_of_nodup_append hdistinct hmem (by simp)
      obtain ⟨hafter, hresult, hsame⟩ := hholds.afterCall hnew
      have hlater : ((fifoStep waiting call).1 ++ rest.filterMap QueueCall.task).Nodup := by
        cases call with
        | queue task =>
            rw [tasks_queue, List.append_cons] at hdistinct
            exact hdistinct
        | dequeue =>
            exact hdistinct.sublist ((List.tail_sublist waiting).append_right _)
      obtain ⟨hfinal, hresults, hkept⟩ := ih hafter hlater
      exact ⟨hfinal, by simp only [Transition.replay, hresult, hresults], hsame.trans hkept⟩

end WaycaThreadpool

open WaycaThreadpool

/-- From an empty pool on, any sequence of queueing and dequeueing on pairwise
distinct tasks gives the results of the queue and leaves its waiting tasks in
the ring; what was returned followed by what is waiting is what was queued, in
that order, and no assertion fails. -/
theorem task_list_refines_queue
    (pool : WaycaThreadpool) (hhead : pool.taskHead = none) (hnum : pool.taskNum = 0)
    (hasserts : pool.asserts = true) (calls : List QueueCall)
    (hdistinct : (calls.filterMap QueueCall.task).Nodup) :
    ∃ waiting, RingShows (replay queueStep pool calls).1 waiting ∧
      replay fifoStep [] calls = (waiting, (replay queueStep pool calls).2) ∧
      calls.filterMap QueueCall.task =
        (replay queueStep pool calls).2.filterMap id ++ waiting ∧
      (replay queueStep pool calls).1.asserts = true := by
  have hempty : QueueHolds pool [] := ⟨hhead, trivial, hnum⟩
  obtain ⟨hholds, hresults, hsame⟩ := hempty.afterCalls hdistinct
  refine ⟨_, hholds.ringShows, ?_, ?_, hsame.asserts_eq.trans hasserts⟩
  · rw [hresults]
  · rw [hresults]
    exact fifo_order [] calls

def staleLinks : WaycaThreadpool where
  totalWorkerNum := 2
  idleNum := 2
  taskHead := none
  taskNum := 0
  stop := false
  tasks := ⟨fun task => task + 1, fun task => task + 2⟩
  asserts := true

/-- Three tasks are queued and two are taken, with the queue empty at the start
and after the second call. -/
theorem task_list_refines_queue_three :
    (replay queueStep staleLinks [.queue 4, .dequeue, .dequeue, .queue 7, .queue 5,
        .dequeue]).2 = [none, some 4, none, none, none, some 7] ∧
      RingShows (replay queueStep staleLinks [.queue 4, .dequeue, .dequeue, .queue 7, .queue 5,
        .dequeue]).1 [5] := by
  obtain ⟨waiting, hshows, hfifo, -, -⟩ := task_list_refines_queue staleLinks rfl rfl rfl
    [.queue 4, .dequeue, .dequeue, .queue 7, .queue 5, .dequeue] (by decide)
  obtain ⟨hwaiting, hresults⟩ := Prod.mk.inj hfifo
  have hfive : [5] = waiting := hwaiting
  rw [hfive]
  exact ⟨hresults.symm, hshows⟩

end WaycaScheduler
