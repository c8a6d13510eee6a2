import WaycaScheduler.LibraryState
import WaycaScheduler.Library.CircularList
import WaycaScheduler.Library.Transition

/-!
# The thread pool

The pool of `lib/threads.c`.  A task is known by the number of the `malloc` that
made it, so an address that is used again is another task.

Every section under the mutex of the pool is one step.  A task runs between
two sections of its worker and does not touch the pool.  `pthread_cond_signal`
wakes one of the waiting workers when there is one, and a waiting worker may
wake up without a signal.  Counters of type `size_t` are integers: one that
would wrap around is negative here.
-/

namespace WaycaScheduler

open CircularList Transition

abbrev TaskId := ℕ

/-- `struct wayca_threadpool`, with the links of all tasks -/
structure WaycaThreadpool where
  totalWorkerNum : ℤ
  idleNum : ℤ
  taskHead : Option TaskId
  taskNum : ℤ
  stop : Bool
  tasks : Pointers TaskId
  asserts : Bool

namespace WaycaThreadpool

variable (pool : WaycaThreadpool)

/-- `WAYCA_SC_ASSERT(cond)` -/
def waycaScAssert (cond : Bool) : WaycaThreadpool :=
  { pool with asserts := pool.asserts && cond }

/-- The task goes to the end of the ring. -/
def threadpoolQueueTask (task : TaskId) : WaycaThreadpool :=
  match pool.taskHead with
  | none =>
      { pool.waycaScAssert (decide (pool.taskNum = 0)) with
        taskHead := some task
        tasks := pool.tasks.alone task
        taskNum := pool.taskNum + 1 }
  | some head =>
      { pool.waycaScAssert (decide (pool.taskNum ≠ 0)) with
        tasks := pool.tasks.insertBefore head task
        taskNum := pool.taskNum + 1 }

/-- The head of the ring; a ring of one task becomes empty. -/
def threadpoolDequeueTask : WaycaThreadpool × Option TaskId :=
  match pool.taskHead with
  | none => (pool, none)
  | some queue =>
      if pool.tasks.next queue = queue then
        ({ pool.waycaScAssert (decide (pool.taskNum = 1)) with
          taskHead := none
          taskNum := pool.taskNum - 1 }, some queue)
      else
        ({ pool.waycaScAssert (decide (2 ≤ pool.taskNum)) with
          taskHead := some (pool.tasks.next queue)
          tasks := pool.tasks.unlink queue
          taskNum := pool.taskNum - 1 }, some queue)

/-- The loop of the destroyer over the tasks that are left, and the tasks it
frees. -/
def drainTasks : ℕ → WaycaThreadpool → Option (WaycaThreadpool × List TaskId)
  | 0, _ => none
  | fuel + 1, pool =>
      match pool.threadpoolDequeueTask with
      | (_, none) => some (pool, [])
      | (after, some task) =>
          (drainTasks fuel after).map fun drained => (drained.1, task :: drained.2)

def runningNum : ℤ := pool.totalWorkerNum - pool.idleNum

end WaycaThreadpool

/-- Where a worker is: before the section at the head of its loop, in
`pthread_cond_wait` and not woken, woken and about to leave it, with a task, or
gone. -/
inductive Worker where
  | ready
  | waiting
  | woken
  | running (task : TaskId)
  | exited
deriving DecidableEq

def Worker.task : Worker → Option TaskId
  | .running task => some task
  | _ => none

/-- How far `wayca_sc_threadpool_destroy` is: it joins the workers one after
another, and frees the pool after its last section. -/
inductive Destroyer where
  | absent
  | joining (joined : ℕ)
  | drained
deriving DecidableEq

/-- The pool with its workers, the destroyer, and the history of the tasks. -/
structure PoolSystem (n : ℕ) where
  pool : WaycaThreadpool
  worker : Fin n → Worker
  destroyer : Destroyer
  queued : List TaskId
  started : List TaskId
  finished : List TaskId
  discarded : List TaskId

namespace PoolSystem

variable {n : ℕ}

/-- The pool as `wayca_threadpool_init` leaves it with `n` workers. -/
def start (n : ℕ) : PoolSystem n where
  pool :=
    { totalWorkerNum := n
      idleNum := n
      taskHead := none
      taskNum := 0
      stop := false
      tasks := ⟨id, id⟩
      asserts := true }
  worker := fun _ => .ready
  destroyer := .absent
  queued := []
  started := []
  finished := []
  discarded := []

def setWorker (system : PoolSystem n) (w : Fin n) (worker : Worker) : PoolSystem n :=
  { system with worker := Function.update system.worker w worker }

/-- The answers `pthread_cond_signal` can give: a waiting worker, or none when
no worker waits. -/
def Signals (system : PoolSystem n) : Option (Fin n) → Prop
  | some w => system.worker w = .waiting
  | none => ∀ w, system.worker w ≠ .waiting

instance (system : PoolSystem n) (wake : Option (Fin n)) :
    Decidable (system.Signals wake) :=
  match wake with
  | some w => inferInstanceAs (Decidable (system.worker w = .waiting))
  | none => inferInstanceAs (Decidable (∀ w, system.worker w ≠ .waiting))

def wakeUp (system : PoolSystem n) : Option (Fin n) → PoolSystem n
  | some w => system.setWorker w .woken
  | none => system

/-- `pthread_cond_broadcast` -/
def broadcast (system : PoolSystem n) : PoolSystem n :=
  { system with
    worker := fun w => if system.worker w = .waiting then .woken else system.worker w }

inductive Action (n : ℕ) where
  /-- A call of `wayca_sc_threadpool_queue`: whether it is given a function,
  whether `malloc` succeeds, and who is woken. -/
  | queue (taskFunc malloc : Bool) (wake : Option (Fin n))
  /-- The next section of a worker. -/
  | work (w : Fin n)
  | wakeSpuriously (w : Fin n)
  /-- The first section of `wayca_sc_threadpool_destroy`. -/
  | stop
  /-- The destroyer joins the next worker. -/
  | join
  /-- The last section of `wayca_sc_threadpool_destroy`. -/
  | drain

/-- The pool once a new task is in its queue. -/
def withTask (system : PoolSystem n) : PoolSystem n :=
  { system with
    pool := system.pool.threadpoolQueueTask system.queued.length
    queued := system.queued ++ [system.queued.length] }

/-- `wake` is the worker that the signal reaches. -/
def waycaScThreadpoolQueue (system : PoolSystem n) (taskFunc malloc : Bool)
    (wake : Option (Fin n)) : Option (PoolSystem n × ℤ) :=
  if system.destroyer = .drained then none
  else if !taskFunc then some (system, -EINVAL)
  else if !malloc then some (system, -ENOMEM)
  else if system.withTask.pool.idleNum ≠ 0 then
    if system.withTask.Signals wake then some (system.withTask.wakeUp wake, 0) else none
  else if wake = none then some (system.withTask, 0)
  else none

/-- The section at the head of the loop of `wayca_threadpool_worker_func`; a
null pointer instead of a task is a crash. -/
def workerLoopHead (system : PoolSystem n) (w : Fin n) : Option (PoolSystem n) :=
  if system.pool.stop then some (system.setWorker w .exited)
  else if system.pool.taskNum = 0 then some (system.setWorker w .waiting)
  else
    match (system.pool.waycaScAssert system.pool.taskHead.isSome).threadpoolDequeueTask with
    | (_, none) => none
    | (after, some task) =>
        some { system.setWorker w (.running task) with
          pool := { after with idleNum := after.idleNum - 1 }
          started := system.started ++ [task] }

def workerRecount (system : PoolSystem n) (w : Fin n) (task : TaskId) : PoolSystem n :=
  { system.setWorker w .ready with
    pool := { system.pool with idleNum := system.pool.idleNum + 1 }
    finished := system.finished ++ [task] }

def work (system : PoolSystem n) (w : Fin n) : Option (PoolSystem n) :=
  match system.worker w with
  | .ready => system.workerLoopHead w
  | .waiting => none
  | .woken => some (system.setWorker w .ready)
  | .running task => some (system.workerRecount w task)
  | .exited => none

def step (system : PoolSystem n) : Action n → Option (PoolSystem n × ℤ)
  | .queue taskFunc malloc wake => system.waycaScThreadpoolQueue taskFunc malloc wake
  | .work w => (system.work w).map fun next => (next, 0)
  | .wakeSpuriously w =>
      if system.worker w = .waiting then some (system.setWorker w .woken, 0) else none
  | .stop =>
      if system.destroyer = .absent then
        some ({ system.broadcast with
          pool := { system.pool with stop := true }
          destroyer := .joining 0 }, 0)
      else none
  | .join =>
      match system.destroyer with
      | .joining joined =>
          if hjoined : joined < n then
            if system.worker ⟨joined, hjoined⟩ = .exited then
              some ({ system with destroyer := .joining (joined + 1) }, 0)
            else none
          else none
      | _ => none
  | .drain =>
      if system.destroyer = .joining n then
        (system.pool.drainTasks (system.queued.length + 1)).map fun drained =>
          ({ system with
            pool := drained.1
            destroyer := .drained
            discarded := system.discarded ++ drained.2 }, 0)
      else none

end PoolSystem

abbrev PoolReachable {n : ℕ} : PoolSystem n → Prop :=
  ReachableVia PoolSystem.step (fun _ _ => True) (PoolSystem.start n)

end WaycaScheduler
