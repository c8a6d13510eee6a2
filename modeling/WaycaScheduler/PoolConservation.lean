import WaycaScheduler.ThreadPool

/-!
# Task conservation in the thread pool

The circular list of a pool is a queue.  With this, one invariant relates the
counters of the pool, the places of the workers and the history of the tasks,
and every step of every party keeps it.
-/

namespace WaycaScheduler

open CircularList Transition Finset

variable {after : WaycaThreadpool} {t : TaskId}

/-! ## The task queue -/

namespace WaycaThreadpool

variable {pool : WaycaThreadpool} {waiting : List TaskId} {task : TaskId}

/-- The ring of the pool holds these tasks in order. -/
structure QueueHolds (pool : WaycaThreadpool) (waiting : List TaskId) : Prop where
  head_eq : pool.taskHead = waiting.head?
  ring : Ring pool.tasks waiting
  num_eq : pool.taskNum = waiting.length

/-- What the queue operations leave alone; that `asserts` is kept says that
their assertions hold. -/
structure SameCounters (pool after : WaycaThreadpool) : Prop where
  total_eq : after.totalWorkerNum = pool.totalWorkerNum
  idle_eq : after.idleNum = pool.idleNum
  stop_eq : after.stop = pool.stop
  asserts_eq : after.asserts = pool.asserts

theorem SameCounters.refl (pool : WaycaThreadpool) : SameCounters pool pool := ⟨rfl, rfl, rfl, rfl⟩

theorem SameCounters.trans {final : WaycaThreadpool} (hfirst : SameCounters pool after)
    (hlater : SameCounters after final) : SameCounters pool final :=
  ⟨hlater.total_eq.trans hfirst.total_eq, hlater.idle_eq.trans hfirst.idle_eq,
    hlater.stop_eq.trans hfirst.stop_eq, hlater.asserts_eq.trans hfirst.asserts_eq⟩

@[simp] theorem waycaScAssert_true : pool.waycaScAssert true = pool := by
  simp [waycaScAssert]

theorem QueueHolds.queueTask (hholds : QueueHolds pool waiting) (hnew : task ∉ waiting) :
    QueueHolds (pool.threadpoolQueueTask task) (waiting ++ [task]) ∧
      SameCounters pool (pool.threadpoolQueueTask task) := by
  obtain ⟨hhead, hring, hnum⟩ := hholds
  unfold threadpoolQueueTask
  cases waiting with
  | nil =>
      have hzero : pool.taskNum = 0 := hnum
      simp only [hhead, List.head?_nil, hzero, decide_true, waycaScAssert_true]
      exact ⟨⟨rfl, ring_alone pool.tasks task, rfl⟩, rfl, rfl, rfl, rfl⟩
  | cons head rest =>
      have hnonzero : pool.taskNum ≠ 0 := by
        rw [hnum, List.length_cons]
        omega
      simp only [hhead, List.head?_cons, hnonzero, ne_eq, not_false_eq_true, decide_true,
        waycaScAssert_true]
      refine ⟨⟨?_, hring.insertBefore hnew, ?_⟩, rfl, rfl, rfl, rfl⟩
      · simp
      · simp [hnum]

theorem QueueHolds.dequeue_empty (hholds : QueueHolds pool []) :
    pool.threadpoolDequeueTask = (pool, none) := by
  unfold threadpoolDequeueTask
  rw [hholds.head_eq]
  rfl

/-- The first waiting task is taken, and the others stay in order. -/
theorem QueueHolds.dequeueTask (hholds : QueueHolds pool (task :: waiting)) :
    ∃ after, pool.threadpoolDequeueTask = (after, some task) ∧ QueueHolds after waiting ∧
      SameCounters pool after := by
  obtain ⟨hhead, hring, hnum⟩ := hholds
  have hnum' : pool.taskNum = waiting.length + 1 := by simpa using hnum
  unfold threadpoolDequeueTask
  simp only [hhead, List.head?_cons]
  cases waiting with
  | nil =>
      have hone : pool.taskNum = 1 := by simpa using hnum'
      rw [if_pos (hring.next_eq_self_iff.mpr rfl)]
      simp only [hone, decide_true, waycaScAssert_true]
      exact ⟨_, rfl, ⟨rfl, trivial, by simp⟩, rfl, rfl, rfl, rfl⟩
  | cons after rest =>
      have htwo : 2 ≤ pool.taskNum := by
        rw [hnum', List.length_cons]
        omega
      have hother : pool.tasks.next task ≠ task := by
        intro hself
        exact absurd (hring.next_eq_self_iff.mp hself) (List.cons_ne_nil after rest)
      obtain ⟨hnext, hrest⟩ := hring.unlink
      rw [if_neg hother]
      simp only [htwo, decide_true, waycaScAssert_true]
      refine ⟨_, rfl, ⟨?_, hrest, ?_⟩, rfl, rfl, rfl, rfl⟩
      · simp [hnext]
      · simp [hnum']

theorem QueueHolds.drainTasks
    {fuel : ℕ} (hholds : QueueHolds pool waiting) (hfuel : waiting.length < fuel) :
    ∃ after, drainTasks fuel pool = some (after, waiting) ∧ QueueHolds after [] ∧
      SameCounters pool after := by
  induction fuel generalizing pool waiting with
  | zero => exact absurd hfuel (Nat.not_lt_zero _)
  | succ fuel ih =>
      cases waiting with
      | nil =>
          refine ⟨pool, ?_, hholds, .refl pool⟩
          simp only [WaycaThreadpool.drainTasks, hholds.dequeue_empty]
      | cons task rest =>
          obtain ⟨after, hdequeue, hrest, hsame⟩ := hholds.dequeueTask
          obtain ⟨final, hdrain, hempty, hlater⟩ := ih hrest (by simpa using hfuel)
          refine ⟨final, ?_, hempty, hsame.trans hlater⟩
          simp only [WaycaThreadpool.drainTasks, hdequeue, hdrain, Option.map_some]

end WaycaThreadpool

/-! ## What each step does -/

namespace PoolSystem

open WaycaThreadpool

variable {n : ℕ} {system next : PoolSystem n} {waiting : List TaskId}

variable {w : Fin n}

inductive Moves (system : PoolSystem n) : PoolSystem n → Prop where
  | refuses : Moves system system
  | queues (wake : Option (Fin n)) (hopen : system.destroyer ≠ .drained)
      (hwake : system.withTask.pool.idleNum ≠ 0 → system.Signals wake)
      (hsilent : system.withTask.pool.idleNum = 0 → wake = none) :
      Moves system (system.withTask.wakeUp wake)
  | exits (w : Fin n) (hready : system.worker w = .ready) (hstop : system.pool.stop = true) :
      Moves system (system.setWorker w .exited)
  | waits (w : Fin n) (hready : system.worker w = .ready) (hgoing : system.pool.stop = false)
      (hempty : system.pool.taskNum = 0) : Moves system (system.setWorker w .waiting)
  | takes (w : Fin n) (task : TaskId) (after : WaycaThreadpool)
      (hready : system.worker w = .ready) (hgoing : system.pool.stop = false)
      (htasks : system.pool.taskNum ≠ 0)
      (hdequeue :
        (system.pool.waycaScAssert system.pool.taskHead.isSome).threadpoolDequeueTask =
          (after, some task)) :
      Moves system { system.setWorker w (.running task) with
        pool := { after with idleNum := after.idleNum - 1 }
        started := system.started ++ [task] }
  | wakes (w : Fin n) (hwaiting : system.worker w = .waiting) :
      Moves system (system.setWorker w .woken)
  | resumes (w : Fin n) (hwoken : system.worker w = .woken) :
      Moves system (system.setWorker w .ready)
  | recounts (w : Fin n) (task : TaskId) (hrunning : system.worker w = .running task) :
      Moves system (system.workerRecount w task)
  | stops (hfirst : system.destroyer = .absent) :
      Moves system { system.broadcast with
        pool := { system.pool with stop := true }
        destroyer := .joining 0 }
  | joins (w : Fin n) (hturn : system.destroyer = .joining w)
      (hexited : system.worker w = .exited) :
      Moves system { system with destroyer := .joining (w + 1) }
  | drains (after : WaycaThreadpool) (left : List TaskId)
      (hjoined : system.destroyer = .joining n)
      (hdrain : system.pool.drainTasks (system.queued.length + 1) = some (after, left)) :
      Moves system { system with
        pool := after
        destroyer := .drained
        discarded := system.discarded ++ left }

theorem work_moves (hwork : system.work w = some next) : Moves system next := by
  unfold work at hwork
  split at hwork
  next hready =>
    unfold workerLoopHead at hwork
    split at hwork
    next hstop =>
      cases hwork
      exact .exits w hready hstop
    next hgoing =>
      have hgoing' : system.pool.stop = false := by simpa using hgoing
      split at hwork
      next hempty =>
        cases hwork
        exact .waits w hready hgoing' hempty
      next htasks =>
        split at hwork
        next => cases hwork
        next after task hdequeue =>
          cases hwork
          exact .takes w task after hready hgoing' htasks hdequeue
  next => cases hwork
  next hwoken =>
    cases hwork
    exact .resumes w hwoken
  next task hrunning =>
    cases hwork
    exact .recounts w task hrunning
  next => cases hwork

theorem queue_moves {taskFunc malloc : Bool} {wake : Option (Fin n)} {ret : ℤ}
    (hqueue : system.waycaScThreadpoolQueue taskFunc malloc wake = some (next, ret)) :
    Moves system next := by
  unfold waycaScThreadpoolQueue at hqueue
  split at hqueue
  next => cases hqueue
  next hopen =>
    split at hqueue
    next =>
      cases hqueue
      exact .refuses
    next =>
      split at hqueue
      next =>
        cases hqueue
        exact .refuses
      next =>
        split at hqueue
        next hidle =>
          split at hqueue
          next hsignal =>
            cases hqueue
            exact .queues wake hopen (fun _ => hsignal) fun hzero => absurd hzero hidle
          next => cases hqueue
        next hbusy =>
          split at hqueue
          next hnone =>
            cases hqueue
            subst hnone
            exact .queues none hopen (fun hidle => absurd hidle hbusy) fun _ => rfl
          next => cases hqueue

/-- Every action of the pool is one of the moves. -/
theorem step_moves {action : Action n} {ret : ℤ} (hstep : system.step action = some (next, ret)) :
    Moves system next := by
  cases action with
  | queue taskFunc malloc wake => exact queue_moves hstep
  | work w =>
      obtain ⟨result, hwork, hresult⟩ := Option.map_eq_some_iff.mp hstep
      cases hresult
      exact work_moves hwork
  | wakeSpuriously w =>
      simp only [step] at hstep
      split at hstep
      next hwaiting =>
        cases hstep
        exact .wakes w hwaiting
      next => cases hstep
  | stop =>
      simp only [step] at hstep
      split at hstep
      next hfirst =>
        cases hstep
        exact .stops hfirst
      next => cases hstep
  | join =>
      simp only [step] at hstep
      split at hstep
      next joined hturn =>
        split at hstep
        next hjoined =>
          split at hstep
          next hexited =>
            cases hstep
            exact .joins ⟨joined, hjoined⟩ hturn hexited
          next => cases hstep
        next => cases hstep
      next => cases hstep
  | drain =>
      simp only [step] at hstep
      split at hstep
      next hjoined =>
        obtain ⟨⟨after, left⟩, hdrain, hresult⟩ := Option.map_eq_some_iff.mp hstep
        cases hresult
        exact .drains after left hjoined hdrain
      next => cases hstep

def busy (system : PoolSystem n) : Finset (Fin n) :=
  univ.filter fun w => (system.worker w).task ≠ none

/-- Every task queued is waiting, running, finished or discarded. -/
structure Conserved (system : PoolSystem n) (waiting : List TaskId) : Prop where
  holds : QueueHolds system.pool waiting
  asserts : system.pool.asserts = true
  distinct : system.queued = List.range system.queued.length
  queued_eq : system.queued = system.started ++ (system.discarded ++ waiting)
  running_started : ∀ w t, (system.worker w).task = some t → t ∈ system.started
  running_once : ∀ w v t, (system.worker w).task = some t →
    (system.worker v).task = some t → w = v
  running_open : ∀ w t, (system.worker w).task = some t → t ∉ system.finished
  finished_started : ∀ t ∈ system.finished, t ∈ system.started
  started_cases : ∀ t ∈ system.started,
    t ∈ system.finished ∨ ∃ w, (system.worker w).task = some t
  total_eq : system.pool.totalWorkerNum = n
  idle_eq : system.pool.idleNum + system.busy.card = n
  stop_iff : system.pool.stop = true ↔ system.destroyer ≠ .absent
  kept : system.destroyer ≠ .drained → system.discarded = []
  joined : ∀ joined, system.destroyer = .joining joined →
    ∀ w : Fin n, w < joined → system.worker w = .exited
  gone : system.destroyer = .drained → waiting = [] ∧ ∀ w, system.worker w = .exited

section

variable (hconserved : Conserved system waiting)

include hconserved

theorem Conserved.waiting_queued :
    ∀ t ∈ waiting, t ∈ system.queued := by
  intro t ht
  rw [hconserved.queued_eq]
  exact List.mem_append_right _ (List.mem_append_right _ ht)

theorem Conserved.nodup : (system.started ++ (system.discarded ++ waiting)).Nodup := by
  rw [← hconserved.queued_eq, hconserved.distinct]
  exact List.nodup_range

theorem Conserved.keepTasks {worker : Fin n → Worker}
    (htask : ∀ w, (worker w).task = (system.worker w).task)
    (hexited : ∀ w, system.worker w = .exited → worker w = .exited) :
    Conserved { system with worker := worker } waiting := by
  have hbusy : busy { system with worker := worker } = system.busy := by
    simp [busy, htask]
  exact
    { holds := hconserved.holds
      asserts := hconserved.asserts
      distinct := hconserved.distinct
      queued_eq := hconserved.queued_eq
      running_started := by simpa only [htask] using hconserved.running_started
      running_once := by simpa only [htask] using hconserved.running_once
      running_open := by simpa only [htask] using hconserved.running_open
      finished_started := hconserved.finished_started
      started_cases := by simpa only [htask] using hconserved.started_cases
      total_eq := hconserved.total_eq
      idle_eq := by simpa only [hbusy] using hconserved.idle_eq
      stop_iff := hconserved.stop_iff
      kept := hconserved.kept
      joined := fun joined hturn w hw => hexited w (hconserved.joined joined hturn w hw)
      gone := fun hgone => ⟨(hconserved.gone hgone).1,
        fun w => hexited w ((hconserved.gone hgone).2 w)⟩ }

theorem Conserved.moveIdle {place : Worker} (hbefore : (system.worker w).task = none)
    (hafter : place.task = none) (hstays : system.worker w ≠ .exited) :
    Conserved (system.setWorker w place) waiting := by
  apply hconserved.keepTasks
  · intro v
    by_cases hv : v = w
    · simp [hv, hbefore, hafter]
    · simp [Function.update_of_ne hv]
  · intro v hgone
    have hv : v ≠ w := fun heq => hstays (heq ▸ hgone)
    rwa [Function.update_of_ne hv]

theorem Conserved.withTask (hopen : system.destroyer ≠ .drained) :
    Conserved system.withTask (waiting ++ [system.queued.length]) := by
  have hnew : system.queued.length ∉ system.queued := by
    rw [hconserved.distinct]
    simp
  obtain ⟨hholds, htotal, hidle, hstop, hasserts⟩ :=
    hconserved.holds.queueTask fun hmem => hnew (hconserved.waiting_queued _ hmem)
  exact
    { holds := hholds
      asserts := hasserts.trans hconserved.asserts
      distinct := by
        simp only [PoolSystem.withTask, List.length_append, List.length_singleton]
        rw [List.range_succ, ← hconserved.distinct]
      queued_eq := by
        simp only [PoolSystem.withTask]
        rw [hconserved.queued_eq]
        simp
      running_started := hconserved.running_started
      running_once := hconserved.running_once
      running_open := hconserved.running_open
      finished_started := hconserved.finished_started
      started_cases := hconserved.started_cases
      total_eq := htotal.trans hconserved.total_eq
      idle_eq := by
        rw [← hconserved.idle_eq]
        exact congrArg (· + (system.busy.card : ℤ)) hidle
      stop_iff := (iff_of_eq (congrArg (· = true) hstop)).trans hconserved.stop_iff
      kept := hconserved.kept
      joined := hconserved.joined
      gone := fun hgone => absurd hgone hopen }

theorem Conserved.take {task : TaskId}
    (hready : system.worker w = .ready) (hgoing : system.pool.stop = false)
    (htasks : system.pool.taskNum ≠ 0)
    (hdequeue : (system.pool.waycaScAssert system.pool.taskHead.isSome).threadpoolDequeueTask =
      (after, some task)) :
    ∃ rest, waiting = task :: rest ∧ Conserved { system.setWorker w (.running task) with
        pool := { after with idleNum := after.idleNum - 1 }
        started := system.started ++ [task] } rest := by
  have habsent : system.destroyer = .absent := by
    by_contra hpresent
    rw [hconserved.stop_iff.mpr hpresent] at hgoing
    cases hgoing
  have hkept : system.discarded = [] := hconserved.kept (by simp [habsent])
  cases waiting with
  | nil => exact absurd hconserved.holds.num_eq htasks
  | cons first rest =>
      have hsome : system.pool.taskHead.isSome = true := by
        rw [hconserved.holds.head_eq]
        rfl
      rw [hsome, waycaScAssert_true] at hdequeue
      obtain ⟨dequeued, hresult, hholds, htotal, hidle, hstop, hasserts⟩ :=
        hconserved.holds.dequeueTask
      rw [hresult] at hdequeue
      cases hdequeue
      have hnodup := hconserved.nodup
      rw [hkept, List.nil_append] at hnodup
      have hfresh : task ∉ system.started := by
        intro hmem
        exact List.disjoint_of_nodup_append hnodup hmem List.mem_cons_self
      have hworker : ∀ v, ((Function.update system.worker w (.running task)) v).task =
          if v = w then some task else (system.worker v).task := by
        intro v
        by_cases hv : v = w
        · simp [hv, Worker.task]
        · simp [hv]
      have hbusy : busy { system.setWorker w (.running task) with
          pool := { after with idleNum := after.idleNum - 1 }
          started := system.started ++ [task] } = insert w system.busy := by
        ext v
        simp only [busy, setWorker, hworker, mem_filter, mem_univ, true_and, mem_insert]
        by_cases hv : v = w <;> simp [hv]
      have hnone : (system.worker w).task = none := by simp [hready, Worker.task]
      have hidleWorker : w ∉ system.busy := by simp [busy, hnone]
      refine ⟨rest, rfl, ?_⟩
      exact
        { holds := ⟨hholds.head_eq, hholds.ring, hholds.num_eq⟩
          asserts := hasserts.trans hconserved.asserts
          distinct := hconserved.distinct
          queued_eq := by
            simp only [setWorker]
            rw [hconserved.queued_eq, hkept]
            simp
          running_started := by
            intro v t ht
            simp only [setWorker, hworker] at ht
            split at ht
            next =>
              cases ht
              exact List.mem_append_right _ List.mem_cons_self
            next => exact List.mem_append_left _ (hconserved.running_started v t ht)
          running_once := by
            intro v u t hv hu
            simp only [setWorker, hworker] at hv hu
            split at hv
            next hvw =>
              cases hv
              split at hu
              next huw => exact hvw.trans huw.symm
              next => exact absurd (hconserved.running_started u task hu) hfresh
            next =>
              split at hu
              next =>
                cases hu
                exact absurd (hconserved.running_started v task hv) hfresh
              next => exact hconserved.running_once v u t hv hu
          running_open := by
            intro v t hv
            simp only [setWorker, hworker] at hv
            split at hv
            next =>
              cases hv
              exact fun hdone => hfresh (hconserved.finished_started task hdone)
            next => exact hconserved.running_open v t hv
          finished_started := by
            intro t ht
            exact List.mem_append_left _ (hconserved.finished_started t ht)
          started_cases := by
            intro t ht
            simp only [setWorker, hworker]
            rcases List.mem_append.mp ht with hold | hnew
            · rcases hconserved.started_cases t hold with hdone | ⟨v, hv⟩
              · exact .inl hdone
              · have hvw : v ≠ w := by
                  rintro rfl
                  simp [hnone] at hv
                exact .inr ⟨v, by simpa [hvw] using hv⟩
            · obtain rfl := List.mem_singleton.mp hnew
              exact .inr ⟨w, by simp⟩
          total_eq := htotal.trans hconserved.total_eq
          idle_eq := by
            rw [hbusy, card_insert_of_notMem hidleWorker, ← hconserved.idle_eq]
            simp only [hidle]
            push_cast
            ring
          stop_iff := (iff_of_eq (congrArg (· = true) hstop)).trans hconserved.stop_iff
          kept := fun _ => hkept
          joined := by
            intro joined hturn
            simp [setWorker, habsent] at hturn
          gone := by
            intro hgone
            simp [setWorker, habsent] at hgone }

theorem Conserved.recount {task : TaskId} (hrunning : system.worker w = .running task) :
    Conserved (system.workerRecount w task) waiting := by
  have htask : (system.worker w).task = some task := by simp [hrunning, Worker.task]
  have hworker : ∀ v, ((Function.update system.worker w .ready) v).task =
      if v = w then none else (system.worker v).task := by
    intro v
    by_cases hv : v = w
    · simp [hv, Worker.task]
    · simp [hv]
  have hbusy : (system.workerRecount w task).busy = system.busy.erase w := by
    ext v
    simp only [busy, workerRecount, setWorker, hworker, mem_filter, mem_univ, true_and, mem_erase]
    by_cases hv : v = w <;> simp [hv]
  have hmem : w ∈ system.busy := by simp [busy, htask]
  exact
    { holds := ⟨hconserved.holds.head_eq, hconserved.holds.ring, hconserved.holds.num_eq⟩
      asserts := hconserved.asserts
      distinct := hconserved.distinct
      queued_eq := hconserved.queued_eq
      running_started := by
        intro v t hv
        simp only [workerRecount, setWorker, hworker] at hv
        split at hv
        next => cases hv
        next => exact hconserved.running_started v t hv
      running_once := by
        intro v u t hv hu
        simp only [workerRecount, setWorker, hworker] at hv hu
        split at hv
        next => cases hv
        next =>
          split at hu
          next => cases hu
          next => exact hconserved.running_once v u t hv hu
      running_open := by
        intro v t hv hdone
        simp only [workerRecount, setWorker, hworker] at hv hdone
        split at hv
        next => cases hv
        next hvw =>
          rcases List.mem_append.mp hdone with hold | hnew
          · exact hconserved.running_open v t hv hold
          · obtain rfl := List.mem_singleton.mp hnew
            exact hvw (hconserved.running_once v w t hv htask)
      finished_started := by
        intro t ht
        rcases List.mem_append.mp ht with hold | hnew
        · exact hconserved.finished_started t hold
        · obtain rfl := List.mem_singleton.mp hnew
          exact hconserved.running_started w t htask
      started_cases := by
        intro t ht
        simp only [workerRecount, setWorker, hworker]
        rcases hconserved.started_cases t ht with hdone | ⟨v, hv⟩
        · exact .inl (List.mem_append_left _ hdone)
        · by_cases hvw : v = w
          · rw [hvw, htask, Option.some.injEq] at hv
            exact .inl (List.mem_append_right _ (List.mem_singleton.mpr hv.symm))
          · exact .inr ⟨v, by simpa [hvw] using hv⟩
      total_eq := hconserved.total_eq
      idle_eq := by
        have hcard := card_erase_add_one hmem
        rw [hbusy, ← hconserved.idle_eq, ← hcard]
        simp only [workerRecount, setWorker]
        push_cast
        ring
      stop_iff := hconserved.stop_iff
      kept := hconserved.kept
      joined := by
        intro joined hturn v hv
        have hgone := hconserved.joined joined hturn v hv
        have hvw : v ≠ w := by
          rintro rfl
          rw [hrunning] at hgone
          cases hgone
        simpa [workerRecount, setWorker, Function.update_of_ne hvw] using hgone
      gone := by
        intro hgone
        have hall := (hconserved.gone hgone).2 w
        rw [hrunning] at hall
        cases hall }

theorem Conserved.stop (hfirst : system.destroyer = .absent) :
    Conserved { system.broadcast with
      pool := { system.pool with stop := true }
      destroyer := .joining 0 } waiting := by
  have hwoken : Conserved system.broadcast waiting := by
    apply hconserved.keepTasks
    · intro w
      by_cases hw : system.worker w = .waiting
      · simp [hw, Worker.task]
      · simp [hw]
    · intro w hgone
      simp [hgone]
  exact
    { holds := ⟨hwoken.holds.head_eq, hwoken.holds.ring, hwoken.holds.num_eq⟩
      asserts := hwoken.asserts
      distinct := hwoken.distinct
      queued_eq := hwoken.queued_eq
      running_started := hwoken.running_started
      running_once := hwoken.running_once
      running_open := hwoken.running_open
      finished_started := hwoken.finished_started
      started_cases := hwoken.started_cases
      total_eq := hwoken.total_eq
      idle_eq := hwoken.idle_eq
      stop_iff := by simp
      kept := fun _ => hconserved.kept (by simp [hfirst])
      joined := by
        intro joined hturn w hw
        cases hturn
        exact absurd hw (Nat.not_lt_zero _)
      gone := nofun }

theorem Conserved.join {w : Fin n} (hturn : system.destroyer = .joining w)
    (hexited : system.worker w = .exited) :
    Conserved { system with destroyer := .joining (w + 1) } waiting := by
  exact
    { hconserved with
      stop_iff := by simp [hconserved.stop_iff, hturn]
      kept := fun _ => hconserved.kept (by simp [hturn])
      joined := by
        intro joined hnext v hv
        cases hnext
        rcases Nat.lt_succ_iff_lt_or_eq.mp hv with hbefore | hsame
        · exact hconserved.joined w hturn v hbefore
        · rw [Fin.val_injective hsame]
          exact hexited
      gone := nofun }

theorem Conserved.drain {left : List TaskId} (hjoined : system.destroyer = .joining n)
    (hdrain : system.pool.drainTasks (system.queued.length + 1) = some (after, left)) :
    Conserved { system with
      pool := after
      destroyer := .drained
      discarded := system.discarded ++ left } [] := by
  have hfew : waiting.length < system.queued.length + 1 := by
    rw [hconserved.queued_eq]
    simp
    omega
  obtain ⟨drained, hresult, hempty, htotal, hidle, hstop, hasserts⟩ :=
    hconserved.holds.drainTasks hfew
  rw [hresult] at hdrain
  cases hdrain
  exact
    { hconserved with
      holds := hempty
      asserts := hasserts.trans hconserved.asserts
      queued_eq := by
        simp only [List.append_nil]
        exact hconserved.queued_eq
      total_eq := htotal.trans hconserved.total_eq
      idle_eq := by
        rw [← hconserved.idle_eq]
        exact congrArg (· + (system.busy.card : ℤ)) hidle
      stop_iff := by
        simp only [hstop, hconserved.stop_iff, hjoined]
        simp
      kept := fun hopen => absurd rfl hopen
      joined := nofun
      gone := fun _ => ⟨rfl, fun w => hconserved.joined n hjoined w w.isLt⟩ }

theorem Conserved.moves (hmoves : Moves system next) :
    ∃ after, Conserved next after := by
  cases hmoves with
  | refuses => exact ⟨waiting, hconserved⟩
  | queues wake hopen hwake hsilent =>
      have hqueued := hconserved.withTask hopen
      refine ⟨waiting ++ [system.queued.length], ?_⟩
      cases wake with
      | none => exact hqueued
      | some w =>
          have hwaiting : system.worker w = .waiting := by
            apply hwake
            intro hzero
            exact absurd (hsilent hzero) (Option.some_ne_none w)
          have hplace : system.withTask.worker w = .waiting := hwaiting
          apply hqueued.moveIdle
          · simp [hplace, Worker.task]
          · rfl
          · simp [hplace]
  | exits w hready hstop =>
      exact ⟨waiting, hconserved.moveIdle (by simp [hready, Worker.task]) rfl (by simp [hready])⟩
  | waits w hready hgoing hempty =>
      exact ⟨waiting, hconserved.moveIdle (by simp [hready, Worker.task]) rfl (by simp [hready])⟩
  | takes w task after hready hgoing htasks hdequeue =>
      obtain ⟨rest, -, hrest⟩ := hconserved.take hready hgoing htasks hdequeue
      exact ⟨rest, hrest⟩
  | wakes w hwaiting =>
      exact ⟨waiting,
        hconserved.moveIdle (by simp [hwaiting, Worker.task]) rfl (by simp [hwaiting])⟩
  | resumes w hwoken =>
      exact ⟨waiting, hconserved.moveIdle (by simp [hwoken, Worker.task]) rfl (by simp [hwoken])⟩
  | recounts w task hrunning => exact ⟨waiting, hconserved.recount hrunning⟩
  | stops hfirst => exact ⟨waiting, hconserved.stop hfirst⟩
  | joins w hturn hexited => exact ⟨waiting, hconserved.join hturn hexited⟩
  | drains after left hjoined hdrain => exact ⟨[], hconserved.drain hjoined hdrain⟩

end

theorem conserved_start (n : ℕ) : Conserved (start n) [] where
  holds := ⟨rfl, trivial, rfl⟩
  asserts := rfl
  distinct := rfl
  queued_eq := rfl
  running_started := nofun
  running_once := nofun
  running_open := nofun
  finished_started := nofun
  started_cases := nofun
  total_eq := rfl
  idle_eq := by simp [start, busy, Worker.task]
  stop_iff := by simp [start]
  kept := fun _ => rfl
  joined := nofun
  gone := nofun

theorem conserved_of_reachable (hreach : PoolReachable system) :
    ∃ waiting, Conserved system waiting := by
  apply hreach.keeps (fun system => ∃ waiting, Conserved system waiting) ⟨[], conserved_start n⟩
  rintro before action after ret ⟨waiting, hconserved⟩ - hstep
  exact hconserved.moves (step_moves hstep)

/-! ## Places of tasks -/

inductive TaskPlace (n : ℕ) where
  | waiting
  | executing (w : Fin n)
  | finished
  | discarded

/-- Where a task is when the queue holds the given tasks. -/
def TaskIs (system : PoolSystem n) (waiting : List TaskId) (t : TaskId) : TaskPlace n → Prop
  | .waiting => t ∈ waiting
  | .executing w => system.worker w = .running t
  | .finished => t ∈ system.finished
  | .discarded => t ∈ system.discarded

theorem task_eq_some_iff {worker : Worker} :
    worker.task = some t ↔ worker = .running t := by
  cases worker <;> simp [Worker.task]

theorem Conserved.started_place_unique (hconserved : Conserved system waiting)
    (hstarted : t ∈ system.started) :
    ∃! place, TaskIs system waiting t place := by
  have hleft : t ∉ system.discarded ++ waiting :=
    fun hmem => List.disjoint_of_nodup_append hconserved.nodup hstarted hmem
  rw [List.mem_append, not_or] at hleft
  rcases hconserved.started_cases t hstarted with hdone | ⟨w, hw⟩
  · refine ⟨.finished, hdone, ?_⟩
    intro place hplace
    cases place with
    | waiting => exact absurd hplace hleft.2
    | executing v =>
        exact absurd hdone (hconserved.running_open v t (task_eq_some_iff.mpr hplace))
    | finished => rfl
    | discarded => exact absurd hplace hleft.1
  · refine ⟨.executing w, task_eq_some_iff.mp hw, ?_⟩
    intro place hplace
    cases place with
    | waiting => exact absurd hplace hleft.2
    | executing v => rw [hconserved.running_once v w t (task_eq_some_iff.mpr hplace) hw]
    | finished => exact absurd hplace (hconserved.running_open w t hw)
    | discarded => exact absurd hplace hleft.1

theorem Conserved.place_unique
    (hconserved : Conserved system waiting) {t : TaskId} (hqueued : t ∈ system.queued) :
    ∃! place, TaskIs system waiting t place := by
  have hnodup := hconserved.nodup
  rw [hconserved.queued_eq, List.mem_append] at hqueued
  rcases hqueued with hstarted | hleft
  · exact hconserved.started_place_unique hstarted
  · have hnotStarted : t ∉ system.started :=
      fun hmem => List.disjoint_of_nodup_append hnodup hmem hleft
    have hnotFinished : t ∉ system.finished :=
      fun hmem => hnotStarted (hconserved.finished_started t hmem)
    have hnotRunning : ∀ w, system.worker w ≠ .running t :=
      fun w hw => hnotStarted (hconserved.running_started w t (task_eq_some_iff.mpr hw))
    have hdisjoint := List.disjoint_of_nodup_append (List.nodup_append.mp hnodup).2.1
    rcases List.mem_append.mp hleft with hdiscarded | hwaiting
    · refine ⟨.discarded, hdiscarded, ?_⟩
      intro place hplace
      cases place with
      | waiting => exact (hdisjoint hdiscarded hplace).elim
      | executing w => exact absurd hplace (hnotRunning w)
      | finished => exact absurd hplace hnotFinished
      | discarded => rfl
    · refine ⟨.waiting, hwaiting, ?_⟩
      intro place hplace
      cases place with
      | waiting => rfl
      | executing w => exact absurd hplace (hnotRunning w)
      | finished => exact absurd hplace hnotFinished
      | discarded => exact (hdisjoint hplace hwaiting).elim

theorem Moves.started_of_stop (hmoves : Moves system next) (hstop : system.pool.stop = true) :
    next.started = system.started := by
  cases hmoves with
  | queues wake => cases wake <;> rfl
  | takes w task after hready hgoing => simp [hstop] at hgoing
  | refuses | exits | waits | wakes | resumes | recounts | stops | joins | drains => rfl

/-- With any number of workers and in every interleaving of producers, workers
and one destroyer: the ring of the pool holds a list of tasks, every task that
was queued is in exactly one place, tasks are started in the order in which
they were queued and none once the pool is stopped, and the counters count the
waiting tasks and the idle workers. -/
theorem tasks_conserved (hreach : PoolReachable system) :
    ∃ waiting, Ring system.pool.tasks waiting ∧ system.pool.taskHead = waiting.head? ∧
      system.queued.Nodup ∧
      (∀ t ∈ system.queued, ∃! place, TaskIs system waiting t place) ∧
      system.started <+: system.queued ∧
      (system.pool.stop = true → ∀ action next ret,
        system.step action = some (next, ret) → next.started = system.started) ∧
      system.pool.taskNum = waiting.length ∧
      system.pool.idleNum + system.busy.card = system.pool.totalWorkerNum ∧
      0 ≤ system.pool.runningNum := by
  obtain ⟨waiting, hconserved⟩ := conserved_of_reachable hreach
  have hidle : system.pool.idleNum + system.busy.card = system.pool.totalWorkerNum :=
    hconserved.idle_eq.trans hconserved.total_eq.symm
  refine ⟨waiting, hconserved.holds.ring, hconserved.holds.head_eq, ?_, ?_, ?_, ?_,
    hconserved.holds.num_eq, hidle, ?_⟩
  · rw [hconserved.queued_eq]
    exact hconserved.nodup
  · intro t ht
    exact hconserved.place_unique ht
  · rw [hconserved.queued_eq]
    exact List.prefix_append _ _
  · intro hstop action next ret hstep
    exact (step_moves hstep).started_of_stop hstop
  · unfold runningNum
    omega

/-- Two workers and three tasks: one is finished, one is executed, and the
pool is stopped while the third one waits. -/
theorem tasks_conserved_two_workers :
    ∃ system : PoolSystem 2, PoolReachable system ∧ system.queued = [0, 1, 2] ∧
      system.started = [0, 1] ∧ system.finished = [0] ∧ system.pool.stop = true ∧
      system.pool.idleNum + system.busy.card = system.pool.totalWorkerNum ∧
      ∃ waiting, system.pool.taskNum = (waiting : List TaskId).length ∧
        ∃! place, TaskIs system waiting 1 place := by
  have hrun : ∃ system ∈ runCalls PoolSystem.step (fun _ _ => True) (start 2)
      [.work 0, .queue true true (some 0), .work 0, .work 0, .queue true true none,
        .queue true true none, .work 0, .work 1, .stop],
      system.queued = [0, 1, 2] ∧ system.started = [0, 1] ∧ system.finished = [0] ∧
        system.pool.stop = true := by
    decide +kernel
  obtain ⟨system, hreach, hqueued, hstarted, hfinished, hstop⟩ :=
    exists_reachable_of_runCalls hrun
  obtain ⟨waiting, -, -, -, hplaces, -, -, hnum, hidle, -⟩ := tasks_conserved hreach
  exact ⟨system, hreach, hqueued, hstarted, hfinished, hstop, hidle, waiting, hnum,
    hplaces 1 (by simp [hqueued])⟩

end PoolSystem

end WaycaScheduler
