import WaycaScheduler.PoolConservation

/-!
# No lost wake-up in the thread pool

`wayca_sc_threadpool_queue` signals only when `idle_num` is not zero, and
`idle_num` changes in another section than the wait.  A worker that is neither
idle nor waiting comes back to the head of its loop, and a worker waits only
when it has seen no task and no stop.
-/

namespace WaycaScheduler

namespace PoolSystem

open WaycaThreadpool Transition Finset

variable {n : ℕ} {system next : PoolSystem n}
variable {waiting : List TaskId}

/-- No task waits while all workers sleep, and no worker sleeps after the stop. -/
structure Attended (system : PoolSystem n) : Prop where
  awake : 0 < system.pool.taskNum → ∃ w, system.worker w ≠ .waiting
  stopped : system.pool.stop = true → ∀ w, system.worker w ≠ .waiting

theorem Attended.setAwake
    (hattended : Attended system) (w : Fin n) {place : Worker} (hplace : place ≠ .waiting)
    (hworker : next.worker = Function.update system.worker w place)
    (hstop : next.pool.stop = true → system.pool.stop = true) : Attended next := by
  refine ⟨fun _ => ⟨w, ?_⟩, ?_⟩
  · simpa [hworker] using hplace
  · intro hafter v
    by_cases hv : v = w
    · simpa [hworker, hv] using hplace
    · simpa [hworker, Function.update_of_ne hv] using hattended.stopped (hstop hafter) v

theorem Conserved.busy_of_no_idle (hconserved : Conserved system waiting)
    (hzero : system.pool.idleNum = 0) (w : Fin n) : system.worker w ≠ .waiting := by
  have hcard : system.busy.card = Fintype.card (Fin n) := by
    have hidle := hconserved.idle_eq
    rw [hzero, zero_add] at hidle
    simpa using hidle
  have hall : w ∈ system.busy := by
    rw [(card_eq_iff_eq_univ system.busy).mp hcard]
    exact mem_univ w
  intro hwaiting
  have hnone : (system.worker w).task = none := by simp [hwaiting, Worker.task]
  simp [busy, hnone] at hall

theorem Attended.withTask {wake : Option (Fin n)} (hworkers : 0 < n)
    (hattended : Attended system) (hqueued : Conserved system.withTask waiting)
    (hstop : system.withTask.pool.stop = system.pool.stop)
    (hwake : system.withTask.pool.idleNum ≠ 0 → system.Signals wake)
    (hsilent : system.withTask.pool.idleNum = 0 → wake = none) :
    Attended (system.withTask.wakeUp wake) := by
  cases wake with
  | some w =>
      have hplace : Worker.woken ≠ .waiting := by decide
      exact hattended.setAwake w hplace rfl fun hafter => hstop ▸ hafter
  | none =>
      refine ⟨fun _ => ⟨⟨0, hworkers⟩, ?_⟩, fun hafter => hattended.stopped (hstop ▸ hafter)⟩
      by_cases hzero : system.withTask.pool.idleNum = 0
      · exact hqueued.busy_of_no_idle hzero ⟨0, hworkers⟩
      · exact hwake hzero ⟨0, hworkers⟩

/-- Every move keeps a waiting task attended. -/
theorem Attended.moves (hworkers : 0 < n) (hconserved : Conserved system waiting)
    (hattended : Attended system) (hmoves : Moves system next) : Attended next := by
  have hstopIff := hconserved.stop_iff
  obtain ⟨after, hnext⟩ := hconserved.moves hmoves
  cases hmoves with
  | refuses => exact hattended
  | queues wake hopen hwake hsilent =>
      have hqueued := hconserved.withTask hopen
      have hstop : system.withTask.pool.stop = system.pool.stop := by
        rw [Bool.eq_iff_iff, hqueued.stop_iff, hstopIff]
        rfl
      exact hattended.withTask hworkers hqueued hstop hwake hsilent
  | exits w hready hstop =>
      have hplace : Worker.exited ≠ .waiting := by decide
      exact hattended.setAwake w hplace rfl id
  | waits w hready hgoing hempty =>
      refine ⟨fun hpos => absurd hempty hpos.ne', fun hstop => ?_⟩
      exact absurd (hgoing.symm.trans hstop) Bool.false_ne_true
  | takes w task taken hready hgoing htasks hdequeue =>
      have hplace : Worker.running task ≠ .waiting := nofun
      refine hattended.setAwake w hplace rfl fun hstop => ?_
      rw [hstopIff]
      exact hnext.stop_iff.mp hstop
  | wakes w hwaiting =>
      have hplace : Worker.woken ≠ .waiting := by decide
      exact hattended.setAwake w hplace rfl id
  | resumes w hwoken =>
      have hplace : Worker.ready ≠ .waiting := by decide
      exact hattended.setAwake w hplace rfl id
  | recounts w task hrunning =>
      have hplace : Worker.ready ≠ .waiting := by decide
      exact hattended.setAwake w hplace rfl id
  | stops hfirst =>
      have hnone : ∀ w, system.broadcast.worker w ≠ .waiting := by
        intro w
        by_cases hw : system.worker w = .waiting
        · simp [broadcast, hw]
        · simp [broadcast, hw]
      exact ⟨fun _ => ⟨⟨0, hworkers⟩, hnone _⟩, fun _ => hnone⟩
  | joins w hturn hexited => exact ⟨hattended.awake, hattended.stopped⟩
  | drains drained left hjoined hdrain =>
      have hstop : system.pool.stop = true := hstopIff.mpr (by simp [hjoined])
      exact ⟨fun _ => ⟨⟨0, hworkers⟩, hattended.stopped hstop _⟩, fun _ => hattended.stopped hstop⟩

/-- A pool with workers is never found with tasks and all workers asleep, nor
with a sleeping worker once it is stopped. -/
theorem no_lost_wakeup (hworkers : 0 < n) (hreach : PoolReachable system) :
    ¬(0 < system.pool.taskNum ∧ system.pool.stop = false ∧
        ∀ w, system.worker w = .waiting) ∧
      ¬(system.pool.stop = true ∧ ∃ w, system.worker w = .waiting) := by
  have hboth : (∃ waiting, Conserved system waiting) ∧ Attended system := by
    apply hreach.keeps (fun system => (∃ waiting, Conserved system waiting) ∧ Attended system)
    · exact ⟨⟨[], conserved_start n⟩, fun hpos => absurd rfl hpos.ne', nofun⟩
    · rintro before action after ret ⟨⟨waiting, hconserved⟩, hattended⟩ - hstep
      have hmoves := step_moves hstep
      exact ⟨hconserved.moves hmoves, hattended.moves hworkers hconserved hmoves⟩
  constructor
  · rintro ⟨htasks, -, hasleep⟩
    obtain ⟨w, hw⟩ := hboth.2.awake htasks
    exact hw (hasleep w)
  · rintro ⟨hstop, w, hw⟩
    exact hboth.2.stopped hstop w hw

/-- Two tasks are queued while three workers sleep, so that one still sleeps;
then the pool is stopped. -/
theorem no_lost_wakeup_three_workers :
    ∃ system stopped : PoolSystem 3, PoolReachable system ∧ system.pool.taskNum = 2 ∧
      system.worker 2 = .waiting ∧
      ¬(0 < system.pool.taskNum ∧ system.pool.stop = false ∧
        ∀ w, system.worker w = .waiting) ∧
      PoolReachable stopped ∧ stopped.pool.stop = true ∧
      ¬(stopped.pool.stop = true ∧ ∃ w, stopped.worker w = .waiting) := by
  have hrun : ∃ system ∈ runCalls PoolSystem.step (fun _ _ => True) (start 3)
      [.work 0, .work 1, .work 2, .queue true true (some 0), .queue true true (some 1)],
      system.pool.taskNum = 2 ∧ system.worker 2 = .waiting := by
    decide +kernel
  have hstop : ∃ system ∈ runCalls PoolSystem.step (fun _ _ => True) (start 3)
      [.work 0, .work 1, .work 2, .queue true true (some 0), .queue true true (some 1), .stop],
      system.pool.stop = true := by
    decide +kernel
  obtain ⟨system, hreach, hnum, hwaiting⟩ := exists_reachable_of_runCalls hrun
  obtain ⟨stopped, hlater, hstopped⟩ := exists_reachable_of_runCalls hstop
  exact ⟨system, stopped, hreach, hnum, hwaiting, (no_lost_wakeup (by decide) hreach).1,
    hlater, hstopped, (no_lost_wakeup (by decide) hlater).2⟩

end PoolSystem

end WaycaScheduler
