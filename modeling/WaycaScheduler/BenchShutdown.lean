import WaycaScheduler.BenchLifetime

/-!
# Shutting the benchmark threads down

The manager ends a run by cancelling and joining each thread.  The allocating
thread has disabled cancellation while it waits for `STOP`.  When the buffers
could not be allocated, or not all threads could be created, the manager goes to
the join without having sent any.
-/

namespace WaycaScheduler

open TokenCount Transition Finset

/-- `enum sync_signals` -/
inductive SyncSignal where
  | ready
  | start
  | stop
deriving DecidableEq

namespace BenchSystem

variable {env : BenchOutcomes} {s after later : BenchSystem}

def bytes (s : BenchSystem) : SyncSignal → ℕ
  | .ready => s.ready
  | .start => s.start
  | .stop => s.stop

def readsFrom (s : BenchSystem) (i : ℕ) : Option SyncSignal :=
  if i = 0 then
    if s.alloc.pc = .awaitStop then some .stop else none
  else
    match (s.bench i).pc with
    | .awaitStart => some .start
    | .awaitStop => some .stop
    | _ => none

def cancelDisabled (s : BenchSystem) (i : ℕ) : Bool :=
  if i = 0 then s.alloc.pc.cancelDisabled else false

/-- The manager waits in `pthread_join` for a thread that reads an empty pipe
with cancellation disabled, and no byte comes to that pipe however the run goes
on. -/
def Stuck (env : BenchOutcomes) (s : BenchSystem) : Prop :=
  ∃ i num result signal, s.manager = .join i num result ∧ s.hasExited i = false ∧
    s.readsFrom i = some signal ∧ s.bytes signal = 0 ∧ s.cancelDisabled i = true ∧
    ∀ later, Leads env s later → later.bytes signal = 0

theorem Stuck.alloc_waits (hstuck : Stuck env s) :
    (∃ i num result, s.manager = .join i num result) ∧ s.alloc.pc = .awaitStop ∧ s.stop = 0 := by
  obtain ⟨i, num, result, signal, hmanager, -, hreads, hempty, hdisabled, -⟩ := hstuck
  have hzero : i = 0 := by
    by_contra hne
    rw [cancelDisabled, if_neg hne] at hdisabled
    cases hdisabled
  rw [readsFrom, if_pos hzero] at hreads
  split at hreads
  next hwaits =>
    cases hreads
    exact ⟨⟨i, num, result, hmanager⟩, hwaits, hempty⟩
  next => cases hreads

/-! ## Runs that end -/

theorem not_stuck_of_all (hcreated : env.parallel ≤ env.created) (hallocates : env.allocates = true)
    (hreach : Reaches env s) : ¬ Stuck env s := by
  intro hstuck
  obtain ⟨⟨i, num, result, hmanager⟩, hwaits, hempty⟩ := hstuck.alloc_waits
  have hbooks := books_of_reaches hcreated hallocates hreach
  have hstops := hbooks.stops
  have htwo := env.two_le
  have hle : total (measurers env.parallel) (·.pc.tookStop) s.bench ≤ env.parallel - 1 := by
    rw [← card_measurers]
    exact total_le_card fun thread => thread.pc.tookStop_le_one
  rw [hmanager, hwaits, hempty] at hstops
  simp only [AllocPc.tookStop, ManagerPc.stopsSent] at hstops
  omega

theorem ManagerMove.alloc_pc (hmove : ManagerMove env s after) :
    after.alloc.pc = s.alloc.pc ∨ after.alloc.pc = .bind := by
  cases hmove with
  | creates created _ _ _ =>
      unfold BenchSystem.createThread
      split
      · exact .inr rfl
      · exact .inl rfl
  | cancels i num result _ _ =>
      unfold BenchSystem.cancelThread
      split
      · exact .inl rfl
      · exact .inl rfl
  | _ => exact .inl rfl

theorem cancelStep_alloc_pc {i : ℕ} (hstep : s.cancelStep i = some after) :
    after.alloc.pc = s.alloc.pc := by
  unfold cancelStep at hstep
  split at hstep <;> split at hstep <;> cases hstep
  · rfl
  · rfl

theorem alloc_stays_of_unbound (hbinds : env.binds 0 = false) (hreach : Reaches env s) :
    s.alloc.pc = .unborn ∨ s.alloc.pc = .bind := by
  apply hreach.keeps (fun s => s.alloc.pc = .unborn ∨ s.alloc.pc = .bind) (.inl rfl)
  intro before event after hbefore hnext
  cases event with
  | manager =>
      rcases (managerStep_move hnext).alloc_pc with hpc | hpc
      · rw [hpc]
        exact hbefore
      · exact .inr hpc
  | alloc =>
      have hstep : before.allocStep env = some after := hnext
      unfold allocStep at hstep
      split at hstep
      next => cases hstep
      next =>
        rcases hbefore with hpc | hpc
        · simp [hpc] at hstep
        · simp only [hpc, hbinds, Bool.false_eq_true, if_false, Option.some.injEq] at hstep
          rw [← hstep]
          exact .inr rfl
  | bench i time =>
      rw [(benchStep_move hnext).alloc]
      exact hbefore
  | cancelled i =>
      rw [cancelStep_alloc_pc hnext]
      exact hbefore

theorem manager_stays_of_none (hcreated : env.created = 0) (hreach : Reaches env s) :
    s.manager = .create 0 ∨ (∃ result, s.manager = .cancel 0 0 result) ∨
      ∃ result, s.manager = .returned result := by
  have htwo := env.two_le
  apply hreach.keeps (fun s => s.manager = .create 0 ∨ (∃ result, s.manager = .cancel 0 0 result) ∨
    ∃ result, s.manager = .returned result) (.inl rfl)
  intro before event after hbefore hnext
  rcases next_cases hnext with hmove | hmove | ⟨i, hmove⟩
  · rcases hbefore with hmanager | ⟨result, hmanager⟩ | ⟨result, hmanager⟩ <;>
      cases hmove <;> simp_all
  · rw [hmove.manager]
    exact hbefore
  · rw [hmove.manager]
    exact hbefore

/-! ## Runs that do not end -/

/-- The allocating thread waits for a `STOP` that the manager, which waits for
the thread, does not send. -/
structure Frozen (s : BenchSystem) : Prop where
  manager : ∃ num result, s.manager = .join 0 num result
  waits : s.alloc.pc = .awaitStop
  alive : s.alloc.exited = false
  empty : s.stop = 0

theorem Frozen.next {event : BenchEvent} (hfrozen : Frozen s)
    (hnext : s.next env event = some after) : Frozen after := by
  obtain ⟨⟨num, result, hmanager⟩, hwaits, halive, hempty⟩ := hfrozen
  have hbench : ∀ {i : ℕ}, BenchMove s after i → Frozen after := by
    intro i hmove
    refine ⟨⟨num, result, hmove.manager.trans hmanager⟩, ?_, ?_, ?_⟩
    · rw [hmove.alloc, hwaits]
    · rw [hmove.alloc, halive]
    · exact Nat.le_zero.mp (hempty ▸ hmove.stop_le)
  cases event with
  | manager =>
      have hstep : s.managerStep env = some after := hnext
      simp [managerStep, hmanager, hasExited, halive] at hstep
  | alloc =>
      have hstep : s.allocStep env = some after := hnext
      simp [allocStep, halive, hwaits, hempty] at hstep
  | bench i time => exact hbench (benchStep_move hnext)
  | cancelled i =>
      have hstep : s.cancelStep i = some after := hnext
      rcases @cancelStep_cases _ env _ _ hstep with ⟨hzero, -⟩ | ⟨-, hmove⟩
      · simp [cancelStep, hzero, hwaits, AllocPc.cancelDisabled] at hstep
      · exact hbench hmove

theorem Frozen.stuck (hfrozen : Frozen s) : Stuck env s := by
  obtain ⟨num, result, hmanager⟩ := hfrozen.manager
  refine ⟨0, num, result, .stop, hmanager, hfrozen.alive, ?_, hfrozen.empty, ?_, ?_⟩
  · rw [readsFrom, if_pos rfl, if_pos hfrozen.waits]
  · rw [cancelDisabled, if_pos rfl, hfrozen.waits]
    rfl
  · intro later hleads
    have hlater : Frozen later :=
      hleads.keeps Frozen hfrozen fun before event after hbefore hnext => hbefore.next hnext
    exact hlater.empty

def begun (created : ℕ) : BenchSystem where
  manager := .create created
  alloc := ⟨if created = 0 then .unborn else .bind, false, false⟩
  bench := fun i => ⟨if i ≠ 0 ∧ i < created then .bind else .unborn, false, false, 0, 0⟩
  ready := 0
  start := 0
  stop := 0
  buffer := .null

theorem begun_reached {created : ℕ} (hall : created ≤ env.parallel)
    (hcan : created ≤ env.created) : Reaches env (begun created) := by
  induction created with
  | zero =>
      have hstart : begun 0 = initial := by
        unfold begun initial
        simp
      rw [hstart]
      exact .start
  | succ created ih =>
      apply (ih (by omega) (by omega)).next .manager
      have hmore : created < env.parallel := by omega
      have hnext : created < env.created := by omega
      change managerStep env (begun created) = some (begun (created + 1))
      simp only [managerStep, begun, hmore, hnext, if_true]
      apply congrArg some
      unfold createThread
      by_cases hzero : created = 0
      · subst hzero
        simp
      · rw [if_neg hzero]
        simp only [hzero, BenchSystem.mk.injEq, Nat.succ_ne_zero, if_false, true_and, and_true]
        funext i
        by_cases hi : i = created
        · subst hi
          simp [hzero]
        · have hlt : i < created + 1 ↔ i < created := by omega
          simp [hi, hlt]

theorem sendsReady_reached
    (hreach : Reaches env s) (halloc : s.alloc = ⟨.sendReady, false, false⟩) :
    Reaches env { s with alloc := ⟨.awaitStop, false, false⟩, ready := s.ready + 1 } := by
  have hsent : Reaches env
      { s with alloc := ⟨.disableCancel, false, false⟩, ready := s.ready + 1 } :=
    hreach.next .alloc (by simp [next, allocStep, allocAt, halloc])
  exact hsent.next .alloc (by simp [next, allocStep, allocAt])

/-- The allocating thread has told that it is ready and waits for `STOP`. -/
def waiting (env : BenchOutcomes) (created : ℕ) : BenchSystem :=
  { begun created with
    alloc := ⟨.awaitStop, false, false⟩
    ready := 1
    buffer := if env.allocates then .prepared else .null }

theorem waiting_reached {created : ℕ} (hsome : 0 < created) (hall : created ≤ env.parallel)
    (hcan : created ≤ env.created) (hbinds : env.binds 0 = true) :
    Reaches env (waiting env created) := by
  have hne : created ≠ 0 := hsome.ne'
  have hbound : Reaches env { begun created with alloc := ⟨.allocate, false, false⟩ } :=
    (begun_reached hall hcan).next .alloc
      (by simp [next, allocStep, allocAt, begun, hne, hbinds])
  cases hallocates : env.allocates with
  | false =>
      have htried : Reaches env { begun created with alloc := ⟨.sendReady, false, false⟩ } :=
        hbound.next .alloc (by simp [next, allocStep, allocAt, hallocates])
      have hwaits := sendsReady_reached htried rfl
      unfold waiting
      rw [hallocates]
      exact hwaits
  | true =>
      have hallocated : Reaches env
          { begun created with alloc := ⟨.prepare, false, false⟩, buffer := .allocated } :=
        hbound.next .alloc (by simp [next, allocStep, allocAt, hallocates])
      have hprepared : Reaches env
          { begun created with alloc := ⟨.sendReady, false, false⟩, buffer := .prepared } :=
        hallocated.next .alloc (by simp [next, allocStep, allocAt])
      have hwaits := sendsReady_reached hprepared rfl
      unfold waiting
      rw [hallocates]
      exact hwaits

/-- A manager that cancels from the first thread on, with the allocating thread
waiting and no `STOP` sent, ends in the join. -/
theorem frozen_reached {num : ℕ} {result : ℤ} (hreach : Reaches env s) (hsome : 0 < num)
    (hmanager : s.manager = .cancel 0 num result) (hwaits : s.alloc.pc = .awaitStop)
    (halive : s.alloc.exited = false) (hempty : s.stop = 0) :
    ∃ stuck, Reaches env stuck ∧ Frozen stuck := by
  refine ⟨{ s.cancelThread 0 with manager := .join 0 num result }, ?_, ?_⟩
  · apply hreach.next .manager
    simp [next, managerStep, hmanager, hsome]
  · exact ⟨⟨num, result, rfl⟩, hwaits, halive, hempty⟩

/-- Where threads were created but not all of them, or the buffers are missing,
some order of the steps gets stuck. -/
theorem stuck_reached (hsome : 0 < env.created) (hbinds : env.binds 0 = true)
    (hnot : ¬ (env.parallel ≤ env.created ∧ env.allocates = true)) :
    ∃ stuck, Reaches env stuck ∧ Stuck env stuck := by
  have htwo := env.two_le
  have hfrozen : ∃ stuck, Reaches env stuck ∧ Frozen stuck := by
    by_cases hall : env.parallel ≤ env.created
    · have hnull : env.allocates = false := by
        apply Bool.eq_false_iff.mpr
        exact fun hallocates => hnot ⟨hall, hallocates⟩
      have hwaits := waiting_reached (by omega) (le_refl env.parallel) hall hbinds
      have hcreated : Reaches env { waiting env env.parallel with manager := .awaitAlloc } :=
        hwaits.next .manager (by simp [next, managerStep, waiting, begun])
      have hread : Reaches env
          { waiting env env.parallel with manager := .checkBuffer, ready := 0 } :=
        hcreated.next .manager (by simp [next, managerStep, waiting])
      have hcancels : Reaches env
          { waiting env env.parallel with
            manager := .cancel 0 env.parallel (-ENOMEM), ready := 0 } :=
        hread.next .manager (by simp [next, managerStep, waiting, hnull])
      exact frozen_reached hcancels (by omega) rfl rfl rfl rfl
    · have hwaits := waiting_reached hsome (by omega) (le_refl env.created) hbinds
      have hfails : Reaches env
          { waiting env env.created with manager := .cancel 0 env.created (-1) } :=
        hwaits.next .manager (by simp [next, managerStep, waiting, begun, not_le.mp hall])
      exact frozen_reached hfails hsome rfl rfl rfl rfl
  obtain ⟨stuck, hreach, hstuck⟩ := hfrozen
  exact ⟨stuck, hreach, hstuck.stuck⟩

/-! ## Which runs can get stuck -/

/-- No order of the steps gets stuck exactly when no thread is created, the
allocating thread gives up before it allocates, or all threads are created and
the buffers are allocated. -/
theorem shutdown_ends_iff (env : BenchOutcomes) :
    (∀ s, Reaches env s → ¬ Stuck env s) ↔
      env.created = 0 ∨ env.binds 0 = false ∨
        (env.parallel ≤ env.created ∧ env.allocates = true) := by
  constructor
  · intro hends
    by_contra hnot
    rw [not_or, not_or] at hnot
    obtain ⟨hcreated, hbinds, hfails⟩ := hnot
    obtain ⟨stuck, hreach, hstuck⟩ :=
      stuck_reached (Nat.pos_of_ne_zero hcreated) (by simpa using hbinds) hfails
    exact hends stuck hreach hstuck
  · rintro (hcreated | hbinds | ⟨hcreated, hallocates⟩) s hreach hstuck
    · obtain ⟨⟨i, num, result, hmanager⟩, -⟩ := hstuck.alloc_waits
      rcases manager_stays_of_none hcreated hreach with hstays | ⟨_, hstays⟩ | ⟨_, hstays⟩ <;>
        rw [hmanager] at hstays <;> cases hstays
    · obtain ⟨-, hwaits, -⟩ := hstuck.alloc_waits
      rcases alloc_stays_of_unbound hbinds hreach with hstays | hstays <;>
        rw [hwaits] at hstays <;> cases hstays
    · exact not_stuck_of_all hcreated hallocates hreach hstuck

/-- All threads are created and there is no memory for the buffers. -/
def noBuffers : BenchOutcomes where
  parallel := 2
  created := 2
  allocates := false
  binds := fun _ => true
  two_le := Nat.le_refl 2

theorem join_waits_forever : ∃ s, Reaches noBuffers s ∧ Stuck noBuffers s :=
  stuck_reached Nat.two_pos rfl fun hboth => Bool.noConfusion hboth.2

end BenchSystem

end WaycaScheduler
