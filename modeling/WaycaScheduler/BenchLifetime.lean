import WaycaScheduler.BenchProtocol
import WaycaScheduler.Library.TokenCount

/-!
# The lifetime of the benchmark buffers

In a run where every thread is created and the allocation succeeds, the bytes
of each pipe are those its senders have sent less those its readers have taken.
The first `READY` can only come from the allocating thread.  When the manager
has read all of them, every measuring thread has sent its own, and only then is
there a `STOP` for the allocating thread to free the buffers.
-/

namespace WaycaScheduler

open TokenCount Transition Finset Function

variable {i parallel : ℕ} {event : BenchEvent} {manager : ManagerPc}

/-! ## What a party has sent and taken where it is -/

namespace BenchPc

@[simp] def measuring : BenchPc → Bool
  | .overhead _ | .bench _ => true
  | _ => false

@[simp] def measured : BenchPc → Bool
  | .sendReady | .awaitStop | .done => true
  | _ => false

@[simp] def tookStart : BenchPc → ℕ
  | .unborn | .bind | .awaitStart => 0
  | _ => 1

@[simp] def sentReady : BenchPc → ℕ
  | .awaitStop | .done => 1
  | _ => 0

@[simp] def tookStop : BenchPc → ℕ
  | .done => 1
  | _ => 0

theorem sentReady_le_tookStart (pc : BenchPc) : pc.sentReady ≤ pc.tookStart := by
  cases pc <;> simp

theorem sentReady_le_one (pc : BenchPc) : pc.sentReady ≤ 1 := by
  cases pc <;> simp

theorem tookStop_le_one (pc : BenchPc) : pc.tookStop ≤ 1 := by
  cases pc <;> simp

theorem measured_of_sentReady {pc : BenchPc} (hsent : pc.sentReady = 1) :
    pc.measured = true := by
  cases pc <;> simp at hsent ⊢

theorem of_measuring {pc : BenchPc} (hrunning : pc.measuring = true) :
    pc.tookStart = 1 ∧ pc.sentReady = 0 := by
  cases pc <;> simp at hrunning ⊢

theorem benchLoop_cases (samples : ℕ) (total : ℤ) :
    BenchSystem.benchLoop samples total = .bench samples ∨
      BenchSystem.benchLoop samples total = .average samples := by
  unfold BenchSystem.benchLoop
  split
  · exact .inl rfl
  · exact .inr rfl

end BenchPc

namespace AllocPc

@[simp] def sentReady : AllocPc → ℕ
  | .disableCancel | .awaitStop | .free | .enableCancel | .done => 1
  | _ => 0

@[simp] def tookStop : AllocPc → ℕ
  | .free | .enableCancel | .done => 1
  | _ => 0

@[simp] def bufferAt : AllocPc → BufferState
  | .unborn | .bind | .allocate => .null
  | .prepare => .allocated
  | .sendReady | .disableCancel | .awaitStop | .free => .prepared
  | .enableCancel | .done => .freed

theorem sentReady_le_one (pc : AllocPc) : pc.sentReady ≤ 1 := by
  cases pc <;> simp

theorem tookStop_le_one (pc : AllocPc) : pc.tookStop ≤ 1 := by
  cases pc <;> simp

theorem bufferAt_of_sentReady {pc : AllocPc} (hsent : pc.sentReady = 1)
    (hstop : pc.tookStop = 0) : pc.bufferAt = .prepared := by
  cases pc <;> simp at hsent hstop ⊢

theorem bufferAt_ne_null {pc : AllocPc} (hsent : pc.sentReady = 1) : pc.bufferAt ≠ .null := by
  cases pc <;> simp at hsent ⊢

end AllocPc

namespace ManagerPc

/-- The `START` bytes the manager has sent in a run without failures. -/
@[simp] def startsSent (parallel : ℕ) : ManagerPc → ℕ
  | .create _ | .awaitAlloc | .checkBuffer => 0
  | .sendStart left => parallel - 1 - left
  | _ => parallel - 1

/-- The `READY` bytes the manager has read. -/
@[simp] def readiesTaken (parallel : ℕ) : ManagerPc → ℕ
  | .create _ | .awaitAlloc => 0
  | .checkBuffer | .sendStart _ => 1
  | .awaitReady left => parallel - left
  | _ => parallel

@[simp] def stopsSent (parallel : ℕ) : ManagerPc → ℕ
  | .sendStop left => parallel - left
  | .readFigures | .cancel _ _ _ | .join _ _ _ | .returned _ => parallel
  | _ => 0

@[simp] def born (parallel : ℕ) : ManagerPc → ℕ
  | .create created => created
  | _ => parallel

@[simp] def LeftLe (parallel : ℕ) : ManagerPc → Prop
  | .create created => created ≤ parallel
  | .sendStart left | .awaitReady left => left + 1 ≤ parallel
  | .sendStop left => left ≤ parallel
  | _ => True

end ManagerPc

/-! ## What a step does -/

namespace BenchSystem

variable {env : BenchOutcomes} {s after : BenchSystem}

/-- A step of the manager, its effect on the whole system. -/
inductive ManagerMove (env : BenchOutcomes) (s : BenchSystem) : BenchSystem → Prop where
  | creates (created : ℕ) (hmanager : s.manager = .create created)
      (hmore : created < env.parallel) (hcan : created < env.created) :
      ManagerMove env s { s.createThread created with manager := .create (created + 1) }
  | fails (created : ℕ) (hmanager : s.manager = .create created)
      (hmore : created < env.parallel) (hcannot : ¬ created < env.created) :
      ManagerMove env s { s with manager := .cancel 0 created (-1) }
  | created (created : ℕ) (hmanager : s.manager = .create created)
      (hall : ¬ created < env.parallel) : ManagerMove env s { s with manager := .awaitAlloc }
  | readsAlloc (hmanager : s.manager = .awaitAlloc) (hready : 0 < s.ready) :
      ManagerMove env s { s with ready := s.ready - 1, manager := .checkBuffer }
  | noBuffer (hmanager : s.manager = .checkBuffer) (hbuffer : s.buffer = .null) :
      ManagerMove env s { s with manager := .cancel 0 env.parallel (-ENOMEM) }
  | buffer (hmanager : s.manager = .checkBuffer) (hbuffer : s.buffer ≠ .null) :
      ManagerMove env s { s with manager := .sendStart (env.parallel - 1) }
  | sendsStart (left : ℕ) (hmanager : s.manager = .sendStart (left + 1)) :
      ManagerMove env s { s with start := s.start + 1, manager := .sendStart left }
  | started (hmanager : s.manager = .sendStart 0) :
      ManagerMove env s { s with manager := .awaitReady (env.parallel - 1) }
  | readsReady (left : ℕ) (hmanager : s.manager = .awaitReady (left + 1)) (hready : 0 < s.ready) :
      ManagerMove env s { s with ready := s.ready - 1, manager := .awaitReady left }
  | measured (hmanager : s.manager = .awaitReady 0) :
      ManagerMove env s { s with manager := .sendStop env.parallel }
  | sendsStop (left : ℕ) (hmanager : s.manager = .sendStop (left + 1)) :
      ManagerMove env s { s with stop := s.stop + 1, manager := .sendStop left }
  | stopped (hmanager : s.manager = .sendStop 0) :
      ManagerMove env s { s with manager := .readFigures }
  | readsFigures (result : ℤ) (hmanager : s.manager = .readFigures) :
      ManagerMove env s { s with manager := .cancel 0 env.parallel result }
  | cancels (i num : ℕ) (result : ℤ) (hmanager : s.manager = .cancel i num result)
      (hmore : i < num) : ManagerMove env s { s.cancelThread i with manager := .join i num result }
  | returns (i num : ℕ) (result : ℤ) (hmanager : s.manager = .cancel i num result) :
      ManagerMove env s { s with manager := .returned result }
  | joins (i num : ℕ) (result : ℤ) (hmanager : s.manager = .join i num result)
      (hexited : s.hasExited i = true) :
      ManagerMove env s { s with manager := .cancel (i + 1) num result }

theorem managerStep_move (hstep : s.managerStep env = some after) : ManagerMove env s after := by
  unfold managerStep at hstep
  cases hmanager : s.manager with
  | create created =>
      simp only [hmanager] at hstep
      split at hstep
      next hmore =>
        split at hstep
        next hcan =>
          cases hstep
          exact .creates created hmanager hmore hcan
        next hcannot =>
          cases hstep
          exact .fails created hmanager hmore hcannot
      next hall =>
        cases hstep
        exact .created created hmanager hall
  | awaitAlloc =>
      simp only [hmanager] at hstep
      split at hstep
      next hready =>
        cases hstep
        exact .readsAlloc hmanager hready
      next => cases hstep
  | checkBuffer =>
      simp only [hmanager] at hstep
      split at hstep
      next hbuffer =>
        cases hstep
        exact .noBuffer hmanager hbuffer
      next hbuffer =>
        cases hstep
        exact .buffer hmanager hbuffer
  | sendStart left =>
      cases left with
      | zero =>
          simp only [hmanager, Option.some.injEq] at hstep
          exact hstep ▸ .started hmanager
      | succ left =>
          simp only [hmanager, Option.some.injEq] at hstep
          exact hstep ▸ .sendsStart left hmanager
  | awaitReady left =>
      cases left with
      | zero =>
          simp only [hmanager, Option.some.injEq] at hstep
          exact hstep ▸ .measured hmanager
      | succ left =>
          simp only [hmanager] at hstep
          split at hstep
          next hready =>
            cases hstep
            exact .readsReady left hmanager hready
          next => cases hstep
  | sendStop left =>
      cases left with
      | zero =>
          simp only [hmanager, Option.some.injEq] at hstep
          exact hstep ▸ .stopped hmanager
      | succ left =>
          simp only [hmanager, Option.some.injEq] at hstep
          exact hstep ▸ .sendsStop left hmanager
  | readFigures =>
      simp only [hmanager, Option.some.injEq] at hstep
      exact hstep ▸ .readsFigures _ hmanager
  | cancel i num result =>
      simp only [hmanager] at hstep
      split at hstep
      next hmore =>
        cases hstep
        exact .cancels i num result hmanager hmore
      next =>
        cases hstep
        exact .returns i num result hmanager
  | join i num result =>
      simp only [hmanager] at hstep
      split at hstep
      next hexited =>
        cases hstep
        exact .joins i num result hmanager hexited
      next => cases hstep
  | returned result => simp [hmanager] at hstep

/-- What a step of the allocating thread can change. -/
structure AllocMove (env : BenchOutcomes) (s after : BenchSystem) : Prop where
  manager : after.manager = s.manager
  bench : after.bench = s.bench
  start : after.start = s.start
  readies : after.ready + s.alloc.pc.sentReady = s.ready + after.alloc.pc.sentReady
  stops : after.stop + after.alloc.pc.tookStop = s.stop + s.alloc.pc.tookStop
  forward : s.alloc.pc.sentReady ≤ after.alloc.pc.sentReady
  born : s.alloc.pc ≠ .unborn
  buffer : env.allocates = true → s.buffer = s.alloc.pc.bufferAt →
    after.buffer = after.alloc.pc.bufferAt

/-- What a step of a measuring thread can change. -/
structure BenchMove (s after : BenchSystem) (i : ℕ) : Prop where
  manager : after.manager = s.manager
  alloc : after.alloc = s.alloc
  buffer : after.buffer = s.buffer
  bench : after.bench = Function.update s.bench i (after.bench i)
  starts : after.start + (after.bench i).pc.tookStart = s.start + (s.bench i).pc.tookStart
  readies : after.ready + (s.bench i).pc.sentReady = s.ready + (after.bench i).pc.sentReady
  stops : after.stop + (after.bench i).pc.tookStop = s.stop + (s.bench i).pc.tookStop
  stop_le : after.stop ≤ s.stop
  born : (s.bench i).pc ≠ .unborn
  figures : (s.bench i).pc.measured = true → (after.bench i).pc.measured = true ∧
    (after.bench i).overhead = (s.bench i).overhead ∧ (after.bench i).total = (s.bench i).total

theorem allocStep_move (hstep : s.allocStep env = some after) : AllocMove env s after := by
  unfold allocStep at hstep
  split at hstep
  next => cases hstep
  next =>
    cases hpc : s.alloc.pc with
    | unborn => simp [hpc] at hstep
    | bind =>
        simp only [hpc] at hstep
        split at hstep <;> cases hstep <;> constructor <;>
          simp [hpc, allocAt]
    | allocate =>
        simp only [hpc] at hstep
        split at hstep
        next =>
          cases hstep
          constructor <;>
            simp [hpc, allocAt]
        next hfails =>
          cases hstep
          constructor <;>
            simp [hpc, allocAt, hfails]
    | prepare | sendReady | disableCancel | free | enableCancel | done =>
        simp only [hpc, Option.some.injEq] at hstep
        subst hstep
        constructor <;>
          simp [hpc, allocAt]
    | awaitStop =>
        simp only [hpc] at hstep
        split at hstep
        next hbyte =>
          cases hstep
          constructor <;>
            simp [hpc, allocAt]
          omega
        next => cases hstep

theorem benchMove_of
    {i start ready stop : ℕ} {thread : BenchThread} (hborn : (s.bench i).pc ≠ .unborn)
    (hstarts : start + thread.pc.tookStart = s.start + (s.bench i).pc.tookStart)
    (hreadies : ready + (s.bench i).pc.sentReady = s.ready + thread.pc.sentReady)
    (hstops : stop + thread.pc.tookStop = s.stop + (s.bench i).pc.tookStop)
    (hstop : stop ≤ s.stop)
    (hfigures : (s.bench i).pc.measured = true → thread.pc.measured = true ∧
      thread.overhead = (s.bench i).overhead ∧ thread.total = (s.bench i).total) :
    BenchMove s
      { s with
        bench := update s.bench i thread
        start := start
        ready := ready
        stop := stop } i := by
  refine ⟨rfl, rfl, rfl, ?_, ?_, ?_, ?_, hstop, hborn, ?_⟩
  · simp
  · simpa using hstarts
  · simpa using hreadies
  · simpa using hstops
  · simpa using hfigures

theorem benchStep_move {time : ℤ} (hstep : s.benchStep env i time = some after) :
    BenchMove s after i := by
  unfold benchStep at hstep
  dsimp only at hstep
  split at hstep
  next => cases hstep
  next =>
    have hborn : ∀ {pc : BenchPc}, (s.bench i).pc = pc → pc ≠ .unborn →
        (s.bench i).pc ≠ .unborn := fun hpc hne => hpc ▸ hne
    cases hpc : (s.bench i).pc with
    | unborn => simp [hpc] at hstep
    | bind =>
        simp only [hpc] at hstep
        split at hstep <;> cases hstep <;> apply benchMove_of (hborn hpc (by simp)) <;>
          simp [hpc]
    | awaitStart =>
        simp only [hpc] at hstep
        split at hstep
        next hbyte =>
          cases hstep
          apply benchMove_of (hborn hpc (by simp)) <;>
            simp [hpc, setBench]
          omega
        next => cases hstep
    | overhead samples =>
        simp only [hpc, Option.some.injEq] at hstep
        subst hstep
        split
        next =>
          apply benchMove_of (hborn hpc (by simp)) <;>
            simp [hpc]
        next =>
          rcases BenchPc.benchLoop_cases 0 (s.bench i).total with hloop | hloop <;>
            rw [hloop] <;> apply benchMove_of (hborn hpc (by simp)) <;>
            simp [hpc]
    | bench samples =>
        simp only [hpc, Option.some.injEq] at hstep
        subst hstep
        rcases BenchPc.benchLoop_cases (samples + 1) ((s.bench i).total + time) with
            hloop | hloop <;>
          rw [hloop] <;> apply benchMove_of (hborn hpc (by simp)) <;>
          simp [hpc]
    | reset | average samples | sendReady | done =>
        simp only [hpc, Option.some.injEq] at hstep
        subst hstep
        apply benchMove_of (hborn hpc (by simp)) <;>
          simp [hpc, setBench]
    | awaitStop =>
        simp only [hpc] at hstep
        split at hstep
        next hbyte =>
          cases hstep
          apply benchMove_of (hborn hpc (by simp)) <;>
            simp [hpc, setBench]
          omega
        next => cases hstep

theorem cancelStep_cases (hstep : s.cancelStep i = some after) :
    (i = 0 ∧ AllocMove env s after) ∨ (i ≠ 0 ∧ BenchMove s after i) := by
  unfold cancelStep at hstep
  split at hstep
  next hzero =>
    split at hstep
    next hacts =>
      cases hstep
      have hborn : s.alloc.pc ≠ .unborn := by
        intro hpc
        simp [hpc, AllocPc.cancellationPoint] at hacts
      exact .inl ⟨hzero, rfl, rfl, rfl, rfl, rfl, le_refl _, hborn, fun _ hbuffer => hbuffer⟩
    next => cases hstep
  next hnonzero =>
    split at hstep
    next hacts =>
      cases hstep
      have hborn : (s.bench i).pc ≠ .unborn := by
        intro hpc
        simp [hpc, BenchPc.cancellationPoint] at hacts
      exact .inr ⟨hnonzero, benchMove_of hborn rfl rfl rfl (le_refl _)
        fun hmeasured => ⟨hmeasured, rfl, rfl⟩⟩
    next => cases hstep

theorem next_cases (hnext : s.next env event = some after) :
    ManagerMove env s after ∨ AllocMove env s after ∨ ∃ i, BenchMove s after i := by
  cases event with
  | manager => exact .inl (managerStep_move hnext)
  | alloc => exact .inr (.inl (allocStep_move hnext))
  | bench i time => exact .inr (.inr ⟨i, benchStep_move hnext⟩)
  | cancelled i =>
      rcases cancelStep_cases hnext with ⟨-, hmove⟩ | ⟨-, hmove⟩
      · exact .inr (.inl hmove)
      · exact .inr (.inr ⟨i, hmove⟩)

/-! ## The books of the pipes -/

def measurers (parallel : ℕ) : Finset ℕ := Ico 1 parallel

theorem card_measurers (parallel : ℕ) : (measurers parallel).card = parallel - 1 :=
  Nat.card_Ico 1 parallel

/-- The bytes in each pipe are those sent less those taken, and the first
`READY` was the one of the allocating thread. -/
structure Books (parallel : ℕ) (s : BenchSystem) : Prop where
  unborn : ∀ i, i = 0 ∨ s.manager.born parallel ≤ i → (s.bench i).pc = .unborn
  allocUnborn : s.manager.born parallel = 0 → s.alloc.pc = .unborn
  left : s.manager.LeftLe parallel
  starts : s.start + total (measurers parallel) (·.pc.tookStart) s.bench =
    s.manager.startsSent parallel
  readies : s.ready + s.manager.readiesTaken parallel =
    s.alloc.pc.sentReady + total (measurers parallel) (·.pc.sentReady) s.bench
  stops : s.stop + (s.alloc.pc.tookStop + total (measurers parallel) (·.pc.tookStop) s.bench) =
    s.manager.stopsSent parallel
  first : 0 < s.manager.readiesTaken parallel → s.alloc.pc.sentReady = 1
  buffer : s.buffer = s.alloc.pc.bufferAt

theorem books_initial (parallel : ℕ) : Books parallel initial := by
  have hnone : ∀ count : BenchThread → ℕ, count (initial.bench 0) = 0 →
      total (measurers parallel) count initial.bench = 0 :=
    fun count hzero => Finset.sum_eq_zero fun i _ => hzero
  constructor
  · intro i _
    rfl
  · intro _
    rfl
  · exact Nat.zero_le parallel
  · rw [hnone _ rfl]
    rfl
  · rw [hnone _ rfl]
    rfl
  · rw [hnone _ rfl]
    rfl
  · intro htaken
    exact absurd htaken (lt_irrefl 0)
  · rfl

section

variable (hbooks : Books parallel s)

include hbooks

theorem Books.allocMove (hmove : AllocMove env s after) (hallocates : env.allocates = true) :
    Books parallel after := by
  obtain ⟨hmanager, hbench, hstart, hreadies, hstops, hforward, hborn, hbuffer⟩ := hmove
  have hsent := s.alloc.pc.sentReady_le_one
  have hsent' := after.alloc.pc.sentReady_le_one
  constructor
  · rw [hmanager, hbench]
    exact hbooks.unborn
  · rw [hmanager]
    intro hnone
    exact absurd (hbooks.allocUnborn hnone) hborn
  · rw [hmanager]
    exact hbooks.left
  · rw [hmanager, hbench, hstart]
    exact hbooks.starts
  · have := hbooks.readies
    rw [hmanager, hbench]
    omega
  · have := hbooks.stops
    rw [hmanager, hbench]
    omega
  · rw [hmanager]
    intro htaken
    have := hbooks.first htaken
    omega
  · exact hbuffer hallocates hbooks.buffer

theorem Books.born_le :
    s.manager.born parallel ≤ parallel := by
  have hleft := hbooks.left
  cases hmanager : s.manager with
  | create created =>
      rw [hmanager] at hleft
      exact hleft
  | _ => exact le_refl parallel

theorem Books.benchMove (hmove : BenchMove s after i) : Books parallel after := by
  have hin : i ∈ measurers parallel := by
    have hlimit := hbooks.born_le
    have hnot : ¬ (i = 0 ∨ s.manager.born parallel ≤ i) := fun hout =>
      hmove.born (hbooks.unborn i hout)
    rw [measurers, Finset.mem_Ico]
    omega
  have hstarts := total_update (·.pc.tookStart) s.bench (after.bench i) hin
  have hreadies := total_update (·.pc.sentReady) s.bench (after.bench i) hin
  have hstops := total_update (·.pc.tookStop) s.bench (after.bench i) hin
  rw [← hmove.bench] at hstarts hreadies hstops
  have hmoveStarts := hmove.starts
  have hmoveReadies := hmove.readies
  have hmoveStops := hmove.stops
  have hbookStarts := hbooks.starts
  have hbookReadies := hbooks.readies
  have hbookStops := hbooks.stops
  constructor
  · intro j hout
    rw [hmove.manager] at hout
    have hne : j ≠ i := by
      rintro rfl
      exact hmove.born (hbooks.unborn j hout)
    rw [hmove.bench, update_of_ne hne]
    exact hbooks.unborn j hout
  · rw [hmove.manager, hmove.alloc]
    exact hbooks.allocUnborn
  · rw [hmove.manager]
    exact hbooks.left
  · rw [hmove.manager]
    omega
  · rw [hmove.manager, hmove.alloc]
    omega
  · rw [hmove.manager, hmove.alloc]
    omega
  · rw [hmove.manager, hmove.alloc]
    exact hbooks.first
  · rw [hmove.buffer, hmove.alloc]
    exact hbooks.buffer

theorem Books.withManager {ready start stop : ℕ}
    (hborn : manager.born parallel = s.manager.born parallel) (hleft : manager.LeftLe parallel)
    (hstarts : start + s.manager.startsSent parallel = s.start + manager.startsSent parallel)
    (hreadies : ready + manager.readiesTaken parallel = s.ready + s.manager.readiesTaken parallel)
    (hstops : stop + s.manager.stopsSent parallel = s.stop + manager.stopsSent parallel)
    (hfirst : 0 < manager.readiesTaken parallel → s.alloc.pc.sentReady = 1) :
    Books parallel
      { s with
        manager := manager
        ready := ready
        start := start
        stop := stop } := by
  have hbookStarts := hbooks.starts
  have hbookReadies := hbooks.readies
  have hbookStops := hbooks.stops
  constructor
  · intro i hout
    apply hbooks.unborn i
    rwa [← hborn]
  · intro hnone
    apply hbooks.allocUnborn
    rwa [← hborn]
  · exact hleft
  · dsimp only
    omega
  · dsimp only
    omega
  · dsimp only
    omega
  · exact hfirst
  · exact hbooks.buffer

theorem Books.createThread {created : ℕ} (hmanager : s.manager = .create created)
    (hmore : created < parallel) :
    Books parallel { s.createThread created with manager := .create (created + 1) } := by
  have hbookStarts := hbooks.starts
  have hbookReadies := hbooks.readies
  have hbookStops := hbooks.stops
  have hunborn := hbooks.unborn
  rw [hmanager] at hbookStarts hbookReadies hbookStops hunborn
  simp only [ManagerPc.startsSent, ManagerPc.readiesTaken, ManagerPc.stopsSent,
    ManagerPc.born] at hbookStarts hbookReadies hbookStops hunborn
  unfold BenchSystem.createThread
  split
  next hzero =>
    have halloc : s.alloc.pc = .unborn := by
      apply hbooks.allocUnborn
      rw [hmanager, hzero]
      rfl
    rw [halloc] at hbookReadies hbookStops
    constructor
    · intro i hout
      apply hunborn i
      simp only [ManagerPc.born] at hout
      omega
    · intro hnone
      cases hnone
    · exact hmore
    · exact hbookStarts
    · exact hbookReadies
    · exact hbookStops
    · intro htaken
      cases htaken
    · have hbuffer := hbooks.buffer
      rw [halloc] at hbuffer
      exact hbuffer
  next hnonzero =>
    have hpc : (s.bench created).pc = .unborn := hunborn created (.inr (le_refl created))
    have hsame : ∀ count : BenchPc → ℕ, count .bind = count .unborn →
        total (measurers parallel) (fun thread => count thread.pc)
            (update s.bench created { s.bench created with pc := .bind }) =
          total (measurers parallel) (fun thread => count thread.pc) s.bench := by
      intro count heq
      apply total_update_same
      rw [hpc]
      exact heq
    constructor
    · intro i hout
      simp only [ManagerPc.born] at hout
      have hne : i ≠ created := by omega
      dsimp only
      rw [update_of_ne hne]
      exact hunborn i (by omega)
    · intro hnone
      cases hnone
    · exact hmore
    · dsimp only
      rw [hsame BenchPc.tookStart rfl]
      exact hbookStarts
    · dsimp only
      rw [hsame BenchPc.sentReady rfl]
      exact hbookReadies
    · dsimp only
      rw [hsame BenchPc.tookStop rfl]
      exact hbookStops
    · intro htaken
      cases htaken
    · exact hbooks.buffer

theorem Books.cancelThread (i : ℕ) :
    Books parallel (s.cancelThread i) := by
  unfold BenchSystem.cancelThread
  split
  next => exact ⟨hbooks.unborn, hbooks.allocUnborn, hbooks.left, hbooks.starts, hbooks.readies,
    hbooks.stops, hbooks.first, hbooks.buffer⟩
  next =>
    have hsame : ∀ count : BenchPc → ℕ, total (measurers parallel) (fun thread => count thread.pc)
            (update s.bench i { s.bench i with cancelled := true }) =
          total (measurers parallel) (fun thread => count thread.pc) s.bench :=
      fun count => total_update_same rfl
    constructor
    · intro j hout
      dsimp only
      by_cases hj : j = i
      · rw [hj, update_self]
        exact hbooks.unborn i (hj ▸ hout)
      · rw [update_of_ne hj]
        exact hbooks.unborn j hout
    · exact hbooks.allocUnborn
    · exact hbooks.left
    · dsimp only
      rw [hsame BenchPc.tookStart]
      exact hbooks.starts
    · dsimp only
      rw [hsame BenchPc.sentReady]
      exact hbooks.readies
    · dsimp only
      rw [hsame BenchPc.tookStop]
      exact hbooks.stops
    · exact hbooks.first
    · exact hbooks.buffer

theorem Books.first_ready (hstarts : s.manager.startsSent parallel = 0) (hready : 0 < s.ready) :
    s.alloc.pc.sentReady = 1 := by
  have hbookStarts := hbooks.starts
  have hbookReadies := hbooks.readies
  have hle : total (measurers parallel) (·.pc.sentReady) s.bench ≤
      total (measurers parallel) (·.pc.tookStart) s.bench :=
    total_mono fun thread => thread.pc.sentReady_le_tookStart
  have hone := s.alloc.pc.sentReady_le_one
  omega

end

theorem cancelThread_manager (s : BenchSystem) (i : ℕ) :
    (s.cancelThread i).manager = s.manager := by
  unfold BenchSystem.cancelThread
  split <;> rfl

theorem Books.managerMove (hbooks : Books env.parallel s) (hcreated : env.parallel ≤ env.created)
    (hmove : ManagerMove env s after) : Books env.parallel after := by
  have htwo := env.two_le
  have hleft := hbooks.left
  have hfirst := hbooks.first
  cases hmove with
  | creates created hmanager hmore _ => exact hbooks.createThread hmanager hmore
  | fails created _ hmore hcannot => omega
  | created created hmanager hall =>
      rw [hmanager] at hleft
      have heq : created = env.parallel := le_antisymm hleft (not_lt.mp hall)
      apply hbooks.withManager <;> simp [hmanager, heq]
  | readsAlloc hmanager hready =>
      have hsent := hbooks.first_ready (by rw [hmanager]; rfl) hready
      refine hbooks.withManager ?_ ?_ ?_ ?_ ?_ (fun _ => hsent) <;> simp [hmanager]
      omega
  | noBuffer hmanager hbuffer =>
      rw [hmanager] at hfirst
      rw [hbooks.buffer] at hbuffer
      exact absurd hbuffer (AllocPc.bufferAt_ne_null (hfirst Nat.one_pos))
  | buffer hmanager _ =>
      rw [hmanager] at hfirst
      have hsent := hfirst Nat.one_pos
      refine hbooks.withManager ?_ ?_ ?_ ?_ ?_ (fun _ => hsent) <;> simp [hmanager]
      omega
  | sendsStart left hmanager =>
      rw [hmanager] at hleft hfirst
      have hsent := hfirst Nat.one_pos
      simp only [ManagerPc.LeftLe] at hleft
      refine hbooks.withManager ?_ ?_ ?_ ?_ ?_ (fun _ => hsent) <;> simp [hmanager] <;> omega
  | started hmanager =>
      rw [hmanager] at hfirst
      have hsent := hfirst Nat.one_pos
      refine hbooks.withManager ?_ ?_ ?_ ?_ ?_ (fun _ => hsent) <;> simp [hmanager] <;> omega
  | readsReady left hmanager hready =>
      rw [hmanager] at hleft hfirst
      simp only [ManagerPc.LeftLe, ManagerPc.readiesTaken] at hleft hfirst
      have hsent := hfirst (by omega)
      refine hbooks.withManager ?_ ?_ ?_ ?_ ?_ (fun _ => hsent) <;> simp [hmanager] <;> omega
  | sendsStop left hmanager =>
      rw [hmanager] at hleft hfirst
      simp only [ManagerPc.LeftLe] at hleft
      refine hbooks.withManager ?_ ?_ ?_ ?_ ?_ hfirst <;> simp [hmanager] <;> omega
  | cancels i num result hmanager _ =>
      have hkept := (cancelThread_manager s i).trans hmanager
      have hcancelled := hbooks.cancelThread i
      have hfirst := hcancelled.first
      rw [hkept] at hfirst
      refine hcancelled.withManager ?_ ?_ ?_ ?_ ?_ hfirst <;> simp [hkept]
  | measured hmanager | stopped hmanager | readsFigures result hmanager
  | returns i num result hmanager | joins i num result hmanager _ =>
      rw [hmanager] at hfirst
      refine hbooks.withManager ?_ ?_ ?_ ?_ ?_ hfirst <;> simp [hmanager]

theorem Books.next (hbooks : Books env.parallel s) (hcreated : env.parallel ≤ env.created)
    (hallocates : env.allocates = true) (hnext : s.next env event = some after) :
    Books env.parallel after := by
  rcases next_cases hnext with hmanager | hmove | ⟨i, hmove⟩
  · exact hbooks.managerMove hcreated hmanager
  · exact hbooks.allocMove hmove hallocates
  · exact hbooks.benchMove hmove

/-- The books of the bytes hold in every state, by induction on the run. -/
theorem books_of_reaches (hcreated : env.parallel ≤ env.created) (hallocates : env.allocates = true)
    (hreach : Reaches env s) : Books env.parallel s := by
  apply hreach.keeps (Books env.parallel) (books_initial env.parallel)
  intro before event after hbooks hnext
  exact hbooks.next hcreated hallocates hnext

/-! ## What the books say -/

/-- When the manager has read every `READY`, every measuring thread has sent
its own. -/
theorem Books.all_ready (hbooks : Books parallel s)
    (htaken : parallel ≤ s.manager.readiesTaken parallel) (hi : i ∈ measurers parallel) :
    (s.bench i).pc.sentReady = 1 := by
  have hreadies := hbooks.readies
  have halloc := s.alloc.pc.sentReady_le_one
  apply eq_one_of_total (fun thread : BenchThread => thread.pc.sentReady_le_one) _ hi
  rw [card_measurers]
  omega

theorem readiesTaken_of_stopsSent (hsent : 0 < manager.stopsSent parallel) :
    parallel ≤ manager.readiesTaken parallel := by
  cases manager <;> simp at hsent ⊢

theorem readiesTaken_of_startsSent (hleft : manager.LeftLe parallel)
    (hsent : 0 < manager.startsSent parallel) : 0 < manager.readiesTaken parallel := by
  cases manager <;> simp at hleft hsent ⊢ <;> omega

theorem Books.all_ready_of_stop (hbooks : Books parallel s) (hstop : s.alloc.pc.tookStop = 1)
    (hi : i ∈ measurers parallel) : (s.bench i).pc.sentReady = 1 := by
  have hstops := hbooks.stops
  exact hbooks.all_ready (readiesTaken_of_stopsSent (by omega)) hi

theorem Books.prepared (hbooks : Books parallel s) (hrunning : (s.bench i).pc.measuring = true) :
    s.buffer = .prepared := by
  obtain ⟨htook, hnotSent⟩ := BenchPc.of_measuring hrunning
  have hin : i ∈ measurers parallel := by
    have hlimit := hbooks.born_le
    have hnot : ¬ (i = 0 ∨ s.manager.born parallel ≤ i) := by
      intro hout
      rw [hbooks.unborn i hout] at hrunning
      cases hrunning
    rw [measurers, Finset.mem_Ico]
    omega
  have hstarts := hbooks.starts
  have hle := count_le_total (·.pc.tookStart) s.bench hin
  have htaken : 0 < s.manager.readiesTaken parallel :=
    readiesTaken_of_startsSent hbooks.left (by omega)
  rw [hbooks.buffer]
  apply AllocPc.bufferAt_of_sentReady (hbooks.first htaken)
  by_contra hstop
  have hone : s.alloc.pc.tookStop = 1 := by
    have := s.alloc.pc.tookStop_le_one
    omega
  have hsent := hbooks.all_ready_of_stop hone hin
  omega

/-! ## The figures of the first thread -/

/-- Two records of a thread with the same place and the same figures. -/
def SameFigures (first second : BenchThread) : Prop :=
  second.pc = first.pc ∧ second.overhead = first.overhead ∧ second.total = first.total

theorem cancelThread_figures (s : BenchSystem) (i j : ℕ) :
    SameFigures (s.bench j) ((s.cancelThread i).bench j) := by
  unfold cancelThread
  split
  next => exact ⟨rfl, rfl, rfl⟩
  next =>
    by_cases hj : j = i
    · simp [SameFigures, hj]
    · simp [SameFigures, hj]

section

variable (hcreate : ∀ created, s.manager ≠ .create created)

include hcreate

theorem ManagerMove.figures (hmove : ManagerMove env s after) (i : ℕ) :
    (∀ created, after.manager ≠ .create created) ∧ SameFigures (s.bench i) (after.bench i) := by
  cases hmove with
  | creates created hmanager _ _ => exact absurd hmanager (hcreate created)
  | cancels j num result _ _ => exact ⟨by simp, cancelThread_figures s j i⟩
  | _ => exact ⟨by simp, rfl, rfl, rfl⟩

theorem figures_kept (hmeasured : (s.bench i).pc.measured = true)
    (hnext : s.next env event = some after) :
    (∀ created, after.manager ≠ .create created) ∧ (after.bench i).pc.measured = true ∧
      (after.bench i).overhead = (s.bench i).overhead ∧
      (after.bench i).total = (s.bench i).total := by
  rcases next_cases hnext with hmanager | hmove | ⟨j, hmove⟩
  · obtain ⟨hlater, hpc, hfigures⟩ := hmanager.figures hcreate i
    exact ⟨hlater, hpc ▸ hmeasured, hfigures⟩
  · rw [hmove.manager, hmove.bench]
    exact ⟨hcreate, hmeasured, rfl, rfl⟩
  · rw [hmove.manager]
    refine ⟨hcreate, ?_⟩
    by_cases hi : i = j
    · rw [hi] at hmeasured ⊢
      exact hmove.figures hmeasured
    · rw [hmove.bench, update_of_ne hi]
      exact ⟨hmeasured, rfl, rfl⟩

theorem figures_final {later : BenchSystem} (hmeasured : (s.bench i).pc.measured = true)
    (hleads : Leads env s later) :
    (later.bench i).overhead = (s.bench i).overhead ∧
      (later.bench i).total = (s.bench i).total := by
  have hkept := hleads.keeps
    (fun later => (∀ created, later.manager ≠ .create created) ∧
      (later.bench i).pc.measured = true ∧ (later.bench i).overhead = (s.bench i).overhead ∧
      (later.bench i).total = (s.bench i).total)
    ⟨hcreate, hmeasured, rfl, rfl⟩ (by
      rintro before event after ⟨hbefore, hdone, hoverhead, htotal⟩ hnext
      obtain ⟨hafter, hstill, hoverhead', htotal'⟩ := figures_kept hbefore hdone hnext
      exact ⟨hafter, hstill, hoverhead'.trans hoverhead, htotal'.trans htotal⟩)
  exact hkept.2.2

end

/-- In every run with all threads and the buffers, in any order of the steps: a
measured function runs on prepared buffers that are not freed yet, the buffers
are freed when every thread has finished its last measurement, and the manager
reads the figures of thread 1 when they are final. -/
theorem buffers_outlive_measurements
    (hcreated : env.parallel ≤ env.created) (hallocates : env.allocates = true)
    (hreach : Reaches env s) :
    (∀ i, (s.bench i).pc.measuring = true → s.buffer = .prepared) ∧
      (s.alloc.pc = .free → ∀ i, 1 ≤ i → i < env.parallel → (s.bench i).pc.measured = true) ∧
      (s.manager = .readFigures → (s.bench 1).pc.measured = true ∧
        ∀ later, Leads env s later → (later.bench 1).overhead = (s.bench 1).overhead ∧
          (later.bench 1).total = (s.bench 1).total) := by
  have hbooks := books_of_reaches hcreated hallocates hreach
  have htwo := env.two_le
  refine ⟨fun i => hbooks.prepared, ?_, ?_⟩
  · intro hfree i hone hlt
    have hstop : s.alloc.pc.tookStop = 1 := by
      rw [hfree]
      rfl
    exact BenchPc.measured_of_sentReady
      (hbooks.all_ready_of_stop hstop (Finset.mem_Ico.mpr ⟨hone, hlt⟩))
  · intro hread
    have htaken : env.parallel ≤ s.manager.readiesTaken env.parallel := by
      rw [hread]
      exact le_refl _
    have hmeasured : (s.bench 1).pc.measured = true :=
      BenchPc.measured_of_sentReady
        (hbooks.all_ready htaken (Finset.mem_Ico.mpr ⟨le_refl 1, htwo⟩))
    refine ⟨hmeasured, ?_⟩
    intro later hleads
    refine figures_final ?_ hmeasured hleads
    intro created hmanager
    rw [hread] at hmanager
    cases hmanager

/-- One measuring thread and nothing that fails. -/
def onePair : BenchOutcomes where
  parallel := 2
  created := 2
  allocates := true
  binds := fun _ => true
  two_le := le_refl 2

/-- Up to the point where the manager reads the figures. -/
def onePairEvents : List BenchEvent :=
  List.flatten
    [List.replicate 3 BenchEvent.manager, List.replicate 4 BenchEvent.alloc,
      List.replicate 4 BenchEvent.manager, List.replicate 3 (BenchEvent.bench 1 0),
      List.replicate 7 (BenchEvent.bench 1 5), List.replicate 3 (BenchEvent.bench 1 nsPerSec),
      List.replicate 5 BenchEvent.manager]

theorem buffers_outlive_measurements_pair :
    ∃ s, Reaches onePair s ∧ s.manager = .readFigures ∧ (s.bench 1).pc.measured = true ∧
      ∀ later, Leads onePair s later → (later.bench 1).overhead = (s.bench 1).overhead ∧
        (later.bench 1).total = (s.bench 1).total := by
  have hrun : ∃ s ∈ runCalls (step onePair) (fun _ _ => True) initial onePairEvents,
      s.manager = .readFigures := by
    decide +kernel
  obtain ⟨s, hreach, hread⟩ := exists_reachable_of_runCalls hrun
  have hlifetime := @buffers_outlive_measurements onePair s (le_refl 2) rfl hreach
  exact ⟨s, hreach, hread, hlifetime.2.2 hread⟩

end BenchSystem

end WaycaScheduler
