import WaycaScheduler.BenchFigures
import WaycaScheduler.Library.Transition

/-!
# The threads of the memory benchmark

`do_bench`, `bench_thread` and `thread_synchronize` in
`tools/wayca-memory-bench/wayca-memory-bench.c`.  A manager creates one thread
that allocates, prepares and frees the buffers and `parallel - 1` threads that
measure.  They talk through three pipes.  All bytes are alike, so a pipe is the
number of bytes in it, and any reader may take one.

The parties take their steps in any order.  A request to cancel a thread acts
at a cancellation point, unless the thread has disabled cancellation.
-/

namespace WaycaScheduler

open Transition Finset

/-- What a run of `do_bench` meets outside the program: the number of threads
that can be created, and whether the memory for the buffers and for the CPU mask
of a thread is there. -/
structure BenchOutcomes where
  parallel : ℕ
  created : ℕ
  allocates : Bool
  binds : ℕ → Bool
  two_le : 2 ≤ parallel

inductive BufferState where
  | null
  | allocated
  | prepared
  | freed
deriving DecidableEq

/-- Where `bench_thread` is for the allocating thread. -/
inductive AllocPc where
  | unborn
  | bind
  | allocate
  | prepare
  | sendReady
  | disableCancel
  | awaitStop
  | free
  | enableCancel
  | done
deriving DecidableEq

/-- Where `bench_thread` is for a measuring thread.  At `overhead` and `bench`
the function that is measured runs. -/
inductive BenchPc where
  | unborn
  | bind
  | awaitStart
  | reset
  | overhead (samples : ℕ)
  | bench (samples : ℕ)
  | average (samples : ℕ)
  | sendReady
  | awaitStop
  | done
deriving DecidableEq

/-- The allocating thread; `cancelled` says that `pthread_cancel` was called,
`exited` that `pthread_join` returns. -/
structure AllocThread where
  pc : AllocPc
  cancelled : Bool
  exited : Bool
deriving DecidableEq

/-- A measuring thread with its fields of `struct thread_info`. -/
structure BenchThread where
  pc : BenchPc
  cancelled : Bool
  exited : Bool
  overhead : ℤ
  total : ℤ
deriving DecidableEq

/-- Where `do_bench` is.  Cancelling and joining is the end of `do_bench` and of
a `create_bench_threads` that fails. -/
inductive ManagerPc where
  | create (created : ℕ)
  | awaitAlloc
  | checkBuffer
  | sendStart (left : ℕ)
  | awaitReady (left : ℕ)
  | sendStop (left : ℕ)
  | readFigures
  | cancel (i num : ℕ) (result : ℤ)
  | join (i num : ℕ) (result : ℤ)
  | returned (result : ℤ)
deriving DecidableEq

/-- The program counters, the bytes in the three pipes and the buffers. -/
structure BenchSystem where
  manager : ManagerPc
  alloc : AllocThread
  bench : ℕ → BenchThread
  ready : ℕ
  start : ℕ
  stop : ℕ
  buffer : BufferState

def BenchSystem.initial : BenchSystem where
  manager := .create 0
  alloc := ⟨.unborn, false, false⟩
  bench := fun _ => ⟨.unborn, false, false, 0, 0⟩
  ready := 0
  start := 0
  stop := 0
  buffer := .null

def SAMPLES : ℕ := 7

/-- `NS_PER_SEC` -/
def nsPerSec : ℤ := 1000000000

namespace BenchSystem

variable (env : BenchOutcomes) (s : BenchSystem)

/-- `total - overhead` at the end of `do_bench`, after the check. -/
def figuresResult (overhead total : ℤ) : ℤ :=
  if total < overhead then 0 - EINVAL else total - overhead

/-- `pthread_create` of thread `i` -/
def createThread (i : ℕ) : BenchSystem :=
  if i = 0 then { s with alloc := { s.alloc with pc := .bind } }
  else { s with bench := Function.update s.bench i { s.bench i with pc := .bind } }

/-- `pthread_cancel` of thread `i` -/
def cancelThread (i : ℕ) : BenchSystem :=
  if i = 0 then { s with alloc := { s.alloc with cancelled := true } }
  else { s with bench := Function.update s.bench i { s.bench i with cancelled := true } }

/-- Whether `pthread_join` of thread `i` returns. -/
def hasExited (i : ℕ) : Bool :=
  if i = 0 then s.alloc.exited else (s.bench i).exited

/-- The next step of `do_bench`, none while a pipe has no byte for it. -/
def managerStep : Option BenchSystem :=
  match s.manager with
  | .create created =>
      if created < env.parallel then
        if created < env.created then
          some { s.createThread created with manager := .create (created + 1) }
        else some { s with manager := .cancel 0 created (-1) }
      else some { s with manager := .awaitAlloc }
  | .awaitAlloc =>
      if 0 < s.ready then some { s with ready := s.ready - 1, manager := .checkBuffer }
      else none
  | .checkBuffer =>
      if s.buffer = .null then some { s with manager := .cancel 0 env.parallel (-ENOMEM) }
      else some { s with manager := .sendStart (env.parallel - 1) }
  | .sendStart (left + 1) =>
      some { s with start := s.start + 1, manager := .sendStart left }
  | .sendStart 0 => some { s with manager := .awaitReady (env.parallel - 1) }
  | .awaitReady (left + 1) =>
      if 0 < s.ready then some { s with ready := s.ready - 1, manager := .awaitReady left }
      else none
  | .awaitReady 0 => some { s with manager := .sendStop env.parallel }
  | .sendStop (left + 1) => some { s with stop := s.stop + 1, manager := .sendStop left }
  | .sendStop 0 => some { s with manager := .readFigures }
  | .readFigures =>
      let result := figuresResult (s.bench 1).overhead (s.bench 1).total
      some { s with manager := .cancel 0 env.parallel result }
  | .cancel i num result =>
      if i < num then some { s.cancelThread i with manager := .join i num result }
      else some { s with manager := .returned result }
  | .join i num result =>
      if s.hasExited i then some { s with manager := .cancel (i + 1) num result } else none
  | .returned _ => none

def allocAt (pc : AllocPc) : BenchSystem := { s with alloc := { s.alloc with pc := pc } }

/-- The next step of the thread that allocates the buffers. -/
def allocStep : Option BenchSystem :=
  if s.alloc.exited then none
  else
    match s.alloc.pc with
    | .unborn => none
    | .bind =>
        if env.binds 0 then some (s.allocAt .allocate)
        else some { s with alloc := { s.alloc with exited := true } }
    | .allocate =>
        if env.allocates then some { s.allocAt .prepare with buffer := .allocated }
        else some (s.allocAt .sendReady)
    | .prepare => some { s.allocAt .sendReady with buffer := .prepared }
    | .sendReady => some { s.allocAt .disableCancel with ready := s.ready + 1 }
    | .disableCancel => some (s.allocAt .awaitStop)
    | .awaitStop =>
        if 0 < s.stop then some { s.allocAt .free with stop := s.stop - 1 } else none
    | .free => some { s.allocAt .enableCancel with buffer := .freed }
    | .enableCancel => some (s.allocAt .done)
    | .done => some { s with alloc := { s.alloc with exited := true } }

/-- `while (info->total < 1 * NS_PER_SEC)` -/
def benchLoop (samples : ℕ) (total : ℤ) : BenchPc :=
  if total < nsPerSec then .bench samples else .average samples

def setBench (i : ℕ) (thread : BenchThread) : BenchSystem :=
  { s with bench := Function.update s.bench i thread }

/-- One step of a measuring thread; `time` is what a measurement that ends
with the step has taken.  Thread 1 is the only one that is bound to a CPU. -/
def benchStep (i : ℕ) (time : ℤ) : Option BenchSystem :=
  let thread := s.bench i
  if thread.exited then none
  else
    match thread.pc with
    | .unborn => none
    | .bind =>
        if i = 1 ∧ env.binds i = false then some (s.setBench i { thread with exited := true })
        else some (s.setBench i { thread with pc := .awaitStart })
    | .awaitStart =>
        if 0 < s.start then
          some { s.setBench i { thread with pc := .reset } with start := s.start - 1 }
        else none
    | .reset =>
        some (s.setBench i { thread with pc := .overhead 0, overhead := LONG_MAX, total := 0 })
    | .overhead samples =>
        some (s.setBench i { thread with
          overhead := min thread.overhead time
          pc := if samples + 1 < SAMPLES then .overhead (samples + 1)
            else benchLoop 0 thread.total })
    | .bench samples =>
        some (s.setBench i { thread with
          total := thread.total + time
          pc := benchLoop (samples + 1) (thread.total + time) })
    | .average samples =>
        some (s.setBench i { thread with pc := .sendReady, total := thread.total.tdiv samples })
    | .sendReady =>
        some { s.setBench i { thread with pc := .awaitStop } with ready := s.ready + 1 }
    | .awaitStop =>
        if 0 < s.stop then
          some { s.setBench i { thread with pc := .done } with stop := s.stop - 1 }
        else none
    | .done => some (s.setBench i { thread with exited := true })

end BenchSystem

/-- The allocating thread has called `pthread_setcancelstate` to disable
cancellation and not yet to enable it. -/
def AllocPc.cancelDisabled : AllocPc → Bool
  | .awaitStop | .free | .enableCancel => true
  | _ => false

/-- The reads, the writes and the message about a failed allocation. -/
def AllocPc.cancellationPoint : AllocPc → Bool
  | .allocate | .sendReady | .awaitStop => true
  | _ => false

def BenchPc.cancellationPoint : BenchPc → Bool
  | .awaitStart | .sendReady | .awaitStop => true
  | _ => false

namespace BenchSystem

variable (env : BenchOutcomes) (s : BenchSystem)

/-- A cancelled thread exits where it passes a cancellation point. -/
def cancelStep (i : ℕ) : Option BenchSystem :=
  if i = 0 then
    if s.alloc.exited = false ∧ s.alloc.cancelled ∧ s.alloc.pc.cancellationPoint ∧
        s.alloc.pc.cancelDisabled = false then
      some { s with alloc := { s.alloc with exited := true } }
    else none
  else
    if (s.bench i).exited = false ∧ (s.bench i).cancelled ∧
        (s.bench i).pc.cancellationPoint then
      some (s.setBench i { s.bench i with exited := true })
    else none

end BenchSystem

inductive BenchEvent where
  | manager
  | alloc
  | bench (i : ℕ) (time : ℤ)
  | cancelled (i : ℕ)
deriving DecidableEq

namespace BenchSystem

def next (env : BenchOutcomes) (s : BenchSystem) : BenchEvent → Option BenchSystem
  | .manager => s.managerStep env
  | .alloc => s.allocStep env
  | .bench i time => s.benchStep env i time
  | .cancelled i => s.cancelStep i

def step (env : BenchOutcomes) (s : BenchSystem) (event : BenchEvent) :
    Option (BenchSystem × Unit) :=
  (s.next env event).map fun after => (after, ())

/-- Reached from a state by steps in any order. -/
def Leads (env : BenchOutcomes) (s later : BenchSystem) : Prop :=
  ReachableVia (step env) (fun _ _ => True) s later

/-- Reached in some run of `do_bench`. -/
def Reaches (env : BenchOutcomes) (s : BenchSystem) : Prop := Leads env initial s

theorem Leads.keeps {env : BenchOutcomes} {s later : BenchSystem} (hleads : Leads env s later)
    (Inv : BenchSystem → Prop) (hstart : Inv s)
    (hstep : ∀ before event after, Inv before → before.next env event = some after → Inv after) :
    Inv later := by
  apply ReachableVia.keeps hleads Inv hstart
  intro before event after result hinv _ hnext
  obtain ⟨middle, hmiddle, heq⟩ := Option.map_eq_some_iff.mp hnext
  obtain ⟨rfl, -⟩ := Prod.mk.inj heq
  exact hstep before event middle hinv hmiddle

theorem Leads.next {env : BenchOutcomes} {s before after : BenchSystem}
    (hleads : Leads env s before) (event : BenchEvent)
    (hnext : before.next env event = some after) : Leads env s after := by
  apply ReachableVia.step hleads trivial
  unfold BenchSystem.step
  rw [hnext, Option.map_some]

end BenchSystem

end WaycaScheduler
