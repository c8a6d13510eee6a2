import WaycaScheduler.GroupOperations
import WaycaScheduler.Library.Transition

/-!
# The thread and group calls

The public functions of `lib/threads.c` that create, move and destroy
threads and groups.  A call takes its arguments and what its environment
answers.  It returns the next state and the return value, or `none` when it
does not return, as when a group is attached to itself and locks its mutex
twice.
-/

namespace WaycaScheduler

open Transition

variable (machine : Machine) (state : State)

/-! ## Identifiers and allocation -/

def isThreadIdValid (t : ThreadId) : Bool :=
  decide (t < machine.threadsArraySize) && state.threadsArray t

def isGroupIdValid (g : GroupId) : Bool :=
  decide (g < machine.groupsArraySize) && state.groupsArray g

/-- The first free place of the array of threads or of groups. -/
def findFreeIdLocked (array : ℕ → Bool) (size : ℕ) : Option ℕ :=
  (List.range size).find? fun id => !array id

/-- The new state and identifier, or `none` for the null pointer. -/
def waycaThreadAlloc (malloc : Bool) : Option (State × ThreadId) :=
  (findFreeIdLocked state.threadsArray machine.threadsArraySize).bind fun t =>
    if malloc then
      some ({ state with threadsArray := Function.update state.threadsArray t true }.setThread
        t .zeroed, t)
    else none

/-- The load of the thread is taken back before its place is free again. -/
def waycaThreadFree (t : ThreadId) : Option State :=
  (waycaThreadUpdateLoad machine state t false).map fun state =>
    { state with threadsArray := Function.update state.threadsArray t false }

def waycaGroupAlloc (malloc : Bool) : Option (State × GroupId) :=
  (findFreeIdLocked state.groupsArray machine.groupsArraySize).bind fun g =>
    if malloc then
      some ({ state with groupsArray := Function.update state.groupsArray g true }.setGroup
        g .zeroed, g)
    else none

def waycaGroupFree (state : State) (g : GroupId) : State :=
  { state with groupsArray := Function.update state.groupsArray g false }

/-! ## Groups -/

def waycaScGroupSetAttr (g : GroupId) (attr : Option Attr) : Option (State × ℤ) :=
  match attr with
  | none => some (state, -EINVAL)
  | some attr =>
      if !isGroupIdValid machine state g then some (state, -EINVAL)
      else do
        let oldAttr := (state.group g).attr
        let state := state.setGroup g { state.group g with attr := attr }
        let (state, ret) ← waycaGroupRearrangeGroup machine rearrangeDepth state g
        if ret < 0 then
          some (state.setGroup g { state.group g with attr := oldAttr }, ret)
        else some (state, ret)

def waycaScGroupCreate (group malloc : Bool) : Option (State × ℤ) :=
  if !group then some (state, -EINVAL)
  else
    match waycaGroupAlloc machine state malloc with
    | none => some (state, -ENOMEM)
    | some (state, g) => do
        let (state, ret) ← waycaGroupInit machine state g
        if ret < 0 then some (waycaGroupFree state g, ret) else some (state, 0)

def waycaScThreadAttachGroup (t : ThreadId) (g : GroupId) : Option (State × ℤ) :=
  if !isThreadIdValid machine state t || !isGroupIdValid machine state g then
    some (state, -EINVAL)
  else if (state.thread t).group ≠ none then some (state, -EINVAL)
  else do
    let state ← waycaThreadUpdateLoad machine state t false
    let (state, ret) ← waycaGroupAddThread machine state g t
    if ret ≠ 0 then
      let state ← waycaThreadUpdateLoad machine state t true
      some (state, ret)
    else
      let state ← waycaGroupRearrangeThread machine state t
      some (state, 0)

def waycaScThreadDetachGroup (t : ThreadId) (g : GroupId) : Option (State × ℤ) :=
  if !isThreadIdValid machine state t || !isGroupIdValid machine state g then
    some (state, -EINVAL)
  else waycaGroupDeleteThread machine state g t

/-- A group that is attached to itself waits for its own lock. -/
def waycaScGroupAttachGroup (g father : GroupId) : Option (State × ℤ) :=
  if !isGroupIdValid machine state g || !isGroupIdValid machine state father then
    some (state, -EINVAL)
  else if (state.group g).father ≠ none then some (state, -EINVAL)
  else if g = father then none
  else waycaGroupAddGroup machine state g father

def waycaScGroupDetachGroup (g father : GroupId) : Option (State × ℤ) :=
  if !isGroupIdValid machine state g || !isGroupIdValid machine state father then
    some (state, -EINVAL)
  else if g = father then none
  else waycaGroupDeleteGroup machine state g father

def waycaScGroupDestroy (g : GroupId) : Option (State × ℤ) :=
  if !isGroupIdValid machine state g then some (state, -EINVAL)
  else if (state.group g).nrThreads ≠ 0 ∨ (state.group g).nrGroups ≠ 0 then
    some (state, -EBUSY)
  else do
    let (state, _) ←
      match (state.group g).father with
      | none => some (state, 0)
      | some father => waycaScGroupDetachGroup machine state g father
    some (waycaGroupFree state g, 0)

/-! ## Threads -/

/-- What the environment answers while a thread is created: the affinity is
empty when the kernel does not report one. -/
structure CreateEnv where
  malloc : Bool
  pthreadCreate : ℕ
  affinity : CpuSet

/-- The new thread reads its affinity itself and adds its load. -/
def waycaThreadStartRoutine (t : ThreadId) (affinity : CpuSet) : Option State :=
  waycaThreadUpdateLoad machine
    (state.setThread t
      { state.thread t with
        curSet := cpuOr cpuZero affinity
        allowedSet := cpuOr cpuZero affinity }) t true

def waycaScThreadCreate (wthread startRoutine : Bool) (env : CreateEnv) : Option (State × ℤ) :=
  if !wthread || !startRoutine then some (state, -EINVAL)
  else
    match waycaThreadAlloc machine state env.malloc with
    | none => some (state, -ENOMEM)
    | some (state, t) => do
        let state := state.setThread t
          { state.thread t with siblings := none, group := none, startRoutine := true }
        if env.pthreadCreate ≠ 0 then
          let state ← waycaThreadFree machine state t
          some (state, -env.pthreadCreate)
        else
          let state ← waycaThreadStartRoutine machine state t env.affinity
          some (state, 0)

/-- What join and detach do first; the result of leaving is ignored. -/
def leaveGroup (t : ThreadId) : Option State :=
  match (state.thread t).group with
  | none => some state
  | some g => (waycaScThreadDetachGroup machine state t g).map Prod.fst

def waycaScThreadJoin (t : ThreadId) (pthreadJoin : ℕ) : Option (State × ℤ) :=
  if !isThreadIdValid machine state t then some (state, -EINVAL)
  else if !(state.thread t).startRoutine then some (state, -EINVAL)
  else do
    let state ← leaveGroup machine state t
    let state ← waycaThreadFree machine state t
    some (state, -pthreadJoin)

/-- What the environment answers while a process is attached: the affinity, or
the error number of `sched_getaffinity`. -/
structure AttachEnv where
  malloc : Bool
  affinity : Except ℕ CpuSet

def waycaScPidAttachThread (wthread : Bool) (pid : ℤ) (env : AttachEnv) : Option (State × ℤ) :=
  if !wthread || decide (pid < 0) then some (state, -EINVAL)
  else
    match waycaThreadAlloc machine state env.malloc with
    | none => some (state, -ENOMEM)
    | some (state, t) => do
        let state := state.setThread t
          { state.thread t with siblings := none, group := none, startRoutine := false }
        match env.affinity with
        | .error errno =>
            let state ← waycaThreadFree machine state t
            some (state, -errno)
        | .ok affinity =>
            let state ← waycaThreadStartRoutine machine state t affinity
            some (state, 0)

def waycaScPidDetachThread (t : ThreadId) : Option (State × ℤ) :=
  if !isThreadIdValid machine state t then some (state, -EINVAL)
  else if (state.thread t).startRoutine then some (state, -EINVAL)
  else do
    let state ← leaveGroup machine state t
    let state ← waycaThreadUpdateLoad machine state t false
    let state ← waycaThreadFree machine state t
    some (state, 0)

/-- The result of the affinity call is the result of the function. -/
def waycaScThreadSetAttr (t : ThreadId) (attr : Option Attr) (setaffinity : ℤ) :
    Option (State × ℤ) :=
  if !isThreadIdValid machine state t then some (state, -EINVAL)
  else
    match attr with
    | none => some (state, -EINVAL)
    | some attr => do
        let state := state.setThread t { state.thread t with attr := attr }
        let state ←
          if (state.thread t).group ≠ none then waycaGroupRearrangeThread machine state t
          else some state
        some (state, setaffinity)

/-! ## Calls and runs -/

/-- A call of the thread and group interface with what the kernel answers to it. -/
inductive Call where
  | threadCreate (wthread startRoutine : Bool) (env : CreateEnv)
  | threadJoin (t : ThreadId) (pthreadJoin : ℕ)
  | pidAttachThread (wthread : Bool) (pid : ℤ) (env : AttachEnv)
  | pidDetachThread (t : ThreadId)
  | threadSetAttr (t : ThreadId) (attr : Option Attr) (setaffinity : ℤ)
  | groupCreate (group malloc : Bool)
  | groupDestroy (g : GroupId)
  | groupSetAttr (g : GroupId) (attr : Option Attr)
  | threadAttachGroup (t : ThreadId) (g : GroupId)
  | threadDetachGroup (t : ThreadId) (g : GroupId)
  | groupAttachGroup (g father : GroupId)
  | groupDetachGroup (g father : GroupId)

def step : Call → Option (State × ℤ)
  | .threadCreate wthread startRoutine env =>
      waycaScThreadCreate machine state wthread startRoutine env
  | .threadJoin t pthreadJoin => waycaScThreadJoin machine state t pthreadJoin
  | .pidAttachThread wthread pid env => waycaScPidAttachThread machine state wthread pid env
  | .pidDetachThread t => waycaScPidDetachThread machine state t
  | .threadSetAttr t attr setaffinity =>
      waycaScThreadSetAttr machine state t attr setaffinity
  | .groupCreate group malloc => waycaScGroupCreate machine state group malloc
  | .groupDestroy g => waycaScGroupDestroy machine state g
  | .groupSetAttr g attr => waycaScGroupSetAttr machine state g attr
  | .threadAttachGroup t g => waycaScThreadAttachGroup machine state t g
  | .threadDetachGroup t g => waycaScThreadDetachGroup machine state t g
  | .groupAttachGroup g father => waycaScGroupAttachGroup machine state g father
  | .groupDetachGroup g father => waycaScGroupDetachGroup machine state g father

/-- States that runs from start-up reach when every call is allowed in the
state it is made in. -/
abbrev Reaches (machine : Machine) (Allowed : State → Call → Prop) : State → Prop :=
  ReachableVia (step machine) Allowed State.start

abbrev Reachable (machine : Machine) : State → Prop :=
  Reaches machine fun _ _ => True

/-- The calls that make no group a member of another. -/
def Call.singleLevel : Call → Bool
  | .threadCreate _ _ _ => true
  | .groupCreate _ _ => true
  | .groupSetAttr _ _ => true
  | .threadAttachGroup _ _ => true
  | .threadDetachGroup _ _ => true
  | _ => false

/-- Four CPUs in two CCLs, with one NUMA node and one package. -/
def smallMachine : Machine where
  cpusInTotal := 4
  cpusInCcl := 2
  cpusInNode := 4
  cpusInPackage := 4
  threadsArraySize := 8
  groupsArraySize := 8
  cpusInTotal_pos := by decide

/-- A thread is created and the kernel reports all CPUs of the small machine. -/
def createOnSmall : Call :=
  .threadCreate true true ⟨true, 0, totalCpuSet smallMachine⟩

end WaycaScheduler
