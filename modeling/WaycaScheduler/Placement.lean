import WaycaScheduler.LibraryState

/-!
# Load accounting and the choice of CPUs

The first half of `lib/group.c`, and the two functions that hand CPUs out:
`wayca_group_assign_thread_resource` to a thread and
`wayca_group_request_resource_from_father` to a member group.

A `while` loop of the source is a function of fuel that gives `none` when the
fuel runs out; the searches that divide by `nr_cpus_per_topo` also give
`none` when it is zero.
-/

namespace WaycaScheduler

open Finset

def divRoundUp (x y : ℕ) : ℕ := (x + y - 1) / y

/-! ## `wayca_thread_update_load` -/

def updateLoadLoop (curSet : CpuSet) (load : ℤ) : ℕ → ℤ → (ℕ → ℤ) → Option (ℕ → ℤ)
  | 0, _, _ => none
  | fuel + 1, pos, loads =>
      if 0 ≤ pos then
        updateLoadLoop curSet load fuel (cpusetFindNextSet curSet pos)
          (Function.update loads pos.toNat (loads pos.toNat + load))
      else some loads

def waycaThreadUpdateLoad (machine : Machine) (state : State) (t : ThreadId) (add : Bool) :
    Option State :=
  let curSet := (state.thread t).curSet
  let cnt := cpuCount curSet
  if cnt = 0 then some state
  else
    let load : ℤ := divRoundUp machine.cpusInTotal cnt
    (updateLoadLoop curSet (if add then load else -load) (CPU_SETSIZE + 1)
      (cpusetFindFirstSet curSet) state.loads).map fun loads => { state with loads := loads }

/-! ## The searches -/

def findIdlestCoreLoop (loads : ℕ → ℤ) (cpuset : CpuSet) : ℕ → ℤ → ℤ → ℤ → Option ℤ
  | 0, _, _, _ => none
  | fuel + 1, pos, idlestCore, load =>
      if pos ≤ cpusetFindLastSet cpuset ∧ 0 ≤ pos then
        if loads pos.toNat < load then
          findIdlestCoreLoop loads cpuset fuel (cpusetFindNextSet cpuset pos) pos
            (loads pos.toNat)
        else
          findIdlestCoreLoop loads cpuset fuel (cpusetFindNextSet cpuset pos) idlestCore load
      else some idlestCore

/-- On an empty set the source reads the load before the first one and does
not use it. -/
def findIdlestCore (loads : ℕ → ℤ) (cpuset : CpuSet) : Option ℤ :=
  let pos := cpusetFindFirstSet cpuset
  findIdlestCoreLoop loads cpuset (CPU_SETSIZE + 1) pos pos (loads pos.toNat)

def setLoad (loads : ℕ → ℤ) (stride pos : ℕ) : ℤ :=
  ∑ i ∈ range stride, loads (pos + i)

def findIdlestSetLoop (loads : ℕ → ℤ) (stride : ℕ) (cpuset : CpuSet) :
    ℕ → ℤ → ℤ → ℤ → Option ℤ
  | 0, _, _, _ => none
  | fuel + 1, pos, idlestPos, load =>
      if pos ≤ cpusetFindLastSet cpuset then
        if cpuIsset pos cpuset = false then
          findIdlestSetLoop loads stride cpuset fuel (pos + stride) idlestPos load
        else if setLoad loads stride pos.toNat < load then
          findIdlestSetLoop loads stride cpuset fuel (pos + stride) pos
            (setLoad loads stride pos.toNat)
        else
          findIdlestSetLoop loads stride cpuset fuel (pos + stride) idlestPos load
      else some idlestPos

/-- The loop starts at the block of the first CPU; level 0 divides by zero. -/
def findIdlestSet (loads : ℕ → ℤ) (group : WaycaScGroup) (cpuset : CpuSet) :
    Option CpuSet :=
  let stride := group.nrCpusPerTopo
  if stride = 0 then none
  else
    let first := cpusetFindFirstSet cpuset
    let pos := first - first.tmod stride
    (findIdlestSetLoop loads stride cpuset (CPU_SETSIZE + 2) pos pos INT_MAX).map
      fun idlestPos => cpuSetRange idlestPos stride cpuZero

def findIncompleteSetLoop (total cpuset : CpuSet) (stride : ℕ) : ℕ → ℤ → Option ℤ
  | 0, _ => none
  | fuel + 1, pos =>
      if pos ≤ cpusetFindLastSet total then
        let tset := cpuAnd (cpuSetRange pos stride cpuZero) cpuset
        if cpuCount tset ≠ stride ∧ cpuCount tset ≠ 0 then some pos
        else findIncompleteSetLoop total cpuset stride fuel (pos + stride)
      else some (-ENODATA)

def findIncompleteSet (group : WaycaScGroup) (cpuset : CpuSet) : Option ℤ :=
  findIncompleteSetLoop group.total cpuset group.nrCpusPerTopo (CPU_SETSIZE + 2)
    (cpusetFindFirstSet group.total)

/-! ## `wayca_group_assign_thread_resource` -/

def availableSet (group : WaycaScGroup) : CpuSet :=
  cpuAnd (cpuXor cpuAll group.used) group.total

/-- `while (target_pos < anchor + nr && !CPU_ISSET(target_pos, ..)) target_pos += 1` -/
def scanAvailable (available : CpuSet) : ℕ → ℤ → ℤ
  | 0, pos => pos
  | left + 1, pos =>
      if cpuIsset pos available then pos else scanAvailable available left (pos + 1)

/-- The position of the next thread, and whether the assertion on the anchor
held. -/
def chooseTargetPos (loads : ℕ → ℤ) (group : WaycaScGroup) : Option (ℤ × Bool) :=
  let available := availableSet group
  if group.nrCpusPerTopo = 0 then none
  else if cpuCount available % group.nrCpusPerTopo ≠ 0 ∧
      hasFlag group.attr WT_GF_COMPACT then
    (findIncompleteSet group available).map fun anchor =>
      (scanAvailable available group.nrCpusPerTopo anchor, decide (0 ≤ anchor))
  else
    (findIdlestSet loads group available).bind fun idlest =>
      (findIdlestCore loads idlest).map fun pos => (pos, true)

/-- The first CPU of the topology set of a position. -/
def anchorOf (group : WaycaScGroup) (pos : ℤ) : ℤ :=
  pos - pos.tmod group.nrCpusPerTopo

def placeThread (group : WaycaScGroup) (thread : WaycaThread) (targetPos : ℤ) :
    WaycaThread :=
  let cpus :=
    if hasFlag group.attr WT_GF_PERCPU then cpuSet targetPos cpuZero
    else cpuSetRange (anchorOf group targetPos) group.nrCpusPerTopo cpuZero
  { thread with
    targetPos := (targetPos % 2 ^ 64).toNat
    curSet := cpus
    allowedSet := cpus }

/-- When the used CPUs are all the group has, the round is counted and a new
one begins. -/
def rollOver (group : WaycaScGroup) (used : CpuSet) : WaycaScGroup :=
  { group with
    used := if used = group.total then cpuZero else used
    rollOverCnts :=
      if used = group.total then group.rollOverCnts + 1 else group.rollOverCnts }

def bookTarget (group : WaycaScGroup) (allowedSet : CpuSet) (targetPos : ℤ) :
    WaycaScGroup :=
  rollOver group <|
    if hasFlag group.attr WT_GF_COMPACT then cpuSet targetPos group.used
    else if hasFlag group.attr WT_GF_PERCPU then
      cpuSetRange (anchorOf group targetPos) group.nrCpusPerTopo group.used
    else cpuOr group.used allowedSet

/-- `held` says that no assertion has failed. -/
structure Assigned where
  group : WaycaScGroup
  thread : WaycaThread
  held : Bool

def waycaGroupAssignThreadResource (loads : ℕ → ℤ) (group : WaycaScGroup)
    (thread : WaycaThread) : Option Assigned :=
  (chooseTargetPos loads group).map fun choice =>
    let placed := placeThread group thread choice.1
    ⟨bookTarget group placed.allowedSet choice.1, placed, choice.2⟩

/-! ## `wayca_group_request_resource_from_father` -/

/-- The father after handing out a block, and the block.  The number of
blocks that the source computes from the request is not used by it. -/
def waycaGroupRequestResourceFromFather (loads : ℕ → ℤ) (father : WaycaScGroup) :
    Option (WaycaScGroup × CpuSet) :=
  (findIdlestSet loads father (availableSet father)).map fun granted =>
    (rollOver father (cpuOr father.used granted), cpuOr cpuZero granted)

end WaycaScheduler
