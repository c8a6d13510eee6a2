import WaycaScheduler.Placement

/-!
# Operations on groups

The second half of `lib/group.c`: the member lists, the arrangement of a
group after its attribute or its father changed, and adding and deleting
members.  The list functions for threads and for groups have the same body,
so both are the operations of `OwnedLists` on the links of their kind.
-/

namespace WaycaScheduler

open IntrusiveList OwnedLists

variable (machine : Machine) (state : State)

/-! ## Member lists -/

def isThreadInGroup (g : GroupId) (t : ThreadId) : Option Bool :=
  search state.threadLinks.siblings t machine.threadsArraySize (state.threadLinks.first g)

def isGroupInFather (g father : GroupId) : Option Bool :=
  search state.groupLinks.siblings g machine.groupsArraySize (state.groupLinks.first father)

def maxTopoCpusInChildGroups (g : GroupId) : Option ℕ :=
  if (state.group g).nrGroups = 0 then some 0
  else
    forEach (fun _ child => (state.group child).siblings)
      (fun maxTopoCpus child => some (max maxTopoCpus (state.group child).nrCpusPerTopo))
      machine.groupsArraySize (state.group g).groups 0

/-! ## Arranging the resources of a group -/

/-- The required CPUs `0, stride, 2 * stride, ..` of a request. -/
def requiredCpuset (stride : ℕ) : ℕ → CpuSet
  | 0 => cpuZero
  | pos + 1 => cpuSet (pos * stride : ℕ) (requiredCpuset stride pos)

def waycaGroupRequestResource (g : GroupId) : Option (State × ℤ) :=
  let group := state.group g
  match group.father with
  | none => some (state.setGroup g { group with total := totalCpuSet machine }, 0)
  | some father => do
      let nrThreads := if group.nrThreads ≠ 0 then group.nrThreads.toNat else 4
      let required := requiredCpuset group.stride nrThreads
      let state := state.waycaScAssert (decide (group.used ≠ group.total))
      let state := state.waycaScAssert (decide (0 < cpuCount required))
      let (fatherAfter, granted) ←
        waycaGroupRequestResourceFromFather state.loads (state.group father)
      let state := state.setGroup father fatherAfter
      some (state.setGroup g { state.group g with total := granted }, 0)

/-- The `switch` on the topology bits of the attribute. -/
def topoCpus (machine : Machine) (attr : Attr) : Option ℤ :=
  let level := attr &&& topoMask
  if level = WT_GF_CPU then some 1
  else if level = WT_GF_CCL then some machine.cpusInCcl
  else if level = WT_GF_NUMA then some machine.cpusInNode
  else if level = WT_GF_PACKAGE then some machine.cpusInPackage
  else if level = WT_GF_ALL then some machine.cpusInTotal
  else none

/-- The attribute and the level size after the fall back to single CPUs, which
is taken when the machine does not have the level. -/
def arrangedLevel (machine : Machine) (attr : Attr) : Option (Attr × ℕ) :=
  (topoCpus machine attr).map fun cpus =>
    if cpus < 0 then ((attr &&& ~~~topoMask) ||| WT_GF_CPU, 1) else (attr, cpus.toNat)

def waycaGroupArrange (g : GroupId) : Option (State × ℤ) :=
  match arrangedLevel machine (state.group g).attr with
  | none => some (state, -EINVAL)
  | some (attr, nrCpusPerTopo) =>
      waycaGroupRequestResource machine
        (state.setGroup g
          { state.group g with
            attr := attr
            nrCpusPerTopo := nrCpusPerTopo
            stride := if hasFlag attr WT_GF_COMPACT then 1 else nrCpusPerTopo }) g

def waycaGroupInit (g : GroupId) : Option (State × ℤ) :=
  waycaGroupArrange machine
    (state.setGroup g
      { state.group g with
        threads := none
        nrThreads := 0
        siblings := none
        father := none
        rollOverCnts := 0
        used := cpuZero
        attr := defaultGroupAttr }) g

/-! ## Threads of a group -/

/-- `wayca_group_assign_thread_resource` on the objects of the state. -/
def assignThread (state : State) (g : GroupId) (t : ThreadId) : Option State :=
  (waycaGroupAssignThreadResource state.loads (state.group g) (state.thread t)).map
    fun assigned =>
      ((state.setGroup g assigned.group).setThread t assigned.thread).waycaScAssert
        assigned.held

def waycaGroupAddThread (g : GroupId) (t : ThreadId) : Option (State × ℤ) := do
  let inGroup ← isThreadInGroup machine state g t
  if inGroup then some (state, -EINVAL)
  else if (state.group g).nrGroups ≠ 0 then some (state, -EINVAL)
  else
    let state := state.waycaScAssert (decide ((state.thread t).siblings = none))
    let links ← state.threadLinks.insert machine.threadsArraySize g t
    let state ← assignThread (state.setThreadLinks links) g t
    some (state, 0)

/-- A member leaves: when no CPU is used, the round before is reopened. -/
def reopenRound (group : WaycaScGroup) : WaycaScGroup :=
  { group with
    used := if cpuCount group.used = 0 then cpuOr group.used group.total else group.used
    rollOverCnts :=
      if cpuCount group.used = 0 then group.rollOverCnts - 1 else group.rollOverCnts }

def releaseThread (group : WaycaScGroup) (thread : WaycaThread) : WaycaScGroup :=
  { reopenRound group with
    used :=
      if hasFlag group.attr WT_GF_COMPACT && !hasFlag group.attr WT_GF_PERCPU then
        cpuClr thread.targetPos (reopenRound group).used
      else cpuXor (reopenRound group).used thread.allowedSet }

def waycaGroupDeleteThread (g : GroupId) (t : ThreadId) : Option (State × ℤ) := do
  let inGroup ← isThreadInGroup machine state g t
  if !inGroup then some (state, -EINVAL)
  else
    let group := state.group g
    let state := state.waycaScAssert
      (decide (cpuCount group.used = 0 → 0 < group.rollOverCnts))
    let state := state.setGroup g (releaseThread group (state.thread t))
    let links ← state.threadLinks.remove machine.threadsArraySize g t
    some (state.setThreadLinks links, 0)

/-- The affinity call on the kernel has no effect on the library. -/
def waycaGroupRearrangeThread (t : ThreadId) : Option State :=
  waycaThreadUpdateLoad machine state t true

/-! ## Re-arranging a group and everything below it -/

def rearrangeMember (machine : Machine) (g : GroupId) (state : State) (t : ThreadId) :
    Option State := do
  let state ← waycaThreadUpdateLoad machine state t false
  let state ← assignThread state g t
  waycaGroupRearrangeThread machine state t

def exceedsFather (state : State) (g : GroupId) : Bool :=
  match (state.group g).father with
  | none => false
  | some father =>
      decide ((state.group father).nrCpusPerTopo ≤ (state.group g).nrCpusPerTopo)

/-- The first argument bounds the depth of the recursion. -/
def waycaGroupRearrangeGroup (machine : Machine) :
    ℕ → State → GroupId → Option (State × ℤ)
  | 0, _, _ => none
  | depth + 1, state, g =>
      if exceedsFather state g then some (state, -ERANGE)
      else do
        let maxTopoCpus ← maxTopoCpusInChildGroups machine state g
        if (state.group g).nrCpusPerTopo ≤ maxTopoCpus then some (state, -ERANGE)
        else
          let (state, ret) ← waycaGroupArrange machine state g
          if ret ≠ 0 then some (state, ret)
          else
            let state := state.setGroup g
              { state.group g with used := cpuZero, rollOverCnts := 0 }
            if (state.group g).nrThreads ≠ 0 then
              let state := state.waycaScAssert (decide ((state.group g).nrGroups = 0))
              let state ← forEach (fun state t => (state.thread t).siblings)
                (rearrangeMember machine g) machine.threadsArraySize
                (state.group g).threads state
              some (state, 0)
            else if (state.group g).nrGroups ≠ 0 then
              let state := state.waycaScAssert (decide ((state.group g).nrThreads = 0))
              let state ← forEach (fun state child => (state.group child).siblings)
                (fun state child =>
                  (waycaGroupRearrangeGroup machine depth state child).map Prod.fst)
                machine.groupsArraySize (state.group g).groups state
              some (state, 0)
            else some (state, 0)

/-- Five levels can lie below one another, and the call below the last one is
refused at once. -/
def rearrangeDepth : ℕ := 6

/-! ## Groups of a group -/

def waycaGroupAddGroup (g father : GroupId) : Option (State × ℤ) := do
  let inFather ← isGroupInFather machine state g father
  if inFather then some (state, -EINVAL)
  else if (state.group father).nrThreads ≠ 0 then some (state, -EINVAL)
  else
    let state := state.waycaScAssert (decide ((state.group g).siblings = none))
    let links ← state.groupLinks.insert machine.groupsArraySize father g
    let (state, ret) ←
      waycaGroupRearrangeGroup machine rearrangeDepth (state.setGroupLinks links) g
    if ret < 0 then
      let links ← state.groupLinks.remove machine.groupsArraySize father g
      some (state.setGroupLinks links, ret)
    else some (state, 0)

def releaseGroup (father group : WaycaScGroup) : WaycaScGroup :=
  { reopenRound father with used := cpuXor (reopenRound father).used group.total }

def waycaGroupDeleteGroup (g father : GroupId) : Option (State × ℤ) := do
  let inFather ← isGroupInFather machine state g father
  if !inFather then some (state, -EINVAL)
  else
    let group := state.group father
    let state := state.waycaScAssert
      (decide (cpuCount group.used = 0 → 0 < group.rollOverCnts))
    let state := state.setGroup father (releaseGroup group (state.group g))
    let links ← state.groupLinks.remove machine.groupsArraySize father g
    some (state.setGroupLinks links, 0)

end WaycaScheduler
