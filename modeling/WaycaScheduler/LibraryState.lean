import WaycaScheduler.CpuSet
import WaycaScheduler.Library.OwnedLists

/-!
# The state of the thread and group library

`lib/wayca_thread.h` and the static variables of `lib/threads.c`.  An object
lives as long as its slot in `wayca_threads_array` or `wayca_groups_array` is
not `NULL`, so a pointer to it is modelled by its slot number, `NULL` by `none`.
Reading an object whose slot is empty gives the memory it left behind.

Counters of type `int` are integers without wrap-around.  `asserts` records
whether every `WAYCA_SC_ASSERT` met so far held; a release build goes on after
a failed one, and so does the model.
-/

namespace WaycaScheduler

abbrev ThreadId := ℕ

abbrev GroupId := ℕ

/-! ## Error numbers and group attributes -/

def ENOMEM : ℤ := 12

def EBUSY : ℤ := 16

def EINVAL : ℤ := 22

def ERANGE : ℤ := 34

def ENODATA : ℤ := 61

def INT_MAX : ℤ := 2147483647

/-- `wayca_sc_group_attr_t` and `wayca_sc_thread_attr_t` -/
abbrev Attr := BitVec 64

def WT_GF_CPU : Attr := 0x00000001#64

def WT_GF_CCL : Attr := 0x00000004#64

def WT_GF_NUMA : Attr := 0x00000020#64

def WT_GF_PACKAGE : Attr := 0x00000040#64

def WT_GF_ALL : Attr := 0x00000400#64

def WT_GF_PERCPU : Attr := 0x00010000#64

def WT_GF_COMPACT : Attr := 0x00100000#64

def topoMask : Attr := 0xffff#64

/-- `attr & flag` as a condition. -/
def hasFlag (attr flag : Attr) : Bool := decide (attr &&& flag ≠ 0#64)

def defaultGroupAttr : Attr := WT_GF_CPU ||| WT_GF_COMPACT ||| WT_GF_PERCPU

/-! ## The machine -/

/-- What the library reads from the topology and from its environment: the
results of `wayca_sc_cpus_in_total()` and its siblings, where a level that
does not exist is a negative error number, and the lengths of the two
arrays. -/
structure Machine where
  cpusInTotal : ℕ
  cpusInCcl : ℤ
  cpusInNode : ℤ
  cpusInPackage : ℤ
  threadsArraySize : ℕ
  groupsArraySize : ℕ
  cpusInTotal_pos : 0 < cpusInTotal

/-- `total_cpu_set` as `wayca_thread_init` fills it. -/
def totalCpuSet (machine : Machine) : CpuSet :=
  cpuSetRange 0 machine.cpusInTotal cpuZero

/-! ## Objects -/

/-- `struct wayca_thread`; `startRoutine` says whether the pointer is set. -/
structure WaycaThread where
  attr : Attr
  targetPos : ℕ
  curSet : CpuSet
  allowedSet : CpuSet
  siblings : Option ThreadId
  group : Option GroupId
  startRoutine : Bool
deriving DecidableEq

/-- `struct wayca_sc_group` -/
structure WaycaScGroup where
  threads : Option ThreadId
  nrThreads : ℤ
  siblings : Option GroupId
  father : Option GroupId
  groups : Option GroupId
  nrGroups : ℤ
  used : CpuSet
  total : CpuSet
  attr : Attr
  stride : ℕ
  nrCpusPerTopo : ℕ
  rollOverCnts : ℤ
deriving DecidableEq

/-- The CPUs of the group and how they are divided are the same. -/
structure SameShape (start group : WaycaScGroup) : Prop where
  total_eq : group.total = start.total
  level_eq : group.nrCpusPerTopo = start.nrCpusPerTopo
  attr_eq : group.attr = start.attr

theorem SameShape.refl (group : WaycaScGroup) : SameShape group group := ⟨rfl, rfl, rfl⟩

theorem SameShape.trans {first second third : WaycaScGroup} (hfirst : SameShape first second)
    (hsecond : SameShape second third) : SameShape first third :=
  ⟨hsecond.total_eq.trans hfirst.total_eq, hsecond.level_eq.trans hfirst.level_eq,
    hsecond.attr_eq.trans hfirst.attr_eq⟩

/-- The memory of a thread after `memset(.., 0, ..)`. -/
def WaycaThread.zeroed : WaycaThread where
  attr := 0#64
  targetPos := 0
  curSet := cpuZero
  allowedSet := cpuZero
  siblings := none
  group := none
  startRoutine := false

/-- The memory of a group after `memset(.., 0, ..)`. -/
def WaycaScGroup.zeroed : WaycaScGroup where
  threads := none
  nrThreads := 0
  siblings := none
  father := none
  groups := none
  nrGroups := 0
  used := cpuZero
  total := cpuZero
  attr := 0#64
  stride := 0
  nrCpusPerTopo := 0
  rollOverCnts := 0

/-- `asserts` says that no assertion has failed. -/
structure State where
  thread : ThreadId → WaycaThread
  threadsArray : ThreadId → Bool
  group : GroupId → WaycaScGroup
  groupsArray : GroupId → Bool
  loads : ℕ → ℤ
  asserts : Bool

/-- The state `wayca_thread_init` leaves. -/
def State.start : State where
  thread := fun _ => .zeroed
  threadsArray := fun _ => false
  group := fun _ => .zeroed
  groupsArray := fun _ => false
  loads := fun _ => 0
  asserts := true

namespace State

def setThread (state : State) (t : ThreadId) (thread : WaycaThread) : State :=
  { state with thread := Function.update state.thread t thread }

def setGroup (state : State) (g : GroupId) (group : WaycaScGroup) : State :=
  { state with group := Function.update state.group g group }

/-- `WAYCA_SC_ASSERT(cond)` -/
def waycaScAssert (state : State) (cond : Bool) : State :=
  { state with asserts := state.asserts && cond }

section Fields

variable (state : State) (t : ThreadId) (g : GroupId) (thread : WaycaThread)
  (group : WaycaScGroup) (cond : Bool)

@[simp] theorem setThread_thread :
    (state.setThread t thread).thread = Function.update state.thread t thread := rfl

@[simp] theorem setThread_group : (state.setThread t thread).group = state.group := rfl

@[simp] theorem setThread_loads : (state.setThread t thread).loads = state.loads := rfl

@[simp] theorem setThread_asserts : (state.setThread t thread).asserts = state.asserts := rfl

@[simp] theorem setGroup_group :
    (state.setGroup g group).group = Function.update state.group g group := rfl

@[simp] theorem setGroup_thread : (state.setGroup g group).thread = state.thread := rfl

@[simp] theorem setGroup_loads : (state.setGroup g group).loads = state.loads := rfl

@[simp] theorem setGroup_asserts : (state.setGroup g group).asserts = state.asserts := rfl

@[simp] theorem waycaScAssert_thread : (state.waycaScAssert cond).thread = state.thread := rfl

@[simp] theorem waycaScAssert_group : (state.waycaScAssert cond).group = state.group := rfl

@[simp] theorem waycaScAssert_loads : (state.waycaScAssert cond).loads = state.loads := rfl

@[simp] theorem waycaScAssert_true : state.waycaScAssert true = state := by
  simp [waycaScAssert]

end Fields

/-! ## The two kinds of members -/

open OwnedLists

def threadLinks (state : State) : Links GroupId ThreadId where
  first g := (state.group g).threads
  count g := (state.group g).nrThreads
  siblings t := (state.thread t).siblings
  owner t := (state.thread t).group

def setThreadLinks (state : State) (links : Links GroupId ThreadId) : State :=
  { state with
    thread := fun t =>
      { state.thread t with siblings := links.siblings t, group := links.owner t }
    group := fun g =>
      { state.group g with threads := links.first g, nrThreads := links.count g } }

def groupLinks (state : State) : Links GroupId GroupId where
  first g := (state.group g).groups
  count g := (state.group g).nrGroups
  siblings g := (state.group g).siblings
  owner g := (state.group g).father

def setGroupLinks (state : State) (links : Links GroupId GroupId) : State :=
  { state with
    group := fun g =>
      { state.group g with
        groups := links.first g
        nrGroups := links.count g
        siblings := links.siblings g
        father := links.owner g } }

section LinkFields

variable (state : State) (threads : Links GroupId ThreadId) (groups : Links GroupId GroupId)

@[simp] theorem threadLinks_setThreadLinks :
    (state.setThreadLinks threads).threadLinks = threads := rfl

@[simp] theorem groupLinks_setGroupLinks : (state.setGroupLinks groups).groupLinks = groups := rfl

@[simp] theorem setThreadLinks_loads : (state.setThreadLinks threads).loads = state.loads := rfl

@[simp] theorem setGroupLinks_thread : (state.setGroupLinks groups).thread = state.thread := rfl

@[simp] theorem setThreadLinks_asserts :
    (state.setThreadLinks threads).asserts = state.asserts := rfl

@[simp] theorem setGroupLinks_setGroupLinks (later : Links GroupId GroupId) :
    (state.setGroupLinks groups).setGroupLinks later = state.setGroupLinks later := rfl

@[simp] theorem setGroupLinks_groupLinks : state.setGroupLinks state.groupLinks = state := rfl

end LinkFields

end State

end WaycaScheduler
