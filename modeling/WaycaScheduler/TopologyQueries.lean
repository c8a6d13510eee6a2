import WaycaScheduler.Library.CText
import WaycaScheduler.TopologyReading

/-!
# Queries of the topology

A query first checks its argument, then asks for the state of one CPU or of
all of them, which may build the topology again, and then reads the topology.
The mask queries differ in what they check, in the number that gives the size
of the result and in the map they copy.
-/

namespace WaycaScheduler

open Fallible CText

/-! ## Valid arguments -/

def topoIsValidCore (topo : WaycaTopo) (coreId : ℤ) : Bool :=
  decide (0 ≤ coreId ∧ coreId < topo.cores.length)

def topoIsValidCcl (topo : WaycaTopo) (cclId : ℤ) : Bool :=
  decide (0 ≤ cclId ∧ cclId < topo.ccls.length)

def topoIsValidNode (topo : WaycaTopo) (nodeId : ℤ) : Bool :=
  decide (0 ≤ nodeId ∧ nodeId < topo.nNodes)

def topoIsValidPackage (topo : WaycaTopo) (packageId : ℤ) : Bool :=
  decide (0 ≤ packageId ∧ packageId < topo.packages.length)

/-- Sets `max_ccls` as a side effect. -/
def waycaScCclsInTotal (state : TopoState) : ℤ × TopoState :=
  if state.topo.ccls.length < 1 then (-ENODATA, state)
  else
    let cpuInCcl := state.topo.ccls.foldl (fun most ccl => max most ccl.nCpus) 0
    if 0 < cpuInCcl then
      let maxCcls := state.topo.nCpus / cpuInCcl
      (maxCcls, { state with maxCcls := maxCcls })
    else (-ENODATA, state)

def waycaScCpusInCcl (state : TopoState) : ℤ × TopoState :=
  if state.topo.ccls.length < 1 then (-ENODATA, state)
  else
    let (_, state) := waycaScCclsInTotal state
    if 0 < state.maxCcls then ((state.topo.nCpus / state.maxCcls : ℕ), state)
    else (-ENODATA, state)

section Queries

variable (sys : Sysfs) (recreate : TopoState → Outcome TopoState)

/-- A status that has changed starts a new construction. -/
def updateCpuStatus : List ℕ → TopoState → Outcome TopoState
  | [], state => .ok state
  | i :: rest, state => do
      let (_, state) ← waycaScIsCpuOnline sys recreate state i
      updateCpuStatus rest state

/-- `check_and_update_cpu_status`; the number of CPUs is taken once. -/
def checkAndUpdateCpuStatus (state : TopoState) : Outcome TopoState :=
  updateCpuStatus sys recreate (List.range state.topo.nCpus) state

/-- A mask query: the check of the argument, the number that gives the size and
the map that is copied. -/
def maskQuery (isValid : WaycaTopo → Bool) (count : WaycaTopo → ℕ)
    (map : WaycaTopo → Outcome (Finset ℕ)) (state : TopoState) (setsize : ℕ)
    (mask : Option (Finset ℕ)) : Outcome ((ℤ × Option (Finset ℕ)) × TopoState) :=
  match mask with
  | none => .ok ((-EINVAL, none), state)
  | some target =>
      if !isValid state.topo then .ok ((-EINVAL, some target), state)
      else do
        let state ← checkAndUpdateCpuStatus sys recreate state
        let validSetsize := cpuAllocSize (count state.topo)
        if setsize < validSetsize then .ok ((-EINVAL, some target), state)
        else do
          let source ← map state.topo
          let target := cpuZeroS setsize target
          .ok ((0, some (cpuOrS validSetsize target target source)), state)

def elementAt {α : Type} (array : List α) (id : ℤ) : Outcome α := deref array[id.toNat]?

def waycaScCoreCpuMask (state : TopoState) (coreId : ℤ) :=
  maskQuery sys recreate (topoIsValidCore · coreId) (·.nCpus)
    (fun topo => do .ok (← elementAt topo.cores coreId).coreCpusMap) state

def waycaScCclCpuMask (state : TopoState) (cclId : ℤ) :=
  maskQuery sys recreate (topoIsValidCcl · cclId) (·.nCpus)
    (fun topo => do .ok (← elementAt topo.ccls cclId).cpuMap) state

def waycaScCclCoreMask (state : TopoState) (cclId : ℤ) :=
  maskQuery sys recreate (topoIsValidCcl · cclId) (·.cores.length)
    (fun topo => do .ok (← elementAt topo.ccls cclId).coreMap) state

def waycaScNodeCpuMask (state : TopoState) (nodeId : ℤ) :=
  maskQuery sys recreate (topoIsValidNode · nodeId) (·.nCpus)
    (fun topo => do .ok (← topo.nodeAt nodeId.toNat).cpuMap) state

def waycaScNodeCoreMask (state : TopoState) (nodeId : ℤ) :=
  maskQuery sys recreate (topoIsValidNode · nodeId) (·.cores.length)
    (fun topo => do .ok (← topo.nodeAt nodeId.toNat).coreMap) state

def waycaScNodeCclMask (state : TopoState) (nodeId : ℤ) :=
  maskQuery sys recreate (topoIsValidNode · nodeId) (·.ccls.length)
    (fun topo => do .ok (← topo.nodeAt nodeId.toNat).clusterMap) state

def waycaScPackageCpuMask (state : TopoState) (packageId : ℤ) :=
  maskQuery sys recreate (topoIsValidPackage · packageId) (·.nCpus)
    (fun topo => do .ok (← elementAt topo.packages packageId).cpuMap) state

def waycaScPackageNodeMask (state : TopoState) (packageId : ℤ) :=
  maskQuery sys recreate (topoIsValidPackage · packageId) (·.nNodes)
    (fun topo => do .ok (← elementAt topo.packages packageId).numaMap) state

def foundAt (place length : ℕ) : ℤ := if place < length then place else -EINVAL

/-- A query about an online CPU; `offline` is what it returns for another one. -/
def onlineQuery (offline : ℤ) (answer : WaycaTopo → WaycaCpu → Outcome ℤ) (state : TopoState)
    (cpuId : ℤ) : Outcome (ℤ × TopoState) :=
  if !topoIsValidCpu state.topo cpuId then .ok (-EINVAL, state)
  else do
    let (online, state) ← waycaScIsCpuOnline sys recreate state cpuId
    if !online then .ok (offline, state)
    else do
      let cpu ← state.topo.cpuAt cpuId.toNat
      .ok (← answer state.topo cpu, state)

def waycaScGetCoreId (state : TopoState) (cpuId : ℤ) : Outcome (ℤ × TopoState) :=
  onlineQuery sys recreate (-ENOENT)
    (fun topo cpu => .ok (foundAt (topo.findCore cpu.coreId) topo.cores.length)) state cpuId

/-- Without clusters the query fails before the online check. -/
def waycaScGetCclId (state : TopoState) (cpuId : ℤ) : Outcome (ℤ × TopoState) :=
  if !topoIsValidCpu state.topo cpuId then .ok (-EINVAL, state)
  else
    let (count, state) := waycaScCpusInCcl state
    if count < 0 then .ok (-EINVAL, state)
    else
      onlineQuery sys recreate (-ENOENT) (fun topo cpu => do
        let pointer ← deref cpu.pCluster
        let ccl ← deref topo.ccls[pointer]?
        .ok (foundAt (topo.findCcl ccl.clusterId) topo.ccls.length)) state cpuId

/-- The node of a CPU is the same whether the CPU is online or not. -/
def waycaScGetNodeId (state : TopoState) (cpuId : ℤ) : Outcome (ℤ × TopoState) :=
  if !topoIsValidCpu state.topo cpuId then .ok (-EINVAL, state)
  else do
    let cpu ← state.topo.cpuAt cpuId.toNat
    let pointer ← deref cpu.pNumaNode
    let node ← deref state.topo.nodeObjects[pointer]?
    .ok (node.nodeIdx, state)

def waycaScGetPackageId (state : TopoState) (cpuId : ℤ) : Outcome (ℤ × TopoState) :=
  onlineQuery sys recreate (-ENOENT) (fun topo cpu => do
    let pointer ← deref cpu.pPackage
    let package ← deref topo.packages[pointer]?
    .ok (foundAt (topo.findPackage package.physicalPackageId) topo.packages.length)) state cpuId

/-! ## Cache sizes -/

/-- The number is kept in an `int`. -/
def parseCacheSize (size : List Char) : ℤ :=
  let (value, rest) := strtol size
  let cacheSize := value.bmod (2 ^ 32)
  if cacheSize < 0 ∨ skipChar 'K' rest = none then -EINVAL else cacheSize

def cacheSizeOf (level : ℤ) (type : List Char) (caches : List WaycaCache) : ℤ :=
  match caches.find? fun cache => cache.level = level ∧ cache.type = type with
  | some cache => parseCacheSize cache.cacheSize
  | none => -ENODATA

def cacheSizeQuery (level : ℤ) (type : List Char) :=
  onlineQuery sys recreate 0 fun _ cpu => .ok (cacheSizeOf level type cpu.caches)

def waycaScGetL1iSize := cacheSizeQuery sys recreate 1 "Instruction".toList

def waycaScGetL1dSize := cacheSizeQuery sys recreate 1 "Data".toList

def waycaScGetL2Size := cacheSizeQuery sys recreate 2 "Unified".toList

def waycaScGetL3Size := cacheSizeQuery sys recreate 3 "Unified".toList

end Queries

/-! ## Memory sizes -/

/-- `size` is what the caller's variable holds, none when its address is null. -/
def waycaScGetNodeMemSize (topo : WaycaTopo) (nodeId : ℤ) (size : Option ℕ) :
    Outcome (ℤ × Option ℕ) :=
  match size with
  | none => .ok (-EINVAL, none)
  | some before =>
      if !topoIsValidNode topo nodeId then .ok (-EINVAL, some before)
      else do
        let node ← topo.nodeAt nodeId.toNat
        let totalAvailKB ← deref node.pMeminfo
        .ok (0, some totalAvailKB)

/-! ## Queries on a consistent snapshot -/

section Consistent

variable {sys : Sysfs} {recreate : TopoState → Outcome TopoState} {state : TopoState}

theorem updateCpuStatus_of_agrees (hagrees : OnlineAgrees sys state.topo) (numbers : List ℕ) :
    updateCpuStatus sys recreate numbers state = .ok state := by
  induction numbers with
  | nil => rfl
  | cons i rest ih =>
      unfold updateCpuStatus
      by_cases hi : i < state.topo.nCpus
      · rw [isCpuOnline_of_agrees (hagrees.at hi) hi]
        exact ih
      · have hinvalid : topoIsValidCpu state.topo i = false := by
          apply decide_eq_false
          omega
        unfold waycaScIsCpuOnline
        rw [hinvalid]
        exact ih

theorem checkAndUpdate_of_agrees (hagrees : OnlineAgrees sys state.topo) :
    checkAndUpdateCpuStatus sys recreate state = .ok state :=
  updateCpuStatus_of_agrees hagrees _

/-- The query fills every mask that is large enough with this set. -/
def Reports (query : ℕ → Option (Finset ℕ) → Outcome ((ℤ × Option (Finset ℕ)) × TopoState))
    (state : TopoState) (count : ℕ) (mask : Finset ℕ) : Prop :=
  ∀ setsize target, cpuAllocSize count ≤ setsize → ∃ after,
    query setsize (some target) = .ok ((0, some after), state) ∧ cpuSeen setsize after = mask

theorem Reports.unique
    {query : ℕ → Option (Finset ℕ) → Outcome ((ℤ × Option (Finset ℕ)) × TopoState)} {count : ℕ}
    {first second : Finset ℕ} (hfirst : Reports query state count first)
    (hsecond : Reports query state count second) : first = second := by
  obtain ⟨after, hafter, hmask⟩ := hfirst _ ∅ le_rfl
  obtain ⟨other, hother, hotherMask⟩ := hsecond _ ∅ le_rfl
  rw [hafter] at hother
  cases hother
  rw [← hmask, hotherMask]

section Mask

variable {isValid : WaycaTopo → Bool} {count : WaycaTopo → ℕ}
  {map : WaycaTopo → Outcome (Finset ℕ)} {source : Finset ℕ}
  (hagrees : OnlineAgrees sys state.topo) (hvalid : isValid state.topo = true)
  (hmap : map state.topo = .ok source)

include hagrees hvalid hmap

/-- A mask query copies the bits of its own size. -/
theorem maskQuery_reports_seen :
    Reports (maskQuery sys recreate isValid count map state) state (count state.topo)
      (cpuSeen (cpuAllocSize (count state.topo)) source) := by
  intro setsize target hsize
  refine ⟨cpuOrS (cpuAllocSize (count state.topo)) (cpuZeroS setsize target)
    (cpuZeroS setsize target) source, ?_, cpuSeen_copy hsize target source⟩
  unfold maskQuery
  simp only [hvalid, Bool.not_true, Bool.false_eq_true, if_false]
  rw [checkAndUpdate_of_agrees hagrees]
  simp only [bind, Except.bind, not_lt.mpr hsize, if_false, hmap]

theorem maskQuery_reports (hfits : ∀ value ∈ source, value < count state.topo) :
    Reports (maskQuery sys recreate isValid count map state) state (count state.topo) source := by
  rw [← cpuSeen_of_fits fun value hvalue => lt_cpuAllocSize (hfits value hvalue)]
  exact maskQuery_reports_seen hagrees hvalid hmap

end Mask

theorem onlineQuery_of_agrees {offline : ℤ} {answer : WaycaTopo → WaycaCpu → Outcome ℤ}
    {cpu : ℕ} {found : WaycaCpu} (hagrees : OnlineAgrees sys state.topo)
    (hcpu : cpu < state.topo.nCpus) (honline : state.topo.isOnline cpu = true)
    (hfound : state.topo.cpus cpu = some found) :
    onlineQuery sys recreate offline answer state cpu =
      (do .ok (← answer state.topo found, state)) := by
  have hvalid : topoIsValidCpu state.topo cpu = true := valid_iff.mpr hcpu
  have hat : state.topo.cpuAt (cpu : ℤ).toNat = .ok found := by
    rw [Int.toNat_natCast, WaycaTopo.cpuAt, if_pos hcpu, hfound]
  unfold onlineQuery
  simp only [hvalid, Bool.not_true, Bool.false_eq_true, if_false]
  rw [isCpuOnline_of_agrees (hagrees.at hcpu) hcpu, honline]
  simp only [bind, Except.bind, Bool.not_true, Bool.false_eq_true, if_false, hat]

end Consistent

end WaycaScheduler
