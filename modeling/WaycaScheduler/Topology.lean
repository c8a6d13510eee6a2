import WaycaScheduler.LibraryState
import WaycaScheduler.SizedCpuSet

/-!
# The CPU topology

`topo_init` reads the topology of the machine from sysfs, CPU by CPU.  A node,
cluster or package is created when the first CPU of it is met.  The node
directories and the cores follow once all CPUs are read.

When sysfs differs from the list it has read, `wayca_sc_is_cpu_online` throws
the topology away and builds it again, from inside `topo_init` as well as from
a query.  The functions below take this second construction as a parameter, and
`topoInit` ties the knot with fuel.
-/

namespace WaycaScheduler

def ENOENT : ℤ := 2

def WAYCA_SC_DEFAULT_KERNEL_MAX : ℕ := 2048

def WAYCA_SC_ATTR_STRING_LEN : ℕ := 256

/-! ## What sysfs shows -/

/-- A directory `cpu<n>/cache/index<k>`.  An attribute that cannot be read is
none, here and below; a list is the set of its numbers. -/
structure CacheAttributes where
  level : Option ℤ
  type : Option (List Char)
  size : Option (List Char)
  sharedCpuList : Option (Finset ℕ)

/-- A directory `cpu<n>` with the number of its first `node<k>` entry. -/
structure CpuAttributes where
  node : Option ℕ
  online : Option ℤ
  coreId : Option ℤ
  coreCpusList : Option (Finset ℕ)
  clusterId : Option ℤ
  clusterCpusList : Option (Finset ℕ)
  physicalPackageId : Option ℤ
  packageCpusList : Option (Finset ℕ)
  caches : List CacheAttributes

/-- A directory `node<k>`. -/
structure NodeAttributes where
  cpulist : Option (Finset ℕ)
  distance : Option (List ℤ)
  meminfo : Option ℕ

/-- What the files show while the topology is read. -/
structure Sysfs where
  kernelMax : Option ℕ
  possible : Option (Finset ℕ)
  online : Option (Finset ℕ)
  cpu : ℕ → Option CpuAttributes
  nodePossible : Option (Finset ℕ)
  node : ℕ → NodeAttributes
  /-- The walk over the I/O devices returns zero. -/
  ioDevices : Bool
  /-- What the local variable holds when `cpu<n>/online` cannot be read. -/
  unreadOnline : ℕ → ℤ
  /-- What the memory of a set holds before a list is read into it. -/
  unreadList : Finset ℕ

/-- An attribute of a CPU. -/
def Sysfs.cpuAttribute {α : Type} (sys : Sysfs) (cpu : ℕ)
    (field : CpuAttributes → Option α) : Option α :=
  (sys.cpu cpu).bind field

/-- `topo_path_read_cpulist` -/
def readCpulist (list : Option (Finset ℕ)) (maxcpus : ℕ) : Option (Finset ℕ) :=
  list.map (cpuSeen (cpuAllocSize maxcpus))

/-! ## The topology -/

structure WaycaCache where
  level : ℤ
  type : List Char
  cacheSize : List Char
deriving DecidableEq

def WaycaCache.zeroed : WaycaCache := ⟨0, [], []⟩

/-- A pointer to a node is the place of the node in `nodeObjects`, a pointer to
a cluster or a package is its place in the array. -/
structure WaycaCpu where
  cpuId : ℕ
  coreId : ℤ
  pCluster : Option ℕ
  pNumaNode : Option ℕ
  pPackage : Option ℕ
  coreCpusMap : Option (Finset ℕ)
  caches : List WaycaCache
deriving DecidableEq

structure WaycaCore where
  coreId : ℤ
  nCpus : ℕ
  coreCpusMap : Finset ℕ
deriving DecidableEq

structure WaycaCluster where
  clusterId : ℤ
  nCpus : ℕ
  cpuMap : Finset ℕ
  coreMap : Finset ℕ
deriving DecidableEq

structure WaycaNode where
  nodeIdx : ℕ
  nCpus : ℕ
  cpuMap : Finset ℕ
  coreMap : Finset ℕ
  clusterMap : Finset ℕ
  distance : Option (List ℤ)
  pMeminfo : Option ℕ
deriving DecidableEq

structure WaycaPackage where
  physicalPackageId : ℤ
  nCpus : ℕ
  cpuMap : Finset ℕ
  numaMap : Finset ℕ
deriving DecidableEq

/-- The arrays of cores, clusters and packages have as many elements as the
topology counts.  The array of nodes has a length of its own, and its elements
point into the nodes that have been allocated. -/
structure WaycaTopo where
  kernelMaxCpus : ℕ
  setsize : ℕ
  nCpus : ℕ
  cpuMap : Finset ℕ
  onlineCpuMap : Finset ℕ
  cpus : ℕ → Option WaycaCpu
  cores : List WaycaCore
  ccls : List WaycaCluster
  nNodes : ℕ
  nodeMap : Finset ℕ
  nodes : Option (List (Option ℕ))
  nodeObjects : List WaycaNode
  packages : List WaycaPackage

/-- The memory of the topology after `memset(.., 0, ..)`. -/
def WaycaTopo.zeroed : WaycaTopo where
  kernelMaxCpus := 0
  setsize := 0
  nCpus := 0
  cpuMap := ∅
  onlineCpuMap := ∅
  cpus := fun _ => none
  cores := []
  ccls := []
  nNodes := 0
  nodeMap := ∅
  nodes := none
  nodeObjects := []
  packages := []

/-- The topology and the variables of `topo.c` that outlive it. -/
structure TopoState where
  topo : WaycaTopo
  maxNodeIndex : ℤ
  maxCores : ℕ
  maxCcls : ℕ

def TopoState.start : TopoState := ⟨.zeroed, -1, 0, 0⟩

def TopoState.withTopo (state : TopoState) (topo : WaycaTopo) : TopoState :=
  { state with topo := topo }

/-- Why a call does not return: an access outside the array of nodes, an access
through a null pointer or outside another array, or no end in sight. -/
inductive Failure where
  | nodesAccess
  | badPointer
  | outOfFuel
deriving DecidableEq

abbrev Outcome (α : Type) := Except Failure α

/-- `ret = first(..); if (ret) return ret;` before the rest. -/
def andThen {α : Type} (first : Outcome (α × ℤ)) (rest : α → Outcome (α × ℤ)) :
    Outcome (α × ℤ) := do
  let (value, ret) ← first
  if ret ≠ 0 then .ok (value, ret) else rest value

def onTopo (step : WaycaTopo → Outcome (WaycaTopo × ℤ)) (state : TopoState) :
    Outcome (TopoState × ℤ) := do
  let (topo, ret) ← step state.topo
  .ok (state.withTopo topo, ret)

/-! ## Access to the elements -/

def WaycaTopo.cpuAt (topo : WaycaTopo) (cpu : ℕ) : Outcome WaycaCpu :=
  if cpu < topo.nCpus then
    match topo.cpus cpu with
    | some found => .ok found
    | none => .error .badPointer
  else .error .badPointer

def WaycaTopo.setCpu (topo : WaycaTopo) (cpu : ℕ) (value : WaycaCpu) : WaycaTopo :=
  { topo with cpus := Function.update topo.cpus cpu (some value) }

def WaycaTopo.modifyCpu (topo : WaycaTopo) (cpu : ℕ) (change : WaycaCpu → WaycaCpu) :
    Outcome WaycaTopo := do
  let found ← topo.cpuAt cpu
  .ok (topo.setCpu cpu (change found))

/-- `nodes[k]` -/
def WaycaTopo.nodeSlot (topo : WaycaTopo) (k : ℕ) : Outcome (Option ℕ) :=
  match topo.nodes.bind (·[k]?) with
  | some slot => .ok slot
  | none => .error .nodesAccess

def WaycaTopo.modifyNode (topo : WaycaTopo) (pointer : ℕ) (change : WaycaNode → WaycaNode) :
    WaycaTopo :=
  { topo with nodeObjects := topo.nodeObjects.modify pointer change }

def WaycaTopo.modifyCcl (topo : WaycaTopo) (pointer : ℕ)
    (change : WaycaCluster → WaycaCluster) : WaycaTopo :=
  { topo with ccls := topo.ccls.modify pointer change }

def deref {α : Type} (pointer : Option α) : Outcome α :=
  match pointer with
  | some target => .ok target
  | none => .error .badPointer

/-- The node that `nodes[k]` points to. -/
def WaycaTopo.nodeAt (topo : WaycaTopo) (k : ℕ) : Outcome WaycaNode := do
  let slot ← topo.nodeSlot k
  let pointer ← deref slot
  deref topo.nodeObjects[pointer]?

def topoIsValidCpu (topo : WaycaTopo) (cpuId : ℤ) : Bool :=
  decide (0 ≤ cpuId ∧ cpuId < topo.nCpus)

/-! ## The online check -/

section Construction

variable (sys : Sysfs) (recreate : TopoState → Outcome TopoState)

/-- `wayca_sc_is_cpu_online`; `recreate` is `topo_free` and `topo_init`. -/
def waycaScIsCpuOnline (state : TopoState) (cpu : ℤ) : Outcome (Bool × TopoState) :=
  if !topoIsValidCpu state.topo cpu then .ok (false, state)
  else if cpu = 0 then .ok (true, state)
  else
    let online := (sys.cpuAttribute cpu.toNat (·.online)).getD (sys.unreadOnline cpu.toNat)
    let cached := cpuIssetS cpu.toNat state.topo.setsize state.topo.onlineCpuMap
    if online = (if cached then 1 else 0) then .ok (cached, state)
    else do
      let state ← recreate state
      .ok (cpuIssetS cpu.toNat state.topo.setsize state.topo.onlineCpuMap, state)

/-! ## Reading a CPU -/

/-- `topo_expand_mem`, on elements.  The copy reads `oldSize` elements, whether
the old array has them or not. -/
def topoExpandMem (old : Option (List (Option ℕ))) (oldSize newSize : ℕ) :
    Outcome (List (Option ℕ)) :=
  match old with
  | none => .ok (List.replicate newSize none)
  | some slots =>
      if oldSize = 0 then .ok (List.replicate newSize none)
      else if slots.length < oldSize then .error .nodesAccess
      else .ok (slots.take oldSize ++ List.replicate (newSize - oldSize) none)

def WaycaNode.fresh (k : ℕ) : WaycaNode where
  nodeIdx := k
  nCpus := 0
  cpuMap := ∅
  coreMap := ∅
  clusterMap := ∅
  distance := none
  pMeminfo := none

/-- The array grows only past the largest index ever seen. -/
def growNodes (state : TopoState) (k : ℕ) : Outcome TopoState :=
  if (k : ℤ) > state.maxNodeIndex then do
    let slots ← topoExpandMem state.topo.nodes k (k + 1)
    .ok { state with
      maxNodeIndex := k
      topo := { state.topo with nodes := some slots } }
  else .ok state

def createNode (topo : WaycaTopo) (k : ℕ) : Outcome WaycaTopo :=
  if cpuIssetS k (cpuAllocSize topo.nCpus) topo.nodeMap then .ok topo
  else
    match topo.nodes with
    | none => .error .nodesAccess
    | some slots =>
        if k < slots.length then
          .ok { topo with
            nodes := some (slots.set k (some topo.nodeObjects.length))
            nodeObjects := topo.nodeObjects ++ [WaycaNode.fresh k]
            nodeMap := cpuSetS k (cpuAllocSize topo.nCpus) topo.nodeMap
            nNodes := topo.nNodes + 1 }
        else .error .nodesAccess

def addCpuToNode (topo : WaycaTopo) (k cpu : ℕ) : Outcome WaycaTopo := do
  let slot ← topo.nodeSlot k
  let pointer ← deref slot
  let topo := topo.modifyNode pointer fun node =>
    { node with cpuMap := cpuSetS cpu topo.setsize node.cpuMap, nCpus := node.nCpus + 1 }
  topo.modifyCpu cpu fun found => { found with pNumaNode := some pointer }

def topoParseCpuNodeInfo (state : TopoState) (cpu : ℕ) : Outcome (TopoState × ℤ) :=
  match sys.cpu cpu with
  | none => .ok (state, -ENOENT)
  | some attributes =>
      match attributes.node with
      | none => .ok (state, 0)
      | some k => do
          let state ← growNodes state k
          let topo ← createNode state.topo k
          let topo ← addCpuToNode topo k cpu
          .ok (state.withTopo topo, 0)

/-- Of a CPU that is offline the core is not read. -/
def coreInfo (cpu : ℕ) (online : Bool) (topo : WaycaTopo) : Outcome (WaycaTopo × ℤ) :=
  if !online then do
    let topo ← topo.modifyCpu cpu fun found =>
      { found with coreId := -1, coreCpusMap := none }
    .ok (topo, 0)
  else
    match sys.cpuAttribute cpu (·.coreId) with
    | none => .ok (topo, -ENOENT)
    | some coreId => do
        let topo ← topo.modifyCpu cpu fun found => { found with coreId := coreId }
        match readCpulist (sys.cpuAttribute cpu (·.coreCpusList)) topo.kernelMaxCpus with
        | none => .ok (topo, -EINVAL)
        | some list => do
            let topo ← topo.modifyCpu cpu fun found =>
              { found with coreCpusMap := some list }
            .ok (topo, 0)

def topoParseCpuCoreInfo (cpu : ℕ) (state : TopoState) : Outcome (TopoState × ℤ) := do
  let (online, state) ← waycaScIsCpuOnline sys recreate state cpu
  onTopo (coreInfo sys cpu online) state

def WaycaTopo.findCcl (topo : WaycaTopo) (clusterId : ℤ) : ℕ :=
  topo.ccls.findIdx fun ccl => ccl.clusterId = clusterId

/-- The entry is made before its list is read. -/
def createCcl (cpu : ℕ) (clusterId : ℤ) (topo : WaycaTopo) : Outcome (WaycaTopo × ℤ) :=
  match readCpulist (sys.cpuAttribute cpu (·.clusterCpusList)) topo.kernelMaxCpus with
  | none => .ok ({ topo with ccls := topo.ccls ++ [⟨0, 0, sys.unreadList, ∅⟩] }, -EINVAL)
  | some list => do
      let i := topo.ccls.length
      let ccl : WaycaCluster := ⟨clusterId, cpuCountS topo.setsize list, list, ∅⟩
      let topo := { topo with ccls := topo.ccls ++ [ccl] }
      let found ← topo.cpuAt cpu
      let pointer ← deref found.pNumaNode
      .ok (topo.modifyNode pointer fun node =>
        { node with clusterMap := cpuSetS i topo.setsize node.clusterMap }, 0)

def topoParseCpuClusterInfo (cpu : ℕ) (topo : WaycaTopo) : Outcome (WaycaTopo × ℤ) :=
  match sys.cpuAttribute cpu (·.clusterId) with
  | none => do
      let topo ← topo.modifyCpu cpu fun found => { found with pCluster := none }
      .ok (topo, 0)
  | some clusterId =>
      let i := topo.findCcl clusterId
      andThen (if i = topo.ccls.length then createCcl sys cpu clusterId topo else .ok (topo, 0))
        fun topo => do
          let topo ← topo.modifyCpu cpu fun found => { found with pCluster := some i }
          .ok (topo, 0)

def WaycaTopo.findPackage (topo : WaycaTopo) (physicalPackageId : ℤ) : ℕ :=
  topo.packages.findIdx fun package => package.physicalPackageId = physicalPackageId

def createPackage (cpu : ℕ) (physicalPackageId : ℤ) (topo : WaycaTopo) :
    Outcome (WaycaTopo × ℤ) :=
  match readCpulist (sys.cpuAttribute cpu (·.packageCpusList)) topo.kernelMaxCpus with
  | none =>
      .ok ({ topo with packages := topo.packages ++ [⟨0, 0, sys.unreadList, ∅⟩] }, -EINVAL)
  | some list =>
      .ok ({ topo with
        packages := topo.packages ++
          [⟨physicalPackageId, cpuCountS topo.setsize list, list, ∅⟩] }, 0)

def packageInfo (cpu : ℕ) (online : Bool) (topo : WaycaTopo) : Outcome (WaycaTopo × ℤ) :=
  if !online then do
    let topo ← topo.modifyCpu cpu fun found => { found with pPackage := none }
    .ok (topo, 0)
  else
    match sys.cpuAttribute cpu (·.physicalPackageId) with
    | none => .ok (topo, -ENOENT)
    | some physicalPackageId =>
        let i := topo.findPackage physicalPackageId
        andThen (if i = topo.packages.length then createPackage sys cpu physicalPackageId topo
            else .ok (topo, 0))
          fun topo => do
            let topo ← topo.modifyCpu cpu fun found => { found with pPackage := some i }
            .ok (topo, 0)

def topoParseCpuPkgInfo (cpu : ℕ) (state : TopoState) : Outcome (TopoState × ℤ) := do
  let (online, state) ← waycaScIsCpuOnline sys recreate state cpu
  onTopo (packageInfo sys cpu online) state

def readText (text : Option (List Char)) : List Char :=
  let text := (text.getD []).take (WAYCA_SC_ATTR_STRING_LEN - 1)
  if text.getLast? = some '\n' then text.dropLast else text

/-- A missing list fails the call, other files have defaults. -/
def topoParseCacheInfo (attributes : CacheAttributes) : WaycaCache × ℤ :=
  (⟨attributes.level.getD (-1), readText attributes.type, readText attributes.size⟩,
    if attributes.sharedCpuList = none then -ENOENT else 0)

def parseCaches : List CacheAttributes → List WaycaCache × ℤ
  | [] => ([], 0)
  | attributes :: rest =>
      let (cache, ret) := topoParseCacheInfo attributes
      if ret ≠ 0 then (cache :: rest.map fun _ => .zeroed, ret)
      else
        let (caches, ret) := parseCaches rest
        (cache :: caches, ret)

def cacheInfo (cpu : ℕ) (online : Bool) (topo : WaycaTopo) : Outcome (WaycaTopo × ℤ) := do
  let (caches, ret) :=
    if online then parseCaches (((sys.cpu cpu).map (·.caches)).getD []) else ([], 0)
  let topo ← topo.modifyCpu cpu fun found => { found with caches := caches }
  .ok (topo, ret)

def topoParseCpuCacheInfo (cpu : ℕ) (state : TopoState) : Outcome (TopoState × ℤ) := do
  let (online, state) ← waycaScIsCpuOnline sys recreate state cpu
  onTopo (cacheInfo sys cpu online) state

def WaycaCpu.fresh (cpu : ℕ) : WaycaCpu where
  cpuId := cpu
  coreId := 0
  pCluster := none
  pNumaNode := none
  pPackage := none
  coreCpusMap := none
  caches := []

def topoReadCpuTopology (cpu : ℕ) (state : TopoState) : Outcome (TopoState × ℤ) :=
  let state := state.withTopo (state.topo.setCpu cpu (WaycaCpu.fresh cpu))
  andThen (topoParseCpuNodeInfo sys state cpu) fun state =>
  andThen (topoParseCpuCoreInfo sys recreate cpu state) fun state =>
  andThen (onTopo (topoParseCpuClusterInfo sys cpu) state) fun state =>
  andThen (topoParseCpuPkgInfo sys recreate cpu state) fun state =>
  topoParseCpuCacheInfo sys recreate cpu state

/-! ## The parts of the construction -/

def topoAllocCpu (topo : WaycaTopo) : WaycaTopo × ℤ :=
  let kernelMaxCpus :=
    match sys.kernelMax with
    | some kernelMax => kernelMax + 1
    | none => WAYCA_SC_DEFAULT_KERNEL_MAX
  let topo := { topo with
    kernelMaxCpus := kernelMaxCpus
    setsize := cpuAllocSize kernelMaxCpus }
  match readCpulist sys.possible kernelMaxCpus with
  | none => (topo, -EINVAL)
  | some possible =>
      let topo := { topo with
        nCpus := cpuCountS topo.setsize possible
        cpuMap := possible
        cpus := fun _ => none }
      match readCpulist sys.online kernelMaxCpus with
      | none => (topo, -EINVAL)
      | some online => ({ topo with onlineCpuMap := online }, 0)

def topoAllocNodeMap (topo : WaycaTopo) : WaycaTopo × ℤ :=
  ({ topo with nodeMap := ∅ }, 0)

/-- The loop over the CPUs from `i` on.  A construction from inside the loop
may leave the topology without CPUs, but not with more of them. -/
def constructCpuLoop : ℕ → ℕ → TopoState → Outcome (TopoState × ℤ)
  | 0, _, state => .ok (state, 0)
  | remaining + 1, i, state =>
      if i < state.topo.nCpus then
        andThen (topoReadCpuTopology sys recreate i state) (constructCpuLoop remaining (i + 1))
      else .ok (state, 0)

def topoConstructCpuTopology (state : TopoState) : Outcome (TopoState × ℤ) :=
  constructCpuLoop sys recreate state.topo.nCpus 0 state

/-- The list of the node is compared with the CPUs met on it before. -/
def topoReadNodeTopology (topo : WaycaTopo) (k : ℕ) : Outcome (WaycaTopo × ℤ) := do
  let slot ← topo.nodeSlot k
  let pointer ← deref slot
  let node ← deref topo.nodeObjects[pointer]?
  let onlineCpuMap := cpuAndS topo.setsize topo.onlineCpuMap node.cpuMap
  let list := readCpulist (sys.node k).cpulist topo.kernelMaxCpus
  if list = none ∧ cpuCountS topo.setsize onlineCpuMap ≠ 0 then .ok (topo, -ENOENT)
  else if !cpuEqualS topo.setsize (list.getD sys.unreadList) onlineCpuMap then
    .ok (topo, -EINVAL)
  else
    match (sys.node k).distance.filter (topo.nNodes ≤ ·.length) with
    | none => .ok (topo, -EINVAL)
    | some distance =>
        let topo := topo.modifyNode pointer fun node =>
          { node with distance := some (distance.take topo.nNodes) }
        match (sys.node k).meminfo with
        | none => .ok (topo, -1)
        | some totalAvailKB =>
            .ok (topo.modifyNode pointer fun node =>
              { node with pMeminfo := some totalAvailKB }, 0)

/-- A package whose CPUs contain the online CPUs of the node gets the node. -/
def markPackage (setsize i : ℕ) (onlineCpuMap : Finset ℕ) (package : WaycaPackage) :
    WaycaPackage :=
  if cpuEqualS setsize (cpuAndS setsize package.cpuMap onlineCpuMap) onlineCpuMap then
    { package with numaMap := cpuSetS i setsize package.numaMap }
  else package

/-- The numbers below the count of the nodes are taken for the nodes. -/
def constructNumaLoop (setsize : ℕ) : List ℕ → WaycaTopo → Outcome (WaycaTopo × ℤ)
  | [], topo => .ok (topo, 0)
  | i :: rest, topo =>
      andThen (topoReadNodeTopology sys topo i) fun topo => do
        let node ← topo.nodeAt i
        let onlineCpuMap := cpuAndS topo.setsize topo.onlineCpuMap node.cpuMap
        if cpuCountS topo.setsize onlineCpuMap = 0 then constructNumaLoop setsize rest topo
        else
          constructNumaLoop setsize rest
            { topo with packages := topo.packages.map (markPackage setsize i onlineCpuMap) }

/-- When `node/possible` does not match, the function returns the zero with
which the list was read. -/
def topoConstructNumaTopology (topo : WaycaTopo) : Outcome (WaycaTopo × ℤ) :=
  let setsize := cpuAllocSize topo.nCpus
  match readCpulist sys.nodePossible topo.nCpus with
  | none => .ok (topo, -ENOENT)
  | some bitmask =>
      if !cpuEqualS setsize bitmask topo.nodeMap ∨ cpuCountS setsize bitmask ≠ topo.nNodes then
        .ok (topo, 0)
      else constructNumaLoop sys setsize (List.range topo.nNodes) topo

def WaycaTopo.findCore (topo : WaycaTopo) (coreId : ℤ) : ℕ :=
  topo.cores.findIdx fun core => core.coreId = coreId

/-- The core in the map of its cluster, where there are clusters. -/
def addCoreToCcl (topo : WaycaTopo) (j : ℕ) (pCluster : Option ℕ) : Outcome WaycaTopo :=
  if 0 < topo.ccls.length then do
    let pointer ← deref pCluster
    .ok (topo.modifyCcl pointer fun ccl =>
      { ccl with coreMap := cpuSetS j topo.setsize ccl.coreMap })
  else .ok topo

/-- The core is added to the cluster and to the node of its first CPU. -/
def createCore (cpu : WaycaCpu) (topo : WaycaTopo) : Outcome WaycaTopo := do
  let j := topo.cores.length
  let list ← deref cpu.coreCpusMap
  let core : WaycaCore := ⟨cpu.coreId, cpuCountS topo.setsize list, list⟩
  let topo ← addCoreToCcl { topo with cores := topo.cores ++ [core] } j cpu.pCluster
  let pointer ← deref cpu.pNumaNode
  .ok (topo.modifyNode pointer fun node =>
    { node with coreMap := cpuSetS j topo.setsize node.coreMap })

def constructCoreLoop : List ℕ → WaycaTopo → Outcome WaycaTopo
  | [], topo => .ok topo
  | i :: rest, topo => do
      let cpu ← topo.cpuAt i
      if cpu.coreId = -1 then constructCoreLoop rest topo
      else if topo.findCore cpu.coreId < topo.cores.length then constructCoreLoop rest topo
      else do
        let topo ← createCore cpu topo
        constructCoreLoop rest topo

def topoConstructCoreTopology (topo : WaycaTopo) : Outcome (WaycaTopo × ℤ) :=
  if topo.cores ≠ [] then .ok (topo, -1)
  else do
    let topo ← constructCoreLoop (List.range topo.nCpus) topo
    .ok (topo, 0)

/-! ## Initialisation -/

/-- The largest index seen and the maxima are kept. -/
def topoFree (state : TopoState) : TopoState := state.withTopo .zeroed

/-- The part of `topo_init` before its cleanup. -/
def topoConstruct (state : TopoState) : Outcome (TopoState × ℤ) :=
  andThen (onTopo (fun topo => .ok (topoAllocCpu sys topo)) (state.withTopo .zeroed))
    fun state =>
  andThen (onTopo (fun topo => .ok (topoAllocNodeMap topo)) state) fun state =>
  andThen (topoConstructCpuTopology sys recreate state) fun state =>
  andThen (onTopo (topoConstructNumaTopology sys) state) fun state =>
  andThen (onTopo topoConstructCoreTopology state) fun state =>
  .ok (state, if sys.ioDevices then 0 else -1)

/-- A construction that fails leaves an empty topology. -/
def topoInitWith (state : TopoState) : Outcome TopoState := do
  let (state, ret) ← topoConstruct sys recreate state
  .ok (if ret ≠ 0 then topoFree state else state)

end Construction

/-- `topo_init` -/
def topoInit (sys : Sysfs) : ℕ → TopoState → Outcome TopoState
  | 0, _ => .error .outOfFuel
  | fuel + 1, state => topoInitWith sys (fun state => topoInit sys fuel (topoFree state)) state

end WaycaScheduler
