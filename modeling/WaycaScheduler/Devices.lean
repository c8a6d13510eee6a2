import WaycaScheduler.DeviceInterrupts
import WaycaScheduler.TopologyAssembly

/-!
# The devices of the nodes

`topo_recursively_read_io_devices` walks over the directories of the devices.
A directory with a file `numa_node` is a device, and a PCI device or an SMMU is
entered under the node that the file names.  However the walk ends, a device is
found under the node whose number it carries.
-/

namespace WaycaScheduler

open CText Fallible

def EIO : ℤ := 5

def WAYCA_SC_PCI_SLOT_NAME_LEN_MAX : ℕ := 24

structure WaycaSmmu where
  smmuIdx : ℤ
  numaNode : ℤ
  baseAddr : ℕ
  name : List Char
  modalias : List Char
deriving DecidableEq

structure WaycaPciDevice where
  numaNode : ℤ
  smmuIdx : ℤ
  slotName : List Char
  pciClass : ℕ
  vendor : ℕ
  device : ℕ
  irqs : WaycaDeviceIrqs
deriving DecidableEq

structure NodeDevices where
  nodeIdx : ℕ
  smmus : List WaycaSmmu
  pcidevs : List WaycaPciDevice
deriving DecidableEq

/-! ## What the directory of a device shows -/

/-- The attributes of a directory.  A number is there if it can be read, and
`localCpulist` and `enable` are the results of reading the attributes. -/
structure IoDirectory where
  path : List Char
  subsystem : Option (List Char)
  numaNode : Option ℤ
  pciClass : Option ℕ
  vendor : Option ℕ
  device : Option ℕ
  localCpulist : ℤ
  interrupts : InterruptDirectory
  enable : ℤ
  iommuLink : Except ℤ (List Char)
  iommuNames : Except ℤ (List (List Char))
  modalias : Option (List Char)

/-- The entries of a directory, up to the end or to one that `lstat` fails for.
Skipped are `.`, `..` and the directories that cannot be opened. -/
inductive IoWalk where
  | done
  | failed (errno : ℤ)
  | skipped (rest : IoWalk)
  | file (name : List Char) (rest : IoWalk)
  | directory (child : IoDirectory) (inner rest : IoWalk)

def smmuDriver : List Char := ['a', 'r', 'm', '-', 's', 'm', 'm', 'u', '-', 'v', '3']

def smmuInstance : List Char := ['s', 'm', 'm', 'u', '3']

def numaNodeName : List Char := ['n', 'u', 'm', 'a', '_', 'n', 'o', 'd', 'e']

def smmuIndexIn (text : List Char) : Option ℤ :=
  (strstr smmuDriver text).map fun found =>
    (strtolAuto (found.drop (smmuDriver.length + 1))).bmod (2 ^ 32)

/-! ## Reading a device -/

/-- The node of the device, 0 where the file has none. -/
def numaNodeOf (dir : IoDirectory) : ℤ :=
  let nodeNb := dir.numaNode.getD (-1)
  if nodeNb < 0 then 0 else nodeNb

def findNode (nodes : List NodeDevices) (nodeNb : ℤ) : ℕ :=
  nodes.findIdx fun node => node.nodeIdx = nodeNb

def topoParsePciSmmu (dir : IoDirectory) (pcidev : WaycaPciDevice) : WaycaPciDevice × ℤ :=
  let pcidev := { pcidev with smmuIdx := -1 }
  match dir.iommuLink with
  | .error errno => (pcidev, if errno = ENOENT then 0 else -errno)
  | .ok link => ({ pcidev with smmuIdx := (smmuIndexIn link).getD (-1) }, 0)

def topoParsePciInfo (topo : WaycaTopo) (dir : IoDirectory) (pcidev : WaycaPciDevice) :
    WaycaPciDevice × ℤ :=
  let pcidev := { pcidev with
    pciClass := dir.pciClass.getD 0
    vendor := dir.vendor.getD 0
    device := dir.device.getD 0 }
  if dir.localCpulist ≠ 0 ∧ cpuEqualS topo.setsize topo.onlineCpuMap topo.cpuMap then
    (pcidev, dir.localCpulist)
  else
    let (irqs, ret) := topoParseDeviceIrqs dir.interrupts pcidev.irqs
    let pcidev := { pcidev with irqs := irqs }
    if ret < 0 then (pcidev, ret)
    else if dir.enable < 0 then (pcidev, dir.enable)
    else (pcidev, 0)

/-- The device is in the array of its node before its attributes are read. -/
def topoParsePciDevice (topo : WaycaTopo) (dir : IoDirectory) (nodes : List NodeDevices) :
    List NodeDevices × ℤ :=
  let pcidev : WaycaPciDevice :=
    { numaNode := numaNodeOf dir
      smmuIdx := 0
      slotName := ((afterLast '/' dir.path).getD []).take (WAYCA_SC_PCI_SLOT_NAME_LEN_MAX - 1)
      pciClass := 0
      vendor := 0
      device := 0
      irqs := ⟨[]⟩ }
  let i := findNode nodes (numaNodeOf dir)
  if i = nodes.length then (nodes, -EINVAL)
  else
    let (pcidev, ret) := topoParsePciInfo topo dir pcidev
    let (pcidev, ret) := if ret ≠ 0 then (pcidev, ret) else topoParsePciSmmu dir pcidev
    (nodes.modify i fun node => { node with pcidevs := node.pcidevs ++ [pcidev] }, ret)

def topoParseSmmuInfo (dir : IoDirectory) (smmu : WaycaSmmu) : WaycaSmmu × ℤ :=
  match strstr smmuDriver dir.path with
  | none => (smmu, - EIO)
  | some found =>
      let smmu := { smmu with
        name := found.take (WAYCA_SC_ATTR_STRING_LEN - 1)
        modalias := readText dir.modalias
        smmuIdx := (smmuIndexIn dir.path).getD smmu.smmuIdx }
      match dir.iommuNames with
      | .error errno => (smmu, -errno)
      | .ok names =>
          match names.findSome? (strstr smmuInstance) with
          | none => (smmu, 0)
          | some found =>
              ({ smmu with
                baseAddr := strtoullAuto (found.drop (smmuInstance.length + 1)) }, 0)

/-- The entry is made before the device is read, so a failed one stays. -/
def topoParseSmmu (dir : IoDirectory) (nodes : List NodeDevices) : List NodeDevices × ℤ :=
  let smmu : WaycaSmmu := ⟨0, numaNodeOf dir, 0, [], []⟩
  let i := findNode nodes (numaNodeOf dir)
  if i = nodes.length then (nodes, -EINVAL)
  else
    let (smmu, ret) := topoParseSmmuInfo dir smmu
    (nodes.modify i fun node => { node with smmus := node.smmus ++ [smmu] }, ret)

def isPciDeviceDir (dir : IoDirectory) : Bool :=
  (dir.subsystem.bind (strstr ['b', 'u', 's', '/', 'p', 'c', 'i'])).isSome

def topoParseIoDevice (topo : WaycaTopo) (dir : IoDirectory) (nodes : List NodeDevices) :
    List NodeDevices × ℤ :=
  if (strstr ['p', 'c', 'i'] dir.path).isSome && isPciDeviceDir dir then
    topoParsePciDevice topo dir nodes
  else if (strstr ['s', 'm', 'm', 'u'] dir.path).isSome then topoParseSmmu dir nodes
  else (nodes, 0)

/-- The results of the devices and of the inner directories are ignored. -/
def topoRecursivelyReadIoDevices (topo : WaycaTopo) :
    IoDirectory → IoWalk → List NodeDevices → List NodeDevices × ℤ
  | _, .done, nodes => (nodes, 0)
  | _, .failed errno, nodes => (nodes, -errno)
  | dir, .skipped rest, nodes => topoRecursivelyReadIoDevices topo dir rest nodes
  | dir, .file name rest, nodes =>
      topoRecursivelyReadIoDevices topo dir rest
        (if name = numaNodeName then (topoParseIoDevice topo dir nodes).1 else nodes)
  | dir, .directory child inner rest, nodes =>
      topoRecursivelyReadIoDevices topo dir rest
        (topoRecursivelyReadIoDevices topo child inner nodes).1

/-! ## What a device adds to its node -/

inductive IoDeviceType where
  | pci
  | smmu
  | other
deriving DecidableEq

def IoDirectory.type (dir : IoDirectory) : IoDeviceType :=
  if (strstr ['p', 'c', 'i'] dir.path).isSome && isPciDeviceDir dir then .pci
  else if (strstr ['s', 'm', 'm', 'u'] dir.path).isSome then .smmu
  else .other

/-- What is kept of a PCI device, up to the first attribute that cannot be
read. -/
def pciRecord (topo : WaycaTopo) (dir : IoDirectory) : WaycaPciDevice :=
  let (pcidev, ret) := topoParsePciInfo topo dir
    { numaNode := numaNodeOf dir
      smmuIdx := 0
      slotName := ((afterLast '/' dir.path).getD []).take (WAYCA_SC_PCI_SLOT_NAME_LEN_MAX - 1)
      pciClass := 0
      vendor := 0
      device := 0
      irqs := ⟨[]⟩ }
  (if ret ≠ 0 then (pcidev, ret) else topoParsePciSmmu dir pcidev).1

def smmuRecord (dir : IoDirectory) : WaycaSmmu :=
  (topoParseSmmuInfo dir ⟨0, numaNodeOf dir, 0, [], []⟩).1

def NodeDevices.enter (topo : WaycaTopo) (node : NodeDevices) (dir : IoDirectory) : NodeDevices :=
  if numaNodeOf dir ≠ node.nodeIdx then node
  else
    match dir.type with
    | .pci => { node with pcidevs := node.pcidevs ++ [pciRecord topo dir] }
    | .smmu => { node with smmus := node.smmus ++ [smmuRecord dir] }
    | .other => node

/-! ## Devices under their nodes -/

/-- The nodes are numbered, and each device is on the node that lists it. -/
structure Placed (nodes : List NodeDevices) : Prop where
  numbered : ∀ (i : ℕ) (node : NodeDevices), nodes[i]? = some node → node.nodeIdx = i
  smmus : ∀ (i : ℕ) (node : NodeDevices), nodes[i]? = some node →
    ∀ smmu ∈ node.smmus, smmu.numaNode = i
  pcidevs : ∀ (i : ℕ) (node : NodeDevices), nodes[i]? = some node →
    ∀ pcidev ∈ node.pcidevs, pcidev.numaNode = i

variable {nodes : List NodeDevices} {topo : WaycaTopo} {dir : IoDirectory}

theorem topoParsePciInfo_numaNode (pcidev : WaycaPciDevice) :
    (topoParsePciInfo topo dir pcidev).1.numaNode = pcidev.numaNode := by
  unfold topoParsePciInfo
  dsimp only
  split
  next => rfl
  next =>
    split
    next => rfl
    next =>
      split <;> rfl

theorem topoParsePciSmmu_numaNode (pcidev : WaycaPciDevice) :
    (topoParsePciSmmu dir pcidev).1.numaNode = pcidev.numaNode := by
  unfold topoParsePciSmmu
  dsimp only
  split <;> rfl

theorem topoParseSmmuInfo_numaNode (smmu : WaycaSmmu) :
    (topoParseSmmuInfo dir smmu).1.numaNode = smmu.numaNode := by
  unfold topoParseSmmuInfo
  split
  next => rfl
  next =>
    dsimp only
    split
    next => rfl
    next =>
      split <;> rfl

theorem pciRecord_numaNode : (pciRecord topo dir).numaNode = numaNodeOf dir := by
  unfold pciRecord
  dsimp only
  split
  next => rw [topoParsePciInfo_numaNode]
  next => rw [topoParsePciSmmu_numaNode, topoParsePciInfo_numaNode]

/-- The directories with a file `numa_node`, as the walk comes to them. -/
def IoWalk.devices : IoWalk → IoDirectory → List IoDirectory
  | .done, _ => []
  | .failed _, _ => []
  | .skipped rest, dir => rest.devices dir
  | .file name rest, dir => (if name = numaNodeName then [dir] else []) ++ rest.devices dir
  | .directory child inner rest, dir => inner.devices child ++ rest.devices dir

/-- The directories of a type that name the node. -/
def IoWalk.devicesOf (walk : IoWalk) (dir : IoDirectory) (type : IoDeviceType) (nodeIdx : ℕ) :
    List IoDirectory :=
  (walk.devices dir).filter fun found => found.type = type ∧ numaNodeOf found = nodeIdx

theorem NodeDevices.enter_nodeIdx (node : NodeDevices) :
    (node.enter topo dir).nodeIdx = node.nodeIdx := by
  unfold NodeDevices.enter
  split
  next => rfl
  next =>
    split <;> rfl

theorem foldl_enter (topo : WaycaTopo) (node : NodeDevices) (dirs : List IoDirectory) :
    dirs.foldl (NodeDevices.enter topo) node =
      { node with
        smmus := node.smmus ++ (dirs.filter fun dir =>
          dir.type = .smmu ∧ numaNodeOf dir = node.nodeIdx).map smmuRecord
        pcidevs := node.pcidevs ++ (dirs.filter fun dir =>
          dir.type = .pci ∧ numaNodeOf dir = node.nodeIdx).map (pciRecord topo) } := by
  induction dirs generalizing node with
  | nil => simp
  | cons dir dirs ih =>
      rw [List.foldl_cons, ih]
      by_cases hnode : numaNodeOf dir = node.nodeIdx
      · cases htype : dir.type with
        | pci => simp [NodeDevices.enter, hnode, htype]
        | smmu => simp [NodeDevices.enter, hnode, htype]
        | other => simp [NodeDevices.enter, hnode, htype]
      · simp [NodeDevices.enter, hnode]

theorem readIoDevices_eq_foldl (topo : WaycaTopo) (dir : IoDirectory) (walk : IoWalk)
    (nodes : List NodeDevices) :
    (topoRecursivelyReadIoDevices topo dir walk nodes).1 =
      (walk.devices dir).foldl (fun nodes found => (topoParseIoDevice topo found nodes).1)
        nodes := by
  induction walk generalizing dir nodes with
  | done => rfl
  | failed errno => rfl
  | skipped rest ih => exact ih dir nodes
  | file name rest ih =>
      rw [topoRecursivelyReadIoDevices, ih, IoWalk.devices, List.foldl_append]
      split <;> rfl
  | directory child inner rest ihInner ihRest =>
      rw [topoRecursivelyReadIoDevices, ihRest, ihInner, IoWalk.devices, List.foldl_append]

section

variable (hnumbered : ∀ (i : ℕ) (node : NodeDevices), nodes[i]? = some node → node.nodeIdx = i)

include hnumbered

theorem modify_findNode (nodeNb : ℤ) (change : NodeDevices → NodeDevices) :
    (if findNode nodes nodeNb = nodes.length then nodes
      else nodes.modify (findNode nodes nodeNb) change) =
      nodes.map fun node => if nodeNb ≠ node.nodeIdx then node else change node := by
  apply List.ext_getElem?
  intro j
  rw [List.getElem?_map]
  cases hnode : nodes[j]? with
  | none =>
      split
      next => exact hnode
      next =>
        rw [List.getElem?_modify, hnode]
        rfl
  | some node =>
      have hidx := hnumbered j node hnode
      split
      next hmissing =>
        have hother := List.findIdx_eq_length.mp hmissing node (List.mem_of_getElem? hnode)
        rw [hnode, Option.map_some, if_pos fun heq => of_decide_eq_false hother heq.symm]
      next hfound =>
        have hlt : findNode nodes nodeNb < nodes.length :=
          lt_of_le_of_ne List.findIdx_le_length hfound
        have hplace : (nodes[findNode nodes nodeNb].nodeIdx : ℤ) = nodeNb :=
          of_decide_eq_true (List.findIdx_getElem (w := hlt))
        rw [hnumbered _ _ (List.getElem?_eq_getElem hlt)] at hplace
        rw [List.getElem?_modify, hnode, Option.map_eq_map, Option.map_some, Option.map_some]
        congr 1
        by_cases hj : findNode nodes nodeNb = j
        · rw [if_pos hj, if_neg (by omega)]
        · rw [if_neg hj, if_pos (by omega)]

theorem parseIoDevice_eq (topo : WaycaTopo) (dir : IoDirectory) :
    (topoParseIoDevice topo dir nodes).1 = nodes.map (·.enter topo dir) := by
  unfold topoParseIoDevice NodeDevices.enter IoDirectory.type
  split
  next =>
    dsimp only
    rw [← modify_findNode hnumbered, topoParsePciDevice]
    split <;> rfl
  next =>
    split
    next =>
      dsimp only
      rw [← modify_findNode hnumbered, topoParseSmmu]
      split <;> rfl
    next => simp only [ite_self, List.map_id']

theorem foldl_parseIoDevice (topo : WaycaTopo) (dirs : List IoDirectory) :
    dirs.foldl (fun nodes dir => (topoParseIoDevice topo dir nodes).1) nodes =
      nodes.map fun node => dirs.foldl (NodeDevices.enter topo) node := by
  induction dirs generalizing nodes with
  | nil => exact (List.map_id' nodes).symm
  | cons dir dirs ih =>
      rw [List.foldl_cons, parseIoDevice_eq hnumbered, ih, List.map_map]
      · rfl
      · intro i node hnode
        rw [List.getElem?_map] at hnode
        obtain ⟨before, hbefore, rfl⟩ := Option.map_eq_some_iff.mp hnode
        rw [before.enter_nodeIdx, hnumbered i before hbefore]

theorem readIoDevices_eq (topo : WaycaTopo) (dir : IoDirectory) (walk : IoWalk) :
    (topoRecursivelyReadIoDevices topo dir walk nodes).1 = nodes.map fun node =>
      { node with
        smmus := node.smmus ++ (walk.devicesOf dir .smmu node.nodeIdx).map smmuRecord
        pcidevs := node.pcidevs ++
          (walk.devicesOf dir .pci node.nodeIdx).map (pciRecord topo) } := by
  rw [readIoDevices_eq_foldl, foldl_parseIoDevice hnumbered]
  exact List.map_congr_left fun node _ => foldl_enter topo node _

end

theorem IoWalk.numaNodeOf_devicesOf {walk : IoWalk} {type : IoDeviceType} {nodeIdx : ℕ}
    {found : IoDirectory} (hfound : found ∈ walk.devicesOf dir type nodeIdx) :
    numaNodeOf found = nodeIdx :=
  (of_decide_eq_true (List.mem_filter.mp hfound).2).2

theorem Placed.readIoDevices (hplaced : Placed nodes) (dir : IoDirectory) (walk : IoWalk) :
    Placed (topoRecursivelyReadIoDevices topo dir walk nodes).1 := by
  have hbefore : ∀ (i : ℕ) (node : NodeDevices),
      (topoRecursivelyReadIoDevices topo dir walk nodes).1[i]? = some node →
      ∃ before, nodes[i]? = some before ∧ before.nodeIdx = i ∧ node =
        { before with
          smmus := before.smmus ++ (walk.devicesOf dir .smmu i).map smmuRecord
          pcidevs := before.pcidevs ++ (walk.devicesOf dir .pci i).map (pciRecord topo) } := by
    intro i node hnode
    rw [readIoDevices_eq hplaced.numbered, List.getElem?_map] at hnode
    obtain ⟨before, hbefore, rfl⟩ := Option.map_eq_some_iff.mp hnode
    have hidx := hplaced.numbered i before hbefore
    exact ⟨before, hbefore, hidx, by rw [hidx]⟩
  constructor
  · intro i node hnode
    obtain ⟨before, -, hidx, rfl⟩ := hbefore i node hnode
    exact hidx
  · intro i node hnode smmu hsmmu
    obtain ⟨before, hi, -, rfl⟩ := hbefore i node hnode
    rcases List.mem_append.mp hsmmu with hold | hnew
    · exact hplaced.smmus i before hi smmu hold
    · obtain ⟨found, hfound, rfl⟩ := List.mem_map.mp hnew
      rw [smmuRecord, topoParseSmmuInfo_numaNode, IoWalk.numaNodeOf_devicesOf hfound]
  · intro i node hnode pcidev hpcidev
    obtain ⟨before, hi, -, rfl⟩ := hbefore i node hnode
    rcases List.mem_append.mp hpcidev with hold | hnew
    · exact hplaced.pcidevs i before hi pcidev hold
    · obtain ⟨found, hfound, rfl⟩ := List.mem_map.mp hnew
      rw [pciRecord_numaNode, IoWalk.numaNodeOf_devicesOf hfound]

structure DeviceTopo where
  nodes : List NodeDevices
  placed : Placed nodes

def DeviceTopo.read (devices : DeviceTopo) (topo : WaycaTopo) (dir : IoDirectory) (walk : IoWalk) :
    DeviceTopo where
  nodes := (topoRecursivelyReadIoDevices topo dir walk devices.nodes).1
  placed := devices.placed.readIoDevices dir walk

/-- However the walk ends, it has entered every device that it came to under the
node that the device names, once and in the order of the walk, also where an
attribute could not be read. -/
theorem devices_under_named_nodes
    (hnumbered : ∀ (i : ℕ) (node : NodeDevices), nodes[i]? = some node → node.nodeIdx = i)
    (topo : WaycaTopo) (dir : IoDirectory) (walk : IoWalk) :
    (topoRecursivelyReadIoDevices topo dir walk nodes).1 = nodes.map fun node =>
      { node with
        smmus := node.smmus ++ (walk.devicesOf dir .smmu node.nodeIdx).map smmuRecord
        pcidevs := node.pcidevs ++
          (walk.devicesOf dir .pci node.nodeIdx).map (pciRecord topo) } :=
  readIoDevices_eq hnumbered topo dir walk

/-- The directory of an SMMU on node 1. -/
def smmuDirectory : IoDirectory where
  path := smmuDriver ++ ['.', '2']
  subsystem := none
  numaNode := some 1
  pciClass := none
  vendor := none
  device := none
  localCpulist := 0
  interrupts := ⟨.ok [], .error ENOENT, none⟩
  enable := 0
  iommuLink := .error ENOENT
  iommuNames := .ok []
  modalias := none

/-- The walk fails behind the SMMU, which is under its node nevertheless. -/
theorem devices_under_named_nodes_smmu :
    (topoRecursivelyReadIoDevices .zeroed smmuDirectory (.file numaNodeName (.failed EIO))
      [⟨0, [], []⟩, ⟨1, [], []⟩]).1 =
        [⟨0, [], []⟩, ⟨1, [⟨2, 1, 0, smmuDriver ++ ['.', '2'], []⟩], []⟩] := by
  rw [devices_under_named_nodes]
  · decide
  · intro i node hnode
    cases i with
    | zero =>
        cases hnode
        rfl
    | succ i =>
        cases i with
        | zero =>
            cases hnode
            rfl
        | succ i => cases hnode

end WaycaScheduler
