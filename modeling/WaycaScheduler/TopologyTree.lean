import WaycaScheduler.DeviceLists
import WaycaScheduler.EntityCounts
import WaycaScheduler.Library.GrownForest
import WaycaScheduler.Library.ReturnCodes

/-!
# The tree of the topology

`build_topo` of `tools/wayca-sc-info/wayca_sc_topo.c` and the builders of the
elements.  A builder gets an element, asks the library, gives the element its
attributes and appends its children.  Every level numbers its children up to a
count of the library and takes those that are in a mask of the library.
`libxml2` is an ordered tree that does not run out of memory.
-/

namespace WaycaScheduler

open Fallible ReturnCodes SiblingForest

/-- `enum topo_level` -/
inductive TopoLevel where
  | sys
  | pkg
  | numa
  | ccl
  | core
  | cpu
  | intr
  | irq
  | pcidev
  | smmudev
deriving DecidableEq

/-- `has_idx` of `topo_elem` -/
def TopoLevel.hasIdx : TopoLevel → Bool
  | .pkg | .numa | .ccl | .core | .cpu => true
  | .sys | .intr | .irq | .pcidev | .smmudev => false

inductive PropName where
  | index
  | pIndex
  | memSize
  | l3Cache
  | l1iCache
  | l1dCache
  | l2Cache
  | slot
  | name
  | smmuIdx
  | classId
  | vendorId
  | deviceId
  | irqNr
  | baseAddr
  | modalias
  | irqNumber
  | chipName
  | type
deriving DecidableEq

/-- The content of an attribute, by its format: `%d`, `%dKB`, `0x%x` or `%s`. -/
inductive PropContent where
  | number (value : ℤ)
  | sizeKB (value : ℤ)
  | hex (value : ℕ)
  | text (value : List Char)
deriving DecidableEq

structure TopoElement where
  level : TopoLevel
  properties : List (PropName × PropContent)
deriving DecidableEq

def xmlNewProp (node : TopoElement) (prop : PropName) (content : PropContent) : TopoElement :=
  { node with properties := node.properties ++ [(prop, content)] }

def xmlGetProp (node : TopoElement) (prop : PropName) : Option PropContent :=
  (node.properties.find? (·.1 = prop)).map Prod.snd

def buildPropIndex (node : TopoElement) (id : ℤ) (indexName : PropName) : TopoElement :=
  xmlNewProp node indexName (.number id)

/-- A number is read back as it has been printed. -/
def getIndexFromProp (node : TopoElement) : Except ℤ ℤ :=
  match xmlGetProp node .index with
  | none => .error (-ENOENT)
  | some (.number index) => .ok index
  | some _ => .error (-EINVAL)

/-! ## What the builders read -/

/-- `struct wayca_sc_irq_info`, the chip and the type as numbers. -/
structure IrqInfo where
  irqNum : ℕ
  chipName : ℕ
  type : ℕ
  name : List Char
deriving DecidableEq

/-- What the tool is asked to show, and what the library knows beside the CPUs:
the devices of the nodes, and the interrupts or the error of their reading. -/
structure TreeInput where
  outputIrq : Bool
  outputDev : Bool
  devices : List NodeDevices
  irqs : Except ℤ (List IrqInfo)

abbrev Builder := Program TopoState ℤ Failure

def SIZEOF_CPU_SET_T : ℕ := 128

/-- `CPU_ISSET` -/
def cpuIssetT (cpu : ℕ) (mask : Finset ℕ) : Bool := cpuIssetS cpu SIZEOF_CPU_SET_T mask

/-- The element is told by its level. -/
def waycaScGetPhysicalId (topo : WaycaTopo) (elem : TopoLevel) (logicalId : ℤ) : Outcome ℤ :=
  match elem with
  | .pkg =>
      if topoIsValidPackage topo logicalId then do
        .ok (← elementAt topo.packages logicalId).physicalPackageId
      else .ok (-ENODATA)
  | .ccl =>
      if topoIsValidCcl topo logicalId then do
        .ok (← elementAt topo.ccls logicalId).clusterId
      else .ok (-ENODATA)
  | .core =>
      if topoIsValidCore topo logicalId then do
        .ok (← elementAt topo.cores logicalId).coreId
      else .ok (-ENODATA)
  | _ => .ok (-ENODATA)

def maskFrom (ask : TopoState → ℕ → Option (Finset ℕ) →
    Outcome ((ℤ × Option (Finset ℕ)) × TopoState)) : Builder (Finset ℕ) := do
  let answer ← call fun state => ask state SIZEOF_CPU_SET_T (some ∅)
  guardCode (decide (answer.1 < 0)) answer.1
  pure (answer.2.getD ∅)

def countFrom (ask : TopoState → ℤ × TopoState) : Builder ℤ := do
  let count ← query ask
  guardCode (decide (count < 0)) count
  pure count

/-! ## Children by index -/

/-- An element with its index and, where it has one, the physical index. -/
def topoBuildSingleElem (index : ℤ) (nextElem : TopoLevel) : Builder TopoElement :=
  let cNode : TopoElement := ⟨nextElem, []⟩
  if !nextElem.hasIdx then pure cNode
  else
    let cNode := buildPropIndex cNode index .index
    if nextElem = .ccl ∨ nextElem = .pkg ∨ nextElem = .core then do
      let pIndex ← call fun state =>
        (waycaScGetPhysicalId state.topo nextElem index).map (·, state)
      guardCode (decide (pIndex < 0)) pIndex
      pure (buildPropIndex cNode pIndex .pIndex)
    else pure (buildPropIndex cNode index .pIndex)

/-- The loop over the indices below `elem_nr`. -/
def topoBuildNextElem (mask : Finset ℕ) (nextElem : TopoLevel) :
    List ℕ → Builder (List TopoElement)
  | [] => pure []
  | i :: rest =>
      if !cpuIssetT i mask then topoBuildNextElem mask nextElem rest
      else do
        let child ← topoBuildSingleElem i nextElem
        let others ← topoBuildNextElem mask nextElem rest
        pure (child :: others)

section Builders

variable (sys : Sysfs) (recreate : TopoState → Outcome TopoState) (input : TreeInput)

/-! ## Cores, clusters and nodes -/

def corePropBuild (node : TopoElement) (cpuId : ℕ) : Builder TopoElement := do
  let l1i ← call fun state => waycaScGetL1iSize sys recreate state cpuId
  let l1d ← call fun state => waycaScGetL1dSize sys recreate state cpuId
  let l2 ← call fun state => waycaScGetL2Size sys recreate state cpuId
  pure (xmlNewProp (xmlNewProp (xmlNewProp node .l1iCache (.sizeKB l1i))
    .l1dCache (.sizeKB l1d)) .l2Cache (.sizeKB l2))

/-- The cache sizes are those of the first CPU of the core. -/
def coreElemBuild (node : TopoElement) : Builder (TopoElement × List TopoElement) := do
  let coreId ← compute (getIndexFromProp node)
  let mask ← maskFrom fun state => waycaScCoreCpuMask sys recreate state coreId
  let cNr ← countFrom waycaScCpusInTotal
  let first := ((List.range cNr.toNat).find? fun i => cpuIssetT i mask).getD cNr.toNat
  let node ← corePropBuild sys recreate node first
  let children ← topoBuildNextElem mask .cpu (List.range cNr.toNat)
  pure (node, children)

def cclElemBuild (node : TopoElement) : Builder (TopoElement × List TopoElement) := do
  let cclId ← compute (getIndexFromProp node)
  let mask ← maskFrom fun state => waycaScCclCoreMask sys recreate state cclId
  let cNr ← countFrom waycaScCoresInTotal
  let children ← topoBuildNextElem mask .core (List.range cNr.toNat)
  pure (node, children)

def l3SizeIn (mask : Finset ℕ) : List ℕ → ℤ → Builder ℤ
  | [], cacheSize => pure cacheSize
  | i :: rest, cacheSize =>
      if !cpuIssetT i mask then l3SizeIn mask rest cacheSize
      else do
        let cacheSize ← call fun state => waycaScGetL3Size sys recreate state i
        if 0 < cacheSize then pure cacheSize else l3SizeIn mask rest cacheSize

def numaPropBuild (numaNode : TopoElement) (numaId : ℤ) : Builder TopoElement := do
  let memSize ← call fun state =>
    (waycaScGetNodeMemSize state.topo numaId (some 0)).map (·, state)
  guardCode (decide (memSize.1 ≠ 0)) memSize.1
  let numaNode := xmlNewProp numaNode .memSize (.sizeKB (memSize.2.getD 0 : ℕ))
  let mask ← maskFrom fun state => waycaScNodeCpuMask sys recreate state numaId
  let numCpu ← countFrom waycaScCpusInTotal
  let cacheSize ← l3SizeIn sys recreate mask (List.range numCpu.toNat) (-1)
  pure (xmlNewProp numaNode .l3Cache (.sizeKB cacheSize))

/-- The element of a device, by the type that is found for its name. -/
def deviceElem (name : Option DeviceName) : Except ℤ TopoElement :=
  let (ret, devInfo) := waycaScGetDeviceInfo input.devices name (some .zeroed)
  if ret ≠ 0 then .error ret
  else
    match devInfo.map DeviceInfo.devType with
    | some .pci => .ok ⟨.pcidev, [(.slot, .text (name.getD []))]⟩
    | some .smmu => .ok ⟨.smmudev, [(.name, .text (name.getD []))]⟩
    | _ => .error (-ENOENT)

def deviceElems : List (Option DeviceName) → Except ℤ (List TopoElement)
  | [] => .ok []
  | name :: rest =>
      match deviceElem input name with
      | .error ret => .error ret
      | .ok element =>
          match deviceElems rest with
          | .error ret => .error ret
          | .ok others => .ok (element :: others)

def numaDevElemBuild (numaId : ℤ) : Builder (List TopoElement) :=
  match waycaScGetDeviceList input.devices numaId (some 0) none with
  | none => call fun _ => .error .badPointer
  | some (ret, devNr, _) =>
      if ret ≠ 0 then failWith ret
      else if devNr.getD 0 = 0 then pure []
      else
        match waycaScGetDeviceList input.devices numaId devNr
          (some (List.replicate (devNr.getD 0) none)) with
        | none => call fun _ => .error .badPointer
        | some (ret, devNr, names) =>
            if ret ≠ 0 then failWith ret
            else compute (deviceElems input ((names.getD []).take (devNr.getD 0)))

/-- The clusters of a node, or its cores where there is no cluster. -/
def numaChildren (numaId : ℤ) : Builder (List TopoElement) := do
  let cNr ← query waycaScCclsInTotal
  if cNr < 0 then do
    let cNr ← countFrom waycaScCoresInTotal
    let coreMask ← maskFrom fun state => waycaScNodeCoreMask sys recreate state numaId
    topoBuildNextElem coreMask .core (List.range cNr.toNat)
  else do
    let cclMask ← maskFrom fun state => waycaScNodeCclMask sys recreate state numaId
    topoBuildNextElem cclMask .ccl (List.range cNr.toNat)

def numaElemBuild (node : TopoElement) : Builder (TopoElement × List TopoElement) := do
  let numaId ← compute (getIndexFromProp node)
  let node ← numaPropBuild sys recreate node numaId
  let children ← numaChildren sys recreate numaId
  if !input.outputDev then pure (node, children)
  else do
    let devices ← numaDevElemBuild input numaId
    pure (node, children ++ devices)

/-! ## Packages and the system -/

def packageElemBuild (node : TopoElement) : Builder (TopoElement × List TopoElement) := do
  let packageId ← compute (getIndexFromProp node)
  let mask ← maskFrom fun state => waycaScPackageNodeMask sys recreate state packageId
  let numaNr ← countFrom waycaScNodesInTotal
  let children ← topoBuildNextElem mask .numa (List.range numaNr.toNat)
  pure (node, children)

def buildPackages : List ℕ → Builder (List TopoElement)
  | [] => pure []
  | i :: rest => do
      let child ← topoBuildSingleElem i .pkg
      let others ← buildPackages rest
      pure (child :: others)

/-- The packages, and the interrupts where they are asked for. -/
def systemElemBuild (node : TopoElement) : Builder (TopoElement × List TopoElement) := do
  let packageNr ← countFrom waycaScPackagesInTotal
  let packages ← buildPackages (List.range packageNr.toNat)
  if !input.outputIrq then pure (node, packages)
  else do
    let interrupt ← topoBuildSingleElem 0 .intr
    pure (node, packages ++ [interrupt])

/-! ## Interrupts and devices -/

def intrElemBuild (intr : TopoElement) : Builder (TopoElement × List TopoElement) :=
  match input.irqs with
  | .error ret => failWith ret
  | .ok irqs =>
      pure (intr, irqs.map fun irq => ⟨.irq, [(.irqNumber, .number irq.irqNum)]⟩)

def irqChipString : List (List Char) :=
  ["invalid".toList, "mbigen-v2".toList, "ITS-MSI".toList, "ITS-pMSI".toList, "GICv3".toList]

def irqTypeString : List (List Char) := ["invalid".toList, "edge".toList, "level".toList]

/-- `wayca_sc_get_irq_info` -/
def waycaScGetIrqInfo (irqNum : ℤ) : Except ℤ IrqInfo :=
  match input.irqs with
  | .error ret => .error ret
  | .ok irqs =>
      match irqs.find? fun irq => (irq.irqNum : ℤ) = irqNum with
      | none => .error (-ENOENT)
      | some irq => .ok irq

def irqPropBuild (node : TopoElement) (irqNum : ℤ) : Except ℤ TopoElement :=
  match waycaScGetIrqInfo input irqNum with
  | .error ret => .error ret
  | .ok irqInfo =>
      match irqChipString[irqInfo.chipName]?, irqTypeString[irqInfo.type]? with
      | some chip, some type =>
          .ok (xmlNewProp (xmlNewProp (xmlNewProp node .name (.text irqInfo.name))
            .chipName (.text chip)) .type (.text type))
      | _, _ => .error (-EINVAL)

def irqElemBuild (node : TopoElement) : Builder (TopoElement × List TopoElement) :=
  match xmlGetProp node .irqNumber with
  | some (.number irqNumber) =>
      compute ((irqPropBuild input node irqNumber).map (·, []))
  | some _ => failWith (-EINVAL)
  | none => failWith (-ENOENT)

/-- The builder of a device, which is found by the attribute that names it. -/
def devElemBuild (nameAttr : PropName) (props : TopoElement → DeviceInfo → TopoElement)
    (node : TopoElement) : Builder (TopoElement × List TopoElement) :=
  match xmlGetProp node nameAttr with
  | some (.text name) =>
      match waycaScGetDeviceInfo input.devices (some name) (some .zeroed) with
      | (0, some devInfo) => pure (props node devInfo, [])
      | (ret, _) => failWith ret
  | _ => failWith (-ENOENT)

/-- The element was made for a device of this type, so the union has its fields. -/
def pciProps (pciNode : TopoElement) (devInfo : DeviceInfo) : TopoElement :=
  let pciNode := xmlNewProp pciNode .smmuIdx (.number devInfo.smmuIdx)
  match devInfo.fields with
  | .pci device vendor pciClass _ nbIrq =>
      xmlNewProp (xmlNewProp (xmlNewProp (xmlNewProp pciNode .classId (.hex pciClass))
        .vendorId (.hex vendor)) .deviceId (.hex device)) .irqNr (.number nbIrq)
  | _ => pciNode

def smmuProps (smmuNode : TopoElement) (devInfo : DeviceInfo) : TopoElement :=
  let smmuNode := xmlNewProp smmuNode .smmuIdx (.number devInfo.smmuIdx)
  match devInfo.fields with
  | .smmu baseAddr modalias =>
      xmlNewProp (xmlNewProp smmuNode .baseAddr (.hex baseAddr)) .modalias (.text modalias)
  | _ => smmuNode

def pciDevElemBuild := devElemBuild input .slot pciProps

def smmuDevElemBuild := devElemBuild input .name smmuProps

def cpuElemBuild (node : TopoElement) : Builder (TopoElement × List TopoElement) :=
  pure (node, [])

/-- `elem_build` of `topo_elem` -/
def elemBuild (node : TopoElement) : Builder (TopoElement × List TopoElement) :=
  match node.level with
  | .sys => systemElemBuild input node
  | .pkg => packageElemBuild sys recreate node
  | .numa => numaElemBuild sys recreate input node
  | .ccl => cclElemBuild sys recreate node
  | .core => coreElemBuild sys recreate node
  | .cpu => cpuElemBuild node
  | .intr => intrElemBuild input node
  | .irq => irqElemBuild input node
  | .pcidev => pciDevElemBuild input node
  | .smmudev => smmuDevElemBuild input node

/-- The loop of `build_topo` over the siblings; `below` is the call for the
children, which is left out where there are none. -/
def buildSiblings (below : List TopoElement → Builder (Forest TopoElement)) :
    List TopoElement → Builder (Forest TopoElement)
  | [] => pure .nil
  | curNode :: siblings => do
      let (curNode, children) ← elemBuild sys recreate input curNode
      if children.isEmpty then do
        let next ← buildSiblings below siblings
        pure (.node curNode .nil next)
      else do
        let children ← below children
        let next ← buildSiblings below siblings
        pure (.node curNode children next)

/-- `build_topo`, with the depth to which it may call itself. -/
def buildTopo : ℕ → List TopoElement → Builder (Forest TopoElement)
  | 0 => fun _ => call fun _ => .error .outOfFuel
  | depth + 1 => buildSiblings sys recreate input (buildTopo depth)

/-- `build_topo_info` up to the document. -/
def buildTopoInfo (depth : ℕ) : Builder (Forest TopoElement) :=
  buildTopo sys recreate input depth [⟨.sys, []⟩]

end Builders

end WaycaScheduler
