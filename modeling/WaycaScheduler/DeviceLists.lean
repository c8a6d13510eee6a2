import WaycaScheduler.Devices

/-!
# Lists of devices and their data

`wayca_sc_get_device_list` counts the devices of one node or of all nodes, and
with an array also writes their names.  `wayca_sc_get_device_info` looks for a
name in all nodes.  The loops go over the nodes in the same order, the SMMUs of
a node before its PCI devices.
-/

namespace WaycaScheduler

variable {nodes : List NodeDevices}
variable {name : DeviceName} {numaNode : ℤ} {info : DeviceInfo}

abbrev DeviceName := List Char

/-- `for (k = 0; ..; k++, i++) name[i] = ..`; nothing when the array is too
short. -/
def writeNames : List DeviceName → ℕ → List (Option DeviceName) →
    Option (ℕ × List (Option DeviceName))
  | [], i, name => some (i, name)
  | next :: rest, i, name =>
      if i < name.length then writeNames rest (i + 1) (name.set i (some next)) else none

def writeNodes : List NodeDevices → ℕ → List (Option DeviceName) →
    Option (ℕ × List (Option DeviceName))
  | [], i, name => some (i, name)
  | node :: rest, i, name => do
      let (i, name) ← writeNames (node.smmus.map (·.name)) i name
      let (i, name) ← writeNames (node.pcidevs.map (·.slotName)) i name
      writeNodes rest i name

def countNodes (nodes : List NodeDevices) : ℕ :=
  nodes.foldl (fun num node => num + (node.pcidevs.length + node.smmus.length)) 0

/-- The nodes from `start_node` to `end_node`. -/
def nodesBetween (nodes : List NodeDevices) (startNode endNode : ℤ) : List NodeDevices :=
  (nodes.take (endNode + 1).toNat).drop startNode.toNat

/-- `wayca_sc_nodes_in_total` -/
def nodesInTotal (nodes : List NodeDevices) : ℤ :=
  if nodes.length < 1 then -ENODATA else nodes.length

/-- The result and what `num` and `name` point to afterwards. -/
def waycaScGetDeviceList (nodes : List NodeDevices) (numaNode : ℤ) (num : Option ℕ)
    (name : Option (List (Option DeviceName))) :
    Option (ℤ × Option ℕ × Option (List (Option DeviceName))) :=
  if numaNode ≥ nodesInTotal nodes ∨ num = none then some (-EINVAL, num, name)
  else
    let (startNode, endNode) :=
      if numaNode < 0 then (0, (nodes.length : ℤ) - 1) else (numaNode, numaNode)
    let visited := nodesBetween nodes startNode endNode
    match name with
    | none => some (0, some (countNodes visited), none)
    | some name => do
        let (_, name) ← writeNodes visited 0 name
        some (0, some (countNodes visited), some name)

inductive DeviceType where
  | inval
  | pci
  | smmu
deriving DecidableEq

/-- The union of the fields of the two types. -/
inductive DeviceFields where
  | zeroed
  | smmu (baseAddr : ℕ) (modalias : List Char)
  | pci (device vendor pciClass : ℕ) (irqNumbers : List ℕ) (nbIrq : ℕ)
deriving DecidableEq

structure DeviceInfo where
  name : Option DeviceName
  devType : DeviceType
  smmuIdx : ℤ
  numaNode : ℤ
  fields : DeviceFields
deriving DecidableEq

/-- The memory after `memset(.., 0, ..)`. -/
def DeviceInfo.zeroed : DeviceInfo := ⟨none, .inval, 0, 0, .zeroed⟩

def topoCopySmmuInfo (smmu : WaycaSmmu) : DeviceInfo where
  name := some smmu.name
  devType := .smmu
  smmuIdx := smmu.smmuIdx
  numaNode := smmu.numaNode
  fields := .smmu smmu.baseAddr smmu.modalias

def topoCopyPcidevInfo (pcidev : WaycaPciDevice) : DeviceInfo where
  name := some pcidev.slotName
  devType := .pci
  smmuIdx := pcidev.smmuIdx
  numaNode := pcidev.numaNode
  fields := .pci pcidev.device pcidev.vendor pcidev.pciClass pcidev.irqs.irqNumbers
    pcidev.irqs.nIrqs

def findDevice (name : DeviceName) : List NodeDevices → Option DeviceInfo
  | [] => none
  | node :: rest =>
      match node.smmus.find? (·.name = name) with
      | some smmu => some (topoCopySmmuInfo smmu)
      | none =>
          match node.pcidevs.find? (·.slotName = name) with
          | some pcidev => some (topoCopyPcidevInfo pcidev)
          | none => findDevice name rest

/-- The result and what `dev_info` points to afterwards. -/
def waycaScGetDeviceInfo (nodes : List NodeDevices) (name : Option DeviceName)
    (devInfo : Option DeviceInfo) : ℤ × Option DeviceInfo :=
  match devInfo, name with
  | some _, some name =>
      match findDevice name nodes with
      | some info => (0, some info)
      | none => (-ENOENT, some .zeroed)
  | devInfo, _ => (-EINVAL, devInfo)

/-! ## The devices in their order -/

def NodeDevices.infos (node : NodeDevices) : List DeviceInfo :=
  node.smmus.map topoCopySmmuInfo ++ node.pcidevs.map topoCopyPcidevInfo

def NodeDevices.names (node : NodeDevices) : List DeviceName :=
  node.smmus.map (·.name) ++ node.pcidevs.map (·.slotName)

theorem NodeDevices.infos_names (node : NodeDevices) :
    node.infos.map (·.name) = node.names.map some := by
  simp [infos, names, topoCopySmmuInfo, topoCopyPcidevInfo, Function.comp_def]

theorem findDevice_eq (name : DeviceName) (nodes : List NodeDevices) :
    findDevice name nodes = (nodes.flatMap NodeDevices.infos).find? (·.name = some name) := by
  induction nodes with
  | nil => rfl
  | cons node rest ih =>
      have hsmmus : (node.smmus.map topoCopySmmuInfo).find? (·.name = some name) =
          (node.smmus.find? (·.name = name)).map topoCopySmmuInfo := by
        rw [List.find?_map]
        simp [topoCopySmmuInfo]
      have hpcidevs : (node.pcidevs.map topoCopyPcidevInfo).find? (·.name = some name) =
          (node.pcidevs.find? (·.slotName = name)).map topoCopyPcidevInfo := by
        rw [List.find?_map]
        simp [topoCopyPcidevInfo]
      rw [List.flatMap_cons, List.find?_append, NodeDevices.infos, List.find?_append, hsmmus,
        hpcidevs, ← ih]
      rw [findDevice]
      cases node.smmus.find? (·.name = name) with
      | some smmu => rfl
      | none =>
          cases node.pcidevs.find? (·.slotName = name) with
          | some pcidev => rfl
          | none => rfl

/-! ## Counting and writing -/

theorem countNodes_eq (nodes : List NodeDevices) :
    countNodes nodes = (nodes.flatMap NodeDevices.names).length := by
  have hstart : ∀ start, nodes.foldl
      (fun num node => num + (node.pcidevs.length + node.smmus.length)) start =
      start + (nodes.flatMap NodeDevices.names).length := by
    induction nodes with
    | nil => exact fun _ => rfl
    | cons node rest ih =>
        intro start
        rw [List.foldl_cons, ih, List.flatMap_cons, List.length_append, NodeDevices.names,
          List.length_append, List.length_map, List.length_map]
        omega
  rw [countNodes, hstart, Nat.zero_add]

theorem writeNames_eq (names : List DeviceName) (written left : List (Option DeviceName)) :
    writeNames names written.length (written ++ left) = if names.length ≤ left.length then
        some (written.length + names.length, written ++ names.map some ++ left.drop names.length)
      else none := by
  induction names generalizing written left with
  | nil => simp [writeNames]
  | cons next rest ih =>
      cases left with
      | nil => simp [writeNames]
      | cons old later =>
          have hset : (written ++ old :: later).set written.length (some next) =
              (written ++ [some next]) ++ later := by
            rw [List.set_append_right _ _ le_rfl, Nat.sub_self, List.set_cons_zero,
              List.append_assoc, List.singleton_append]
          have hlater := ih (written ++ [some next]) later
          rw [List.length_append, List.length_singleton] at hlater
          unfold writeNames
          rw [if_pos (by simp), hset, hlater]
          simp only [List.length_cons, Nat.add_le_add_iff_right, List.map_cons, List.drop_succ_cons,
            List.append_assoc, Nat.add_comm 1, Nat.add_assoc, List.cons_append, List.nil_append]

theorem writeNames_append (first second : List DeviceName) (i : ℕ)
    (name : List (Option DeviceName)) :
    writeNames (first ++ second) i name = (writeNames first i name).bind fun result =>
      writeNames second result.1 result.2 := by
  induction first generalizing i name with
  | nil => rfl
  | cons next rest ih =>
      simp only [List.cons_append, writeNames]
      split
      next => exact ih _ _
      next => rfl

theorem writeNodes_eq (nodes : List NodeDevices) (i : ℕ) (name : List (Option DeviceName)) :
    writeNodes nodes i name = writeNames (nodes.flatMap NodeDevices.names) i name := by
  induction nodes generalizing i name with
  | nil => rfl
  | cons node rest ih =>
      rw [List.flatMap_cons, NodeDevices.names, List.append_assoc, writeNames_append]
      rw [writeNodes]
      cases writeNames (node.smmus.map (·.name)) i name with
      | none => rfl
      | some smmus =>
          dsimp only [bind, Option.bind]
          rw [writeNames_append]
          cases writeNames (node.pcidevs.map (·.slotName)) smmus.1 smmus.2 with
          | none => rfl
          | some pcidevs => exact ih _ _

/-! ## Lists and lookups agree -/

/-- The names listed for a node, or for all nodes if it is negative. -/
def listedNames (nodes : List NodeDevices) (numaNode : ℤ) : List DeviceName :=
  if numaNode < 0 then nodes.flatMap NodeDevices.names
  else (nodes[numaNode.toNat]?).elim [] NodeDevices.names

theorem visited_names (hnode : numaNode < nodes.length) :
    (nodesBetween nodes (if numaNode < 0 then 0 else numaNode)
        (if numaNode < 0 then (nodes.length : ℤ) - 1 else numaNode)).flatMap NodeDevices.names =
      listedNames nodes numaNode := by
  unfold nodesBetween listedNames
  split
  next =>
    rw [show ((nodes.length : ℤ) - 1 + 1).toNat = nodes.length by omega, List.take_length]
    rfl
  next hpos =>
    obtain ⟨k, rfl⟩ := Int.eq_ofNat_of_zero_le (Int.not_lt.mp hpos)
    have hk : k < nodes.length := by exact_mod_cast hnode
    rw [show ((k : ℤ) + 1).toNat = k + 1 by omega, Int.toNat_natCast,
      List.getElem?_eq_getElem hk, List.take_add_one, List.getElem?_eq_getElem hk,
      List.drop_left' (List.length_take_of_le hk.le)]
    exact List.append_nil _

theorem getDeviceList_eq (hnode : numaNode < nodes.length)
    (hsome : 0 < nodes.length) (num : ℕ) (name : Option (List (Option DeviceName))) :
    waycaScGetDeviceList nodes numaNode (some num) name = match name with
      | none => some (0, some (listedNames nodes numaNode).length, none)
      | some name =>
          if (listedNames nodes numaNode).length ≤ name.length then
            some (0, some (listedNames nodes numaNode).length,
              some ((listedNames nodes numaNode).map some ++
                name.drop (listedNames nodes numaNode).length))
          else none := by
  have hvalid : ¬ (numaNode ≥ nodesInTotal nodes ∨ some num = none) := by
    rw [nodesInTotal, if_neg (by omega)]
    simpa using hnode
  have hrange : (if numaNode < 0 then ((0 : ℤ), (nodes.length : ℤ) - 1) else (numaNode, numaNode)) =
      (if numaNode < 0 then 0 else numaNode,
        if numaNode < 0 then (nodes.length : ℤ) - 1 else numaNode) := by
    split <;> rfl
  unfold waycaScGetDeviceList
  rw [if_neg hvalid, hrange]
  simp only [countNodes_eq, writeNodes_eq, visited_names hnode]
  cases name with
  | none => rfl
  | some name =>
      have hwrite := writeNames_eq (listedNames nodes numaNode) [] name
      rw [List.nil_append, List.nil_append, List.length_nil] at hwrite
      simp only [hwrite]
      split <;> rfl

/-- The data of an SMMU of node `k`, field by field. -/
structure ShowsSmmu (k : ℕ) (smmu : WaycaSmmu) (info : DeviceInfo) : Prop where
  name : info.name = some smmu.name
  devType : info.devType = .smmu
  smmuIdx : info.smmuIdx = smmu.smmuIdx
  numaNode : info.numaNode = k
  fields : info.fields = .smmu smmu.baseAddr smmu.modalias

/-- The data of a PCI device of node `k`, field by field. -/
structure ShowsPcidev (k : ℕ) (pcidev : WaycaPciDevice) (info : DeviceInfo) : Prop where
  name : info.name = some pcidev.slotName
  devType : info.devType = .pci
  smmuIdx : info.smmuIdx = pcidev.smmuIdx
  numaNode : info.numaNode = k
  fields : info.fields = .pci pcidev.device pcidev.vendor pcidev.pciClass pcidev.irqs.irqNumbers
    pcidev.irqs.nIrqs

/-- Counts, lists and lookups for the names that each node lists.  The data of a
lookup are compared with the records of the device that is listed. -/
structure ListsAgree (nodes : List NodeDevices) (names : ℤ → List DeviceName) : Prop where
  counted : ∀ numaNode < (nodes.length : ℤ), ∀ num,
    waycaScGetDeviceList nodes numaNode (some num) none =
      some (0, some (names numaNode).length, none)
  written : ∀ numaNode < (nodes.length : ℤ), ∀ num name,
    waycaScGetDeviceList nodes numaNode (some num) (some name) =
      if (names numaNode).length ≤ name.length then
        some (0, some (names numaNode).length,
          some ((names numaNode).map some ++ name.drop (names numaNode).length))
      else none
  all : ∀ numaNode < 0, names numaNode =
    (List.range nodes.length).flatMap fun k : ℕ => names k
  resolved : ∀ numaNode < (nodes.length : ℤ), ∀ name ∈ names numaNode, ∀ devInfo, ∃ info,
    waycaScGetDeviceInfo nodes (some name) (some devInfo) = (0, some info) ∧ info.name = some name
  listed : ∀ (k : ℕ) node, nodes[k]? = some node →
    names k = node.smmus.map (·.name) ++ node.pcidevs.map (·.slotName)
  smmus : (names (-1)).Nodup → ∀ (k : ℕ) node, nodes[k]? = some node → ∀ smmu ∈ node.smmus,
    ∀ devInfo, ∃ info, waycaScGetDeviceInfo nodes (some smmu.name) (some devInfo) =
      (0, some info) ∧ ShowsSmmu k smmu info
  pcidevs : (names (-1)).Nodup → ∀ (k : ℕ) node, nodes[k]? = some node → ∀ pcidev ∈ node.pcidevs,
    ∀ devInfo, ∃ info, waycaScGetDeviceInfo nodes (some pcidev.slotName) (some devInfo) =
      (0, some info) ∧ ShowsPcidev k pcidev info
  unknown : ∀ name, (∀ numaNode < (nodes.length : ℤ), name ∉ names numaNode) → ∀ devInfo,
    waycaScGetDeviceInfo nodes (some name) (some devInfo) = (-ENOENT, some .zeroed)

theorem infos_map_name (nodes : List NodeDevices) : (nodes.flatMap NodeDevices.infos).map (·.name) =
      (nodes.flatMap NodeDevices.names).map some := by
  rw [List.map_flatMap, List.map_flatMap]
  congr 1
  funext node
  exact node.infos_names

theorem listedNames_subset
    (hname : name ∈ listedNames nodes numaNode) : name ∈ nodes.flatMap NodeDevices.names := by
  unfold listedNames at hname
  split at hname
  next => exact hname
  next =>
    cases hnode : nodes[numaNode.toNat]? with
    | none =>
        rw [hnode] at hname
        exact absurd hname List.not_mem_nil
    | some node =>
        rw [hnode] at hname
        exact List.mem_flatMap.mpr ⟨node, List.mem_of_getElem? hnode, hname⟩

theorem getDeviceInfo_of_mem (hname : name ∈ nodes.flatMap NodeDevices.names)
    (devInfo : DeviceInfo) :
    ∃ info ∈ nodes.flatMap NodeDevices.infos, info.name = some name ∧
      waycaScGetDeviceInfo nodes (some name) (some devInfo) = (0, some info) := by
  have hmem : some name ∈ (nodes.flatMap NodeDevices.infos).map (·.name) := by
    rw [infos_map_name]
    exact List.mem_map_of_mem hname
  obtain ⟨found, hfound, hsame⟩ := List.mem_map.mp hmem
  unfold waycaScGetDeviceInfo
  dsimp only
  rw [findDevice_eq]
  cases hfind : (nodes.flatMap NodeDevices.infos).find? (·.name = some name) with
  | none => exact absurd (decide_eq_true hsame) (List.find?_eq_none.mp hfind found hfound)
  | some info =>
      have hsame := List.find?_some hfind
      exact ⟨info, List.mem_of_find?_eq_some hfind, of_decide_eq_true hsame, rfl⟩

theorem getDeviceInfo_of_notMem
    (hname : name ∉ nodes.flatMap NodeDevices.names) (devInfo : DeviceInfo) :
    waycaScGetDeviceInfo nodes (some name) (some devInfo) = (-ENOENT, some .zeroed) := by
  have hnone : (nodes.flatMap NodeDevices.infos).find? (·.name = some name) = none := by
    rw [List.find?_eq_none]
    intro info hinfo hfound
    have hmem : some name ∈ (nodes.flatMap NodeDevices.infos).map (·.name) :=
      List.mem_map.mpr ⟨info, hinfo, of_decide_eq_true hfound⟩
    rw [infos_map_name] at hmem
    obtain ⟨other, hother, hsame⟩ := List.mem_map.mp hmem
    exact hname (Option.some.inj hsame ▸ hother)
  unfold waycaScGetDeviceInfo
  dsimp only
  rw [findDevice_eq, hnone]

/-- Names without repetition are resolved to the device they belong to. -/
theorem getDeviceInfo_of_nodup (hnodup : (nodes.flatMap NodeDevices.names).Nodup)
    (hinfo : info ∈ nodes.flatMap NodeDevices.infos) (hname : info.name = some name)
    (devInfo : DeviceInfo) :
    waycaScGetDeviceInfo nodes (some name) (some devInfo) = (0, some info) := by
  have hkeys : ((nodes.flatMap NodeDevices.infos).map (·.name)).Nodup := by
    rw [infos_map_name]
    exact hnodup.map (Option.some_injective _)
  have hmem : some name ∈ (nodes.flatMap NodeDevices.names).map some := by
    rw [← infos_map_name, ← hname]
    exact List.mem_map_of_mem hinfo
  obtain ⟨other, hother, hsame⟩ := List.mem_map.mp hmem
  rw [Option.some.inj hsame] at hother
  obtain ⟨found, hfound, hfoundName, hreturns⟩ := getDeviceInfo_of_mem hother devInfo
  have hsame : found = info :=
    List.inj_on_of_nodup_map hkeys hfound hinfo (hfoundName.trans hname.symm)
  rw [hreturns, hsame]

theorem flatMap_eq_range {α β : Type} (values : α → List β) (list : List α) :
    list.flatMap values = (List.range list.length).flatMap fun k => (list[k]?).elim [] values := by
  rw [List.flatMap_def, List.flatMap_def]
  congr 1
  apply List.ext_getElem
  · simp
  · intro k hk _
    have hlt : k < list.length := by simpa using hk
    simp [hlt]

theorem device_lists_and_lookups_agree (devices : DeviceTopo) (hsome : 0 < devices.nodes.length) :
    ∃ names, ListsAgree devices.nodes names := by
  have hall : listedNames devices.nodes (-1) = devices.nodes.flatMap NodeDevices.names := rfl
  have hunder : ∀ k : ℕ, listedNames devices.nodes k =
      (devices.nodes[k]?).elim [] NodeDevices.names := by
    intro k
    rw [listedNames, if_neg (by omega), Int.toNat_natCast]
  have hinfos : ∀ (k : ℕ) node, devices.nodes[k]? = some node → ∀ info ∈ node.infos,
      info ∈ devices.nodes.flatMap NodeDevices.infos := fun k node hnode info hinfo =>
    List.mem_flatMap.mpr ⟨node, List.mem_of_getElem? hnode, hinfo⟩
  refine ⟨listedNames devices.nodes, ?_, ?_, ?_, ?_, ?_, ?_, ?_, ?_⟩
  · intro numaNode hnode num
    exact getDeviceList_eq hnode hsome num none
  · intro numaNode hnode num name
    exact getDeviceList_eq hnode hsome num (some name)
  · intro numaNode hneg
    simp only [hunder]
    rw [listedNames, if_pos hneg]
    exact flatMap_eq_range _ _
  · intro numaNode hnode name hname devInfo
    obtain ⟨info, -, hsame, hreturns⟩ := getDeviceInfo_of_mem (listedNames_subset hname) devInfo
    exact ⟨info, hreturns, hsame⟩
  · intro k node hnode
    rw [hunder, hnode]
    rfl
  · intro hnodup k node hnode smmu hsmmu devInfo
    have hinfo : topoCopySmmuInfo smmu ∈ node.infos :=
      List.mem_append_left _ (List.mem_map_of_mem hsmmu)
    exact ⟨_, getDeviceInfo_of_nodup (hall ▸ hnodup) (hinfos k node hnode _ hinfo) rfl devInfo,
      rfl, rfl, rfl, devices.placed.smmus k node hnode smmu hsmmu, rfl⟩
  · intro hnodup k node hnode pcidev hpcidev devInfo
    have hinfo : topoCopyPcidevInfo pcidev ∈ node.infos :=
      List.mem_append_right _ (List.mem_map_of_mem hpcidev)
    exact ⟨_, getDeviceInfo_of_nodup (hall ▸ hnodup) (hinfos k node hnode _ hinfo) rfl devInfo,
      rfl, rfl, rfl, devices.placed.pcidevs k node hnode pcidev hpcidev, rfl⟩
  · intro name hname devInfo
    exact getDeviceInfo_of_notMem (hall ▸ hname (-1) (by omega)) devInfo

/-- Two nodes, the second one with a PCI device. -/
def oneDeviceTopo : DeviceTopo where
  nodes := [⟨0, [], []⟩, ⟨1, [], [⟨1, -1, ['e', 't', 'h'], 2, 3, 4, ⟨[5]⟩⟩]⟩]
  placed := by
    have hnodes : ∀ (i : ℕ) (node : NodeDevices),
        ([⟨0, [], []⟩, ⟨1, [], [⟨1, -1, ['e', 't', 'h'], 2, 3, 4, ⟨[5]⟩⟩]⟩] :
          List NodeDevices)[i]? = some node →
        node.nodeIdx = i ∧ (∀ smmu ∈ node.smmus, smmu.numaNode = i) ∧
          ∀ pcidev ∈ node.pcidevs, pcidev.numaNode = i := by
      intro i node hnode
      cases i with
      | zero =>
          cases hnode
          decide
      | succ i =>
          cases i with
          | zero =>
              cases hnode
              decide
          | succ i => cases hnode
    exact ⟨fun i node hnode => (hnodes i node hnode).1,
      fun i node hnode => (hnodes i node hnode).2.1,
      fun i node hnode => (hnodes i node hnode).2.2⟩

theorem device_lists_and_lookups_agree_one_device :
    waycaScGetDeviceList oneDeviceTopo.nodes (-1) (some 0) none = some (0, some 1, none) ∧
      ∃ names, ListsAgree oneDeviceTopo.nodes names :=
  ⟨rfl, device_lists_and_lookups_agree oneDeviceTopo (by decide)⟩

end WaycaScheduler
