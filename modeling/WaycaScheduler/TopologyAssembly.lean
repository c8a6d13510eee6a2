import WaycaScheduler.TopologyTables

/-!
# The topology that a construction leaves

Behind the CPUs the construction reads the directories of the nodes and puts
the cores together.  Both leave what the CPUs have brought as it is, apart
from the maps they fill themselves.  `TablesBuilt` is what holds of the tables
at the end, and `Built` what holds of them and of the nodes when the node
numbers fit.
-/

namespace WaycaScheduler

open Fallible KeyedTable

variable {k setsize : ℕ} {numbers : List ℕ}
variable {recreate : TopoState → Outcome TopoState} {change : WaycaNode → WaycaNode}
  {state final : TopoState} {middle : WaycaTopo}

variable {sys : Sysfs} {n i : ℕ} {online : Finset ℕ} {nodeOf : ℕ → ℕ}
  {topo next : WaycaTopo}

/-! ## What the later steps keep -/

def WaycaNode.cpuPart (node : WaycaNode) : ℕ × ℕ × Finset ℕ × Finset ℕ :=
  (node.nodeIdx, node.nCpus, node.cpuMap, node.clusterMap)

def WaycaCluster.cpuPart (ccl : WaycaCluster) : ℤ × ℕ × Finset ℕ :=
  (ccl.clusterId, ccl.nCpus, ccl.cpuMap)

def WaycaPackage.cpuPart (package : WaycaPackage) : ℤ × ℕ × Finset ℕ :=
  (package.physicalPackageId, package.nCpus, package.cpuMap)

/-- What the later passes leave of the tables of the CPUs. -/
structure KeepsTables (topo next : WaycaTopo) : Prop where
  kernelMaxCpus : next.kernelMaxCpus = topo.kernelMaxCpus
  setsize : next.setsize = topo.setsize
  nCpus : next.nCpus = topo.nCpus
  cpuMap : next.cpuMap = topo.cpuMap
  onlineCpuMap : next.onlineCpuMap = topo.onlineCpuMap
  cpus : next.cpus = topo.cpus
  nNodes : next.nNodes = topo.nNodes
  nodeMap : next.nodeMap = topo.nodeMap
  nodes : next.nodes = topo.nodes
  nodeObjects : next.nodeObjects.map WaycaNode.cpuPart = topo.nodeObjects.map WaycaNode.cpuPart
  ccls : next.ccls.map WaycaCluster.cpuPart = topo.ccls.map WaycaCluster.cpuPart
  packages : next.packages.map WaycaPackage.cpuPart = topo.packages.map WaycaPackage.cpuPart

theorem KeepsTables.refl (topo : WaycaTopo) : KeepsTables topo topo :=
  ⟨rfl, rfl, rfl, rfl, rfl, rfl, rfl, rfl, rfl, rfl, rfl, rfl⟩

theorem KeepsTables.trans (hfirst : KeepsTables topo middle)
    (hsecond : KeepsTables middle next) : KeepsTables topo next :=
  ⟨hsecond.kernelMaxCpus.trans hfirst.kernelMaxCpus, hsecond.setsize.trans hfirst.setsize,
    hsecond.nCpus.trans hfirst.nCpus, hsecond.cpuMap.trans hfirst.cpuMap,
    hsecond.onlineCpuMap.trans hfirst.onlineCpuMap, hsecond.cpus.trans hfirst.cpus,
    hsecond.nNodes.trans hfirst.nNodes, hsecond.nodeMap.trans hfirst.nodeMap,
    hsecond.nodes.trans hfirst.nodes, hsecond.nodeObjects.trans hfirst.nodeObjects,
    hsecond.ccls.trans hfirst.ccls, hsecond.packages.trans hfirst.packages⟩

theorem keepsTables_modifyNode (topo : WaycaTopo) (p : ℕ)
    (hchange : ∀ node, (change node).cpuPart = node.cpuPart) :
    KeepsTables topo (topo.modifyNode p change) :=
  ⟨rfl, rfl, rfl, rfl, rfl, rfl, rfl, rfl, rfl, map_modify_of_kept hchange _ p, rfl, rfl⟩

theorem keepsTables_modifyCcl (topo : WaycaTopo) (p : ℕ) {change : WaycaCluster → WaycaCluster}
    (hchange : ∀ ccl, (change ccl).cpuPart = ccl.cpuPart) :
    KeepsTables topo (topo.modifyCcl p change) :=
  ⟨rfl, rfl, rfl, rfl, rfl, rfl, rfl, rfl, rfl, rfl, map_modify_of_kept hchange _ p, rfl⟩

theorem keepsTables_cores (topo : WaycaTopo) (cores : List WaycaCore) :
    KeepsTables topo { topo with cores := cores } :=
  ⟨rfl, rfl, rfl, rfl, rfl, rfl, rfl, rfl, rfl, rfl, rfl, rfl⟩

theorem keepsTables_packages (topo : WaycaTopo) {change : WaycaPackage → WaycaPackage}
    (hchange : ∀ package, (change package).cpuPart = package.cpuPart) :
    KeepsTables topo { topo with packages := topo.packages.map change } := by
  refine ⟨rfl, rfl, rfl, rfl, rfl, rfl, rfl, rfl, rfl, rfl, rfl, ?_⟩
  rw [List.map_map]
  exact List.map_congr_left fun package _ => hchange package

theorem KeepsTables.slotAt (hkeeps : KeepsTables topo next) : next.slotAt = topo.slotAt := by
  funext k
  unfold WaycaTopo.slotAt
  rw [hkeeps.nodes]

theorem node_part {β : Type} {part : WaycaNode → β} (hnodes : next.nodes = topo.nodes)
    (hobjects : next.nodeObjects.map part = topo.nodeObjects.map part) (k : ℕ) :
    part (next.node k) = part (topo.node k) := by
  have hview : (next.nodeView k).map part = (topo.nodeView k).map part := by
    unfold WaycaTopo.nodeView WaycaTopo.slotAt
    rw [hnodes]
    cases (topo.nodes.bind (·[k]?)).join with
    | none => rfl
    | some p =>
        rw [Option.bind_some, Option.bind_some, ← List.getElem?_map, ← List.getElem?_map, hobjects]
  unfold WaycaTopo.node
  rw [← Option.getD_map part, ← Option.getD_map part, hview]

theorem KeepsTables.node (hkeeps : KeepsTables topo next) (k : ℕ) :
    (next.node k).cpuPart = (topo.node k).cpuPart :=
  node_part hkeeps.nodes hkeeps.nodeObjects k

theorem KeepsTables.hasNumber {p : ℕ} (hkeeps : KeepsTables topo next)
    (hnumber : topo.HasNumber p k) : next.HasNumber p k := by
  obtain ⟨node, hnode, hindex⟩ := hnumber
  have hobject : (next.nodeObjects[p]?).map WaycaNode.cpuPart = some node.cpuPart := by
    rw [← List.getElem?_map, hkeeps.nodeObjects, List.getElem?_map, hnode, Option.map_some]
  obtain ⟨after, hafter, hsame⟩ := Option.map_eq_some_iff.mp hobject
  exact ⟨after, hafter, (congrArg Prod.fst hsame).trans hindex⟩

theorem KeepsTables.nodePointer (hkeeps : KeepsTables topo next) :
    next.nodePointer = topo.nodePointer := by
  unfold WaycaTopo.nodePointer
  rw [hkeeps.cpus]

theorem NodesMet.keep (hmet : NodesMet n nodeOf i topo) (hkeeps : KeepsTables topo next) :
    NodesMet n nodeOf i next where
  numbered := by
    intro k p hslot
    rw [hkeeps.slotAt] at hslot
    exact hkeeps.hasNumber (hmet.numbered k p hslot)
  present := by
    rw [hkeeps.slotAt]
    exact hmet.present
  fitting := hkeeps.nodeMap.trans hmet.fitting
  counted := by
    rw [hkeeps.nNodes, hkeeps.nodeMap]
    exact hmet.counted
  owned := by
    intro cpu hcpu
    obtain ⟨p, hpointer, hnumber, hslot⟩ := hmet.owned cpu hcpu
    rw [hkeeps.nodePointer, hkeeps.slotAt]
    exact ⟨p, hpointer, hkeeps.hasNumber hnumber, hslot⟩

theorem KeepsTables.cclKeys (hkeeps : KeepsTables topo next) :
    next.ccls.map WaycaCluster.clusterId = topo.ccls.map WaycaCluster.clusterId := by
  have hkeys := congrArg (List.map Prod.fst) hkeeps.ccls
  rwa [List.map_map, List.map_map] at hkeys

theorem KeepsTables.packageKeys (hkeeps : KeepsTables topo next) :
    next.packages.map WaycaPackage.physicalPackageId =
      topo.packages.map WaycaPackage.physicalPackageId := by
  have hkeys := congrArg (List.map Prod.fst) hkeeps.packages
  rwa [List.map_map, List.map_map] at hkeys

theorem Framed.keep (hframed : Framed sys n online topo) (hkeeps : KeepsTables topo next) :
    Framed sys n online next :=
  ⟨hkeeps.kernelMaxCpus.trans hframed.kernelMaxCpus, hkeeps.setsize.trans hframed.setsize,
    hkeeps.nCpus.trans hframed.nCpus, hkeeps.cpuMap.trans hframed.cpuMap,
    hkeeps.onlineCpuMap.trans hframed.onlineCpuMap⟩

/-! ## The tables at the end -/

/-- The tables after all CPUs were read. -/
structure TablesBuilt (sys : Sysfs) (n : ℕ) (online : Finset ℕ) (nodeOf : ℕ → ℕ)
    (topo : WaycaTopo) : Prop extends NodesMet n nodeOf n topo where
  framed : Framed sys n online topo
  ccls : Tabulates WaycaCluster.clusterId (clusterOf sys) (Finset.range n) topo.ccls
  newCcls : ∀ ccl ∈ topo.ccls, ∃ cpu < n, FirstInCcl sys cpu ccl.clusterId ∧
    ccl.cpuPart = (newCcl sys cpu topo ccl.clusterId).cpuPart
  packages : Tabulates WaycaPackage.physicalPackageId (packageIn sys online) (Finset.range n)
    topo.packages
  newPackages : ∀ package ∈ topo.packages, ∃ cpu < n,
    packageIn sys online cpu = some package.physicalPackageId ∧
      package.cpuPart = (newPackage sys cpu topo package.physicalPackageId).cpuPart
  records : ∀ cpu < n, ∃ found, topo.cpus cpu = some found ∧ CpuRecord sys online topo cpu found

/-- The same with the maps of the nodes, where these fit. -/
structure Built (sys : Sysfs) (n : ℕ) (online : Finset ℕ) (nodeOf : ℕ → ℕ)
    (topo : WaycaTopo) : Prop extends TablesBuilt sys n online nodeOf topo where
  fit : NodesFit n nodeOf
  nodeCpus : ∀ k, (topo.node k).cpuMap = nodeMembers nodeOf n k
  nodeCount : ∀ k, (topo.node k).nCpus = (nodeMembers nodeOf n k).card
  cclMarks : Marked WaycaCluster.clusterId (clusterOf sys) (fun cpu => some (nodeOf cpu))
    (Finset.range n) topo.ccls fun k => (topo.node k).clusterMap

section Built

variable (hbuilt : Built sys n online nodeOf topo)

include hbuilt

theorem Built.wellFormed : NodesWellFormed topo := hbuilt.toNodesMet.wellFormed hbuilt.fit

theorem Built.nodeMap : topo.nodeMap = (Finset.range n).image nodeOf := by
  rw [hbuilt.fitting,
    Finset.filter_true_of_mem fun cpu hcpu => hbuilt.fit cpu (Finset.mem_range.mp hcpu)]

theorem Built.nNodes : topo.nNodes = topo.nodeMap.card := by
  rw [hbuilt.counted, Finset.filter_false_of_mem, Finset.card_empty, Nat.add_zero]
  exact fun cpu hcpu => not_not.mpr (hbuilt.fit cpu (Finset.mem_range.mp hcpu))

theorem Built.cpus : ∀ cpu < n, ∃ found, topo.cpus cpu = some found ∧
    CpuKept sys online nodeOf topo cpu found := by
  intro cpu hcpu
  obtain ⟨found, hfound, hrecord⟩ := hbuilt.records cpu hcpu
  refine ⟨found, hfound, hrecord, ?_⟩
  rw [← hbuilt.toNodesMet.slotAt_eq hbuilt.fit hcpu, WaycaTopo.nodePointer, hfound]
  rfl

end Built

theorem TablesUpTo.built (hup : TablesUpTo sys n online nodeOf n topo) :
    TablesBuilt sys n online nodeOf topo where
  toNodesMet := hup.toNodesMet
  framed := hup.framed
  ccls := hup.ccls
  newCcls := by
    intro ccl hccl
    obtain ⟨cpu, hcpu, hcluster, hnew⟩ := hup.newCcls ccl hccl
    exact ⟨cpu, hcpu, hcluster, congrArg WaycaCluster.cpuPart hnew⟩
  packages := hup.packages
  newPackages := by
    intro package hpackage
    obtain ⟨cpu, hcpu, hid, hnew⟩ := hup.newPackages package hpackage
    exact ⟨cpu, hcpu, hid, congrArg WaycaPackage.cpuPart hnew⟩
  records := hup.records

theorem ReadUpTo.built (hup : ReadUpTo sys n online nodeOf n topo) :
    Built sys n online nodeOf topo :=
  ⟨hup.toTablesUpTo.built, hup.fit, hup.nodeCpus, hup.nodeCount, hup.cclMarks⟩

theorem CpuRecord.keep {cpu : ℕ} {found : WaycaCpu} (hkept : CpuRecord sys online topo cpu found)
    (hkeeps : KeepsTables topo next) : CpuRecord sys online next cpu found := by
  refine ⟨hkept.coreId, hkept.coreCpusMap, ?_, ?_⟩
  · rw [hkept.pCluster]
    congr 1
    funext id
    exact (place_congr hkeeps.cclKeys id).symm
  · rw [hkept.pPackage]
    congr 1
    funext id
    exact (place_congr hkeeps.packageKeys id).symm

theorem created_kept {α κ ρ : Type} {part : α → κ × ρ} {table later : List α}
    {created created' : ℕ → κ → κ × ρ} (shows : ℕ → κ → Prop)
    (htable : later.map part = table.map part)
    (hcreated : ∀ cpu id, created cpu id = created' cpu id)
    (hnew : ∀ entry ∈ table, ∃ cpu < n,
      shows cpu (part entry).1 ∧ part entry = created cpu (part entry).1) :
    ∀ entry ∈ later, ∃ cpu < n,
      shows cpu (part entry).1 ∧ part entry = created' cpu (part entry).1 := by
  intro entry hentry
  have hpart : part entry ∈ table.map part := by
    rw [← htable]
    exact List.mem_map_of_mem hentry
  obtain ⟨before, hbefore, hsame⟩ := List.mem_map.mp hpart
  obtain ⟨cpu, hcpu, hshows, hmade⟩ := hnew before hbefore
  rw [hsame] at hshows hmade
  exact ⟨cpu, hcpu, hshows, hmade.trans (hcreated cpu _)⟩

theorem KeepsTables.newCcls_kept (hkeeps : KeepsTables topo next)
    (hnew : ∀ ccl ∈ topo.ccls, ∃ cpu < n, FirstInCcl sys cpu ccl.clusterId ∧
      ccl.cpuPart = (newCcl sys cpu topo ccl.clusterId).cpuPart) :
    ∀ ccl ∈ next.ccls, ∃ cpu < n, FirstInCcl sys cpu ccl.clusterId ∧
      ccl.cpuPart = (newCcl sys cpu next ccl.clusterId).cpuPart := by
  have hcreated (cpu : ℕ) (id : ℤ) :
      (newCcl sys cpu topo id).cpuPart = (newCcl sys cpu next id).cpuPart := by
    unfold newCcl
    rw [hkeeps.kernelMaxCpus, hkeeps.setsize]
  exact created_kept (FirstInCcl sys) hkeeps.ccls hcreated hnew

theorem KeepsTables.newPackages_kept (hkeeps : KeepsTables topo next)
    (hnew : ∀ package ∈ topo.packages, ∃ cpu < n,
      packageIn sys online cpu = some package.physicalPackageId ∧
        package.cpuPart = (newPackage sys cpu topo package.physicalPackageId).cpuPart) :
    ∀ package ∈ next.packages, ∃ cpu < n,
      packageIn sys online cpu = some package.physicalPackageId ∧
        package.cpuPart = (newPackage sys cpu next package.physicalPackageId).cpuPart := by
  have hcreated (cpu : ℕ) (id : ℤ) :
      (newPackage sys cpu topo id).cpuPart = (newPackage sys cpu next id).cpuPart := by
    unfold newPackage
    rw [hkeeps.kernelMaxCpus, hkeeps.setsize]
  exact created_kept (fun cpu id => packageIn sys online cpu = some id) hkeeps.packages hcreated
    hnew

theorem TablesBuilt.keep (hbuilt : TablesBuilt sys n online nodeOf topo)
    (hkeeps : KeepsTables topo next) : TablesBuilt sys n online nodeOf next where
  toNodesMet := hbuilt.toNodesMet.keep hkeeps
  framed := hbuilt.framed.keep hkeeps
  ccls := hbuilt.ccls.congr hkeeps.cclKeys
  newCcls := hkeeps.newCcls_kept hbuilt.newCcls
  packages := hbuilt.packages.congr hkeeps.packageKeys
  newPackages := hkeeps.newPackages_kept hbuilt.newPackages
  records := by
    intro cpu hcpu
    obtain ⟨found, hfound, hkept⟩ := hbuilt.records cpu hcpu
    exact ⟨found, by rw [hkeeps.cpus, hfound], hkept.keep hkeeps⟩

theorem Built.keep (hbuilt : Built sys n online nodeOf topo) (hkeeps : KeepsTables topo next) :
    Built sys n online nodeOf next where
  toTablesBuilt := hbuilt.toTablesBuilt.keep hkeeps
  fit := hbuilt.fit
  nodeCpus := fun k =>
    (congrArg (·.2.2.1) (hkeeps.node k)).trans (hbuilt.nodeCpus k)
  nodeCount := fun k =>
    (congrArg (·.2.1) (hkeeps.node k)).trans (hbuilt.nodeCount k)
  cclMarks := by
    have hmaps : (fun k => (next.node k).clusterMap) = fun k => (topo.node k).clusterMap := by
      funext k
      exact congrArg (·.2.2.2) (hkeeps.node k)
    rw [hmaps]
    exact hbuilt.cclMarks.congr hkeeps.cclKeys

/-! ## The directories of the nodes -/

structure NumaRead (topo next : WaycaTopo) : Prop extends KeepsTables topo next where
  cores : next.cores = topo.cores
  sameCcls : next.ccls = topo.ccls
  coreMaps : next.nodeObjects.map WaycaNode.coreMap = topo.nodeObjects.map WaycaNode.coreMap

theorem NumaRead.refl (topo : WaycaTopo) : NumaRead topo topo := ⟨.refl topo, rfl, rfl, rfl⟩

theorem NumaRead.trans (hfirst : NumaRead topo middle)
    (hsecond : NumaRead middle next) : NumaRead topo next :=
  ⟨hfirst.toKeepsTables.trans hsecond.toKeepsTables, hsecond.cores.trans hfirst.cores,
    hsecond.sameCcls.trans hfirst.sameCcls, hsecond.coreMaps.trans hfirst.coreMaps⟩

theorem numaRead_modifyNode (topo : WaycaTopo) (p : ℕ)
    (hcpu : ∀ node, (change node).cpuPart = node.cpuPart)
    (hcore : ∀ node, (change node).coreMap = node.coreMap) :
    NumaRead topo (topo.modifyNode p change) :=
  ⟨keepsTables_modifyNode topo p hcpu, rfl, rfl, map_modify_of_kept hcore _ p⟩

theorem readNodeTopology_success (hread : topoReadNodeTopology sys topo k = .ok (next, 0)) :
    NumaRead topo next ∧ next.packages = topo.packages := by
  obtain ⟨slot, hslot, hread⟩ := bind_eq_ok.mp hread
  obtain ⟨p, hp, hread⟩ := bind_eq_ok.mp hread
  obtain ⟨node, hnode, hread⟩ := bind_eq_ok.mp hread
  dsimp only at hread
  split at hread
  next => cases hread
  next =>
    split at hread
    next => cases hread
    next =>
      split at hread
      next => cases hread
      next distance hdistance =>
        split at hread
        next => cases hread
        next totalAvailKB hmeminfo =>
          cases hread
          have hfirst : NumaRead topo (topo.modifyNode p fun node =>
              { node with distance := some (distance.take topo.nNodes) }) :=
            numaRead_modifyNode topo p (fun _ => rfl) fun _ => rfl
          exact ⟨hfirst.trans (numaRead_modifyNode _ p (fun _ => rfl) fun _ => rfl), rfl⟩

theorem nodeAt_success {node : WaycaNode} (hnode : topo.nodeAt k = .ok node) :
    topo.nodeView k = some node := by
  obtain ⟨slot, hslot, hnode⟩ := bind_eq_ok.mp hnode
  obtain ⟨p, hp, hnode⟩ := bind_eq_ok.mp hnode
  have hpointer := (deref_ensures slot).of_ok hp
  have hobject := (deref_ensures _).of_ok hnode
  unfold WaycaTopo.nodeSlot at hslot
  split at hslot
  next found hfound =>
    cases hslot
    rw [WaycaTopo.nodeView, WaycaTopo.slotAt, hfound, hpointer]
    exact hobject
  next => cases hslot

theorem nodeSlot_of_slotAt {p : ℕ} (hslot : topo.slotAt k = some p) :
    topo.nodeSlot k = .ok (some p) := by
  have hjoin : topo.nodes.bind (·[k]?) = some (some p) := Option.join_eq_some_iff.mp hslot
  unfold WaycaTopo.nodeSlot
  rw [hjoin]

theorem nodeAt_eq {p : ℕ} {node : WaycaNode} (hslot : topo.slotAt k = some p)
    (hobject : topo.nodeObjects[p]? = some node) :
    topo.nodeAt k = .ok node ∧ topo.node k = node := by
  constructor
  · unfold WaycaTopo.nodeAt
    rw [nodeSlot_of_slotAt hslot]
    simp only [deref, bind, Except.bind, hobject]
  · rw [WaycaTopo.node, WaycaTopo.nodeView, hslot, Option.bind_some, hobject, Option.getD_some]

def nodeOnline (topo : WaycaTopo) (k : ℕ) : Finset ℕ :=
  cpuAndS topo.setsize topo.onlineCpuMap (topo.node k).cpuMap

def markNode (setsize : ℕ) (topo : WaycaTopo) (package : WaycaPackage) (k : ℕ) : WaycaPackage :=
  if cpuCountS topo.setsize (nodeOnline topo k) = 0 then package
  else markPackage setsize k (nodeOnline topo k) package

theorem markPackage_cpuPart (setsize k : ℕ) (set : Finset ℕ) (package : WaycaPackage) :
    (markPackage setsize k set package).cpuPart = package.cpuPart := by
  unfold markPackage
  split <;> rfl

theorem KeepsTables.markNode (hkeeps : KeepsTables topo next) (setsize : ℕ) :
    markNode setsize next = markNode setsize topo := by
  have honline : nodeOnline next = nodeOnline topo := by
    funext k
    have hcpus : (next.node k).cpuMap = (topo.node k).cpuMap := congrArg (·.2.2.1) (hkeeps.node k)
    unfold nodeOnline
    rw [hkeeps.setsize, hkeeps.onlineCpuMap, hcpus]
  unfold WaycaScheduler.markNode
  rw [honline, hkeeps.setsize]

theorem constructNumaLoop_success
    (hloop : constructNumaLoop sys setsize numbers topo = .ok (next, 0)) :
    NumaRead topo next ∧ next.packages =
      topo.packages.map fun package => numbers.foldl (markNode setsize topo) package := by
  induction numbers generalizing topo with
  | nil =>
      cases hloop
      exact ⟨.refl _, (List.map_id' _).symm⟩
  | cons k rest ih =>
      obtain ⟨middle, hread, hloop⟩ := andThen_eq_success.mp hloop
      obtain ⟨hnuma, hpackages⟩ := readNodeTopology_success hread
      obtain ⟨node, hnode, hloop⟩ := bind_eq_ok.mp hloop
      have honline : cpuAndS middle.setsize middle.onlineCpuMap node.cpuMap =
          nodeOnline middle k := by
        rw [nodeOnline, WaycaTopo.node, nodeAt_success hnode, Option.getD_some]
      rw [honline] at hloop
      dsimp only at hloop
      have hmark : ∀ package, WaycaScheduler.markNode setsize topo package k =
          if cpuCountS middle.setsize (nodeOnline middle k) = 0 then package
          else markPackage setsize k (nodeOnline middle k) package := by
        intro package
        rw [← hnuma.markNode]
        rfl
      simp only [List.foldl_cons, hmark]
      split at hloop
      next hempty =>
        obtain ⟨hlater, hfinal⟩ := ih hloop
        refine ⟨hnuma.trans hlater, ?_⟩
        rw [hfinal, hpackages, hnuma.markNode]
        simp only [hempty, if_true]
      next hpresent =>
        obtain ⟨hlater, hfinal⟩ := ih hloop
        have hmarked : NumaRead middle { middle with
            packages := middle.packages.map (markPackage setsize k (nodeOnline middle k)) } :=
          ⟨keepsTables_packages middle (markPackage_cpuPart setsize k _), rfl, rfl, rfl⟩
        refine ⟨(hnuma.trans hmarked).trans hlater, ?_⟩
        rw [hfinal, (hnuma.trans hmarked).markNode, List.map_map, hpackages]
        simp only [hpresent, if_false]
        rfl

theorem constructNuma_success (hnuma : topoConstructNumaTopology sys topo = .ok (next, 0)) :
    NumaRead topo next := by
  unfold topoConstructNumaTopology at hnuma
  dsimp only at hnuma
  split at hnuma
  next => cases hnuma
  next =>
    split at hnuma
    next =>
      cases hnuma
      exact .refl topo
    next => exact (constructNumaLoop_success hnuma).1

/-- All online CPUs of the node are in the package. -/
def HoldsNode (setsize : ℕ) (topo : WaycaTopo) (package : WaycaPackage) (k : ℕ) : Prop :=
  cpuCountS topo.setsize (nodeOnline topo k) ≠ 0 ∧
    cpuEqualS setsize (cpuAndS setsize package.cpuMap (nodeOnline topo k))
      (nodeOnline topo k) = true

theorem markNode_cpuPart (setsize : ℕ) (topo : WaycaTopo) (package : WaycaPackage) (k : ℕ) :
    (markNode setsize topo package k).cpuPart = package.cpuPart := by
  unfold markNode
  split
  next => rfl
  next => exact markPackage_cpuPart setsize k _ package

theorem mem_markNode {j : ℕ} (hk : k / 8 < setsize) (package : WaycaPackage) :
    j ∈ (markNode setsize topo package k).numaMap ↔
      j ∈ package.numaMap ∨ j = k ∧ HoldsNode setsize topo package k := by
  unfold markNode markPackage HoldsNode
  split
  next hempty => simp [hempty]
  next hpresent =>
    split
    next hequal => simp [hpresent, hequal, cpuSetS_of_fits hk, or_comm]
    next hequal => simp [hequal]

theorem mem_marked {j : ℕ} (hnumbers : ∀ k ∈ numbers, k / 8 < setsize) (package : WaycaPackage) :
    j ∈ (numbers.foldl (markNode setsize topo) package).numaMap ↔
      j ∈ package.numaMap ∨ j ∈ numbers ∧ HoldsNode setsize topo package j := by
  induction numbers generalizing package with
  | nil => simp
  | cons k rest ih =>
      have hcpus : (markNode setsize topo package k).cpuMap = package.cpuMap :=
        congrArg (·.2.2) (markNode_cpuPart setsize topo package k)
      have hholds : HoldsNode setsize topo (markNode setsize topo package k) j ↔
          HoldsNode setsize topo package j := by
        unfold HoldsNode
        rw [hcpus]
      rw [List.foldl_cons, ih (fun i hi => hnumbers i (List.mem_cons_of_mem k hi)), hholds,
        mem_markNode (hnumbers k List.mem_cons_self), List.mem_cons]
      constructor
      · rintro ((hold | ⟨rfl, hnew⟩) | ⟨hrest, hlater⟩)
        · exact .inl hold
        · exact .inr ⟨.inl rfl, hnew⟩
        · exact .inr ⟨.inr hrest, hlater⟩
      · rintro (hold | ⟨rfl | hrest, hnew⟩)
        · exact .inl (.inl hold)
        · exact .inl (.inr ⟨rfl, hnew⟩)
        · exact .inr ⟨hrest, hnew⟩

theorem foldl_markNode_cpuPart (setsize : ℕ) (topo : WaycaTopo) (numbers : List ℕ)
    (package : WaycaPackage) :
    (numbers.foldl (markNode setsize topo) package).cpuPart = package.cpuPart := by
  induction numbers generalizing package with
  | nil => rfl
  | cons k rest ih => exact (ih _).trans (markNode_cpuPart setsize topo package k)

theorem createCore_keeps {cpu : WaycaCpu} (hcreate : createCore cpu topo = .ok next) :
    KeepsTables topo next ∧ next.packages = topo.packages := by
  obtain ⟨list, hlist, hcreate⟩ := bind_eq_ok.mp hcreate
  obtain ⟨middle, hccl, hcreate⟩ := bind_eq_ok.mp hcreate
  obtain ⟨p, hp, hcreate⟩ := bind_eq_ok.mp hcreate
  cases hcreate
  have hmiddle : KeepsTables topo middle ∧ middle.packages = topo.packages := by
    unfold addCoreToCcl at hccl
    split at hccl
    next =>
      obtain ⟨pointer, hpointer, hccl⟩ := bind_eq_ok.mp hccl
      cases hccl
      exact ⟨(keepsTables_cores topo _).trans (keepsTables_modifyCcl _ pointer fun _ => rfl), rfl⟩
    next =>
      cases hccl
      exact ⟨keepsTables_cores topo _, rfl⟩
  exact ⟨hmiddle.1.trans (keepsTables_modifyNode middle p fun _ => rfl), hmiddle.2⟩

theorem constructCoreLoop_keeps (hloop : constructCoreLoop numbers topo = .ok next) :
    KeepsTables topo next ∧ next.packages = topo.packages := by
  induction numbers generalizing topo with
  | nil =>
      cases hloop
      exact ⟨.refl _, rfl⟩
  | cons i rest ih =>
      obtain ⟨cpu, hcpu, hloop⟩ := bind_eq_ok.mp hloop
      split at hloop
      next => exact ih hloop
      next =>
        split at hloop
        next => exact ih hloop
        next =>
          obtain ⟨middle, hcreate, hloop⟩ := bind_eq_ok.mp hloop
          have hfirst := createCore_keeps hcreate
          have hrest := ih hloop
          exact ⟨hfirst.1.trans hrest.1, hrest.2.trans hfirst.2⟩

theorem constructCore_success (hcore : topoConstructCoreTopology topo = .ok (next, 0)) :
    constructCoreLoop (List.range topo.nCpus) topo = .ok next := by
  unfold topoConstructCoreTopology at hcore
  split at hcore
  next => cases hcore
  next =>
    obtain ⟨built, hloop, hnext⟩ := bind_eq_ok.mp hcore
    cases hnext
    exact hloop

theorem Snapshot.parts (hsnap : Snapshot sys n online nodeOf)
    (hsuccess : topoConstruct sys recreate state = .ok (final, 0)) :
    ∃ read assembled, readCpus sys n 0 (allocated sys) = .ok (read, 0) ∧
      topoConstructNumaTopology sys read = .ok (assembled, 0) ∧
      constructCoreLoop (List.range assembled.nCpus) assembled = .ok final.topo := by
  have hframed := hsnap.framed_allocated
  have hconstruct := construct_success (hsnap.onlineAgrees hframed) hsuccess
  obtain ⟨afterCpu, hcpu, hconstruct⟩ := andThen_eq_success.mp hconstruct
  obtain ⟨afterMap, hmap, hconstruct⟩ := andThen_eq_success.mp hconstruct
  obtain ⟨read, hread, hconstruct⟩ := andThen_eq_success.mp hconstruct
  obtain ⟨assembled, hnuma, hconstruct⟩ := andThen_eq_success.mp hconstruct
  obtain ⟨built, hcore, hconstruct⟩ := andThen_eq_success.mp hconstruct
  have hallocated : allocated sys = afterMap := by
    rw [allocated, Except.ok.inj hcpu]
    exact congrArg Prod.fst (Except.ok.inj hmap)
  have hfinal : built = final.topo := congrArg Prod.fst (Except.ok.inj hconstruct)
  subst hallocated
  rw [hframed.nCpus] at hread
  have hloop := constructCore_success hcore
  rw [hfinal] at hloop
  exact ⟨read, assembled, hread, hnuma, hloop⟩

section Stages

variable (hsnap : Snapshot sys n online nodeOf)
  (hsuccess : topoConstruct sys recreate state = .ok (final, 0))

include hsnap hsuccess

theorem Snapshot.stages : ∃ read assembled, TablesUpTo sys n online nodeOf n read ∧
    (NodesFit n nodeOf → ReadUpTo sys n online nodeOf n read) ∧
    topoConstructNumaTopology sys read = .ok (assembled, 0) ∧
    constructCoreLoop (List.range n) assembled = .ok final.topo := by
  obtain ⟨read, assembled, hread, hnuma, hloop⟩ := hsnap.parts hsuccess
  have hup := hsnap.tablesUpTo hread
  rw [(constructNuma_success hnuma).nCpus, hup.framed.nCpus] at hloop
  exact ⟨read, assembled, hup, hsnap.readUpTo hread, hnuma, hloop⟩

theorem Snapshot.tablesBuilt : TablesBuilt sys n online nodeOf final.topo := by
  obtain ⟨read, assembled, hup, -, hnuma, hloop⟩ := hsnap.stages hsuccess
  exact (hup.built.keep (constructNuma_success hnuma).toKeepsTables).keep
    (constructCoreLoop_keeps hloop).1

theorem Snapshot.built (hnodes : NodesFit n nodeOf) : Built sys n online nodeOf final.topo := by
  obtain ⟨read, assembled, -, hup, hnuma, hloop⟩ := hsnap.stages hsuccess
  exact ((hup hnodes).built.keep (constructNuma_success hnuma).toKeepsTables).keep
    (constructCoreLoop_keeps hloop).1

end Stages

end WaycaScheduler
