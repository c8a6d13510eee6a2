import WaycaScheduler.Library.KeyedTable
import WaycaScheduler.TopologyReading

/-!
# What a CPU adds to the topology

`CpuRead` says all that the successful reading of a CPU does: which node it
joins and which cluster and package are entered for it.  Clusters and packages
are tables filled on first sight, and a node is seen through the array of
nodes, so that no later proof follows a pointer.
-/

namespace WaycaScheduler

open Fallible KeyedTable Function Finset

variable {sys : Sysfs} {topo next : WaycaTopo} {cpu k : ℕ} {online : Bool} {found : WaycaCpu}
variable {p : ℕ} {change : WaycaCpu → WaycaCpu}

/-! ## Nodes seen through the array -/

/-- The node in element `k` of the array. -/
def WaycaTopo.nodeView (topo : WaycaTopo) (k : ℕ) : Option WaycaNode :=
  (topo.slotAt k).bind (topo.nodeObjects[·]?)

/-- The node at `p` has the number `k`. -/
def WaycaTopo.HasNumber (topo : WaycaTopo) (p k : ℕ) : Prop :=
  ∃ node, topo.nodeObjects[p]? = some node ∧ node.nodeIdx = k

theorem WaycaTopo.HasNumber.unique {j : ℕ} (hk : topo.HasNumber p k) (hj : topo.HasNumber p j) :
    j = k := by
  obtain ⟨node, hnode, hindex⟩ := hk
  obtain ⟨other, hother, hotherIndex⟩ := hj
  rw [← hindex, ← hotherIndex, Option.some.inj (hnode.symm.trans hother)]

/-- An element points to the node with its number. -/
def SlotsNumbered (topo : WaycaTopo) : Prop :=
  ∀ k p, topo.slotAt k = some p → topo.HasNumber p k

/-- Beside that, the map of the nodes names the elements in use. -/
structure NodesWellFormed (topo : WaycaTopo) : Prop where
  pointer : SlotsNumbered topo
  created : ∀ k, k ∈ topo.nodeMap ↔ (topo.slotAt k).isSome

structure SameTables (topo next : WaycaTopo) : Prop extends SameFrame topo next where
  cpus : next.cpus = topo.cpus
  ccls : next.ccls = topo.ccls
  packages : next.packages = topo.packages

def WaycaTopo.knowsNode (topo : WaycaTopo) (k : ℕ) : Bool :=
  cpuIssetS k (cpuAllocSize topo.nCpus) topo.nodeMap

theorem knowsNode_of_unfit (hunfit : ¬ k / 8 < cpuAllocSize topo.nCpus) :
    topo.knowsNode k = false := by
  unfold WaycaTopo.knowsNode cpuIssetS
  rw [decide_eq_false hunfit, Bool.false_and]

/-- Element `k` of the array has the node at `p`.  A number outside the map of the
nodes is never known, and its node is created anew each time. -/
structure NodeEntered (k p : ℕ) (topo next : WaycaTopo) : Prop where
  slots : next.slotAt = Function.update topo.slotAt k (some p)
  nodeMap : next.nodeMap = cpuSetS k (cpuAllocSize topo.nCpus) topo.nodeMap
  nNodes : next.nNodes = if topo.knowsNode k then topo.nNodes else topo.nNodes + 1
  known : topo.knowsNode k = true → topo.slotAt k = some p
  new : topo.knowsNode k = false → p = topo.nodeObjects.length

def WaycaTopo.objectsWith (topo : WaycaTopo) (k : ℕ) : List WaycaNode :=
  if topo.knowsNode k then topo.nodeObjects else topo.nodeObjects ++ [WaycaNode.fresh k]

/-- The topology with a new node in element `k` of the array. -/
def WaycaTopo.withNode (topo : WaycaTopo) (k : ℕ) (slots : List (Option ℕ)) : WaycaTopo :=
  { topo with
    nodes := some (slots.set k (some topo.nodeObjects.length))
    nodeObjects := topo.nodeObjects ++ [WaycaNode.fresh k]
    nodeMap := cpuSetS k (cpuAllocSize topo.nCpus) topo.nodeMap
    nNodes := topo.nNodes + 1 }

theorem slotAt_withNode {slots : List (Option ℕ)} (hslots : topo.nodes = some slots)
    (hk : k < slots.length) :
    (topo.withNode k slots).slotAt = update topo.slotAt k (some topo.nodeObjects.length) := by
  funext j
  rw [update_apply]
  unfold WaycaTopo.slotAt WaycaTopo.withNode
  rw [hslots, Option.bind_some, Option.bind_some, List.getElem?_set]
  split
  next hj =>
    subst hj
    simp
  next hj => rw [if_neg (Ne.symm hj)]

theorem createNode_success (hcreate : createNode (topo.grown k) k = .ok next) :
    SameTables topo next ∧ next.nodeObjects = topo.objectsWith k ∧
      (∀ p, next.slotAt k = some p → NodeEntered k p topo next) ∧
      (next.slotAt k = none → topo.knowsNode k = true ∧ topo.slotAt k = none) := by
  have hslots : (topo.grown k).slotAt = topo.slotAt := funext (slotAt_grown topo k)
  unfold createNode at hcreate
  split at hcreate
  next hknown =>
    cases hcreate
    have hknown : topo.knowsNode k = true := hknown
    rw [hslots]
    refine ⟨⟨⟨rfl, rfl, rfl, rfl, rfl, rfl⟩, rfl, rfl, rfl⟩, (if_pos hknown).symm, ?_,
      fun hnone => ⟨hknown, hnone⟩⟩
    intro p hslot
    refine ⟨?_, ?_, ?_, fun _ => hslot, ?_⟩
    · rw [hslots, ← hslot, update_eq_self]
    · obtain ⟨hfits, hmem⟩ := (Bool.and_eq_true _ _).mp hknown
      rw [cpuSetS_of_fits (of_decide_eq_true hfits), insert_eq_of_mem (of_decide_eq_true hmem)]
      rfl
    · rw [if_pos hknown]
      rfl
    · intro hnew
      rw [hknown] at hnew
      cases hnew
  next hnew =>
    have hnew : ¬ topo.knowsNode k = true := hnew
    split at hcreate
    next => cases hcreate
    next slots hgrown =>
      split at hcreate
      next hk =>
        cases hcreate
        have hset : ((topo.grown k).withNode k slots).slotAt = _ := slotAt_withNode hgrown hk
        rw [hslots] at hset
        have hfilled := (congrFun hset k).trans (update_self _ _ _)
        refine ⟨⟨⟨rfl, rfl, rfl, rfl, rfl, rfl⟩, rfl, rfl, rfl⟩, (if_neg hnew).symm, ?_,
          fun hnone => absurd (hfilled.symm.trans hnone) (Option.some_ne_none _)⟩
        intro p hslot
        have hp : some topo.nodeObjects.length = some p := hfilled.symm.trans hslot
        refine ⟨?_, rfl, (if_neg hnew).symm, fun hknown => absurd hknown hnew,
          fun _ => (Option.some.inj hp).symm⟩
        rw [← hp]
        exact hset
      next => cases hcreate

/-! ## The parts of a CPU -/

theorem cpuAt_success (hfound : topo.cpuAt cpu = .ok found) : topo.cpus cpu = some found :=
  (cpuAt_ensures topo cpu).of_ok hfound

theorem modifyCpu_success (hcpu : topo.cpus cpu = some found)
    (hmodify : topo.modifyCpu cpu change = .ok next) : next = topo.setCpu cpu (change found) := by
  obtain ⟨other, hother, hnext⟩ := bind_eq_ok.mp hmodify
  rw [cpuAt_success hother] at hcpu
  cases hcpu
  exact (Except.ok.inj hnext).symm

theorem modifyCpu_return {ret final : ℤ}
    (hcpu : topo.cpus cpu = some found)
    (hmodify : (do .ok (← topo.modifyCpu cpu change, ret)) =
      (.ok (next, final) : Outcome (WaycaTopo × ℤ))) :
    next = topo.setCpu cpu (change found) := by
  obtain ⟨modified, hmodified, hnext⟩ := bind_eq_ok.mp hmodify
  cases hnext
  exact modifyCpu_success hcpu hmodified

theorem setCpu_cpus (topo : WaycaTopo) (cpu : ℕ) (value : WaycaCpu) :
    (topo.setCpu cpu value).cpus cpu = some value := by
  simp [WaycaTopo.setCpu]

theorem setCpu_setCpu (topo : WaycaTopo) (cpu : ℕ) (first second : WaycaCpu) :
    (topo.setCpu cpu first).setCpu cpu second = topo.setCpu cpu second := by
  unfold WaycaTopo.setCpu
  rw [update_idem]

def WaycaNode.withCpu (node : WaycaNode) (cpu setsize : ℕ) : WaycaNode :=
  { node with cpuMap := cpuSetS cpu setsize node.cpuMap, nCpus := node.nCpus + 1 }

theorem addCpuToNode_success (hcpu : topo.cpus cpu = some found)
    (hadd : addCpuToNode topo k cpu = .ok next) :
    ∃ p, topo.slotAt k = some p ∧
      next = (topo.modifyNode p (·.withCpu cpu topo.setsize)).setCpu cpu
        { found with pNumaNode := some p } := by
  obtain ⟨slot, hslot, hadd⟩ := bind_eq_ok.mp hadd
  obtain ⟨p, hp, hadd⟩ := bind_eq_ok.mp hadd
  have hpointer := (deref_ensures slot).of_ok hp
  have hsame : (topo.modifyNode p (·.withCpu cpu topo.setsize)).cpus cpu = some found := hcpu
  refine ⟨p, ?_, modifyCpu_success hsame hadd⟩
  unfold WaycaTopo.nodeSlot at hslot
  split at hslot
  next found hfound =>
    cases hslot
    rw [WaycaTopo.slotAt, hfound, hpointer]
    rfl
  next => cases hslot

theorem nodeInfo_success (hnode : sys.cpuAttribute cpu (·.node) = some k)
    (hcpu : topo.cpus cpu = some found) (hinfo : nodeInfo sys cpu topo = .ok (next, 0)) :
    ∃ p entered, SameTables topo entered ∧ NodeEntered k p topo entered ∧
      entered.nodeObjects = topo.objectsWith k ∧
      next = (entered.modifyNode p (·.withCpu cpu topo.setsize)).setCpu cpu
        { found with pNumaNode := some p } := by
  obtain ⟨attributes, hattributes, hk⟩ := Option.bind_eq_some_iff.mp hnode
  unfold nodeInfo at hinfo
  rw [hattributes] at hinfo
  dsimp only at hinfo
  rw [hk] at hinfo
  obtain ⟨entered, hcreate, hinfo⟩ := bind_eq_ok.mp hinfo
  obtain ⟨added, hadd, hinfo⟩ := bind_eq_ok.mp hinfo
  cases hinfo
  obtain ⟨htables, hobjects, hentered, -⟩ := createNode_success hcreate
  have hsame : entered.cpus cpu = some found := by rw [htables.cpus, hcpu]
  obtain ⟨p, hslot, hnext⟩ := addCpuToNode_success hsame hadd
  rw [htables.setsize] at hnext
  exact ⟨p, entered, htables, hentered p hslot, hobjects, hnext⟩

def coreIdOf (sys : Sysfs) (cpu : ℕ) (online : Bool) : ℤ :=
  if online then (sys.cpuAttribute cpu (·.coreId)).getD (-1) else -1

def coreCpusOf (sys : Sysfs) (cpu : ℕ) (online : Bool) (kernelMaxCpus : ℕ) :
    Option (Finset ℕ) :=
  if online then readCpulist (sys.cpuAttribute cpu (·.coreCpusList)) kernelMaxCpus else none

theorem coreInfo_success (hcpu : topo.cpus cpu = some found)
    (hinfo : coreInfo sys cpu online topo = .ok (next, 0)) :
    next = topo.setCpu cpu
      { found with
        coreId := coreIdOf sys cpu online
        coreCpusMap := coreCpusOf sys cpu online topo.kernelMaxCpus } := by
  unfold coreInfo at hinfo
  unfold coreIdOf coreCpusOf
  cases online with
  | false => exact modifyCpu_return hcpu hinfo
  | true =>
      simp only [Bool.not_true, Bool.false_eq_true, if_false, if_true] at hinfo ⊢
      split at hinfo
      next => cases hinfo
      next coreId hcoreId =>
        obtain ⟨middle, hmiddle, hinfo⟩ := bind_eq_ok.mp hinfo
        have hset := modifyCpu_success hcpu hmiddle
        subst hset
        split at hinfo
        next => cases hinfo
        next list hlist =>
          have hnext := modifyCpu_return (setCpu_cpus topo cpu _) hinfo
          rw [setCpu_setCpu] at hnext
          rw [hnext, hcoreId, Option.getD_some]
          rw [show (topo.setCpu cpu _).kernelMaxCpus = topo.kernelMaxCpus from rfl] at hlist
          rw [hlist]

def clusterOf (sys : Sysfs) (cpu : ℕ) : Option ℤ := sys.cpuAttribute cpu (·.clusterId)

def newCcl (sys : Sysfs) (cpu : ℕ) (topo : WaycaTopo) (clusterId : ℤ) : WaycaCluster :=
  let list := (readCpulist (sys.cpuAttribute cpu (·.clusterCpusList)) topo.kernelMaxCpus).getD ∅
  ⟨clusterId, cpuCountS topo.setsize list, list, ∅⟩

def markCcl (sys : Sysfs) (cpu : ℕ) (topo : WaycaTopo) (node : WaycaNode) : WaycaNode :=
  match clusterOf sys cpu with
  | none => node
  | some clusterId =>
      if topo.findCcl clusterId = topo.ccls.length then
        { node with clusterMap := cpuSetS topo.ccls.length topo.setsize node.clusterMap }
      else node

def cclsAfter (sys : Sysfs) (cpu : ℕ) (topo : WaycaTopo) : List WaycaCluster :=
  meet WaycaCluster.clusterId topo.ccls (clusterOf sys cpu) (newCcl sys cpu topo)

/-- The topology with the cluster of the CPU, marked in the node at `p`. -/
def WaycaTopo.withCcl (topo : WaycaTopo) (sys : Sysfs) (cpu p : ℕ) : WaycaTopo :=
  ({ topo with ccls := cclsAfter sys cpu topo }).modifyNode p (markCcl sys cpu topo)

theorem findCcl_eq (topo : WaycaTopo) (id : ℤ) :
    topo.findCcl id = place WaycaCluster.clusterId topo.ccls id :=
  rfl

theorem withCcl_unchanged (hccls : cclsAfter sys cpu topo = topo.ccls)
    (hmark : markCcl sys cpu topo = id) : topo.withCcl sys cpu p = topo := by
  unfold WaycaTopo.withCcl WaycaTopo.modifyNode
  rw [hccls, hmark, List.modify_id]

theorem createCcl_success {clusterId : ℤ} (hcpu : topo.cpus cpu = some found)
    (hp : found.pNumaNode = some p)
    (hcreate : createCcl sys cpu clusterId topo = .ok (next, 0)) :
    next = ({ topo with ccls := topo.ccls ++ [newCcl sys cpu topo clusterId] }).modifyNode p
      fun node => { node with
        clusterMap := cpuSetS topo.ccls.length topo.setsize node.clusterMap } := by
  unfold createCcl at hcreate
  unfold newCcl
  split at hcreate
  next => cases hcreate
  next list hlist =>
    obtain ⟨other, hother, hcreate⟩ := bind_eq_ok.mp hcreate
    have hsame : topo.cpus cpu = some other := cpuAt_success hother
    rw [hcpu] at hsame
    cases hsame
    obtain ⟨pointer, hpointer, hcreate⟩ := bind_eq_ok.mp hcreate
    rw [hp] at hpointer
    cases hpointer
    cases hcreate
    rw [hlist, Option.getD_some]

theorem clusterInfo_success (hcpu : topo.cpus cpu = some found)
    (hp : found.pNumaNode = some p)
    (hinfo : topoParseCpuClusterInfo sys cpu topo = .ok (next, 0)) :
    next = (topo.withCcl sys cpu p).setCpu cpu
      { found with pCluster := (clusterOf sys cpu).map topo.findCcl } := by
  unfold topoParseCpuClusterInfo at hinfo
  cases hcluster : clusterOf sys cpu with
  | none =>
      have hunchanged : topo.withCcl sys cpu p = topo := by
        apply withCcl_unchanged
        · rw [cclsAfter, hcluster]
          rfl
        · funext node
          rw [markCcl, hcluster]
          rfl
      rw [clusterOf] at hcluster
      rw [hcluster] at hinfo
      rw [hunchanged]
      exact modifyCpu_return hcpu hinfo
  | some clusterId =>
      have hattribute := hcluster
      rw [clusterOf] at hattribute
      rw [hattribute] at hinfo
      obtain ⟨middle, hfirst, hinfo⟩ := andThen_eq_success.mp hinfo
      have hmiddle : middle = topo.withCcl sys cpu p := by
        by_cases hnew : topo.findCcl clusterId = topo.ccls.length
        · rw [if_pos hnew] at hfirst
          rw [createCcl_success hcpu hp hfirst]
          unfold WaycaTopo.withCcl
          have hccls : cclsAfter sys cpu topo = topo.ccls ++ [newCcl sys cpu topo clusterId] := by
            rw [cclsAfter, hcluster]
            exact if_pos hnew
          have hmark : markCcl sys cpu topo = fun node => { node with
              clusterMap := cpuSetS topo.ccls.length topo.setsize node.clusterMap } := by
            funext node
            rw [markCcl, hcluster]
            exact if_pos hnew
          rw [hccls, hmark]
        · rw [if_neg hnew] at hfirst
          cases hfirst
          symm
          apply withCcl_unchanged
          · rw [cclsAfter, hcluster]
            exact if_neg hnew
          · funext node
            rw [markCcl, hcluster]
            exact if_neg hnew
      have hsame : middle.cpus cpu = some found := by
        rw [hmiddle]
        exact hcpu
      rw [modifyCpu_return hsame hinfo, hmiddle]
      rfl

def packageOf (sys : Sysfs) (cpu : ℕ) (online : Bool) : Option ℤ :=
  if online then sys.cpuAttribute cpu (·.physicalPackageId) else none

def newPackage (sys : Sysfs) (cpu : ℕ) (topo : WaycaTopo) (physicalPackageId : ℤ) :
    WaycaPackage :=
  let list := (readCpulist (sys.cpuAttribute cpu (·.packageCpusList)) topo.kernelMaxCpus).getD ∅
  ⟨physicalPackageId, cpuCountS topo.setsize list, list, ∅⟩

def packagesAfter (sys : Sysfs) (cpu : ℕ) (online : Bool) (topo : WaycaTopo) :
    List WaycaPackage :=
  meet WaycaPackage.physicalPackageId topo.packages (packageOf sys cpu online)
    (newPackage sys cpu topo)

def WaycaTopo.withPackage (topo : WaycaTopo) (sys : Sysfs) (cpu : ℕ) (online : Bool) :
    WaycaTopo :=
  { topo with packages := packagesAfter sys cpu online topo }

theorem findPackage_eq (topo : WaycaTopo) (id : ℤ) :
    topo.findPackage id = place WaycaPackage.physicalPackageId topo.packages id :=
  rfl

theorem createPackage_success {id : ℤ}
    (hcreate : (if topo.findPackage id = topo.packages.length then createPackage sys cpu id topo
      else .ok (topo, 0)) = .ok (next, 0)) :
    next = { topo with
      packages := enter WaycaPackage.physicalPackageId topo.packages id
        (newPackage sys cpu topo id) } := by
  rw [findPackage_eq] at hcreate
  unfold enter newPackage
  split at hcreate
  next hnew =>
    unfold createPackage at hcreate
    rw [if_pos hnew]
    split at hcreate
    next => cases hcreate
    next list hlist =>
      cases hcreate
      rw [hlist, Option.getD_some]
  next hknown =>
    rw [if_neg hknown]
    cases hcreate
    rfl

theorem packageInfo_success (hcpu : topo.cpus cpu = some found)
    (hinfo : packageInfo sys cpu online topo = .ok (next, 0)) :
    next = (topo.withPackage sys cpu online).setCpu cpu
      { found with pPackage := (packageOf sys cpu online).map topo.findPackage } := by
  unfold packageInfo at hinfo
  unfold WaycaTopo.withPackage packagesAfter packageOf
  cases online with
  | false => exact modifyCpu_return hcpu hinfo
  | true =>
      simp only [Bool.not_true, Bool.false_eq_true, if_false, if_true] at hinfo ⊢
      cases hpackage : sys.cpuAttribute cpu (·.physicalPackageId) with
      | none =>
          rw [hpackage] at hinfo
          cases hinfo
      | some id =>
          rw [hpackage] at hinfo
          obtain ⟨middle, hfirst, hinfo⟩ := andThen_eq_success.mp hinfo
          dsimp only [Option.map_some]
          have henter := createPackage_success hfirst
          have hsame : middle.cpus cpu = some found := by
            rw [henter]
            exact hcpu
          rw [modifyCpu_return hsame hinfo, henter]
          rfl

theorem cacheInfo_success (hcpu : topo.cpus cpu = some found)
    (hinfo : cacheInfo sys cpu online topo = .ok (next, 0)) :
    ∃ caches, next = topo.setCpu cpu { found with caches := caches } :=
  ⟨_, modifyCpu_return hcpu hinfo⟩

/-! ## The whole of a CPU -/

/-- All that the reading of the CPU does; `found` is what is kept for it. -/
structure CpuRead (sys : Sysfs) (cpu k p : ℕ) (topo next : WaycaTopo) (found : WaycaCpu) : Prop
    extends SameFrame topo next, NodeEntered k p topo next where
  nodeObjects : next.nodeObjects = (topo.objectsWith k).modify p fun node =>
    markCcl sys cpu topo (node.withCpu cpu topo.setsize)
  ccls : next.ccls = cclsAfter sys cpu topo
  packages : next.packages = packagesAfter sys cpu (topo.isOnline cpu) topo
  cpus : next.cpus = Function.update topo.cpus cpu (some found)
  pNumaNode : found.pNumaNode = some p
  coreId : found.coreId = coreIdOf sys cpu (topo.isOnline cpu)
  coreCpusMap : found.coreCpusMap =
    coreCpusOf sys cpu (topo.isOnline cpu) topo.kernelMaxCpus
  pCluster : found.pCluster = (clusterOf sys cpu).map topo.findCcl
  pPackage : found.pPackage = (packageOf sys cpu (topo.isOnline cpu)).map topo.findPackage

theorem cpuDetails_success (hcpu : topo.cpus cpu = some found)
    (hp : found.pNumaNode = some p)
    (hdetails : cpuDetails sys cpu online topo = .ok (next, 0)) :
    ∃ caches, next = ((topo.withCcl sys cpu p).withPackage sys cpu online).setCpu cpu
      { found with
        coreId := coreIdOf sys cpu online
        coreCpusMap := coreCpusOf sys cpu online topo.kernelMaxCpus
        pCluster := (clusterOf sys cpu).map topo.findCcl
        pPackage := (packageOf sys cpu online).map (topo.withCcl sys cpu p).findPackage
        caches := caches } := by
  obtain ⟨afterCore, hcore, hdetails⟩ := andThen_eq_success.mp hdetails
  obtain ⟨afterCluster, hcluster, hdetails⟩ := andThen_eq_success.mp hdetails
  obtain ⟨afterPackage, hpackage, hcache⟩ := andThen_eq_success.mp hdetails
  have hafterCore := coreInfo_success hcpu hcore
  subst hafterCore
  have hafterCluster := clusterInfo_success (p := p) (setCpu_cpus topo cpu _) (by exact hp)
    hcluster
  rw [show ∀ value, (topo.setCpu cpu value).withCcl sys cpu p =
    (topo.withCcl sys cpu p).setCpu cpu value from fun _ => rfl, setCpu_setCpu] at hafterCluster
  subst hafterCluster
  have hafterPackage := packageInfo_success (setCpu_cpus _ cpu _) hpackage
  rw [show ∀ topo : WaycaTopo, ∀ value, (topo.setCpu cpu value).withPackage sys cpu online =
    (topo.withPackage sys cpu online).setCpu cpu value from fun _ _ => rfl,
    setCpu_setCpu] at hafterPackage
  subst hafterPackage
  obtain ⟨caches, hnext⟩ := cacheInfo_success (setCpu_cpus _ cpu _) hcache
  rw [setCpu_setCpu] at hnext
  exact ⟨caches, hnext⟩

theorem markCcl_nodeIdx (sys : Sysfs) (cpu : ℕ) (topo : WaycaTopo) (node : WaycaNode) :
    (markCcl sys cpu topo node).nodeIdx = node.nodeIdx := by
  unfold markCcl
  split
  next => rfl
  next =>
    split <;> rfl

section Congruence

variable (hframe : SameFrame topo next)

include hframe

theorem cclsAfter_congr (hccls : next.ccls = topo.ccls) :
    cclsAfter sys cpu next = cclsAfter sys cpu topo := by
  unfold cclsAfter newCcl
  rw [hccls, hframe.kernelMaxCpus, hframe.setsize]

theorem markCcl_congr (hccls : next.ccls = topo.ccls) :
    markCcl sys cpu next = markCcl sys cpu topo := by
  unfold markCcl WaycaTopo.findCcl
  rw [hccls, hframe.setsize]

theorem packagesAfter_congr (hpackages : next.packages = topo.packages) :
    packagesAfter sys cpu online next = packagesAfter sys cpu online topo := by
  unfold packagesAfter newPackage
  rw [hpackages, hframe.kernelMaxCpus, hframe.setsize]

end Congruence

theorem readCpu_success (hnode : sys.cpuAttribute cpu (·.node) = some k)
    (hread : readCpu sys cpu topo = .ok (next, 0)) :
    ∃ p found, CpuRead sys cpu k p topo next found := by
  obtain ⟨middle, hinfo, hdetails⟩ := andThen_eq_success.mp hread
  obtain ⟨p, entered, htables, hentered, hobjects, hmiddle⟩ :=
    nodeInfo_success hnode (setCpu_cpus topo cpu _) hinfo
  subst hmiddle
  have hframe : ∀ {after}, SameFrame entered after → SameFrame topo after :=
    ((sameNodes_setCpu topo cpu _).toSameFrame.trans htables.toSameFrame).trans
  have hcpus : ∀ first second, update (update entered.cpus cpu first) cpu second =
      update topo.cpus cpu second := by
    intro first second
    rw [htables.cpus, update_idem]
    exact update_idem _ _ _
  have hfindCcl : entered.findCcl = topo.findCcl := by
    funext id
    exact congrArg (place WaycaCluster.clusterId · id) htables.ccls
  have hfindPackage : entered.findPackage = topo.findPackage := by
    funext id
    exact congrArg (place WaycaPackage.physicalPackageId · id) htables.packages
  obtain ⟨caches, hnext⟩ := cpuDetails_success (setCpu_cpus _ cpu _) rfl hdetails
  subst hnext
  refine ⟨p, _, hframe ⟨rfl, rfl, rfl, rfl, rfl, rfl⟩,
    ⟨hentered.slots, hentered.nodeMap, hentered.nNodes, hentered.known, hentered.new⟩, ?_,
    cclsAfter_congr (hframe ⟨rfl, rfl, rfl, rfl, rfl, rfl⟩) htables.ccls,
    packagesAfter_congr (hframe ⟨rfl, rfl, rfl, rfl, rfl, rfl⟩) htables.packages, hcpus _ _, rfl,
    rfl, congrArg (coreCpusOf sys cpu _) (hframe (.refl entered)).kernelMaxCpus,
    congrArg (Option.map · _) hfindCcl, congrArg (Option.map · _) hfindPackage⟩
  have hmark : markCcl sys cpu entered = markCcl sys cpu topo :=
    markCcl_congr (hframe (.refl entered)) htables.ccls
  change ((entered.nodeObjects.modify p _).modify p (markCcl sys cpu entered)) = _
  rw [hobjects, hmark, List.modify_modify_eq]
  rfl

/-! ## The nodes once a CPU is read -/

section Nodes

variable (hread : CpuRead sys cpu k p topo next found)

include hread

theorem CpuRead.object_other {q : ℕ} (hq : q < topo.nodeObjects.length) (hne : q ≠ p) :
    next.nodeObjects[q]? = topo.nodeObjects[q]? := by
  rw [hread.nodeObjects, List.getElem?_modify_ne _ _ (Ne.symm hne)]
  unfold WaycaTopo.objectsWith
  split
  next => rfl
  next => exact List.getElem?_append_left hq

variable (hslots : SlotsNumbered topo)

include hslots

/-- The node that the CPU is put on is the one the array had, or a new one. -/
theorem CpuRead.object : ∃ node, node.nodeIdx = k ∧
    (topo.knowsNode k = true → topo.nodeView k = some node) ∧
    (topo.knowsNode k = false → node = .fresh k) ∧
    next.nodeObjects[p]? = some (markCcl sys cpu topo (node.withCpu cpu topo.setsize)) := by
  rw [hread.nodeObjects, List.getElem?_modify_eq]
  unfold WaycaTopo.objectsWith
  cases hknows : topo.knowsNode k with
  | true =>
      obtain ⟨node, hnode, hindex⟩ := hslots k p (hread.known hknows)
      refine ⟨node, hindex, fun _ => ?_, nofun, ?_⟩
      · rw [WaycaTopo.nodeView, hread.known hknows, Option.bind_some, hnode]
      · rw [if_pos rfl, hnode]
        rfl
  | false =>
      refine ⟨.fresh k, rfl, nofun, fun _ => rfl, ?_⟩
      rw [if_neg Bool.false_ne_true, hread.new hknows, List.getElem?_append_right le_rfl,
        Nat.sub_self]
      rfl

theorem CpuRead.hasNumber : next.HasNumber p k := by
  obtain ⟨node, hindex, -, -, hobject⟩ := hread.object hslots
  exact ⟨_, hobject, (markCcl_nodeIdx sys cpu topo _).trans hindex⟩

theorem CpuRead.number_eq {j : ℕ} (hnumber : topo.HasNumber p j) : j = k := by
  cases hknows : topo.knowsNode k with
  | true => exact (hslots k p (hread.known hknows)).unique hnumber
  | false =>
      obtain ⟨node, hnode, -⟩ := hnumber
      exact absurd (hread.new hknows) (List.getElem?_eq_some_iff.mp hnode).1.ne

theorem CpuRead.hasNumber_other {j q : ℕ} (hnumber : topo.HasNumber q j) :
    next.HasNumber q j := by
  by_cases hq : q = p
  · subst hq
    rw [hread.number_eq hslots hnumber]
    exact hread.hasNumber hslots
  · obtain ⟨node, hnode, hindex⟩ := hnumber
    refine ⟨node, ?_, hindex⟩
    rw [hread.object_other (List.getElem?_eq_some_iff.mp hnode).1 hq, hnode]

theorem CpuRead.slotsNumbered : SlotsNumbered next := by
  intro j q hq
  rw [hread.slots, update_apply] at hq
  split at hq
  next hj =>
    cases hq
    rw [hj]
    exact hread.hasNumber hslots
  next => exact hread.hasNumber_other hslots (hslots j q hq)

omit hslots in
theorem CpuRead.nodes (hnodes : NodesWellFormed topo) (hfits : k / 8 < cpuAllocSize topo.nCpus) :
    next.nodeView = Function.update topo.nodeView k (some (markCcl sys cpu topo
      (((topo.nodeView k).getD (.fresh k)).withCpu cpu topo.setsize))) := by
  have hknows : topo.knowsNode k = decide (k ∈ topo.nodeMap) := cpuIssetS_of_fits hfits
  obtain ⟨node, -, hknown, hnew, hobject⟩ := hread.object hnodes.pointer
  have hbefore : (topo.nodeView k).getD (.fresh k) = node := by
    by_cases hmem : k ∈ topo.nodeMap
    · rw [hknown (hknows.trans (decide_eq_true hmem)), Option.getD_some]
    · have hfree : topo.slotAt k = none := by
        rw [← Option.not_isSome_iff_eq_none, ← hnodes.created]
        exact hmem
      rw [hnew (hknows.trans (decide_eq_false hmem)), WaycaTopo.nodeView, hfree]
      rfl
  funext j
  rw [update_apply, WaycaTopo.nodeView, hread.slots, update_apply, hbefore]
  split
  next => exact hobject
  next hj =>
    unfold WaycaTopo.nodeView
    cases hq : topo.slotAt j with
    | none => rfl
    | some q =>
        obtain ⟨other, hother, hindex⟩ := hnodes.pointer j q hq
        apply hread.object_other (List.getElem?_eq_some_iff.mp hother).1
        rintro rfl
        exact hj (hread.number_eq hnodes.pointer ⟨other, hother, hindex⟩)

end Nodes

end WaycaScheduler
