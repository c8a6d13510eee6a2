import WaycaScheduler.CpuReading

/-!
# The tables after the CPUs are read

A snapshot of sysfs numbers its CPUs from zero on and puts each of them on a
node.  `TablesUpTo` is the invariant of the loop over the CPUs: clusters and
packages are tables of the ids met, and a CPU points to its cluster and package
and to a node with its number.  `ReadUpTo` adds what holds when the node numbers
fit the map of the nodes: the nodes hold the CPUs read so far, every cluster is
marked in the node of the CPU that created it, and the array has the node of
every CPU.
-/

namespace WaycaScheduler

open Fallible KeyedTable Function Finset

variable {sys : Sysfs} {n i : ℕ} {online : Finset ℕ} {nodeOf : ℕ → ℕ}
  {topo next : WaycaTopo}

def Sysfs.kernelMaxCpus (sys : Sysfs) : ℕ :=
  match sys.kernelMax with
  | some kernelMax => kernelMax + 1
  | none => WAYCA_SC_DEFAULT_KERNEL_MAX

/-- The CPUs are the first `n` numbers, CPU 0 is online, the attributes agree
with the list of the online CPUs, and every CPU is on a node. -/
structure Snapshot (sys : Sysfs) (n : ℕ) (online : Finset ℕ) (nodeOf : ℕ → ℕ) : Prop where
  possible : sys.possible = some (range n)
  fits : n ≤ sys.kernelMaxCpus
  onlineList : sys.online = some online
  boot : 0 ∈ online
  online_lt : ∀ cpu ∈ online, cpu < n
  agrees : ∀ cpu, 0 < cpu → cpu < n →
    (sys.cpuAttribute cpu (·.online)).getD (sys.unreadOnline cpu) =
      if cpu ∈ online then 1 else 0
  node : ∀ cpu < n, sys.cpuAttribute cpu (·.node) = some (nodeOf cpu)

structure Framed (sys : Sysfs) (n : ℕ) (online : Finset ℕ) (topo : WaycaTopo) : Prop where
  kernelMaxCpus : topo.kernelMaxCpus = sys.kernelMaxCpus
  setsize : topo.setsize = cpuAllocSize sys.kernelMaxCpus
  nCpus : topo.nCpus = n
  cpuMap : topo.cpuMap = range n
  onlineCpuMap : topo.onlineCpuMap = online

theorem Framed.same (hframed : Framed sys n online topo) (hsame : SameFrame topo next) :
    Framed sys n online next :=
  ⟨hsame.kernelMaxCpus.trans hframed.kernelMaxCpus, hsame.setsize.trans hframed.setsize,
    hsame.nCpus.trans hframed.nCpus, hsame.cpuMap.trans hframed.cpuMap,
    hsame.onlineCpuMap.trans hframed.onlineCpuMap⟩

section

variable (hsnap : Snapshot sys n online nodeOf)

include hsnap

theorem Snapshot.fits_setsize (hframed : Framed sys n online topo) {value : ℕ}
    (hvalue : value < n) :
    value / 8 < topo.setsize := by
  rw [hframed.setsize]
  exact lt_cpuAllocSize (hvalue.trans_le hsnap.fits)

theorem Snapshot.isOnline (hframed : Framed sys n online topo) {cpu : ℕ} (hcpu : cpu < n) :
    topo.isOnline cpu = decide (cpu ∈ online) := by
  unfold WaycaTopo.isOnline
  rw [cpuIssetS_of_fits (hsnap.fits_setsize hframed hcpu), hframed.onlineCpuMap]
  by_cases hzero : cpu = 0
  · subst hzero
    simp [hsnap.boot]
  · simp [hzero]

theorem Snapshot.readCpulist {set : Finset ℕ} (hset : ∀ cpu ∈ set, cpu < n) :
    readCpulist (some set) sys.kernelMaxCpus = some set := by
  unfold WaycaScheduler.readCpulist
  rw [Option.map_some, cpuSeen_of_fits]
  intro cpu hcpu
  exact lt_cpuAllocSize ((hset cpu hcpu).trans_le hsnap.fits)

theorem Snapshot.allocCpu :
    topoAllocCpu sys .zeroed = ({ WaycaTopo.zeroed with
      kernelMaxCpus := sys.kernelMaxCpus
      setsize := cpuAllocSize sys.kernelMaxCpus
      nCpus := n
      cpuMap := range n
      cpus := fun _ => none
      onlineCpuMap := online }, 0) := by
  have hpossible := hsnap.readCpulist fun cpu hcpu => mem_range.mp hcpu
  have honline := hsnap.readCpulist hsnap.online_lt
  have hcount : cpuCountS (cpuAllocSize sys.kernelMaxCpus) (range n) = n := by
    unfold cpuCountS
    rw [cpuSeen_of_fits, card_range]
    intro cpu hcpu
    exact lt_cpuAllocSize ((mem_range.mp hcpu).trans_le hsnap.fits)
  unfold topoAllocCpu
  rw [hsnap.possible, hsnap.onlineList]
  unfold Sysfs.kernelMaxCpus at hpossible honline hcount ⊢
  cases hkernel : sys.kernelMax with
  | none =>
      rw [hkernel] at hpossible honline hcount
      simp only [hpossible, honline, hcount]
  | some kernelMax =>
      rw [hkernel] at hpossible honline hcount
      simp only [hpossible, honline, hcount]

theorem Snapshot.framed_allocated :
    Framed sys n online (allocated sys) := by
  unfold allocated topoAllocNodeMap
  rw [hsnap.allocCpu]
  exact ⟨rfl, rfl, rfl, rfl, rfl⟩

theorem Snapshot.onlineAgrees (hframed : Framed sys n online topo) : OnlineAgrees sys topo := by
  intro cpu hpos hcpu
  rw [hframed.nCpus] at hcpu
  rw [hsnap.agrees cpu hpos hcpu,
    cpuIssetS_of_fits (hsnap.fits_setsize hframed hcpu), hframed.onlineCpuMap]
  simp

end

/-! ## The invariant of the loop -/

def WaycaTopo.node (topo : WaycaTopo) (k : ℕ) : WaycaNode := (topo.nodeView k).getD (.fresh k)

/-- The CPUs on the node among the first `i`. -/
def nodeMembers (nodeOf : ℕ → ℕ) (i k : ℕ) : Finset ℕ :=
  (range i).filter fun cpu => nodeOf cpu = k

def packageIn (sys : Sysfs) (online : Finset ℕ) (cpu : ℕ) : Option ℤ :=
  packageOf sys cpu (decide (cpu ∈ online))

/-- The number of the node of the CPU fits the map of the nodes. -/
def NodeFits (n : ℕ) (nodeOf : ℕ → ℕ) (cpu : ℕ) : Prop := nodeOf cpu / 8 < cpuAllocSize n

instance (n : ℕ) (nodeOf : ℕ → ℕ) : DecidablePred (NodeFits n nodeOf) :=
  fun cpu => Nat.decLt (nodeOf cpu / 8) (cpuAllocSize n)

def NodesFit (n : ℕ) (nodeOf : ℕ → ℕ) : Prop := ∀ cpu < n, NodeFits n nodeOf cpu

theorem nodesFit_of_lt (hnodes : ∀ cpu < n, nodeOf cpu < n) : NodesFit n nodeOf :=
  fun cpu hcpu => lt_cpuAllocSize (hnodes cpu hcpu)

/-- No later CPU has had the node of the CPU created anew. -/
def NodeStays (n : ℕ) (nodeOf : ℕ → ℕ) (i cpu : ℕ) : Prop :=
  NodeFits n nodeOf cpu ∨ ∀ later < i, cpu < later → nodeOf later ≠ nodeOf cpu

def WaycaTopo.nodePointer (topo : WaycaTopo) (cpu : ℕ) : Option ℕ :=
  (topo.cpus cpu).bind (·.pNumaNode)

/-- The nodes after the first `i` CPUs.  Each CPU on a node that does not fit counts
for a node of its own, and the array has the last of these nodes. -/
structure NodesMet (n : ℕ) (nodeOf : ℕ → ℕ) (i : ℕ) (topo : WaycaTopo) : Prop where
  numbered : SlotsNumbered topo
  present : ∀ k, (topo.slotAt k).isSome ↔ k ∈ (range i).image nodeOf
  fitting : topo.nodeMap = ((range i).filter (NodeFits n nodeOf)).image nodeOf
  counted : topo.nNodes =
    topo.nodeMap.card + ((range i).filter (¬ NodeFits n nodeOf ·)).card
  owned : ∀ cpu < i, ∃ p, topo.nodePointer cpu = some p ∧ topo.HasNumber p (nodeOf cpu) ∧
    (topo.slotAt (nodeOf cpu) = some p ↔ NodeStays n nodeOf i cpu)

structure CpuRecord (sys : Sysfs) (online : Finset ℕ) (topo : WaycaTopo) (cpu : ℕ)
    (found : WaycaCpu) : Prop where
  coreId : found.coreId = coreIdOf sys cpu (decide (cpu ∈ online))
  coreCpusMap : found.coreCpusMap =
    coreCpusOf sys cpu (decide (cpu ∈ online)) sys.kernelMaxCpus
  pCluster : found.pCluster = (clusterOf sys cpu).map (place WaycaCluster.clusterId topo.ccls)
  pPackage : found.pPackage =
    (packageIn sys online cpu).map (place WaycaPackage.physicalPackageId topo.packages)

structure CpuKept (sys : Sysfs) (online : Finset ℕ) (nodeOf : ℕ → ℕ) (topo : WaycaTopo)
    (cpu : ℕ) (found : WaycaCpu) : Prop extends CpuRecord sys online topo cpu found where
  pNumaNode : found.pNumaNode = topo.slotAt (nodeOf cpu)

/-- No CPU before this one shows the cluster. -/
def FirstInCcl (sys : Sysfs) (cpu : ℕ) (id : ℤ) : Prop :=
  clusterOf sys cpu = some id ∧ ∀ earlier < cpu, clusterOf sys earlier ≠ some id

/-- The tables after the first `i` CPUs. -/
structure TablesUpTo (sys : Sysfs) (n : ℕ) (online : Finset ℕ) (nodeOf : ℕ → ℕ) (i : ℕ)
    (topo : WaycaTopo) : Prop extends NodesMet n nodeOf i topo where
  framed : Framed sys n online topo
  cores : topo.cores = []
  nodeCores : ∀ node ∈ topo.nodeObjects, node.coreMap = ∅
  ccls : Tabulates WaycaCluster.clusterId (clusterOf sys) (range i) topo.ccls
  newCcls : ∀ ccl ∈ topo.ccls, ∃ cpu < i, FirstInCcl sys cpu ccl.clusterId ∧
    ccl = newCcl sys cpu topo ccl.clusterId
  cclCount : topo.ccls.length ≤ i
  packages : Tabulates WaycaPackage.physicalPackageId (packageIn sys online) (range i)
    topo.packages
  newPackages : ∀ package ∈ topo.packages, ∃ cpu < i,
    packageIn sys online cpu = some package.physicalPackageId ∧
      package = newPackage sys cpu topo package.physicalPackageId
  records : ∀ cpu < i, ∃ found, topo.cpus cpu = some found ∧ CpuRecord sys online topo cpu found

structure ReadUpTo (sys : Sysfs) (n : ℕ) (online : Finset ℕ) (nodeOf : ℕ → ℕ) (i : ℕ)
    (topo : WaycaTopo) : Prop extends TablesUpTo sys n online nodeOf i topo where
  fit : NodesFit n nodeOf
  nodeCpus : ∀ k, (topo.node k).cpuMap = nodeMembers nodeOf i k
  nodeCount : ∀ k, (topo.node k).nCpus = (nodeMembers nodeOf i k).card
  cclMarks : Marked WaycaCluster.clusterId (clusterOf sys) (fun cpu => some (nodeOf cpu))
    (range i) topo.ccls fun k => (topo.node k).clusterMap

theorem Snapshot.tablesUpTo_allocated (hsnap : Snapshot sys n online nodeOf) :
    TablesUpTo sys n online nodeOf 0 (allocated sys) := by
  have hframed := hsnap.framed_allocated
  unfold allocated topoAllocNodeMap at hframed ⊢
  rw [hsnap.allocCpu] at hframed ⊢
  refine ⟨⟨nofun, ?_, rfl, rfl, nofun⟩, hframed, rfl, nofun, .empty, nofun, le_rfl, .empty, nofun,
    nofun⟩
  intro k
  exact iff_of_false Bool.false_ne_true (notMem_empty k)

theorem Snapshot.readUpTo_allocated (hsnap : Snapshot sys n online nodeOf)
    (hnodes : NodesFit n nodeOf) : ReadUpTo sys n online nodeOf 0 (allocated sys) := by
  have htables := hsnap.tablesUpTo_allocated
  have hfresh : ∀ k, (allocated sys).node k = .fresh k := by
    intro k
    rw [WaycaTopo.node, WaycaTopo.nodeView, WaycaTopo.slotAt, allocated_nodes]
    rfl
  have hccls : (allocated sys).ccls = [] :=
    List.eq_nil_of_length_eq_zero (Nat.le_zero.mp htables.cclCount)
  refine ⟨htables, hnodes, fun k => congrArg (·.cpuMap) (hfresh k),
    fun k => congrArg (·.nCpus) (hfresh k), ?_⟩
  simp only [hfresh, hccls]
  exact .empty

/-! ## The nodes -/

section Nodes

variable (hmet : NodesMet n nodeOf i topo)

include hmet

theorem NodesMet.wellFormed (hfits : ∀ cpu < i, NodeFits n nodeOf cpu) : NodesWellFormed topo := by
  refine ⟨hmet.numbered, fun k => ?_⟩
  rw [hmet.present, hmet.fitting,
    filter_true_of_mem fun cpu hcpu => hfits cpu (mem_range.mp hcpu)]

theorem NodesMet.slotAt_eq (hfits : ∀ cpu < i, NodeFits n nodeOf cpu) {cpu : ℕ} (hcpu : cpu < i) :
    topo.nodePointer cpu = topo.slotAt (nodeOf cpu) := by
  obtain ⟨p, hpointer, -, hslot⟩ := hmet.owned cpu hcpu
  rw [hpointer, hslot.mpr (.inl (hfits cpu hcpu))]

variable {p : ℕ} {found : WaycaCpu} (hn : topo.nCpus = n)
  (hread : CpuRead sys i (nodeOf i) p topo next found)

include hn hread

theorem NodesMet.counted_step : next.nNodes =
    next.nodeMap.card + ((range (i + 1)).filter (¬ NodeFits n nodeOf ·)).card := by
  subst hn
  have hold := hmet.counted
  rw [hread.nNodes, hread.nodeMap, range_add_one, filter_insert]
  by_cases hfits : NodeFits topo.nCpus nodeOf i
  · have hknows : topo.knowsNode (nodeOf i) = decide (nodeOf i ∈ topo.nodeMap) :=
      cpuIssetS_of_fits hfits
    rw [cpuSetS_of_fits hfits, if_neg (not_not.mpr hfits), hknows]
    by_cases hmem : nodeOf i ∈ topo.nodeMap
    · rw [decide_eq_true hmem, if_pos rfl, insert_eq_of_mem hmem, hold]
    · rw [decide_eq_false hmem, if_neg Bool.false_ne_true, card_insert_of_notMem hmem]
      omega
  · have hknows : topo.knowsNode (nodeOf i) = false := knowsNode_of_unfit hfits
    have hset : cpuSetS (nodeOf i) (cpuAllocSize topo.nCpus) topo.nodeMap = topo.nodeMap :=
      if_neg hfits
    rw [hknows, if_neg Bool.false_ne_true, hset, if_pos hfits, card_insert_of_notMem (by simp)]
    omega

theorem NodesMet.owned_step : ∀ cpu < i + 1, ∃ q, next.nodePointer cpu = some q ∧
    next.HasNumber q (nodeOf cpu) ∧
    (next.slotAt (nodeOf cpu) = some q ↔ NodeStays n nodeOf (i + 1) cpu) := by
  intro cpu hcpu
  rw [WaycaTopo.nodePointer, hread.cpus, hread.slots]
  rcases Nat.lt_succ_iff_lt_or_eq.mp hcpu with hlt | rfl
  · obtain ⟨q, hpointer, hnumber, hslot⟩ := hmet.owned cpu hlt
    rw [update_of_ne hlt.ne]
    refine ⟨q, hpointer, hread.hasNumber_other hmet.numbered hnumber, ?_⟩
    rw [update_apply]
    by_cases hsame : nodeOf cpu = nodeOf i
    · rw [if_pos hsame]
      by_cases hfits : NodeFits n nodeOf cpu
      · -- the node is known, and the array keeps it
        have hknows : topo.knowsNode (nodeOf i) = true := by
          rw [← hsame, WaycaTopo.knowsNode, hn, cpuIssetS_of_fits hfits, hmet.fitting]
          exact decide_eq_true (mem_image_of_mem nodeOf
            (mem_filter.mpr ⟨mem_range.mpr hlt, hfits⟩))
        have hkept := hslot.mpr (.inl hfits)
        rw [hsame, hread.known hknows] at hkept
        exact iff_of_true hkept (.inl hfits)
      · have hknows : topo.knowsNode (nodeOf i) = false := by
          apply knowsNode_of_unfit
          rw [← hsame, hn]
          exact hfits
        obtain ⟨node, hnode, -⟩ := hnumber
        have hq := (List.getElem?_eq_some_iff.mp hnode).1
        apply iff_of_false
        · rw [hread.new hknows]
          exact fun hequal => hq.ne (Option.some.inj hequal).symm
        · rintro (hfit | hlast)
          · exact hfits hfit
          · exact hlast i (Nat.lt_succ_self i) hlt hsame.symm
    · rw [if_neg hsame, hslot]
      apply or_congr_right
      constructor
      · intro hlast later hlater hafter
        rcases Nat.lt_succ_iff_lt_or_eq.mp hlater with hbefore | rfl
        · exact hlast later hbefore hafter
        · exact Ne.symm hsame
      · exact fun hlast later hlater => hlast later (Nat.lt_succ_of_lt hlater)
  · rw [update_self, update_self]
    exact ⟨p, hread.pNumaNode, hread.hasNumber hmet.numbered,
      iff_of_true rfl (.inr fun later hlater hafter => by omega)⟩

theorem NodesMet.step : NodesMet n nodeOf (i + 1) next where
  numbered := hread.slotsNumbered hmet.numbered
  present := by
    intro k
    rw [hread.slots, update_apply, range_add_one, image_insert, mem_insert, ← hmet.present k]
    split
    next hk => simp [hk]
    next hk => simp [hk]
  fitting := by
    subst hn
    rw [hread.nodeMap, hmet.fitting, range_add_one, filter_insert]
    by_cases hfits : NodeFits topo.nCpus nodeOf i
    · rw [if_pos hfits, image_insert]
      exact cpuSetS_of_fits hfits _
    · rw [if_neg hfits]
      exact if_neg hfits
  counted := hmet.counted_step hn hread
  owned := hmet.owned_step hn hread

end Nodes

/-! ## One CPU of the loop -/

theorem nodeMembers_succ (nodeOf : ℕ → ℕ) (i : ℕ) :
    nodeMembers nodeOf (i + 1) = update (nodeMembers nodeOf i) (nodeOf i)
      (insert i (nodeMembers nodeOf i (nodeOf i))) := by
  funext k
  unfold nodeMembers
  rw [range_add_one, filter_insert, update_apply]
  split
  next hk => rw [if_pos hk.symm, hk]
  next hk => rw [if_neg (Ne.symm hk)]

theorem CpuRead.node {cpu k p : ℕ} {found : WaycaCpu}
    (hread : CpuRead sys cpu k p topo next found) (hnodes : NodesWellFormed topo)
    (hfits : k / 8 < cpuAllocSize topo.nCpus) :
    next.node = update topo.node k
      (markCcl sys cpu topo ((topo.node k).withCpu cpu topo.setsize)) := by
  funext j
  unfold WaycaTopo.node
  rw [hread.nodes hnodes hfits, update_apply, update_apply]
  split <;> rfl

theorem markCcl_maps (sys : Sysfs) (cpu : ℕ) (topo : WaycaTopo) (node : WaycaNode) :
    (markCcl sys cpu topo node).cpuMap = node.cpuMap ∧
      (markCcl sys cpu topo node).nCpus = node.nCpus ∧
      (markCcl sys cpu topo node).coreMap = node.coreMap := by
  unfold markCcl
  split
  next => exact ⟨rfl, rfl, rfl⟩
  next =>
    split
    next => exact ⟨rfl, rfl, rfl⟩
    next => exact ⟨rfl, rfl, rfl⟩

theorem CpuRead.clusterMaps {cpu k p : ℕ} {found : WaycaCpu}
    (hread : CpuRead sys cpu k p topo next found) (hnodes : NodesWellFormed topo)
    (hfits : k / 8 < cpuAllocSize topo.nCpus) (hplace : topo.ccls.length / 8 < topo.setsize) :
    (fun j => (next.node j).clusterMap) = markNew WaycaCluster.clusterId topo.ccls
      (clusterOf sys cpu) (some k) fun j => (topo.node j).clusterMap := by
  funext j
  rw [hread.node hnodes hfits, update_apply]
  unfold markCcl markNew
  cases clusterOf sys cpu with
  | none =>
      split
      next hj =>
        subst hj
        rfl
      next => rfl
  | some id =>
      simp only [Option.map_some, Option.some.injEq, findCcl_eq, cpuSetS_of_fits hplace]
      split
      next hj =>
        subst hj
        split
        next hnew =>
          rw [if_pos ⟨hnew, rfl⟩]
          rfl
        next hknown =>
          rw [if_neg fun hboth => hknown hboth.1]
          rfl
      next hj => rw [if_neg fun hboth => hj hboth.2.symm]

theorem newCcl_congr (hsame : SameFrame topo next) (cpu : ℕ) (id : ℤ) :
    newCcl sys cpu next id = newCcl sys cpu topo id := by
  unfold newCcl
  rw [hsame.kernelMaxCpus, hsame.setsize]

theorem newPackage_congr (hsame : SameFrame topo next) (cpu : ℕ) (id : ℤ) :
    newPackage sys cpu next id = newPackage sys cpu topo id := by
  unfold newPackage
  rw [hsame.kernelMaxCpus, hsame.setsize]

section Step

variable {found : WaycaCpu} {p : ℕ}
  (hup : TablesUpTo sys n online nodeOf i topo) (hsnap : Snapshot sys n online nodeOf)
  (hi : i < n) (hread : CpuRead sys i (nodeOf i) p topo next found)

include hup hread

theorem TablesUpTo.ccls_step :
    Tabulates WaycaCluster.clusterId (clusterOf sys) (range (i + 1)) next.ccls := by
  rw [hread.ccls, range_add_one]
  exact hup.ccls.meet fun _ => rfl

theorem TablesUpTo.newCcls_step : ∀ ccl ∈ next.ccls, ∃ cpu < i + 1,
    FirstInCcl sys cpu ccl.clusterId ∧ ccl = newCcl sys cpu next ccl.clusterId := by
  intro ccl hccl
  rw [hread.ccls] at hccl
  rcases of_mem_meet hccl with hold | ⟨id, hcluster, hunknown, hnew⟩
  · obtain ⟨cpu, hcpu, hfirst, hnew⟩ := hup.newCcls ccl hold
    refine ⟨cpu, Nat.lt_succ_of_lt hcpu, hfirst, ?_⟩
    rw [newCcl_congr hread.toSameFrame]
    exact hnew
  · subst hnew
    refine ⟨i, Nat.lt_succ_self i, ⟨hcluster, fun _ hearlier hshows =>
      hunknown (hup.ccls.mem (mem_range.mpr hearlier) hshows)⟩, ?_⟩
    rw [newCcl_congr hread.toSameFrame]
    rfl

include hsnap hi

theorem TablesUpTo.packages_after : next.packages =
    meet WaycaPackage.physicalPackageId topo.packages (packageIn sys online i)
      (newPackage sys i topo) := by
  rw [hread.packages, packagesAfter, hsnap.isOnline hup.framed hi]
  rfl

theorem TablesUpTo.packages_step :
    Tabulates WaycaPackage.physicalPackageId (packageIn sys online) (range (i + 1))
      next.packages := by
  rw [hup.packages_after hsnap hi hread, range_add_one]
  exact hup.packages.meet fun _ => rfl

theorem TablesUpTo.newPackages_step : ∀ package ∈ next.packages, ∃ cpu < i + 1,
    packageIn sys online cpu = some package.physicalPackageId ∧
      package = newPackage sys cpu next package.physicalPackageId := by
  intro package hpackage
  rw [hup.packages_after hsnap hi hread] at hpackage
  rcases of_mem_meet hpackage with hold | ⟨id, hid, -, hnew⟩
  · obtain ⟨cpu, hcpu, hid, hnew⟩ := hup.newPackages package hold
    refine ⟨cpu, Nat.lt_succ_of_lt hcpu, hid, ?_⟩
    rw [newPackage_congr hread.toSameFrame]
    exact hnew
  · subst hnew
    refine ⟨i, Nat.lt_succ_self i, hid, ?_⟩
    rw [newPackage_congr hread.toSameFrame]
    rfl

omit hsnap hi in
theorem TablesUpTo.nodeCores_step : ∀ node ∈ next.nodeObjects, node.coreMap = ∅ := by
  intro node hnode
  obtain ⟨q, hq⟩ := List.mem_iff_getElem?.mp hnode
  rw [hread.nodeObjects, List.getElem?_modify] at hq
  obtain ⟨before, hbefore, rfl⟩ := Option.map_eq_some_iff.mp hq
  have hempty : before.coreMap = ∅ := by
    have hmem := List.mem_of_getElem? hbefore
    unfold WaycaTopo.objectsWith at hmem
    split at hmem
    next => exact hup.nodeCores before hmem
    next =>
      rcases List.mem_append.mp hmem with hold | hnew
      · exact hup.nodeCores before hold
      · rw [List.mem_singleton.mp hnew]
        rfl
  split
  next => exact (markCcl_maps sys i topo _).2.2.trans hempty
  next => exact hempty

theorem TablesUpTo.record_step {cpu : ℕ} {kept : WaycaCpu} (hcpu : cpu < i)
    (hkept : CpuRecord sys online topo cpu kept) : CpuRecord sys online next cpu kept := by
  have hseen : cpu ∈ insert i (range i) := mem_insert_of_mem (mem_range.mpr hcpu)
  refine ⟨hkept.coreId, hkept.coreCpusMap, ?_, ?_⟩
  · rw [hkept.pCluster, hread.ccls]
    exact (hup.ccls.place_meet (fun _ => rfl) hseen).symm
  · rw [hkept.pPackage, hup.packages_after hsnap hi hread]
    exact (hup.packages.place_meet (fun _ => rfl) hseen).symm

theorem TablesUpTo.record_new : CpuRecord sys online next i found := by
  have hseen : i ∈ insert i (range i) := mem_insert_self i _
  have honline := hsnap.isOnline hup.framed hi
  refine ⟨?_, ?_, ?_, ?_⟩
  · rw [hread.coreId, honline]
  · rw [hread.coreCpusMap, honline, hup.framed.kernelMaxCpus]
  · rw [hread.pCluster, hread.ccls]
    exact (hup.ccls.place_meet (fun _ => rfl) hseen).symm
  · rw [hread.pPackage, honline, hup.packages_after hsnap hi hread]
    exact (hup.packages.place_meet (fun _ => rfl) hseen).symm

theorem TablesUpTo.step : TablesUpTo sys n online nodeOf (i + 1) next where
  toNodesMet := hup.toNodesMet.step hup.framed.nCpus hread
  framed := hup.framed.same hread.toSameFrame
  cores := hread.cores.trans hup.cores
  nodeCores := hup.nodeCores_step hread
  ccls := hup.ccls_step hread
  newCcls := hup.newCcls_step hread
  cclCount := by
    rw [hread.ccls]
    exact (length_meet_le _ _ _ _).trans (Nat.succ_le_succ hup.cclCount)
  packages := hup.packages_step hsnap hi hread
  newPackages := hup.newPackages_step hsnap hi hread
  records := by
    intro cpu hcpu
    rw [hread.cpus]
    rcases Nat.lt_succ_iff_lt_or_eq.mp hcpu with hlt | rfl
    · obtain ⟨kept, hkept, hvalid⟩ := hup.records cpu hlt
      refine ⟨kept, ?_, hup.record_step hsnap hi hread hlt hvalid⟩
      rw [update_of_ne hlt.ne, hkept]
    · exact ⟨found, update_self _ _ _, hup.record_new hsnap hi hread⟩

omit hup in
theorem ReadUpTo.step (hup : ReadUpTo sys n online nodeOf i topo) :
    ReadUpTo sys n online nodeOf (i + 1) next := by
  have hwellFormed := hup.toNodesMet.wellFormed fun cpu hcpu => hup.fit cpu (hcpu.trans hi)
  have hfits : nodeOf i / 8 < cpuAllocSize topo.nCpus := by
    rw [hup.framed.nCpus]
    exact hup.fit i hi
  have hnode := hread.node hwellFormed hfits
  refine ⟨hup.toTablesUpTo.step hsnap hi hread, hup.fit, ?_, ?_, ?_⟩
  · intro k
    have hcpu := hsnap.fits_setsize hup.framed hi
    rw [hnode, nodeMembers_succ, update_apply, update_apply]
    split
    next =>
      rw [(markCcl_maps sys i topo _).1, ← hup.nodeCpus (nodeOf i)]
      exact cpuSetS_of_fits hcpu _
    next => exact hup.nodeCpus k
  · intro k
    have hnew : i ∉ nodeMembers nodeOf i (nodeOf i) := by simp [nodeMembers]
    rw [hnode, nodeMembers_succ, update_apply, update_apply]
    split
    next =>
      rw [(markCcl_maps sys i topo _).2.1, card_insert_of_notMem hnew, ← hup.nodeCount]
      rfl
    next => exact hup.nodeCount k
  · have hplace := hsnap.fits_setsize hup.framed (hup.cclCount.trans_lt hi)
    rw [hread.clusterMaps hwellFormed hfits hplace, hread.ccls, range_add_one]
    exact hup.cclMarks.meet hup.ccls (fun _ => rfl) fun cpu hcpu => (mem_range.mp hcpu).le

end Step

theorem Snapshot.readCpus_keeps {Invariant : ℕ → WaycaTopo → Prop} {remaining : ℕ}
    (hsnap : Snapshot sys n online nodeOf)
    (hcpus : ∀ {i topo}, Invariant i topo → topo.nCpus = n)
    (hstep : ∀ {i p topo next found}, i < n → Invariant i topo →
      CpuRead sys i (nodeOf i) p topo next found → Invariant (i + 1) next)
    (hinvariant : Invariant i topo) (hcount : i + remaining = n)
    (hread : readCpus sys remaining i topo = .ok (next, 0)) : Invariant n next := by
  induction remaining generalizing i topo with
  | zero =>
      cases hread
      have hall : i = n := hcount
      subst hall
      exact hinvariant
  | succ remaining ih =>
      have hi : i < n := by omega
      unfold readCpus at hread
      rw [hcpus hinvariant, if_pos hi] at hread
      obtain ⟨middle, hfirst, hrest⟩ := andThen_eq_success.mp hread
      obtain ⟨p, found, hcpu⟩ := readCpu_success (hsnap.node i hi) hfirst
      exact ih (hstep hi hinvariant hcpu) (by omega) hrest

section Run

variable (hsnap : Snapshot sys n online nodeOf)
  (hread : readCpus sys n 0 (allocated sys) = .ok (next, 0))

include hsnap hread

theorem Snapshot.tablesUpTo : TablesUpTo sys n online nodeOf n next :=
  hsnap.readCpus_keeps (fun hup => hup.framed.nCpus)
    (fun hi hup hcpu => hup.step hsnap hi hcpu) hsnap.tablesUpTo_allocated
    (Nat.zero_add n) hread

theorem Snapshot.readUpTo (hnodes : NodesFit n nodeOf) : ReadUpTo sys n online nodeOf n next :=
  hsnap.readCpus_keeps (fun hup => hup.framed.nCpus)
    (fun hi hup hcpu => ReadUpTo.step hsnap hi hcpu hup)
    (hsnap.readUpTo_allocated hnodes) (Nat.zero_add n) hread

end Run

end WaycaScheduler
