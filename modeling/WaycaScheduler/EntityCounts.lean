import WaycaScheduler.CoreClasses
import WaycaScheduler.TopologyBounds
import WaycaScheduler.Library.Subdivision
import WaycaScheduler.Library.Transition

/-!
# Counts of the entities

The counts are quotients of the number of possible CPUs, with divisors taken
from the largest core and the largest cluster.  On a uniform machine with one
core, one cluster and some CPU of every package online, all counts are those of
the machine exactly when the numbers of the nodes fit the map of the nodes, or no
node has two CPUs: a node whose number does not fit is counted for each of its
CPUs.  On any machine the number of CPUs in an element is an error or at least one.
-/

namespace WaycaScheduler

open Fallible KeyedTable Subdivision Transition Finset

/-- Sets `max_cores` as a side effect. -/
def waycaScCoresInTotal (state : TopoState) : ℤ × TopoState :=
  if state.topo.cores.length < 1 then (-ENODATA, state)
  else
    let cpuInCore := state.topo.cores.foldl (fun most core => max most core.nCpus) 0
    if 0 < cpuInCore then
      let maxCores := state.topo.nCpus / cpuInCore
      (maxCores, { state with maxCores := maxCores })
    else (-ENODATA, state)

def waycaScCpusInCore (state : TopoState) : ℤ × TopoState :=
  if state.topo.cores.length < 1 then (-ENODATA, state)
  else
    let (_, state) := waycaScCoresInTotal state
    if 0 < state.maxCores then ((state.topo.nCpus / state.maxCores : ℕ), state)
    else (-ENODATA, state)

def waycaScCoresInCcl (state : TopoState) : ℤ × TopoState :=
  if state.topo.ccls.length < 1 then (-ENODATA, state)
  else if state.topo.cores.length < 1 then (-ENODATA, state)
  else
    let (_, state) := waycaScCoresInTotal state
    let (_, state) := waycaScCclsInTotal state
    if 0 < state.maxCcls ∧ 0 < state.maxCores then
      ((state.maxCores / state.maxCcls : ℕ), state)
    else (-ENODATA, state)

def coresFor (elements : WaycaTopo → ℕ) (state : TopoState) : ℤ × TopoState :=
  if state.topo.cores.length < 1 ∨ elements state.topo < 1 then (-ENODATA, state)
  else
    let (_, state) := waycaScCoresInTotal state
    if 0 < state.maxCores then ((state.maxCores / elements state.topo : ℕ), state)
    else (-ENODATA, state)

def waycaScCoresInNode := coresFor (·.nNodes)

def waycaScCoresInPackage := coresFor (·.packages.length)

def cclsFor (elements : WaycaTopo → ℕ) (state : TopoState) : ℤ × TopoState :=
  if state.topo.ccls.length < 1 ∨ elements state.topo < 1 then (-ENODATA, state)
  else
    let (_, state) := waycaScCclsInTotal state
    if 0 < state.maxCcls then ((state.maxCcls / elements state.topo : ℕ), state)
    else (-ENODATA, state)

def waycaScCclsInNode := cclsFor (·.nNodes)

def waycaScCclsInPackage := cclsFor (·.packages.length)

def numberFor (number elements : WaycaTopo → ℕ) (state : TopoState) : ℤ × TopoState :=
  if elements state.topo < 1 then (-ENODATA, state)
  else ((number state.topo / elements state.topo : ℕ), state)

def waycaScCpusInNode := numberFor (·.nCpus) (·.nNodes)

def waycaScCpusInPackage := numberFor (·.nCpus) (·.packages.length)

def waycaScNodesInPackage := numberFor (·.nNodes) (·.packages.length)

def numberOf (number : WaycaTopo → ℕ) (state : TopoState) : ℤ × TopoState :=
  if number state.topo < 1 then (-ENODATA, state) else (number state.topo, state)

def waycaScCpusInTotal := numberOf (·.nCpus)

def waycaScNodesInTotal := numberOf (·.nNodes)

def waycaScPackagesInTotal := numberOf (·.packages.length)

/-! ## Uniform machines -/

/-- The shape of a machine: `packages` packages, and so many nodes, clusters,
cores and CPUs in each of the next larger elements. -/
structure Shape where
  packages : ℕ
  nodes : ℕ
  clusters : ℕ
  cores : ℕ
  cpus : ℕ

def Shape.total (shape : Shape) : ℕ :=
  shape.packages * shape.nodes * shape.clusters * shape.cores * shape.cpus

/-- Each entity has as many of the next smaller ones as the shape says. -/
structure Uniform (shape : Shape) (n : ℕ) (nodeOf coreId clusterId packageId : ℕ → ℕ) :
    Prop where
  cpus : Subdivides (range n) id coreId shape.cpus
  cores : Subdivides (range n) coreId clusterId shape.cores
  clusters : Subdivides (range n) clusterId nodeOf shape.clusters
  nodes : Subdivides (range n) nodeOf packageId shape.nodes
  packages : ((range n).image packageId).card = shape.packages

section Uniform

variable {shape : Shape} {n : ℕ} {nodeOf coreId clusterId packageId : ℕ → ℕ}
  (huniform : Uniform shape n nodeOf coreId clusterId packageId)

include huniform

theorem Uniform.card_nodes :
    ((range n).image nodeOf).card = shape.packages * shape.nodes := by
  rw [huniform.nodes.card_image, huniform.packages]

theorem Uniform.eq_total : n = shape.total := by
  have hcount := ((((huniform.cpus.trans huniform.cores).trans huniform.clusters).trans
    huniform.nodes)).card_image
  rw [image_id, card_range, huniform.packages] at hcount
  rw [hcount, Shape.total]
  ring

theorem Uniform.card_core {cpu : ℕ} (hcpu : cpu < n) :
    ((range n).filter fun other => coreId other = coreId cpu).card = shape.cpus := by
  have hcard := huniform.cpus.card cpu (mem_range.mpr hcpu)
  rwa [image_id] at hcard

theorem Uniform.card_cluster {cpu : ℕ} (hcpu : cpu < n) :
    ((range n).filter fun other => clusterId other = clusterId cpu).card =
      shape.cores * shape.cpus := by
  have hcard := (huniform.cpus.trans huniform.cores).card cpu (mem_range.mpr hcpu)
  rwa [image_id] at hcard

theorem Uniform.card_node {cpu : ℕ} (hcpu : cpu < n) :
    (nodeMembers nodeOf n (nodeOf cpu)).card = shape.clusters * shape.cores * shape.cpus := by
  have hcard := ((huniform.cpus.trans huniform.cores).trans huniform.clusters).card cpu
    (mem_range.mpr hcpu)
  rwa [image_id, ← Nat.mul_assoc] at hcard

end Uniform

/-- A snapshot of a uniform machine.  The lists name the online CPUs that share an
id, and the online CPUs include a CPU of every package, a whole core and a whole
cluster. -/
structure UniformSnapshot (sys : Sysfs) (shape : Shape) (n : ℕ) (online : Finset ℕ)
    (nodeOf coreId clusterId packageId : ℕ → ℕ) : Prop where
  uniform : Uniform shape n nodeOf coreId clusterId packageId
  listed : ListedSnapshot sys n online nodeOf (fun cpu => clusterId cpu) fun cpu => packageId cpu
  core : ∀ cpu ∈ online, sys.cpuAttribute cpu (·.coreId) = some (coreId cpu : ℤ)
  siblings : ∀ cpu ∈ online, sys.cpuAttribute cpu (·.coreCpusList) = some
    (online.filter fun other => (packageId other : ℤ) = packageId cpu ∧
      (coreId other : ℤ) = coreId cpu)
  packageOnline : ∀ cpu < n, ∃ other ∈ online, packageId other = packageId cpu
  coreOnline : ∃ cpu < n, ∀ other < n, coreId other = coreId cpu → other ∈ online
  clusterOnline : ∃ cpu < n, ∀ other < n, clusterId other = clusterId cpu → other ∈ online

section Counts

variable {sys : Sysfs} {shape : Shape} {n : ℕ} {online : Finset ℕ}
  {nodeOf coreId clusterId packageId : ℕ → ℕ} {topo final : WaycaTopo}
variable {ρ : Type} {count : ρ → ℕ} {records : List ρ}

def CountsCpus (topo : WaycaTopo) : Prop :=
  ∀ core ∈ topo.cores, core.nCpus = cpuCountS topo.setsize core.coreCpusMap

theorem createCore_countsCpus {found : WaycaCpu} {next : WaycaTopo} (hcounts : CountsCpus topo)
    (hcreate : createCore found topo = .ok next) : CountsCpus next := by
  obtain ⟨list, p, -, -, rfl⟩ := createCore_success hcreate
  intro core hcore
  rcases List.mem_append.mp hcore with hold | hnew
  · exact hcounts core hold
  · rw [List.mem_singleton.mp hnew]
    rfl

theorem constructCoreLoop_countsCpus {numbers : List ℕ} (hcounts : CountsCpus topo)
    (hloop : constructCoreLoop numbers topo = .ok final) : CountsCpus final := by
  induction numbers generalizing topo with
  | nil =>
      cases hloop
      exact hcounts
  | cons i rest ih =>
      obtain ⟨cpu, hcpu, hloop⟩ := bind_eq_ok.mp hloop
      split at hloop
      next => exact ih hcounts hloop
      next =>
        split at hloop
        next => exact ih hcounts hloop
        next =>
          obtain ⟨created, hcreate, hloop⟩ := bind_eq_ok.mp hloop
          exact ih (createCore_countsCpus hcounts hcreate) hloop

theorem Snapshot.countsCpus {recreate : TopoState → Outcome TopoState} {before state : TopoState}
    (hsnap : Snapshot sys n online nodeOf)
    (hsuccess : topoConstruct sys recreate before = .ok (state, 0)) : CountsCpus state.topo := by
  obtain ⟨read, assembled, hread, -, hnuma, hloop⟩ := hsnap.stages hsuccess
  have hnone : assembled.cores = [] := (constructNuma_success hnuma).cores.trans hread.cores
  apply constructCoreLoop_countsCpus _ hloop
  intro core hcore
  rw [hnone] at hcore
  exact absurd hcore List.not_mem_nil

theorem foldl_max_eq {bound : ℕ}
    (hbound : ∀ record ∈ records, count record ≤ bound)
    (hreached : ∃ record ∈ records, count record = bound) :
    records.foldl (fun most record => max most (count record)) 0 = bound := by
  obtain ⟨record, hrecord, hcount⟩ := hreached
  apply le_antisymm (foldl_max_le count (Nat.zero_le bound) hbound)
  rw [← hcount]
  exact le_foldl_max count 0 hrecord

theorem not_empty_of_foldl_max (count : ρ → ℕ)
    (hpos : 0 < records.foldl (fun most record => max most (count record)) 0) :
    ¬ records.length < 1 := by
  intro hnone
  rw [List.length_eq_zero_iff.mp (Nat.lt_one_iff.mp hnone), List.foldl_nil] at hpos
  exact Nat.lt_irrefl 0 hpos

theorem OnlineTable.largest {key : ρ → ℤ} {cpus : ρ → Finset ℕ} {table : List ρ}
    {id : ℕ → ℕ} {size : ℕ}
    (htable : OnlineTable key cpus (fun cpu => (id cpu : ℤ)) online table)
    (hcount : ∀ record ∈ table, count record = (cpus record).card)
    (honline : ∀ cpu ∈ online, cpu < n)
    (hsize : ∀ cpu < n, ((range n).filter fun other => id other = id cpu).card = size)
    (hwhole : ∃ cpu < n, ∀ other < n, id other = id cpu → other ∈ online) :
    table.foldl (fun most record => max most (count record)) 0 = size := by
  have hclass : ∀ cpu, online.filter (fun other => (id other : ℤ) = id cpu) ⊆
      (range n).filter fun other => id other = id cpu := by
    intro cpu other hother
    obtain ⟨hmem, hid⟩ := mem_filter.mp hother
    exact mem_filter.mpr ⟨mem_range.mpr (honline other hmem), by exact_mod_cast hid⟩
  apply foldl_max_eq
  · intro record hrecord
    rw [hcount record hrecord]
    rcases (cpus record).eq_empty_or_nonempty with hempty | ⟨cpu, hcpu⟩
    · rw [hempty]
      exact Nat.zero_le size
    · rw [htable.cpus record hrecord] at hcpu ⊢
      obtain ⟨hmem, hkey⟩ := mem_filter.mp hcpu
      rw [← hkey, ← hsize cpu (honline cpu hmem)]
      exact card_le_card (hclass cpu)
  · obtain ⟨cpu, hcpu, hall⟩ := hwhole
    obtain ⟨record, hrecord, hkey⟩ := record_at_place (htable.mem cpu (hall cpu hcpu rfl))
    have hmem := List.mem_of_getElem? hrecord
    refine ⟨record, hmem, ?_⟩
    rw [hcount record hmem, htable.cpus record hmem, hkey, ← hsize cpu hcpu]
    apply le_antisymm (card_le_card (hclass cpu))
    apply card_le_card
    intro other hother
    obtain ⟨hlt, hid⟩ := mem_filter.mp hother
    exact mem_filter.mpr ⟨hall other (mem_range.mp hlt) hid, by exact_mod_cast hid⟩

structure HasShape (shape : Shape) (topo : WaycaTopo) : Prop where
  nCpus : topo.nCpus = shape.total
  packages : topo.packages.length = shape.packages
  cores : topo.cores.foldl (fun most core => max most core.nCpus) 0 = shape.cpus
  ccls : topo.ccls.foldl (fun most ccl => max most ccl.nCpus) 0 = shape.cores * shape.cpus

section Snapshot

variable (hsnap : UniformSnapshot sys shape n online nodeOf coreId clusterId packageId)

include hsnap

theorem UniformSnapshot.sibling :
    SiblingSnapshot sys n online nodeOf (fun cpu => coreId cpu) fun cpu => packageId cpu :=
  ⟨hsnap.listed.toSnapshot, hsnap.core, hsnap.listed.package, hsnap.siblings⟩

theorem UniformSnapshot.separate :
    SeparateIds online (fun cpu => (coreId cpu : ℤ)) fun cpu => packageId cpu where
  package := by
    intro first hfirst second hsecond hcore
    have hnested := ((hsnap.uniform.cores.trans hsnap.uniform.clusters).trans
      hsnap.uniform.nodes).refines
    exact_mod_cast hnested first (mem_range.mpr (hsnap.listed.online_lt first hfirst))
      second (mem_range.mpr (hsnap.listed.online_lt second hsecond))
      (by exact_mod_cast hcore)
  marked := fun cpu _ => by omega

variable {state : TopoState} (hbuilt : TablesBuilt sys n online nodeOf state.topo)

include hbuilt

theorem UniformSnapshot.packages_length : state.topo.packages.length = shape.packages := by
  have htable := hsnap.listed.packageTable hbuilt
  have hkeys : (state.topo.packages.map WaycaPackage.physicalPackageId).toFinset =
      ((range n).image packageId).image ((↑) : ℕ → ℤ) := by
    ext id
    rw [List.mem_toFinset, hbuilt.packages.mem_iff, image_image, mem_image]
    constructor
    · rintro ⟨cpu, hcpu, hin⟩
      rw [hsnap.listed.packageIn_eq] at hin
      split at hin
      next => exact ⟨cpu, hcpu, Option.some.inj hin⟩
      next => cases hin
    · rintro ⟨cpu, hcpu, hid⟩
      obtain ⟨other, hother, hsame⟩ := hsnap.packageOnline cpu (mem_range.mp hcpu)
      refine ⟨other, mem_range.mpr (hsnap.listed.online_lt other hother), ?_⟩
      rw [hsnap.listed.packageIn_eq, if_pos hother, hsame, ← hid]
      rfl
  have hcard := card_image_of_injective ((range n).image packageId)
    (Nat.cast_injective (R := ℤ))
  rw [← hsnap.uniform.packages, ← hcard, ← hkeys,
    List.toFinset_card_of_nodup htable.nodup, List.length_map]

theorem UniformSnapshot.largest_ccl :
    state.topo.ccls.foldl (fun most ccl => max most ccl.nCpus) 0 = shape.cores * shape.cpus :=
  (hsnap.listed.cclTable hbuilt).largest
    (fun _ hccl => (hsnap.listed.cclCpus hbuilt hccl).2) hsnap.listed.online_lt
    (fun _ hcpu => hsnap.uniform.card_cluster hcpu) hsnap.clusterOnline

omit hbuilt in
theorem UniformSnapshot.hasShape {recreate : TopoState → Outcome TopoState} {before : TopoState}
    (hsuccess : topoConstruct sys recreate before = .ok (state, 0)) :
    HasShape shape state.topo := by
  have hup := hsnap.listed.toSnapshot.coreTables hsuccess
  have hbuilt := hup.tables
  have hcounts := hsnap.listed.toSnapshot.countsCpus hsuccess
  have htable := hsnap.sibling.coreTable hsnap.separate hup
  have hcard : ∀ core ∈ state.topo.cores, core.nCpus = core.coreCpusMap.card := by
    intro core hcore
    rw [hcounts core hcore, cpuCountS, cpuSeen_of_fits]
    intro cpu hcpu
    rw [htable.cpus core hcore] at hcpu
    exact hsnap.listed.toSnapshot.fits_setsize hbuilt.framed
      (hsnap.listed.online_lt cpu (mem_filter.mp hcpu).1)
  constructor
  · exact hbuilt.framed.nCpus.trans hsnap.uniform.eq_total
  · exact hsnap.packages_length hbuilt
  · exact htable.largest hcard hsnap.listed.online_lt
      (fun _ hcpu => hsnap.uniform.card_core hcpu) hsnap.coreOnline
  · exact hsnap.largest_ccl hbuilt

end Snapshot

/-! ## The number of nodes -/

section Nodes

variable (huniform : Uniform shape n nodeOf coreId clusterId packageId)

include huniform

theorem Uniform.injOn_unfit_iff :
    Set.InjOn nodeOf ((range n).filter (¬ NodeFits n nodeOf ·)) ↔
      NodesFit n nodeOf ∨ shape.clusters * shape.cores * shape.cpus = 1 := by
  constructor
  · intro hinjective
    by_contra hneither
    push Not at hneither
    obtain ⟨hunfit, hone⟩ := hneither
    unfold NodesFit at hunfit
    push Not at hunfit
    obtain ⟨cpu, hcpu, hbeyond⟩ := hunfit
    -- all CPUs of the node are on a node that does not fit
    have hmember : ∀ other ∈ nodeMembers nodeOf n (nodeOf cpu), nodeOf other = nodeOf cpu ∧
        other ∈ (range n).filter (¬ NodeFits n nodeOf ·) := by
      intro other hother
      obtain ⟨hrange, hnode⟩ := mem_filter.mp hother
      refine ⟨hnode, mem_filter.mpr ⟨hrange, ?_⟩⟩
      unfold NodeFits
      rw [hnode]
      exact hbeyond
    have hmost : (nodeMembers nodeOf n (nodeOf cpu)).card ≤ 1 := by
      rw [card_le_one]
      intro first hfirst second hsecond
      exact hinjective (hmember first hfirst).2 (hmember second hsecond).2
        ((hmember first hfirst).1.trans (hmember second hsecond).1.symm)
    have hleast : 0 < (nodeMembers nodeOf n (nodeOf cpu)).card :=
      card_pos.mpr ⟨cpu, mem_filter.mpr ⟨mem_range.mpr hcpu, rfl⟩⟩
    rw [huniform.card_node hcpu] at hmost hleast
    omega
  · rintro (hfit | hone) first hfirst second hsecond hsame
    · obtain ⟨hrange, hbeyond⟩ := mem_filter.mp hfirst
      exact absurd (hfit first (mem_range.mp hrange)) hbeyond
    · have hfirst := (mem_filter.mp hfirst).1
      have hsecond := (mem_filter.mp hsecond).1
      have hcard := huniform.card_node (mem_range.mp hfirst)
      rw [hone] at hcard
      exact card_le_one.mp hcard.le first (mem_filter.mpr ⟨hfirst, rfl⟩) second
        (mem_filter.mpr ⟨hsecond, hsame.symm⟩)

/-- No fewer nodes are counted than the machine has, and no more only where the
numbers fit or no node has two CPUs. -/
theorem Uniform.nNodes (hmet : NodesMet n nodeOf n topo) :
    shape.packages * shape.nodes ≤ topo.nNodes ∧
      (topo.nNodes = shape.packages * shape.nodes ↔
        NodesFit n nodeOf ∨ shape.clusters * shape.cores * shape.cpus = 1) := by
  have hdisjoint : Disjoint (((range n).filter (NodeFits n nodeOf)).image nodeOf)
      (((range n).filter (¬ NodeFits n nodeOf ·)).image nodeOf) := by
    rw [disjoint_left]
    intro k hfit hunfit
    obtain ⟨first, hfirst, rfl⟩ := mem_image.mp hfit
    obtain ⟨second, hsecond, hsame⟩ := mem_image.mp hunfit
    apply (mem_filter.mp hsecond).2
    unfold NodeFits
    rw [hsame]
    exact (mem_filter.mp hfirst).2
  have hsplit := card_union_of_disjoint hdisjoint
  rw [← image_union, filter_union_filter_not_eq, huniform.card_nodes, ← hmet.fitting] at hsplit
  have hcounted := hmet.counted
  have hle := card_image_le (s := (range n).filter (¬ NodeFits n nodeOf ·)) (f := nodeOf)
  refine ⟨by omega, ?_⟩
  rw [← huniform.injOn_unfit_iff, ← card_image_iff]
  omega

end Nodes

/-! ## The counts of a uniform machine -/

structure CountsShape (shape : Shape) (state : TopoState) : Prop where
  cpusInCore : (waycaScCpusInCore state).1 = shape.cpus
  coresInCcl : (waycaScCoresInCcl state).1 = shape.cores
  cpusInCcl : (waycaScCpusInCcl state).1 = (shape.cores * shape.cpus : ℕ)
  cclsInNode : (waycaScCclsInNode state).1 = shape.clusters
  cpusInNode : (waycaScCpusInNode state).1 = (shape.clusters * shape.cores * shape.cpus : ℕ)
  cclsInPackage : (waycaScCclsInPackage state).1 = (shape.nodes * shape.clusters : ℕ)
  nodesInPackage : (waycaScNodesInPackage state).1 = shape.nodes
  cpusInPackage : (waycaScCpusInPackage state).1 = (shape.total / shape.packages : ℕ)
  coresInTotal : (waycaScCoresInTotal state).1 = (shape.total / shape.cpus : ℕ)
  cclsInTotal : (waycaScCclsInTotal state).1 = (shape.total / (shape.cores * shape.cpus) : ℕ)

theorem Shape.pos (htotal : 0 < shape.total) :
    0 < shape.packages ∧ 0 < shape.nodes ∧ 0 < shape.clusters ∧ 0 < shape.cores ∧
      0 < shape.cpus := by
  unfold Shape.total at htotal
  simpa only [Nat.mul_pos_iff_of_pos_left, Nat.pos_iff_ne_zero, ne_eq, mul_eq_zero, not_or,
    and_assoc] using htotal

theorem Shape.total_div_cpus (hcpus : 0 < shape.cpus) :
    shape.total / shape.cpus = shape.packages * shape.nodes * shape.clusters * shape.cores := by
  rw [Shape.total, Nat.mul_div_cancel _ hcpus]

theorem Shape.total_div_cluster (hcluster : 0 < shape.cores * shape.cpus) :
    shape.total / (shape.cores * shape.cpus) = shape.packages * shape.nodes * shape.clusters := by
  rw [Shape.total, Nat.mul_assoc, Nat.mul_div_cancel _ hcluster]

section HasShape

variable (state : TopoState) (hshape : HasShape shape state.topo) (htotal : 0 < shape.total)
variable {count parts : ℕ}

include hshape htotal

theorem HasShape.coresInTotal :
    waycaScCoresInTotal state = (((shape.total / shape.cpus : ℕ) : ℤ),
      { state with maxCores := shape.total / shape.cpus }) := by
  obtain ⟨-, -, -, -, hcpus⟩ := Shape.pos htotal
  have hlargest := hcpus
  rw [← hshape.cores] at hlargest
  unfold waycaScCoresInTotal
  simp only [not_empty_of_foldl_max _ hlargest, if_false, hshape.cores, hcpus, if_true,
    hshape.nCpus]

theorem HasShape.cclsInTotal :
    waycaScCclsInTotal state = (((shape.total / (shape.cores * shape.cpus) : ℕ) : ℤ),
      { state with maxCcls := shape.total / (shape.cores * shape.cpus) }) := by
  obtain ⟨-, -, -, hcores, hcpus⟩ := Shape.pos htotal
  have hcluster := Nat.mul_pos hcores hcpus
  have hlargest := hcluster
  rw [← hshape.ccls] at hlargest
  unfold waycaScCclsInTotal
  simp only [not_empty_of_foldl_max _ hlargest, if_false, hshape.ccls, hcluster, if_true,
    hshape.nCpus]

theorem HasShape.not_empty : ¬ state.topo.cores.length < 1 ∧ ¬ state.topo.ccls.length < 1 := by
  obtain ⟨-, -, -, hcores, hcpus⟩ := Shape.pos htotal
  constructor
  · apply not_empty_of_foldl_max WaycaCore.nCpus
    rw [hshape.cores]
    exact hcpus
  · apply not_empty_of_foldl_max WaycaCluster.nCpus
    rw [hshape.ccls]
    exact Nat.mul_pos hcores hcpus

theorem HasShape.cclsFor_eq {elements : WaycaTopo → ℕ}
    (hcount : elements state.topo = count) (hpos : 0 < count)
    (hparts : shape.total / (shape.cores * shape.cpus) = count * parts) (hsome : 0 < parts) :
    (cclsFor elements state).1 = parts := by
  simp only [cclsFor, (hshape.not_empty state htotal).2, hcount, Nat.not_lt.mpr hpos, or_self,
    if_false, hshape.cclsInTotal state htotal, hparts, Nat.mul_pos hpos hsome, if_true,
    Nat.mul_div_cancel_left _ hpos]

omit hshape htotal in
theorem numberFor_eq {number elements : WaycaTopo → ℕ}
    (hcount : elements state.topo = count) (hpos : 0 < count)
    (hparts : number state.topo = count * parts) : (numberFor number elements state).1 = parts := by
  simp only [numberFor, hcount, Nat.not_lt.mpr hpos, if_false, hparts,
    Nat.mul_div_cancel_left _ hpos]

theorem HasShape.counts (hnNodes : state.topo.nNodes = shape.packages * shape.nodes) :
    CountsShape shape state := by
  obtain ⟨hpackages, hnodes, hclusters, hcores, hcpus⟩ := Shape.pos htotal
  obtain ⟨hsomeCores, hsomeCcls⟩ := hshape.not_empty state htotal
  have hallNodes := Nat.mul_pos hpackages hnodes
  have hallClusters := Nat.mul_pos hallNodes hclusters
  have hallCores := Nat.mul_pos hallClusters hcores
  have htotalCores := Shape.total_div_cpus hcpus
  have htotalCcls := Shape.total_div_cluster (Nat.mul_pos hcores hcpus)
  have hcoresInTotal := hshape.coresInTotal state htotal
  have hcclsInTotal := hshape.cclsInTotal state htotal
  have hcclsAfter := HasShape.cclsInTotal { state with maxCores := shape.total / shape.cpus }
    hshape htotal
  have hcpuCount := hshape.nCpus
  have hinPackage : shape.total = shape.packages *
      (shape.nodes * shape.clusters * shape.cores * shape.cpus) := by
    rw [Shape.total]
    ring
  constructor
  · simp only [waycaScCpusInCore, hsomeCores, if_false, hcoresInTotal, hcpuCount]
    rw [htotalCores, if_pos hallCores, Shape.total, Nat.mul_div_cancel_left _ hallCores]
  · simp only [waycaScCoresInCcl, hsomeCcls, hsomeCores, if_false, hcoresInTotal, hcclsAfter]
    rw [htotalCores, htotalCcls, if_pos ⟨hallClusters, hallCores⟩,
      Nat.mul_div_cancel_left _ hallClusters]
  · simp only [waycaScCpusInCcl, hsomeCcls, if_false, hcclsInTotal, hcpuCount]
    rw [htotalCcls, if_pos hallClusters, Shape.total, Nat.mul_assoc _ shape.cores,
      Nat.mul_div_cancel_left _ hallClusters]
  · exact hshape.cclsFor_eq state htotal hnNodes hallNodes htotalCcls hclusters
  · apply numberFor_eq state hnNodes hallNodes
    rw [hcpuCount, Shape.total]
    ring
  · apply hshape.cclsFor_eq state htotal hshape.packages hpackages _ (Nat.mul_pos hnodes hclusters)
    rw [htotalCcls, Nat.mul_assoc]
  · exact numberFor_eq state hshape.packages hpackages hnNodes
  · apply numberFor_eq state hshape.packages hpackages
    rw [hcpuCount, hinPackage, Nat.mul_div_cancel_left _ hpackages]
  · rw [hcoresInTotal]
  · rw [hcclsInTotal]

/-- With the tables as they should be only the count of the nodes can be wrong. -/
theorem HasShape.counts_iff (hleast : shape.packages * shape.nodes ≤ state.topo.nNodes) :
    CountsShape shape state ↔ state.topo.nNodes = shape.packages * shape.nodes := by
  refine ⟨fun hcounts => ?_, hshape.counts state htotal⟩
  by_contra hmore
  have hcpus := hcounts.cpusInNode
  obtain ⟨hpackages, hnodes, hclusters, hcores, hcpu⟩ := Shape.pos htotal
  have hsome : ¬ state.topo.nNodes < 1 := by
    have := Nat.mul_pos hpackages hnodes
    omega
  have hinNode := Nat.mul_pos (Nat.mul_pos hclusters hcores) hcpu
  have hless : shape.total < shape.clusters * shape.cores * shape.cpus * state.topo.nNodes := by
    have hfewer := Nat.mul_lt_mul_of_pos_left (lt_of_le_of_ne hleast (Ne.symm hmore)) hinNode
    calc shape.total
        = shape.clusters * shape.cores * shape.cpus * (shape.packages * shape.nodes) := by
          rw [Shape.total]
          ring
      _ < _ := hfewer
  simp only [waycaScCpusInNode, numberFor, hsome, if_false, hshape.nCpus, Nat.cast_inj] at hcpus
  exact (Nat.div_lt_of_lt_mul (by rwa [Nat.mul_comm] at hless)).ne hcpus

end HasShape

end Counts

/-! ## Counts on any machine -/

inductive Count where
  | cpusInCore
  | cpusInCcl
  | cpusInNode
  | cpusInPackage
  | cpusInTotal
  | coresInCcl
  | coresInNode
  | coresInPackage
  | coresInTotal
  | cclsInNode
  | cclsInPackage
  | cclsInTotal
  | nodesInPackage
  | nodesInTotal
  | packagesInTotal
deriving DecidableEq

def Count.ask : Count → TopoState → ℤ × TopoState
  | .cpusInCore => waycaScCpusInCore
  | .cpusInCcl => waycaScCpusInCcl
  | .cpusInNode => waycaScCpusInNode
  | .cpusInPackage => waycaScCpusInPackage
  | .cpusInTotal => waycaScCpusInTotal
  | .coresInCcl => waycaScCoresInCcl
  | .coresInNode => waycaScCoresInNode
  | .coresInPackage => waycaScCoresInPackage
  | .coresInTotal => waycaScCoresInTotal
  | .cclsInNode => waycaScCclsInNode
  | .cclsInPackage => waycaScCclsInPackage
  | .cclsInTotal => waycaScCclsInTotal
  | .nodesInPackage => waycaScNodesInPackage
  | .nodesInTotal => waycaScNodesInTotal
  | .packagesInTotal => waycaScPackagesInTotal

def Count.ofCpus : List Count :=
  [.cpusInCore, .cpusInCcl, .cpusInNode, .cpusInPackage, .cpusInTotal]

/-- A topology is built from what sysfs shows at the time, freed, or asked for
a count. -/
inductive TopoCall where
  | init (sys : Sysfs) (depth : ℕ)
  | free
  | count (count : Count)

def topoCall (state : TopoState) : TopoCall → Option (TopoState × ℤ)
  | .init sys depth => (topoInit sys depth state).toOption.map (·, 0)
  | .free => some (topoFree state, 0)
  | .count count => some ((count.ask state).2, (count.ask state).1)

def PossibleCpus (n : ℕ) (_ : TopoState) : TopoCall → Prop
  | .init sys _ => (topoAllocCpu sys .zeroed).2 = 0 → (allocated sys).nCpus = n
  | _ => True

/-- Neither the kept maxima nor the nodes and packages exceed the `n` CPUs. -/
structure Bounded (n : ℕ) (state : TopoState) : Prop where
  maxCores : state.maxCores ≤ n
  maxCcls : state.maxCcls ≤ n
  topo : state.topo = .zeroed ∨ state.topo.nCpus = n ∧ Within n n state.topo

theorem coresInTotal_topo (state : TopoState) :
    (waycaScCoresInTotal state).2.topo = state.topo := by
  unfold waycaScCoresInTotal
  split
  next => rfl
  next =>
    dsimp only
    split <;> rfl

theorem cclsInTotal_topo (state : TopoState) : (waycaScCclsInTotal state).2.topo = state.topo := by
  unfold waycaScCclsInTotal
  split
  next => rfl
  next =>
    dsimp only
    split <;> rfl

/-- An error, or a number that can be divided by. -/
def Divides (count : ℤ) : Prop := count < 0 ∨ 1 ≤ count

theorem divides_enodata : Divides (-ENODATA) := .inl (by decide)

theorem divides_div {number elements : ℕ} (hpos : 0 < elements) (hle : elements ≤ number) :
    Divides (number / elements : ℕ) :=
  .inr (by exact_mod_cast Nat.div_pos hle hpos)

section Bounded

variable {n : ℕ} {state : TopoState} (hbounded : Bounded n state)

include hbounded

theorem Bounded.nCpus_le : state.topo.nCpus ≤ n := by
  rcases hbounded.topo with hzeroed | ⟨hcount, -⟩
  · rw [hzeroed]
    exact Nat.zero_le n
  · exact hcount.le

theorem Bounded.coresInTotal : Bounded n (waycaScCoresInTotal state).2 := by
  unfold waycaScCoresInTotal
  split
  next => exact hbounded
  next =>
    dsimp only
    split
    next =>
      exact ⟨(Nat.div_le_self ..).trans hbounded.nCpus_le, hbounded.maxCcls, hbounded.topo⟩
    next => exact hbounded

theorem Bounded.cclsInTotal : Bounded n (waycaScCclsInTotal state).2 := by
  unfold waycaScCclsInTotal
  split
  next => exact hbounded
  next =>
    dsimp only
    split
    next =>
      exact ⟨hbounded.maxCores, (Nat.div_le_self ..).trans hbounded.nCpus_le, hbounded.topo⟩
    next => exact hbounded

theorem Bounded.cpusInCore : Bounded n (waycaScCpusInCore state).2 := by
  unfold waycaScCpusInCore
  split
  next => exact hbounded
  next => simpa only [apply_ite Prod.snd, ite_self] using hbounded.coresInTotal

theorem Bounded.cpusInCcl : Bounded n (waycaScCpusInCcl state).2 := by
  unfold waycaScCpusInCcl
  split
  next => exact hbounded
  next => simpa only [apply_ite Prod.snd, ite_self] using hbounded.cclsInTotal

theorem Bounded.coresInCcl : Bounded n (waycaScCoresInCcl state).2 := by
  unfold waycaScCoresInCcl
  split
  next => exact hbounded
  next =>
    split
    next => exact hbounded
    next => simpa only [apply_ite Prod.snd, ite_self] using hbounded.coresInTotal.cclsInTotal

theorem Bounded.coresFor (elements : WaycaTopo → ℕ) : Bounded n (coresFor elements state).2 := by
  unfold WaycaScheduler.coresFor
  split
  next => exact hbounded
  next => simpa only [apply_ite Prod.snd, ite_self] using hbounded.coresInTotal

theorem Bounded.cclsFor (elements : WaycaTopo → ℕ) : Bounded n (cclsFor elements state).2 := by
  unfold WaycaScheduler.cclsFor
  split
  next => exact hbounded
  next => simpa only [apply_ite Prod.snd, ite_self] using hbounded.cclsInTotal

theorem Bounded.numberFor (number elements : WaycaTopo → ℕ) :
    Bounded n (numberFor number elements state).2 := by
  simpa only [WaycaScheduler.numberFor, apply_ite Prod.snd, ite_self] using hbounded

theorem Bounded.numberOf (number : WaycaTopo → ℕ) : Bounded n (numberOf number state).2 := by
  simpa only [WaycaScheduler.numberOf, apply_ite Prod.snd, ite_self] using hbounded

theorem Bounded.ask (count : Count) : Bounded n (count.ask state).2 := by
  cases count with
  | cpusInCore => exact hbounded.cpusInCore
  | cpusInCcl => exact hbounded.cpusInCcl
  | cpusInNode => exact hbounded.numberFor _ _
  | cpusInPackage => exact hbounded.numberFor _ _
  | cpusInTotal => exact hbounded.numberOf _
  | coresInCcl => exact hbounded.coresInCcl
  | coresInNode => exact hbounded.coresFor _
  | coresInPackage => exact hbounded.coresFor _
  | coresInTotal => exact hbounded.coresInTotal
  | cclsInNode => exact hbounded.cclsFor _
  | cclsInPackage => exact hbounded.cclsFor _
  | cclsInTotal => exact hbounded.cclsInTotal
  | nodesInPackage => exact hbounded.numberFor _ _
  | nodesInTotal => exact hbounded.numberOf _
  | packagesInTotal => exact hbounded.numberOf _

theorem Bounded.built (hsome : state.topo ≠ .zeroed) :
    state.topo.nCpus = n ∧ Within n n state.topo :=
  hbounded.topo.resolve_left hsome

theorem Bounded.cpusInCore_divides : Divides (waycaScCpusInCore state).1 := by
  unfold waycaScCpusInCore
  split
  next => exact divides_enodata
  next hsome =>
    have hafter := hbounded.coresInTotal
    have htopo := coresInTotal_topo state
    dsimp only
    split
    next hpos =>
      have hbuilt := hbounded.built fun hzeroed => hsome (by rw [hzeroed]; exact Nat.zero_lt_one)
      rw [htopo, hbuilt.1]
      exact divides_div hpos hafter.maxCores
    next => exact divides_enodata

theorem Bounded.cpusInCcl_divides : Divides (waycaScCpusInCcl state).1 := by
  unfold waycaScCpusInCcl
  split
  next => exact divides_enodata
  next hsome =>
    have hafter := hbounded.cclsInTotal
    have htopo := cclsInTotal_topo state
    dsimp only
    split
    next hpos =>
      have hbuilt := hbounded.built fun hzeroed => hsome (by rw [hzeroed]; exact Nat.zero_lt_one)
      rw [htopo, hbuilt.1]
      exact divides_div hpos hafter.maxCcls
    next => exact divides_enodata

theorem Bounded.numberFor_divides {elements : WaycaTopo → ℕ} (hzero : elements .zeroed = 0)
    (hle : ∀ topo, Within n n topo → elements topo ≤ n) :
    Divides (WaycaScheduler.numberFor (·.nCpus) elements state).1 := by
  unfold WaycaScheduler.numberFor
  split
  next => exact divides_enodata
  next hsome =>
    obtain ⟨hcount, hwithin⟩ := hbounded.built fun hzeroed => hsome (by rw [hzeroed, hzero]; decide)
    dsimp only
    rw [hcount]
    exact divides_div (Nat.not_lt.mp hsome) (hle state.topo hwithin)

theorem Bounded.divides {count : Count} (hcount : count ∈ Count.ofCpus) :
    Divides (count.ask state).1 := by
  simp only [Count.ofCpus, List.mem_cons, List.not_mem_nil, or_false] at hcount
  rcases hcount with rfl | rfl | rfl | rfl | rfl
  · exact hbounded.cpusInCore_divides
  · exact hbounded.cpusInCcl_divides
  · exact hbounded.numberFor_divides rfl fun _ hwithin => hwithin.nNodes
  · exact hbounded.numberFor_divides rfl fun _ hwithin => hwithin.packages
  · change Divides (WaycaScheduler.numberOf _ state).1
    unfold WaycaScheduler.numberOf
    split
    next => exact divides_enodata
    next hsome =>
      have hpos : (1 : ℤ) ≤ state.topo.nCpus := by exact_mod_cast Nat.not_lt.mp hsome
      exact .inr hpos

theorem Bounded.call {call : TopoCall} {next : TopoState} {result : ℤ}
    (hallowed : PossibleCpus n state call) (hcall : topoCall state call = some (next, result)) :
    Bounded n next := by
  cases call with
  | init sys depth =>
      obtain ⟨final, hfinal, hnext⟩ := Option.map_eq_some_iff.mp hcall
      cases hnext
      have hinit := ok_of_toOption hfinal
      have hsame := (topoInit_keepsMaxima sys depth state).of_ok hinit
      refine ⟨hsame.maxCores ▸ hbounded.maxCores, hsame.maxCcls ▸ hbounded.maxCcls, ?_⟩
      rcases topoInit_bounds hinit with hzeroed | ⟨hallocates, hcount, -, hwithin⟩
      · exact .inl hzeroed
      · rw [hcount, hallowed hallocates] at hwithin
        exact .inr ⟨hcount.trans (hallowed hallocates), hwithin⟩
  | free =>
      cases hcall
      exact ⟨hbounded.maxCores, hbounded.maxCcls, .inl rfl⟩
  | count count =>
      cases hcall
      exact hbounded.ask count

end Bounded

theorem bounded_of_reachable {n : ℕ} {state : TopoState}
    (hreach : ReachableVia topoCall (PossibleCpus n) .start state) : Bounded n state :=
  hreach.keeps (Bounded n) ⟨Nat.zero_le n, Nat.zero_le n, .inl rfl⟩
    fun _ _ _ _ hbounded hallowed hcall => hbounded.call hallowed hcall

/-- The counts of a uniform machine do not depend on the CPUs that are online,
exactly where the numbers of its nodes fit or no node has two CPUs, and no count
of the CPUs in an element is zero on any machine. -/
theorem counts_survive_unplug (sys : Sysfs) (shape : Shape) (n : ℕ) (online : Finset ℕ)
    (nodeOf coreId clusterId packageId : ℕ → ℕ) :
    (UniformSnapshot sys shape n online nodeOf coreId clusterId packageId →
      ∀ recreate before state, topoConstruct sys recreate before = .ok (state, 0) →
        ∀ maxCores maxCcls,
          (CountsShape shape { state with maxCores := maxCores, maxCcls := maxCcls } ↔
            NodesFit n nodeOf ∨ shape.clusters * shape.cores * shape.cpus = 1)) ∧
    ∀ possible state, ReachableVia topoCall (PossibleCpus possible) .start state →
      ∀ count ∈ Count.ofCpus, (count.ask state).1 < 0 ∨ 1 ≤ (count.ask state).1 := by
  constructor
  · intro hsnap recreate before state hsuccess maxCores maxCcls
    have htotal : 0 < shape.total := by
      rw [← hsnap.uniform.eq_total]
      exact hsnap.listed.online_lt 0 hsnap.listed.boot
    have hmet := (hsnap.listed.toSnapshot.tablesBuilt hsuccess).toNodesMet
    obtain ⟨hleast, hiff⟩ := hsnap.uniform.nNodes hmet
    have hshape := hsnap.hasShape hsuccess
    rw [← hiff]
    exact HasShape.counts_iff { state with maxCores := maxCores, maxCcls := maxCcls } hshape
      htotal hleast
  · intro possible state hreach count hcount
    exact (bounded_of_reachable hreach).divides hcount

/-- Two packages of two cores with two CPUs each; of the second package only one
CPU is left. -/
theorem counts_survive_unplug_two_packages :
    ∃ state, topoConstruct (machineSysfs 8 {0, 1, 2, 3, 4} (· / 4) (fun cpu => (cpu / 2 : ℕ))
        (fun cpu => (cpu / 4 : ℕ)) (fun cpu => (cpu / 4 : ℕ))) .ok .start = .ok (state, 0) ∧
      CountsShape ⟨2, 1, 1, 2, 2⟩ state := by
  have huniform : Uniform ⟨2, 1, 1, 2, 2⟩ 8 (· / 4) (· / 2) (· / 4) (· / 4) :=
    ⟨⟨by decide, by decide⟩, ⟨by decide, by decide⟩, ⟨by decide, by decide⟩,
      ⟨by decide, by decide⟩, by decide⟩
  have hsnap : UniformSnapshot (machineSysfs 8 {0, 1, 2, 3, 4} (· / 4)
      (fun cpu => (cpu / 2 : ℕ)) (fun cpu => (cpu / 4 : ℕ)) (fun cpu => (cpu / 4 : ℕ)))
      ⟨2, 1, 1, 2, 2⟩ 8 {0, 1, 2, 3, 4} (· / 4) (· / 2) (· / 4) (· / 4) :=
    ⟨huniform, listed_machineSysfs (by decide) (by decide), fun _ hcpu => if_pos hcpu,
      fun _ hcpu => if_pos hcpu, by decide, ⟨0, by decide⟩, ⟨0, by decide⟩⟩
  have hreturns : (topoConstruct (machineSysfs 8 {0, 1, 2, 3, 4} (· / 4)
      (fun cpu => (cpu / 2 : ℕ)) (fun cpu => (cpu / 4 : ℕ)) (fun cpu => (cpu / 4 : ℕ)))
      .ok .start).toOption.map (·.2) = some 0 := by
    decide +kernel
  obtain ⟨⟨state, ret⟩, hsuccess, rfl⟩ := Option.map_eq_some_iff.mp hreturns
  have hsuccess := ok_of_toOption hsuccess
  exact ⟨state, hsuccess, ((counts_survive_unplug _ _ _ _ _ _ _ _).1 hsnap _ _ _ hsuccess
    state.maxCores state.maxCcls).mpr (.inl (nodesFit_of_lt (by decide)))⟩

/-- One core with two CPUs, on node 64. -/
def farNode : Sysfs :=
  machineSysfs 2 {0, 1} (fun _ => 64) (fun _ => (0 : ℕ)) (fun _ => (0 : ℕ)) fun _ => (0 : ℕ)

/-- Two nodes of one CPU each are counted, and no cluster in a node. -/
theorem far_node_counted_twice :
    UniformSnapshot farNode ⟨1, 1, 1, 1, 2⟩ 2 {0, 1} (fun _ => 64) (fun _ => 0) (fun _ => 0)
        (fun _ => 0) ∧
      (topoConstruct farNode .ok .start).toOption.map (fun result =>
        (result.2, (waycaScNodesInTotal result.1).1, (waycaScCpusInNode result.1).1,
          (waycaScNodesInPackage result.1).1, (waycaScCclsInNode result.1).1)) =
        some (0, 2, 1, 2, 0) := by
  refine ⟨⟨⟨?_, ?_, ?_, ?_, by decide⟩, listed_machineSysfs (by decide) (by decide),
    fun _ hcpu => if_pos hcpu, fun _ hcpu => if_pos hcpu, by decide, ⟨0, by decide⟩,
    ⟨0, by decide⟩⟩, by decide +kernel⟩
  all_goals exact ⟨by decide, by decide⟩

end WaycaScheduler
