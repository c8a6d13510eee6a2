import WaycaScheduler.NestedSystems
import WaycaScheduler.TreeWays

/-!
# The tree shows every CPU once

On a system that is wholly online and whose elements nest, the tree that
`build_topo` leaves shows every CPU once, under the elements that the id queries
name, exactly when the nodes are listed, no core or cluster id is used in two
packages or marks an offline CPU, and all cores and all clusters are of one
size.  The counts are quotients by the largest element, so with a smaller one
among them the last ones are left out.
-/

namespace WaycaScheduler

open Fallible KeyedTable ReturnCodes SiblingForest Subdivision Finset

/-! ## What the tree shows -/

/-- The trail has one element of the level, with the id. -/
def Carries (trail : List TopoElement) (level : TopoLevel) (id : ℤ) : Prop :=
  ((trail.map TopoElement.key).filter fun key => decide (key.1 = level)) = [(level, some id)]

/-- The CPU is shown once, and its ancestors carry the ids that the library
returns for it; without clusters no ancestor is one. -/
def ShowsCpu (sys : Sysfs) (recreate : TopoState → Outcome TopoState) (clusters : Bool)
    (state : TopoState) (tree : Forest TopoElement) (cpu : ℕ) : Prop :=
  ∃ trail, (tree.trailsOf fun node => decide (node.key = (.cpu, some (cpu : ℤ)))) = [trail] ∧
    (∃ id after, waycaScGetCoreId sys recreate state cpu = .ok (id, after) ∧
      Carries trail .core id) ∧
    (if clusters then ∃ id after, waycaScGetCclId sys recreate state cpu = .ok (id, after) ∧
        Carries trail .ccl id
      else ∀ node ∈ trail, node.level ≠ .ccl) ∧
    (∃ id after, waycaScGetNodeId state cpu = .ok (id, after) ∧ Carries trail .numa id) ∧
    ∃ id after, waycaScGetPackageId sys recreate state cpu = .ok (id, after) ∧
      Carries trail .pkg id

section Shown

variable {sys : Sysfs} {recreate : TopoState → Outcome TopoState} {clusters : Bool}
  {input : TreeInput} {depth : ℕ} {state after : TopoState} {tree : Forest TopoElement}
  {cpu package node ccl core : ℕ}

structure Answered (sys : Sysfs) (recreate : TopoState → Outcome TopoState) (clusters : Bool)
    (state : TopoState) (cpu node ccl core : ℕ) : Prop where
  core : ∃ after, waycaScGetCoreId sys recreate state cpu = .ok ((core : ℤ), after)
  ccl : clusters = true →
    ∃ after, waycaScGetCclId sys recreate state cpu = .ok ((ccl : ℤ), after)
  node : ∃ after, waycaScGetNodeId state cpu = .ok ((node : ℤ), after)

theorem carries_iff {trail : List TopoElement} {level : TopoLevel} {id : ℤ}
    (hway : trail.map TopoElement.key = wayTo state.topo cpu package node ccl core) :
    Carries trail level id ↔
      ((wayTo state.topo cpu package node ccl core).filter fun key => decide (key.1 = level)) =
        [(level, some id)] := by
  rw [Carries, hway]

variable (hagrees : OnlineAgrees sys state.topo)
  (hbuild : Returns (buildTopoInfo sys recreate input depth) state tree after)

include hagrees hbuild

theorem ShowsCpu.parts (hshows : ShowsCpu sys recreate clusters state tree cpu) :
    ∃ package node ccl core : ℕ, Answered sys recreate clusters state cpu node ccl core ∧
      node ∈ maskAt WaycaPackage.numaMap state.topo.packages package ∧
      (clusters = true → ccl < state.topo.nCpus / state.topo.largestCcl ∧
        ccl ∈ (state.topo.node node).clusterMap) ∧
      core < state.topo.nCpus / state.topo.largestCore ∧
      cpu ∈ maskAt WaycaCore.coreCpusMap state.topo.cores core := by
  obtain ⟨trail, htrail, ⟨coreIndex, afterCore, hcore, hcarriesCore⟩, hccl,
    ⟨nodeIndex, afterNode, hnode, hcarriesNode⟩, -⟩ := hshows
  have hways := buildTopoInfo_ways hagrees hbuild cpu
  rw [htrail, List.map_singleton] at hways
  have hmem : trail.map TopoElement.key ∈ ways (keyChildren state.topo)
      (fun key => decide (key = (.cpu, some (cpu : ℤ)))) 6 (.sys, none) := by
    rw [← hways]
    exact List.mem_singleton_self _
  obtain ⟨package, node, ccl, core, hway, hpackage, hclusters, hlimit, hcpu⟩ := of_mem_ways hmem
  rw [carries_iff hway, wayTo_levels] at hcarriesCore hcarriesNode
  have hcoreIndex : (core : ℤ) = coreIndex := by simpa using hcarriesCore
  have hnodeIndex : (node : ℤ) = nodeIndex := by simpa using hcarriesNode
  have hcclParts : clusters = true → state.topo.largestCcl ≠ 0 ∧
      ∃ after, waycaScGetCclId sys recreate state cpu = .ok ((ccl : ℤ), after) := by
    intro hclusters
    rw [if_pos hclusters] at hccl
    obtain ⟨index, afterCcl, hquery, hcarries⟩ := hccl
    rw [carries_iff hway, wayTo_levels] at hcarries
    dsimp only at hcarries
    split at hcarries
    next => cases hcarries
    next hsome =>
      have hindex : (ccl : ℤ) = index := by simpa using hcarries
      rw [hindex]
      exact ⟨hsome, afterCcl, hquery⟩
  refine ⟨package, node, ccl, core, ⟨?_, fun hsome => (hcclParts hsome).2, ?_⟩, hpackage,
    fun hsome => hclusters (hcclParts hsome).1, hlimit, hcpu⟩
  · rw [hcoreIndex]
    exact ⟨afterCore, hcore⟩
  · rw [hnodeIndex]
    exact ⟨afterNode, hnode⟩

theorem Placement.shows (hplaced : Placement state.topo cpu package node ccl core)
    (hanswered : Answered sys recreate clusters state cpu node ccl core)
    (hpackage : ∃ after, waycaScGetPackageId sys recreate state cpu = .ok ((package : ℤ), after))
    (hclusters : clusters = true ↔ state.topo.largestCcl ≠ 0) :
    ShowsCpu sys recreate clusters state tree cpu := by
  have hways := buildTopoInfo_ways hagrees hbuild cpu
  rw [hplaced.ways_eq, List.map_eq_singleton_iff] at hways
  obtain ⟨trail, htrail, hway⟩ := hways
  obtain ⟨afterCore, hcore⟩ := hanswered.core
  obtain ⟨afterNode, hnode⟩ := hanswered.node
  obtain ⟨afterPackage, hpackage⟩ := hpackage
  refine ⟨trail, htrail, ⟨_, afterCore, hcore, ?_⟩, ?_, ⟨_, afterNode, hnode, ?_⟩,
    _, afterPackage, hpackage, ?_⟩
  · rw [carries_iff hway, wayTo_levels]
  · split
    next hsome =>
      obtain ⟨afterCcl, hccl⟩ := hanswered.ccl hsome
      refine ⟨_, afterCcl, hccl, ?_⟩
      rw [carries_iff hway, wayTo_levels]
      exact if_neg (hclusters.mp hsome)
    next hnone =>
      intro element helement hlevel
      have hempty : state.topo.largestCcl = 0 := not_not.mp fun hsome => hnone (hclusters.mpr hsome)
      have hlevels := wayTo_levels state.topo cpu package node ccl core .ccl
      simp only [hempty, if_true] at hlevels
      rw [← hway, List.filter_eq_nil_iff] at hlevels
      exact hlevels element.key (List.mem_map_of_mem helement) (decide_eq_true hlevel)
  · rw [carries_iff hway, wayTo_levels]
  · rw [carries_iff hway, wayTo_levels]

end Shown

/-! ## Even systems -/

def cclIndex (topo : WaycaTopo) (clusterId : Option (ℕ → ℤ)) (cpu : ℕ) : ℕ :=
  clusterId.elim 0 fun ids => place WaycaCluster.clusterId topo.ccls (ids cpu)

section Even

variable {sys : Sysfs} {n : ℕ} {nodeOf : ℕ → ℕ} {coreId packageId : ℕ → ℤ}
  {clusterId : Option (ℕ → ℤ)} {recreate : TopoState → Outcome TopoState}
  {input : TreeInput} {depth : ℕ} {before state after : TopoState} {tree : Forest TopoElement}
  {cpu : ℕ} (hsystem : NestedSystem sys n nodeOf coreId packageId clusterId)

include hsystem

theorem NestedSystem.coreIn_eq (hmarked : coreId cpu ≠ -1) (hcpu : cpu < n) :
    coreIn sys (range n) cpu = some (coreId cpu) := by
  have honline := mem_range.mpr hcpu
  unfold coreIn coreIdOf
  simp only [honline, decide_true, if_true, hsystem.core cpu honline, Option.getD_some, hmarked,
    if_false]

theorem NestedSystem.core_mem (hmarked : coreId cpu ≠ -1)
    (hup : CoresUpTo sys n (range n) nodeOf n state.topo) (hcpu : cpu < n) :
    coreId cpu ∈ state.topo.cores.map WaycaCore.coreId :=
  hup.cores.mem (mem_range.mpr hcpu) (hsystem.coreIn_eq hmarked hcpu)

section Places

variable (heven : EvenSystem sys n nodeOf coreId packageId clusterId) (hcpu : cpu < n)

include heven hcpu

theorem NestedSystem.of_created {core : WaycaCore} {creator : ℕ}
    (hkey : core.coreId = coreId cpu) (hcreator : creator ∈ range n)
    (hin : coreIn sys (range n) creator = some core.coreId) :
    nodeOf creator = nodeOf cpu ∧ ∀ ids, clusterId = some ids → ids creator = ids cpu := by
  have hlt := mem_range.mp hcreator
  have hid := (hsystem.coreIn_some hcreator hin).1.trans hkey
  exact hsystem.coresNest creator hlt cpu hcpu (heven.cores.separate creator hlt cpu hcpu hid) hid

section Cores

variable (hup : CoresUpTo sys n (range n) nodeOf n state.topo)

include hup

section Counted

variable (hcounts : CountsCpus state.topo)

include hcounts

theorem NestedSystem.mem_coreCpusMap (r : ℕ) :
    cpu ∈ maskAt WaycaCore.coreCpusMap state.topo.cores r ↔
      r = place WaycaCore.coreId state.topo.cores (coreId cpu) :=
  ((hsystem.coreTable hup hcounts).onlineTable
    (fun cpu hcpu => hsystem.core_mem (heven.marked cpu hcpu) hup hcpu)
    heven.cores.separate).mem_maskAt (mem_range.mpr hcpu) r

theorem NestedSystem.core_lt_limit :
    place WaycaCore.coreId state.topo.cores (coreId cpu) <
      state.topo.nCpus / state.topo.largestCore := by
  rw [hup.built.framed.nCpus]
  exact ((hsystem.coreTable hup hcounts).places_lt_iff
    (fun cpu hcpu => hsystem.core_mem (heven.marked cpu hcpu) hup hcpu) heven.cores.separate
    (Nat.zero_lt_of_lt hcpu)).mpr heven.cores.sizes cpu hcpu

end Counted

theorem NestedSystem.mem_nodeCores (k : ℕ) :
    place WaycaCore.coreId state.topo.cores (coreId cpu) ∈ state.topo.nodeCores k ↔
      k = nodeOf cpu := by
  obtain ⟨core, hcore, hkey⟩ := record_at_place (hsystem.core_mem (heven.marked cpu hcpu) hup hcpu)
  obtain ⟨creator, hseen, hin, hinNode, -⟩ := hup.nodeMarks.creator _ core hcore
  rw [hinNode, (hsystem.of_created heven hcpu hkey hseen hin).1, Option.some.injEq]
  exact eq_comm

theorem NestedSystem.mem_cclCores (c : ℕ) :
    place WaycaCore.coreId state.topo.cores (coreId cpu) ∈ state.topo.cclCores c ↔
      clusterId.map (fun ids => place WaycaCluster.clusterId state.topo.ccls (ids cpu)) =
        some c := by
  obtain ⟨core, hcore, hkey⟩ := record_at_place (hsystem.core_mem (heven.marked cpu hcpu) hup hcpu)
  obtain ⟨creator, hseen, hin, hinCcl, -⟩ := hup.cclMarks.creator _ core hcore
  have hsame := (hsystem.of_created heven hcpu hkey hseen hin).2
  have hcluster := hsystem.cluster creator (mem_range.mp hseen)
  rw [hinCcl, cclPlace, clusterOf, hcluster, Option.map_map]
  cases hids : clusterId with
  | none => rfl
  | some ids =>
      rw [Option.map_some, Option.map_some, ← hsame ids hids]
      rfl

end Cores

section Clusters

variable {ids : ℕ → ℤ} (hbuilt : Built sys n (range n) nodeOf state.topo)
  (hids : clusterId = some ids)

include hbuilt hids

theorem NestedSystem.mem_clusterMap (k : ℕ) :
    place WaycaCluster.clusterId state.topo.ccls (ids cpu) ∈ (state.topo.node k).clusterMap ↔
      k = nodeOf cpu := by
  obtain ⟨ccl, hccl, hkey⟩ := record_at_place (hsystem.cclMem hbuilt.toTablesBuilt hids hcpu)
  obtain ⟨creator, hseen, hin, hinNode, -⟩ := hbuilt.cclMarks.creator _ ccl hccl
  have hcreator := mem_range.mp hseen
  have hid : ids creator = ids cpu := by
    have hread := (hsystem.clusterOf_eq hids hcreator).symm.trans hin
    exact (Option.some.inj hread).trans hkey
  have hnode := hsystem.clustersNest ids hids creator hcreator cpu hcpu
    ((heven.clusters ids hids).separate creator hcreator cpu hcpu hid) hid
  rw [hinNode, hnode, Option.some.injEq]
  exact eq_comm

theorem NestedSystem.ccl_lt_limit :
    place WaycaCluster.clusterId state.topo.ccls (ids cpu) <
      state.topo.nCpus / state.topo.largestCcl := by
  rw [hbuilt.framed.nCpus]
  exact ((hsystem.cclTable hbuilt.toTablesBuilt hids).places_lt_iff
    (fun _ hcpu => hsystem.cclMem hbuilt.toTablesBuilt hids hcpu) (heven.clusters ids hids).separate
    (Nat.zero_lt_of_lt hcpu)).mpr (heven.clusters ids hids).sizes cpu hcpu

end Clusters

variable (hsuccess : topoConstruct sys recreate before = .ok (state, 0))

include hsuccess

theorem NestedSystem.mem_numaMap (p : ℕ) :
    nodeOf cpu ∈ maskAt WaycaPackage.numaMap state.topo.packages p ↔
      p = place WaycaPackage.physicalPackageId state.topo.packages (packageId cpu) := by
  have hbuilt := hsystem.toSnapshot.built hsuccess heven.nodes.fit
  obtain ⟨hnodes, hmarks⟩ := hsystem.toSnapshot.listedNodes heven.nodes hsuccess
  have htable := hsystem.packaged.packageTable hbuilt.toTablesBuilt
  rw [← htable.mem_maskAt (mem_range.mpr hcpu) p]
  unfold maskAt
  cases hpackage : state.topo.packages[p]? with
  | none => exact iff_of_false (notMem_empty _) (notMem_empty _)
  | some package =>
      have hin := List.mem_of_getElem? hpackage
      have hown : cpu ∈ range n ∩ nodeMembers nodeOf n (nodeOf cpu) := by
        simp [nodeMembers, hcpu]
      rw [Option.elim_some, Option.elim_some, hmarks package hin]
      constructor
      · rintro ⟨-, -, hinside⟩
        exact hinside hown
      · intro hmem
        refine ⟨hnodes cpu hcpu, ⟨cpu, hown⟩, ?_⟩
        intro other hother
        rw [htable.cpus package hin, mem_filter] at hmem ⊢
        obtain ⟨honline, hmember⟩ := mem_inter.mp hother
        have hnode := hsystem.nodesNest other (mem_range.mp honline) cpu hcpu
          (mem_filter.mp hmember).2
        exact ⟨honline, hnode.trans hmem.2⟩

theorem NestedSystem.placement :
    Placement state.topo cpu
      (place WaycaPackage.physicalPackageId state.topo.packages (packageId cpu)) (nodeOf cpu)
      (cclIndex state.topo clusterId cpu)
      (place WaycaCore.coreId state.topo.cores (coreId cpu)) := by
  have hup := hsystem.toSnapshot.coresUpTo hsuccess heven.nodes.fit
  have hbuilt := hup.built
  have hcounts := hsystem.toSnapshot.countsCpus hsuccess
  have hpackages := hsystem.packaged.packageTable hbuilt.toTablesBuilt
  have hcclCores := hsystem.mem_cclCores heven hcpu hup
  constructor
  · rwa [hbuilt.framed.nCpus]
  · exact place_lt_iff.mpr (hpackages.mem cpu (mem_range.mpr hcpu))
  · exact (hsystem.toSnapshot.listedNodes heven.nodes hsuccess).1 cpu hcpu
  · exact place_lt_iff.mpr (hsystem.core_mem (heven.marked cpu hcpu) hup hcpu)
  · exact hsystem.core_lt_limit heven hcpu hup hcounts
  · exact hsystem.mem_numaMap heven hcpu hsuccess
  · exact hsystem.mem_coreCpusMap heven hcpu hup hcounts
  · exact fun _ => hsystem.mem_nodeCores heven hcpu hup
  · intro c hc
    obtain ⟨ids, rfl, rfl⟩ := Option.map_eq_some_iff.mp ((hcclCores c).mp hc)
    rfl
  · intro hsome
    cases hids : clusterId with
    | none =>
        rw [WaycaTopo.largestCcl, hsystem.ccls_eq_nil hbuilt.toTablesBuilt hids] at hsome
        exact absurd rfl hsome
    | some ids =>
        refine ⟨place_lt_iff.mpr (hsystem.cclMem hbuilt.toTablesBuilt hids hcpu),
          hsystem.ccl_lt_limit heven hcpu hbuilt hids,
          hsystem.mem_clusterMap heven hcpu hbuilt hids, (hcclCores _).mpr ?_⟩
        rw [hids]
        rfl

theorem NestedSystem.answered :
    Answered sys recreate clusterId.isSome state cpu (nodeOf cpu)
      (cclIndex state.topo clusterId cpu)
      (place WaycaCore.coreId state.topo.cores (coreId cpu)) := by
  have hup := hsystem.toSnapshot.coresUpTo hsuccess heven.nodes.fit
  have hmem := hsystem.core_mem (heven.marked cpu hcpu) hup hcpu
  constructor
  · rw [hsystem.getCoreId_found hup.tables (mem_range.mpr hcpu), foundAt_of_mem hmem]
    exact ⟨state, rfl⟩
  · intro hsome
    obtain ⟨ids, hids⟩ := Option.isSome_iff_exists.mp hsome
    obtain ⟨after, hanswer, -⟩ := hsystem.getCclId hup.tables hids hcpu
    rw [cclIndex, hids]
    exact ⟨after, hanswer⟩
  · exact ⟨state, hup.built.getNodeId hcpu⟩

end Places

section Shown

variable (hsuccess : topoConstruct sys recreate before = .ok (state, 0))
  (hbuild : Returns (buildTopoInfo sys recreate input depth) state tree after)

include hsuccess hbuild

theorem NestedSystem.shows_of_even
    (heven : EvenSystem sys n nodeOf coreId packageId clusterId) (hcpu : cpu < n) :
    ShowsCpu sys recreate clusterId.isSome state tree cpu := by
  have hbuilt := hsystem.toSnapshot.built hsuccess heven.nodes.fit
  obtain ⟨afterPackage, hpackage, -⟩ :=
    hsystem.packaged.getPackageId hbuilt.toTablesBuilt (mem_range.mpr hcpu)
  apply (hsystem.placement heven hcpu hsuccess).shows
    (hsystem.toSnapshot.onlineAgrees hbuilt.framed) hbuild
    (hsystem.answered heven hcpu hsuccess) ⟨afterPackage, hpackage⟩
  cases hids : clusterId with
  | none =>
      apply iff_of_false Bool.false_ne_true
      rw [WaycaTopo.largestCcl, hsystem.ccls_eq_nil hbuilt.toTablesBuilt hids]
      exact fun hsome => hsome rfl
  | some ids => exact iff_of_true rfl (hsystem.largestCcl_ne_zero hbuilt.toTablesBuilt hids)

variable (hshown : ∀ cpu < n, ShowsCpu sys recreate clusterId.isSome state tree cpu)

include hshown

theorem NestedSystem.listsNodes_of_shown : ListsNodes sys n nodeOf := by
  have hframed := (hsystem.toSnapshot.tablesBuilt hsuccess).framed
  have hboot := mem_range.mp hsystem.boot
  obtain ⟨package, node, _, _, -, hnode, -⟩ :=
    (hshown 0 hboot).parts (hsystem.toSnapshot.onlineAgrees hframed) hbuild
  unfold maskAt at hnode
  cases hpackage : state.topo.packages[package]? with
  | none =>
      rw [hpackage] at hnode
      exact absurd hnode (notMem_empty node)
  | some found =>
      rw [hpackage] at hnode
      exact hsystem.toSnapshot.listsNodes_of_marked hsuccess (List.mem_of_getElem? hpackage)
        ⟨node, hnode⟩

theorem NestedSystem.core_of_shown (hcpu : cpu < n) :
    coreId cpu ∈ state.topo.cores.map WaycaCore.coreId ∧
      cpu ∈ maskAt WaycaCore.coreCpusMap state.topo.cores
        (place WaycaCore.coreId state.topo.cores (coreId cpu)) ∧
      place WaycaCore.coreId state.topo.cores (coreId cpu) <
        state.topo.nCpus / state.topo.largestCore := by
  have hlists := hsystem.listsNodes_of_shown hsuccess hbuild hshown
  have hbuilt := hsystem.toSnapshot.built hsuccess hlists.fit
  obtain ⟨_, _, _, core, hanswered, -, -, hlimit, hmask⟩ :=
    (hshown cpu hcpu).parts (hsystem.toSnapshot.onlineAgrees hbuilt.framed) hbuild
  obtain ⟨afterCore, hquery⟩ := hanswered.core
  rw [hsystem.getCoreId_found hbuilt.toTablesBuilt (mem_range.mpr hcpu)] at hquery
  have hindex : foundAt (place WaycaCore.coreId state.topo.cores (coreId cpu))
      state.topo.cores.length = core := (Prod.mk.inj (Except.ok.inj hquery)).1
  unfold foundAt at hindex
  split at hindex
  next hlt =>
    have hcore : place WaycaCore.coreId state.topo.cores (coreId cpu) = core := by
      exact_mod_cast hindex
    rw [hcore]
    exact ⟨place_lt_iff.mp hlt, hmask, hlimit⟩
  next =>
    have hnegative : -EINVAL < 0 := by decide
    omega

theorem NestedSystem.ccl_of_shown {ids : ℕ → ℤ} (hids : clusterId = some ids) (hcpu : cpu < n) :
    place WaycaCluster.clusterId state.topo.ccls (ids cpu) ∈
        (state.topo.node (nodeOf cpu)).clusterMap ∧
      place WaycaCluster.clusterId state.topo.ccls (ids cpu) <
        state.topo.nCpus / state.topo.largestCcl := by
  have hlists := hsystem.listsNodes_of_shown hsuccess hbuild hshown
  have hbuilt := hsystem.toSnapshot.built hsuccess hlists.fit
  obtain ⟨_, node, ccl, _, hanswered, -, hclusters, -⟩ :=
    (hshown cpu hcpu).parts (hsystem.toSnapshot.onlineAgrees hbuilt.framed) hbuild
  have hsome : clusterId.isSome = true := by
    rw [hids]
    rfl
  obtain ⟨hlimit, hmark⟩ := hclusters hsome
  obtain ⟨afterCcl, hquery⟩ := hanswered.ccl hsome
  obtain ⟨afterNode, hnode⟩ := hanswered.node
  have hanswer : Level.Answers .ccl sys recreate state cpu _ :=
    hsystem.getCclId hbuilt.toTablesBuilt hids hcpu
  obtain ⟨afterOwn, hown, -⟩ := hanswer
  have hccl : place WaycaCluster.clusterId state.topo.ccls (ids cpu) = ccl := by
    have hsame := (Prod.mk.inj (Except.ok.inj (hown.symm.trans hquery))).1
    exact_mod_cast hsame
  have hnodeOf : nodeOf cpu = node := by
    have hsame := (Prod.mk.inj (Except.ok.inj ((hbuilt.getNodeId hcpu).symm.trans hnode))).1
    exact_mod_cast hsame
  rw [hccl, hnodeOf]
  exact ⟨hmark, hlimit⟩

theorem NestedSystem.cores_of_shown : (∀ cpu < n, coreId cpu ≠ -1) ∧ Even n packageId coreId := by
  have hlists := hsystem.listsNodes_of_shown hsuccess hbuild hshown
  have hup := hsystem.toSnapshot.coresUpTo hsuccess hlists.fit
  have htable := hsystem.coreTable hup (hsystem.toSnapshot.countsCpus hsuccess)
  have hcore := fun cpu (hcpu : cpu < n) => hsystem.core_of_shown hsuccess hbuild hshown hcpu
  have hseparate := htable.separate fun cpu hcpu => (hcore cpu hcpu).2.1
  refine ⟨?_, hseparate, ?_⟩
  · intro cpu hcpu
    obtain ⟨creator, hcreator, hin⟩ := (hup.cores.mem_iff _).mp (hcore cpu hcpu).1
    exact (hsystem.coreIn_some hcreator hin).2
  · apply (htable.places_lt_iff (fun cpu hcpu => (hcore cpu hcpu).1) hseparate
      (mem_range.mp hsystem.boot)).mp
    intro cpu hcpu
    have hlimit := (hcore cpu hcpu).2.2
    rwa [hup.built.framed.nCpus] at hlimit

theorem NestedSystem.clusters_of_shown {ids : ℕ → ℤ} (hids : clusterId = some ids) :
    Even n packageId ids := by
  have hlists := hsystem.listsNodes_of_shown hsuccess hbuild hshown
  have hbuilt := hsystem.toSnapshot.built hsuccess hlists.fit
  have htable := hsystem.cclTable hbuilt.toTablesBuilt hids
  have hmem := fun cpu (hcpu : cpu < n) => hsystem.cclMem hbuilt.toTablesBuilt hids hcpu
  have hccl := fun cpu (hcpu : cpu < n) =>
    hsystem.ccl_of_shown hsuccess hbuild hshown hids hcpu
  -- A cluster is marked in one node, and a node lies in one package.
  have hseparate : Separate n packageId ids := by
    intro first hfirst second hsecond hsame
    obtain ⟨ccl, hrecord, -⟩ := record_at_place (hmem first hfirst)
    obtain ⟨creator, -, -, hinNode, -⟩ := hbuilt.cclMarks.creator _ ccl hrecord
    have hfirstNode := (hinNode _).mp (hccl first hfirst).1
    have hsecondNode := (hccl second hsecond).1
    rw [← hsame] at hsecondNode
    exact hsystem.nodesNest first hfirst second hsecond
      (Option.some.inj (hfirstNode.symm.trans ((hinNode _).mp hsecondNode)))
  refine ⟨hseparate, ?_⟩
  apply (htable.places_lt_iff hmem hseparate (mem_range.mp hsystem.boot)).mp
  intro cpu hcpu
  have hlimit := (hccl cpu hcpu).2
  rwa [hbuilt.framed.nCpus] at hlimit

end Shown

end Even

/-- The construction and the tree of a system without devices, and what is read off
the tree. -/
def builtAs {α : Type} (sys : Sysfs) (read : Forest TopoElement → α) :
    Outcome (ℤ × Option α) := do
  let (state, ret) ← topoConstruct sys .ok .start
  let ended ← outcome (buildTopoInfo sys .ok ⟨false, false, [], .ok []⟩ 6) state
  .ok (ret, ended.toOption.map fun built => read built.1)

theorem built_of_builtAs {α : Type} {sys : Sysfs} {read : Forest TopoElement → α} {value : α}
    (hbuilds : builtAs sys read = .ok (0, some value)) :
    ∃ state tree after, topoConstruct sys .ok .start = .ok (state, 0) ∧
      Returns (buildTopoInfo sys .ok ⟨false, false, [], .ok []⟩ 6) state tree after ∧
      read tree = value := by
  obtain ⟨⟨state, ret⟩, hsuccess, hbuilds⟩ := bind_eq_ok.mp hbuilds
  obtain ⟨ended, hended, hbuilds⟩ := bind_eq_ok.mp hbuilds
  obtain ⟨rfl, hread⟩ := Prod.mk.inj (Except.ok.inj hbuilds)
  cases ended with
  | error code => cases hread
  | ok built => exact ⟨state, built.1, built.2, hsuccess, hended, Option.some.inj hread⟩

/-- The tree of a system shows every CPU once, under the elements that the queries
name, exactly when the system is even. -/
theorem tree_shows_cpus_iff_even {sys : Sysfs} {n : ℕ} {nodeOf : ℕ → ℕ}
    {coreId packageId : ℕ → ℤ} {clusterId : Option (ℕ → ℤ)}
    {recreate : TopoState → Outcome TopoState} {input : TreeInput} {depth : ℕ}
    {before state after : TopoState} {tree : Forest TopoElement}
    (hsystem : NestedSystem sys n nodeOf coreId packageId clusterId)
    (hsuccess : topoConstruct sys recreate before = .ok (state, 0))
    (hbuild : Returns (buildTopoInfo sys recreate input depth) state tree after) :
    (∀ cpu < n, ShowsCpu sys recreate clusterId.isSome state tree cpu) ↔
      EvenSystem sys n nodeOf coreId packageId clusterId := by
  constructor
  · intro hshown
    obtain ⟨hmarked, hcores⟩ := hsystem.cores_of_shown hsuccess hbuild hshown
    exact ⟨hsystem.listsNodes_of_shown hsuccess hbuild hshown, hmarked, hcores,
      fun _ hids => hsystem.clusters_of_shown hsuccess hbuild hshown hids⟩
  · intro heven cpu hcpu
    exact hsystem.shows_of_even hsuccess hbuild heven hcpu

def twoCores : Sysfs := machineSysfs 4 (range 4) (· / 2) (· / 2) (· / 2) 0

theorem tree_shows_cpus_of_two_cores :
    ∃ state tree after, topoConstruct twoCores .ok .start = .ok (state, 0) ∧
      Returns (buildTopoInfo twoCores .ok ⟨false, false, [], .ok []⟩ 6) state tree after ∧
      ∀ cpu < 4, ShowsCpu twoCores .ok true state tree cpu := by
  have hsystem : NestedSystem twoCores 4 (· / 2) (· / 2) 0 (some (· / 2)) :=
    nested_machineSysfs (by decide) (by decide) (by decide) (by decide) (by decide)
  have heven : EvenSystem twoCores 4 (· / 2) (· / 2) 0 (some (· / 2)) := by
    refine ⟨rfl, by decide, ⟨by decide, by decide⟩, ?_⟩
    rintro _ ⟨⟩
    exact ⟨by decide, by decide⟩
  have hbuilds : builtAs twoCores (fun _ => ()) = .ok (0, some ()) := by decide +kernel
  obtain ⟨state, tree, after, hsuccess, hbuild, -⟩ := built_of_builtAs hbuilds
  exact ⟨state, tree, after, hsuccess, hbuild,
    (tree_shows_cpus_iff_even hsystem hsuccess hbuild).mpr heven⟩

def threeThreads : Sysfs := machineSysfs 3 (range 3) 0 (· / 2) 0 0

/-- Three CPUs and a largest core of two make one core, so the CPU of the second core
is not shown. -/
theorem tree_loses_smaller_core :
    NestedSystem threeThreads 3 0 (· / 2) 0 (some 0) ∧
      ∃ state tree after, topoConstruct threeThreads .ok .start = .ok (state, 0) ∧
        Returns (buildTopoInfo threeThreads .ok ⟨false, false, [], .ok []⟩ 6) state tree after ∧
        (tree.trailsOf fun node => decide (node.key = (.cpu, some 2))) = [] ∧
        ¬ ShowsCpu threeThreads .ok true state tree 2 := by
  refine ⟨nested_machineSysfs (by decide) (by decide) (by decide) (by decide) (by decide), ?_⟩
  have hbuilds : builtAs threeThreads (fun tree =>
      (tree.trailsOf fun node => decide (node.key = (.cpu, some 2))).length) =
        .ok (0, some 0) := by
    decide +kernel
  obtain ⟨state, tree, after, hsuccess, hbuild, hlength⟩ := built_of_builtAs hbuilds
  have hnone := List.length_eq_zero_iff.mp hlength
  refine ⟨state, tree, after, hsuccess, hbuild, hnone, ?_⟩
  rintro ⟨trail, htrail, -⟩
  rw [show ((2 : ℕ) : ℤ) = 2 from rfl, hnone] at htrail
  exact absurd htrail (List.cons_ne_nil trail []).symm

end WaycaScheduler
