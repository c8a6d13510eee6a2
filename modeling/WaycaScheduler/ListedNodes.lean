import WaycaScheduler.NumaConstruction

/-!
# Nodes that are listed

The packages are marked with their nodes when `node/possible` lists the nodes
of the CPUs, and not at all otherwise.  A node number that does not fit the
map of the nodes is counted for each of its CPUs, so the count is then larger
than the map and the list cannot match both.
-/

namespace WaycaScheduler

open Fallible KeyedTable Finset

variable {sys : Sysfs} {n : ℕ} {online : Finset ℕ} {nodeOf : ℕ → ℕ} {topo next : WaycaTopo}

/-- `node/possible` lists the nodes of the CPUs. -/
def ListsNodes (sys : Sysfs) (n : ℕ) (nodeOf : ℕ → ℕ) : Prop :=
  readCpulist sys.nodePossible n = some ((range n).image nodeOf)

theorem ListsNodes.fit (hlists : ListsNodes sys n nodeOf) : NodesFit n nodeOf := by
  intro cpu hcpu
  exact readCpulist_fits hlists _ (mem_image_of_mem nodeOf (mem_range.mpr hcpu))

section Construction

variable {recreate : TopoState → Outcome TopoState} {before state : TopoState}

theorem NodesMet.fit_of_count (hmet : NodesMet n nodeOf n topo)
    (hcount : topo.nodeMap.card = topo.nNodes) : NodesFit n nodeOf := by
  have hnone : ((range n).filter (¬ NodeFits n nodeOf ·)).card = 0 := by
    have hcounted := hmet.counted
    omega
  intro cpu hcpu
  exact not_not.mp (filter_eq_empty_iff.mp (card_eq_zero.mp hnone) (mem_range.mpr hcpu))

theorem Snapshot.listsNodes_of_marked (hsnap : Snapshot sys n online nodeOf)
    (hsuccess : topoConstruct sys recreate before = .ok (state, 0))
    {package : WaycaPackage} (hpackage : package ∈ state.topo.packages)
    (hmarked : package.numaMap.Nonempty) : ListsNodes sys n nodeOf := by
  obtain ⟨read, assembled, hread, hnuma, hloop⟩ := hsnap.parts hsuccess
  have hpointed : NodesPointed read := ((nodesPointed_allocated sys).readCpus n 0).of_ok hread
  have htables := hsnap.tablesUpTo hread
  rw [(constructCoreLoop_keeps hloop).2] at hpackage
  cases hlisted : WaycaScheduler.readCpulist sys.nodePossible read.nCpus with
  | none =>
      unfold topoConstructNumaTopology at hnuma
      rw [hlisted] at hnuma
      cases hnuma
  | some listed =>
      rw [hpointed.constructNuma_eq hlisted] at hnuma
      split at hnuma
      next hmatch =>
        have hfit := htables.toNodesMet.fit_of_count (hmatch.1 ▸ hmatch.2)
        unfold ListsNodes
        rw [← htables.framed.nCpus, hlisted, hmatch.1,
          (hsnap.readUpTo hread hfit).built.nodeMap, htables.framed.nCpus]
      next =>
        cases hnuma
        rw [hpointed.unmarked package hpackage] at hmarked
        exact absurd hmarked not_nonempty_empty

theorem constructNumaLoop_present {setsize : ℕ} {numbers : List ℕ}
    (hloop : constructNumaLoop sys setsize numbers topo = .ok (next, 0)) :
    ∀ k ∈ numbers, (topo.slotAt k).isSome := by
  induction numbers generalizing topo with
  | nil => exact fun k hk => absurd hk List.not_mem_nil
  | cons first rest ih =>
      obtain ⟨middle, hread, hloop⟩ := andThen_eq_success.mp hloop
      have hslots := (readNodeTopology_success hread).1.slotAt
      obtain ⟨node, hnode, hloop⟩ := bind_eq_ok.mp hloop
      have hview := nodeAt_success hnode
      intro k hk
      rw [← hslots]
      rcases List.mem_cons.mp hk with rfl | hlater
      · obtain ⟨p, hp, -⟩ := Option.bind_eq_some_iff.mp hview
        rw [hp]
        rfl
      · dsimp only at hloop
        split at hloop
        next => exact ih hloop k hlater
        next => exact ih hloop k hlater

theorem Built.nodeMap_dense (hbuilt : Built sys n online nodeOf topo)
    (hpointed : NodesPointed topo)
    (hlist : readCpulist sys.nodePossible topo.nCpus = some topo.nodeMap)
    (hnuma : topoConstructNumaTopology sys topo = .ok (next, 0)) :
    topo.nodeMap = range topo.nNodes := by
  rw [hpointed.constructNuma_eq hlist, if_pos ⟨rfl, hbuilt.nNodes.symm⟩] at hnuma
  symm
  apply eq_of_subset_of_card_le
  · intro k hk
    rw [hbuilt.wellFormed.created]
    exact constructNumaLoop_present hnuma k (List.mem_range.mpr (mem_range.mp hk))
  · rw [card_range, hbuilt.nNodes]

/-- What the construction leaves when the nodes are listed: they are numbered from
zero on, and a package has the nodes whose online CPUs it has. -/
theorem Snapshot.listedNodes (hsnap : Snapshot sys n online nodeOf)
    (hlists : ListsNodes sys n nodeOf)
    (hsuccess : topoConstruct sys recreate before = .ok (state, 0)) :
    (∀ cpu < n, nodeOf cpu < state.topo.nNodes) ∧
      ∀ package ∈ state.topo.packages, ∀ k, k ∈ package.numaMap ↔ k < state.topo.nNodes ∧
        (online ∩ nodeMembers nodeOf n k).Nonempty ∧
        online ∩ nodeMembers nodeOf n k ⊆ package.cpuMap := by
  obtain ⟨read, assembled, hread, hnuma, hloop⟩ := hsnap.parts hsuccess
  have hbuilt := (hsnap.readUpTo hread hlists.fit).built
  have hpointed : NodesPointed read := ((nodesPointed_allocated sys).readCpus n 0).of_ok hread
  have hnumaKeeps := (constructNuma_success hnuma).toKeepsTables
  obtain ⟨hcoreKeeps, hpackages⟩ := constructCoreLoop_keeps hloop
  have hlist : WaycaScheduler.readCpulist sys.nodePossible read.nCpus = some read.nodeMap := by
    rw [hbuilt.framed.nCpus, hbuilt.nodeMap]
    exact hlists
  have hdense := hbuilt.nodeMap_dense hpointed hlist hnuma
  obtain ⟨other, ret, hother, -, hreturn⟩ := hpointed.constructNuma_dense hlist hdense
  obtain ⟨rfl, rfl⟩ : assembled = other ∧ 0 = ret := by
    rw [hnuma] at hother
    exact Prod.mk.inj (Except.ok.inj hother)
  have hcomplete := hreturn rfl
  have hkept := hbuilt.keep hnumaKeeps
  rw [hpackages, hcoreKeeps.nNodes]
  constructor
  · intro cpu hcpu
    rw [hnumaKeeps.nNodes, ← mem_range, ← hdense, hbuilt.nodeMap]
    exact mem_image_of_mem nodeOf (mem_range.mpr hcpu)
  · intro package hpackage k
    rw [hcomplete.packages package hpackage, hnumaKeeps.nodeMap, hdense, mem_range,
      hnumaKeeps.nNodes, onlineCpusOf, hkept.framed.onlineCpuMap, hkept.nodeCpus]

end Construction

end WaycaScheduler
