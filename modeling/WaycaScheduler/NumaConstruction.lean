import WaycaScheduler.NestedConstruction
import WaycaScheduler.TopologyAssembly
import WaycaScheduler.TopologyQueries

/-!
# The nodes are complete or an error is returned

Whatever sysfs shows, the reading of the CPUs leaves nodes that the map of the
nodes can be followed to.  `topo_construct_numa_topology` then gives every node
its distances and its memory and every package the nodes in it, or returns an
error, where `node/possible` names the nodes of the CPUs and these are numbered
from zero on without a gap.  Elsewhere it returns zero with nothing constructed,
or follows a null pointer, unless a directory in front of the first gap fails it.
-/

namespace WaycaScheduler

open Fallible Finset

variable {sys : Sysfs} {topo next : WaycaTopo} {cpu k : ℕ} {online : Bool}

/-! ## What the reading of the CPUs leaves -/

/-- The map of the nodes names the elements in use, as far as they fit, and these
point to nodes.  A node holds CPUs of the topology, and neither its memory nor the
nodes of a package are known. -/
structure NodesPointed (topo : WaycaTopo) : Prop where
  pointer : ∀ k p, topo.slotAt k = some p → p < topo.nodeObjects.length
  created : ∀ k, k ∈ topo.nodeMap ↔ (topo.slotAt k).isSome ∧ k / 8 < cpuAllocSize topo.nCpus
  count : topo.nodeMap.card ≤ topo.nNodes
  members : ∀ node ∈ topo.nodeObjects, node.pMeminfo = none ∧
    ∀ cpu ∈ node.cpuMap, cpu < topo.nCpus ∧ cpu / 8 < topo.setsize
  unmarked : ∀ package ∈ topo.packages, package.numaMap = ∅

def KeepsPointed (outcome : Outcome (WaycaTopo × ℤ)) : Prop :=
  Ensures outcome (fun _ => False) fun result => NodesPointed result.1

theorem KeepsPointed.andThen {outcome : Outcome (WaycaTopo × ℤ)}
    {rest : WaycaTopo → Outcome (WaycaTopo × ℤ)} (hfirst : KeepsPointed outcome)
    (hrest : ∀ middle, NodesPointed middle → KeepsPointed (rest middle)) :
    KeepsPointed (andThen outcome rest) :=
  ensures_andThen hfirst hrest

namespace NodesPointed

section

variable (hpointed : NodesPointed topo)

include hpointed

theorem setCpu (cpu : ℕ) (value : WaycaCpu) :
    NodesPointed (topo.setCpu cpu value) :=
  ⟨hpointed.pointer, hpointed.created, hpointed.count, hpointed.members, hpointed.unmarked⟩

theorem modifyNode (p : ℕ) {change : WaycaNode → WaycaNode}
    (hchange : ∀ node, (change node).pMeminfo = node.pMeminfo ∧ ∀ cpu ∈ (change node).cpuMap,
      cpu ∈ node.cpuMap ∨ cpu < topo.nCpus ∧ cpu / 8 < topo.setsize) :
    NodesPointed (topo.modifyNode p change) := by
  refine ⟨?_, hpointed.created, hpointed.count, ?_, hpointed.unmarked⟩
  · intro k q hslot
    rw [WaycaTopo.modifyNode, List.length_modify]
    exact hpointed.pointer k q hslot
  · intro node hnode
    obtain ⟨j, hj⟩ := List.mem_iff_getElem?.mp hnode
    rw [WaycaTopo.modifyNode, List.getElem?_modify] at hj
    obtain ⟨before, hbefore, rfl⟩ := Option.map_eq_some_iff.mp hj
    obtain ⟨hunread, hmembers⟩ := hpointed.members before (List.mem_of_getElem? hbefore)
    obtain ⟨hmeminfo, hcpus⟩ := hchange before
    split
    next => exact ⟨hmeminfo.trans hunread, fun cpu hcpu => (hcpus cpu hcpu).elim (hmembers cpu) id⟩
    next => exact ⟨hunread, hmembers⟩

theorem modifyCpu (cpu : ℕ) (change : WaycaCpu → WaycaCpu) :
    Ensures (topo.modifyCpu cpu change) (fun _ => False) NodesPointed := by
  unfold WaycaTopo.modifyCpu
  cases topo.cpuAt cpu with
  | error failure => exact id
  | ok found => exact hpointed.setCpu cpu (change found)

theorem createNode (k : ℕ) :
    Ensures (createNode (topo.grown k) k) (fun _ => False) NodesPointed := by
  have hslots : (topo.grown k).slotAt = topo.slotAt := funext (slotAt_grown topo k)
  unfold WaycaScheduler.createNode
  split
  next =>
    refine ⟨?_, ?_, hpointed.count, hpointed.members, hpointed.unmarked⟩
    · rw [hslots]
      exact hpointed.pointer
    · rw [hslots]
      exact hpointed.created
  next hnew =>
    split
    next => exact id
    next slots hgrown =>
      split
      next hk =>
        have hset : ((topo.grown k).withNode k slots).slotAt = _ := slotAt_withNode hgrown hk
        rw [hslots] at hset
        change NodesPointed ((topo.grown k).withNode k slots)
        have hmap : ∀ j, j ∈ ((topo.grown k).withNode k slots).nodeMap ↔
            j ∈ topo.nodeMap ∨ j = k ∧ k / 8 < cpuAllocSize topo.nCpus := by
          intro j
          change j ∈ cpuSetS k (cpuAllocSize topo.nCpus) topo.nodeMap ↔ _
          unfold cpuSetS
          split
          next hfits => simp [hfits, or_comm]
          next hfits => simp [hfits]
        refine ⟨?_, ?_, ?_, ?_, hpointed.unmarked⟩
        · intro j p hj
          rw [hset, Function.update_apply] at hj
          change p < (topo.nodeObjects ++ [WaycaNode.fresh k]).length
          rw [List.length_append, List.length_singleton]
          split at hj
          next =>
            cases hj
            exact Nat.lt_succ_self _
          next => exact (hpointed.pointer j p hj).trans (Nat.lt_succ_self _)
        · intro j
          rw [hset, hmap, hpointed.created, Function.update_apply]
          change _ ↔ _ ∧ j / 8 < cpuAllocSize topo.nCpus
          split
          next hj => simp [hj]
          next hj => simp [hj]
        · change (cpuSetS k (cpuAllocSize topo.nCpus) topo.nodeMap).card ≤ topo.nNodes + 1
          have hcount := hpointed.count
          unfold cpuSetS
          split
          next => exact (card_insert_le _ _).trans (Nat.succ_le_succ hcount)
          next => omega
        · intro node hnode
          rcases List.mem_append.mp hnode with hold | hfresh
          · exact hpointed.members node hold
          · rw [List.mem_singleton.mp hfresh]
            exact ⟨rfl, fun cpu hcpu => absurd hcpu (notMem_empty cpu)⟩
      next => exact id

theorem addCpuToNode (hcpu : cpu < topo.nCpus) (k : ℕ) :
    Ensures (addCpuToNode topo k cpu) (fun _ => False) NodesPointed := by
  unfold WaycaScheduler.addCpuToNode
  cases topo.nodeSlot k with
  | error failure => exact id
  | ok slot =>
      cases slot with
      | none => exact id
      | some p =>
          apply NodesPointed.modifyCpu
          apply hpointed.modifyNode
          refine fun node => ⟨rfl, fun other hother => ?_⟩
          unfold cpuSetS at hother
          split at hother
          next hfits =>
            rcases mem_insert.mp hother with rfl | hold
            · exact .inr ⟨hcpu, hfits⟩
            · exact .inl hold
          next => exact .inl hother

theorem nodeInfo (hcpu : cpu < topo.nCpus) :
    KeepsPointed (nodeInfo sys cpu topo) := by
  unfold WaycaScheduler.nodeInfo
  split
  next => exact hpointed
  next =>
    split
    next => exact hpointed
    next k hnode =>
      cases hcreate : WaycaScheduler.createNode (topo.grown k) k with
      | error failure => exact id
      | ok created =>
          have hframe := (createNode_ensures topo).of_ok hcreate
          have hafter := (hpointed.createNode k).of_ok hcreate
          apply (hafter.addCpuToNode (hframe.1.nCpus ▸ hcpu) k).bind
          intro added hadded
          exact hadded

theorem details {most : ℕ} (hdetails : DetailsAdded most topo next) : NodesPointed next := by
  have hslot : next.slotAt = topo.slotAt := by
    unfold WaycaTopo.slotAt
    rw [hdetails.nodes]
  refine ⟨?_, ?_, ?_, ?_, ?_⟩
  · intro k p hp
    rw [hslot] at hp
    rw [← List.length_map WaycaNode.filled, hdetails.members, List.length_map]
    exact hpointed.pointer k p hp
  · rw [hdetails.nodeMap, hslot, hdetails.nCpus]
    exact hpointed.created
  · rw [hdetails.nodeMap, hdetails.nNodes]
    exact hpointed.count
  · intro node hnode
    obtain ⟨before, hbefore, hfilled⟩ :=
      List.mem_map.mp (hdetails.members ▸ List.mem_map_of_mem hnode)
    obtain ⟨hcpus, hmeminfo⟩ := Prod.mk.inj hfilled
    rw [hdetails.nCpus, hdetails.setsize, ← hcpus, ← hmeminfo]
    exact hpointed.members before hbefore
  · obtain ⟨added, hpackages, -, hclear⟩ := hdetails.packages
    intro package hpackage
    rw [hpackages] at hpackage
    exact (List.mem_append.mp hpackage).elim (hpointed.unmarked package) (hclear package)

end

theorem readCpu (hpointed : NodesPointed topo) (hcpu : cpu < topo.nCpus) :
    KeepsPointed (readCpu sys cpu topo) := by
  apply ((hpointed.setCpu cpu (WaycaCpu.fresh cpu)).nodeInfo hcpu).andThen
  intro afterNode hnode
  exact (cpuDetails_addsDetails afterNode).permit fun _ => hnode.details

theorem readCpus (hpointed : NodesPointed topo) (remaining i : ℕ) :
    KeepsPointed (readCpus sys remaining i topo) := by
  induction remaining generalizing i topo with
  | zero => exact hpointed
  | succ remaining ih =>
      unfold WaycaScheduler.readCpus
      split
      next hi =>
        apply (hpointed.readCpu hi).andThen
        intro middle hmiddle
        exact ih hmiddle (i + 1)
      next => exact hpointed

end NodesPointed

theorem nodesPointed_allocated (sys : Sysfs) : NodesPointed (allocated sys) := by
  have hslot : ∀ k, (allocated sys).slotAt k = none := by
    intro k
    rw [WaycaTopo.slotAt, allocated_nodes]
    rfl
  have htables : (allocated sys).nodeObjects = [] ∧ (allocated sys).packages = [] := by
    unfold allocated topoAllocNodeMap topoAllocCpu
    dsimp only
    split
    next => exact ⟨rfl, rfl⟩
    next =>
      split
      next => exact ⟨rfl, rfl⟩
      next => exact ⟨rfl, rfl⟩
  refine ⟨?_, ?_, Nat.zero_le _, ?_, ?_⟩
  · intro k p hp
    rw [hslot] at hp
    cases hp
  · intro k
    rw [hslot]
    exact iff_of_false (notMem_empty k) fun hboth => Bool.false_ne_true hboth.1
  · intro node hnode
    rw [htables.1] at hnode
    cases hnode
  · intro package hpackage
    rw [htables.2] at hpackage
    cases hpackage

/-- The node can be followed to and has its distances and its memory. -/
def NodeComplete (topo : WaycaTopo) (k : ℕ) : Prop :=
  ∃ node distance totalAvailKB, topo.nodeAt k = .ok node ∧ node.distance = some distance ∧
    distance.length = topo.nNodes ∧ node.pMeminfo = some totalAvailKB

def HasNode (topo : WaycaTopo) (k : ℕ) : Prop :=
  ∃ p node, topo.slotAt k = some p ∧ topo.nodeObjects[p]? = some node

theorem NodesPointed.hasNode (hpointed : NodesPointed topo) (hk : k ∈ topo.nodeMap) :
    HasNode topo k := by
  obtain ⟨p, hslot⟩ := Option.isSome_iff_exists.mp ((hpointed.created k).mp hk).1
  exact ⟨p, _, hslot, List.getElem?_eq_getElem (hpointed.pointer k p hslot)⟩

theorem KeepsTables.hasNode (hkeeps : KeepsTables topo next) (hnode : HasNode topo k) :
    HasNode next k := by
  obtain ⟨p, node, hslot, hobject⟩ := hnode
  have hlength : next.nodeObjects.length = topo.nodeObjects.length := by
    rw [← List.length_map WaycaNode.cpuPart, hkeeps.nodeObjects, List.length_map]
  have hp : p < next.nodeObjects.length := by
    rw [hlength]
    exact (List.getElem?_eq_some_iff.mp hobject).1
  exact ⟨p, _, by rw [hkeeps.slotAt, hslot], List.getElem?_eq_getElem hp⟩

def WaycaNode.withDirectory (distance : List ℤ) (totalAvailKB : ℕ) (node : WaycaNode) :
    WaycaNode :=
  { node with distance := some distance, pMeminfo := some totalAvailKB }

theorem modifyNode_modifyNode (topo : WaycaTopo) (p : ℕ) (first second : WaycaNode → WaycaNode) :
    (topo.modifyNode p first).modifyNode p second = topo.modifyNode p (second ∘ first) := by
  unfold WaycaTopo.modifyNode
  rw [List.modify_modify_eq]

/-- The directory of the node shows what the code asks of it: the online CPUs of
the node, a distance to every node, and its memory.  The list may be missing where
no CPU of the node is online. -/
structure DirectoryRead (sys : Sysfs) (topo : WaycaTopo) (k : ℕ) : Prop where
  cpulist : readCpulist (sys.node k).cpulist topo.kernelMaxCpus = none →
    cpuCountS topo.setsize (nodeOnline topo k) = 0
  online : cpuEqualS topo.setsize
    ((readCpulist (sys.node k).cpulist topo.kernelMaxCpus).getD sys.unreadList)
    (nodeOnline topo k) = true
  distance : ∃ distance, (sys.node k).distance = some distance ∧ topo.nNodes ≤ distance.length
  meminfo : (sys.node k).meminfo ≠ none

theorem KeepsTables.directoryRead (hkeeps : KeepsTables topo next) :
    DirectoryRead sys next k ↔ DirectoryRead sys topo k := by
  have honline : nodeOnline next k = nodeOnline topo k := by
    have hcpus : (next.node k).cpuMap = (topo.node k).cpuMap := congrArg (·.2.2.1) (hkeeps.node k)
    unfold nodeOnline
    rw [hkeeps.setsize, hkeeps.onlineCpuMap, hcpus]
  constructor
  · rintro ⟨hcpulist, hequal, hdistance, hmeminfo⟩
    rw [hkeeps.kernelMaxCpus, hkeeps.setsize, honline] at hcpulist hequal
    rw [hkeeps.nNodes] at hdistance
    exact ⟨hcpulist, hequal, hdistance, hmeminfo⟩
  · rintro ⟨hcpulist, hequal, hdistance, hmeminfo⟩
    rw [← hkeeps.kernelMaxCpus, ← hkeeps.setsize, ← honline] at hcpulist hequal
    rw [← hkeeps.nNodes] at hdistance
    exact ⟨hcpulist, hequal, hdistance, hmeminfo⟩

/-- The node gets what its directory shows, or an error is returned. -/
theorem readNodeTopology_returns {p : ℕ} {node : WaycaNode} (sys : Sysfs)
    (hslot : topo.slotAt k = some p) (hobject : topo.nodeObjects[p]? = some node) :
    ∃ next ret, topoReadNodeTopology sys topo k = .ok (next, ret) ∧
      (ret = 0 ↔ DirectoryRead sys topo k) ∧
      (ret = 0 → ∃ distance totalAvailKB, distance.length = topo.nNodes ∧
        next = topo.modifyNode p (WaycaNode.withDirectory distance totalAvailKB)) := by
  have honline : cpuAndS topo.setsize topo.onlineCpuMap node.cpuMap = nodeOnline topo k := by
    rw [nodeOnline, (nodeAt_eq hslot hobject).2]
  have hfails : ∀ (next : WaycaTopo) (ret : ℤ), ret ≠ 0 → ¬ DirectoryRead sys topo k →
      ∃ after final, (.ok (next, ret) : Outcome (WaycaTopo × ℤ)) = .ok (after, final) ∧
        (final = 0 ↔ DirectoryRead sys topo k) ∧
        (final = 0 → ∃ distance totalAvailKB, distance.length = topo.nNodes ∧
          after = topo.modifyNode p (WaycaNode.withDirectory distance totalAvailKB)) :=
    fun next ret hret hread =>
      ⟨next, ret, rfl, iff_of_false hret hread, fun hzero => absurd hzero hret⟩
  unfold topoReadNodeTopology
  rw [nodeSlot_of_slotAt hslot]
  simp only [deref, bind, Except.bind, hobject, honline]
  split
  next hmissing =>
    exact hfails _ _ (by decide) fun hread => hmissing.2 (hread.cpulist hmissing.1)
  next hlist =>
    split
    next hunequal =>
      refine hfails _ _ (by decide) fun hread => ?_
      rw [hread.online] at hunequal
      cases hunequal
    next hequal =>
      split
      next hnone =>
        refine hfails _ _ (by decide) fun hread => ?_
        obtain ⟨distance, hdistance, hlength⟩ := hread.distance
        rw [hdistance, Option.filter_eq_none_iff] at hnone
        exact hnone distance rfl (decide_eq_true hlength)
      next distance hdistance =>
        obtain ⟨hshown, henough⟩ := Option.filter_eq_some_iff.mp hdistance
        have hlength := of_decide_eq_true henough
        split
        next hnone => exact hfails _ _ (by decide) fun hread => hread.meminfo hnone
        next totalAvailKB hmeminfo =>
          refine ⟨_, _, rfl, iff_of_true rfl ?_,
            fun _ => ⟨distance.take topo.nNodes, totalAvailKB, ?_, ?_⟩⟩
          · refine ⟨fun hnone => not_not.mp fun hsome => hlist ⟨hnone, hsome⟩, ?_,
              ⟨distance, hshown, hlength⟩, hmeminfo ▸ Option.some_ne_none _⟩
            simpa using hequal
          · rw [List.length_take]
            exact min_eq_left hlength
          · exact modifyNode_modifyNode topo p _ _

theorem nodeAt_modifyNode {q : ℕ} {node : WaycaNode} (hslot : topo.slotAt k = some q)
    (hobject : topo.nodeObjects[q]? = some node) (p : ℕ) (change : WaycaNode → WaycaNode) :
    (topo.modifyNode p change).nodeAt k = .ok (if p = q then change node else node) := by
  have hmodified : (topo.modifyNode p change).nodeObjects[q]? =
      some (if p = q then change node else node) := by
    rw [WaycaTopo.modifyNode, List.getElem?_modify, hobject]
    rfl
  have hsame : (topo.modifyNode p change).slotAt k = some q := hslot
  exact (nodeAt_eq hsame hmodified).1

theorem nodeComplete_modifyNode {p : ℕ} {distance : List ℤ} {totalAvailKB : ℕ}
    (hlength : distance.length = topo.nNodes)
    (hcomplete : NodeComplete topo k ∨ topo.slotAt k = some p ∧ HasNode topo k) :
    NodeComplete (topo.modifyNode p (WaycaNode.withDirectory distance totalAvailKB)) k := by
  rcases hcomplete with ⟨node, old, oldKB, hnode, hdistance, holdLength, hmeminfo⟩ |
    ⟨hslot, q, node, hq, hobject⟩
  · obtain ⟨q, hslot, hobject⟩ := Option.bind_eq_some_iff.mp (nodeAt_success hnode)
    have hat := nodeAt_modifyNode hslot hobject p (WaycaNode.withDirectory distance totalAvailKB)
    by_cases hp : p = q
    · rw [if_pos hp] at hat
      exact ⟨_, distance, totalAvailKB, hat, rfl, hlength, rfl⟩
    · rw [if_neg hp] at hat
      exact ⟨_, old, oldKB, hat, hdistance, holdLength, hmeminfo⟩
  · rw [hslot] at hq
    cases hq
    have hat := nodeAt_modifyNode hslot hobject p (WaycaNode.withDirectory distance totalAvailKB)
    rw [if_pos rfl] at hat
    exact ⟨_, distance, totalAvailKB, hat, rfl, hlength, rfl⟩

/-- Over nodes that exist the loop returns, with zero if all directories are read. -/
theorem constructNumaLoop_returns (sys : Sysfs) (setsize : ℕ) {numbers : List ℕ}
    (hnodes : ∀ k ∈ numbers, HasNode topo k) :
    ∃ next ret, constructNumaLoop sys setsize numbers topo = .ok (next, ret) ∧
      (ret = 0 ↔ ∀ k ∈ numbers, DirectoryRead sys topo k) ∧
      (ret = 0 → ∀ k, NodeComplete topo k ∨ k ∈ numbers → NodeComplete next k) := by
  induction numbers generalizing topo with
  | nil =>
      exact ⟨topo, 0, rfl, iff_of_true rfl fun k hk => absurd hk List.not_mem_nil,
        fun _ k hk => hk.resolve_right List.not_mem_nil⟩
  | cons i rest ih =>
      obtain ⟨p, node, hslot, hobject⟩ := hnodes i List.mem_cons_self
      obtain ⟨middle, ret, hread, hdirectory, hmiddle⟩ := readNodeTopology_returns sys hslot hobject
      unfold constructNumaLoop
      rw [hread]
      by_cases hret : ret = 0
      · subst hret
        obtain ⟨distance, totalAvailKB, hlength, hnext⟩ := hmiddle rfl
        have hkeeps : KeepsTables topo middle := by
          rw [hnext]
          exact keepsTables_modifyNode topo p fun _ => rfl
        have hcompleted : ∀ k, NodeComplete topo k ∨ k = i → NodeComplete middle k := by
          intro k hk
          rw [hnext]
          apply nodeComplete_modifyNode hlength
          rcases hk with hold | rfl
          · exact .inl hold
          · exact .inr ⟨hslot, p, node, hslot, hobject⟩
        have hlater : ∀ after, KeepsTables middle after →
            (∀ k, NodeComplete middle k → NodeComplete after k) →
            ∃ next ret, constructNumaLoop sys setsize rest after = .ok (next, ret) ∧
              (ret = 0 ↔ ∀ k ∈ i :: rest, DirectoryRead sys topo k) ∧
              (ret = 0 → ∀ k, NodeComplete topo k ∨ k ∈ i :: rest → NodeComplete next k) := by
          intro after hafter hsame
          have hall := hkeeps.trans hafter
          obtain ⟨next, ret, hloop, hread, hdone⟩ :=
            ih fun k hk => hall.hasNode (hnodes k (List.mem_cons_of_mem i hk))
          refine ⟨next, ret, hloop, ?_, ?_⟩
          · rw [hread, List.forall_mem_cons, and_iff_right (hdirectory.mp rfl)]
            exact forall₂_congr fun k _ => hall.directoryRead
          · intro hret k hk
            apply hdone hret
            rcases hk with hold | hmem
            · exact .inl (hsame k (hcompleted k (.inl hold)))
            · exact (List.mem_cons.mp hmem).imp (fun hi => hsame k (hcompleted k (.inr hi))) id
        obtain ⟨completed, -, -, hat, -, -, -⟩ := hcompleted i (.inr rfl)
        rw [andThen_ok]
        simp only [hat, bind, Except.bind]
        split
        next => exact hlater middle (.refl middle) fun _ hcomplete => hcomplete
        next =>
          exact hlater _ (keepsTables_packages middle (markPackage_cpuPart setsize i _))
            fun _ hcomplete => hcomplete
      · refine ⟨middle, ret, ?_, iff_of_false hret fun hall => ?_, fun hzero => absurd hzero hret⟩
        · simp [andThen, bind, Except.bind, hret]
        · exact hret (hdirectory.mpr (hall i List.mem_cons_self))

theorem constructNumaLoop_append (setsize : ℕ) (first second : List ℕ) (topo : WaycaTopo) :
    constructNumaLoop sys setsize (first ++ second) topo =
      andThen (constructNumaLoop sys setsize first topo)
        (constructNumaLoop sys setsize second) := by
  induction first generalizing topo with
  | nil => rw [constructNumaLoop, andThen_ok, List.nil_append]
  | cons i rest ih =>
      rw [List.cons_append, constructNumaLoop, constructNumaLoop]
      cases topoReadNodeTopology sys topo i with
      | error failure => rfl
      | ok result =>
          obtain ⟨middle, ret⟩ := result
          by_cases hret : ret = 0
          · subst hret
            rw [andThen_ok, andThen_ok]
            cases middle.nodeAt i with
            | error failure => rfl
            | ok node =>
                simp only [bind, Except.bind]
                split
                next => exact ih middle
                next => exact ih _
          · simp [andThen, bind, Except.bind, hret]

theorem readNodeTopology_present {result : WaycaTopo × ℤ}
    (hread : topoReadNodeTopology sys topo k = .ok result) : (topo.slotAt k).isSome := by
  obtain ⟨slot, hslot, hread⟩ := bind_eq_ok.mp hread
  obtain ⟨p, hp, -⟩ := bind_eq_ok.mp hread
  have hpointer := (deref_ensures slot).of_ok hp
  unfold WaycaTopo.nodeSlot at hslot
  split at hslot
  next found hfound =>
    cases hslot
    rw [WaycaTopo.slotAt, hfound, hpointer]
    rfl
  next => cases hslot

theorem readCpulist_fits {list : Option (Finset ℕ)} {maxcpus : ℕ} {read : Finset ℕ}
    (hread : readCpulist list maxcpus = some read) :
    ∀ value ∈ read, value / 8 < cpuAllocSize maxcpus := by
  obtain ⟨shown, -, rfl⟩ := Option.map_eq_some_iff.mp hread
  intro value hvalue
  exact (mem_filter.mp hvalue).2

theorem NodesPointed.fits (hpointed : NodesPointed topo) :
    ∀ k ∈ topo.nodeMap, k / 8 < cpuAllocSize topo.nCpus :=
  fun k hk => ((hpointed.created k).mp hk).2

theorem NodesPointed.constructNuma_eq (hpointed : NodesPointed topo) {listed : Finset ℕ}
    (hread : readCpulist sys.nodePossible topo.nCpus = some listed) :
    topoConstructNumaTopology sys topo =
      if listed = topo.nodeMap ∧ listed.card = topo.nNodes then
        constructNumaLoop sys (cpuAllocSize topo.nCpus) (List.range topo.nNodes) topo
      else .ok (topo, 0) := by
  have hequal : cpuEqualS (cpuAllocSize topo.nCpus) listed topo.nodeMap =
      decide (listed = topo.nodeMap) := by
    rw [cpuEqualS, cpuSeen_of_fits (readCpulist_fits hread), cpuSeen_of_fits hpointed.fits]
  have hcount : cpuCountS (cpuAllocSize topo.nCpus) listed = listed.card := by
    rw [cpuCountS, cpuSeen_of_fits (readCpulist_fits hread)]
  unfold topoConstructNumaTopology
  simp only [hread, hequal, hcount]
  by_cases hmatch : listed = topo.nodeMap ∧ listed.card = topo.nNodes
  · rw [if_pos hmatch, if_neg]
    simp [hmatch.1, ← hmatch.2]
  · rw [if_neg hmatch, if_pos]
    rwa [not_and_or, ← decide_eq_false_iff_not, ← Bool.not_eq_true'] at hmatch

def onlineCpusOf (topo : WaycaTopo) (k : ℕ) : Finset ℕ :=
  topo.onlineCpuMap ∩ (topo.node k).cpuMap

theorem NodesPointed.holdsNode_iff (hpointed : NodesPointed topo) (hk : k ∈ topo.nodeMap)
    (package : WaycaPackage) :
    HoldsNode (cpuAllocSize topo.nCpus) topo package k ↔
      (onlineCpusOf topo k).Nonempty ∧ onlineCpusOf topo k ⊆ package.cpuMap := by
  obtain ⟨p, node, hslot, hobject⟩ := hpointed.hasNode hk
  have hmembers := (hpointed.members node (List.mem_of_getElem? hobject)).2
  rw [← (nodeAt_eq hslot hobject).2] at hmembers
  have hfits : ∀ cpu ∈ onlineCpusOf topo k, cpu / 8 < cpuAllocSize topo.nCpus :=
    fun cpu hcpu => lt_cpuAllocSize (hmembers cpu (mem_inter.mp hcpu).2).1
  have honline : nodeOnline topo k = onlineCpusOf topo k :=
    cpuSeen_of_fits fun cpu hcpu => (hmembers cpu (mem_inter.mp hcpu).2).2
  have hseen : cpuSeen topo.setsize (onlineCpusOf topo k) = onlineCpusOf topo k := honline
  have hinside : cpuSeen (cpuAllocSize topo.nCpus) (package.cpuMap ∩ onlineCpusOf topo k) =
      package.cpuMap ∩ onlineCpusOf topo k :=
    cpuSeen_of_fits fun cpu hcpu => hfits cpu (mem_inter.mp hcpu).2
  unfold HoldsNode cpuCountS cpuAndS cpuEqualS
  rw [honline, hseen, hinside, hinside, cpuSeen_of_fits hfits, decide_eq_true_iff,
    card_ne_zero, inter_eq_right]

/-- Every node and every package has what the queries ask of it. -/
structure NumaComplete (topo : WaycaTopo) : Prop where
  nodes : ∀ k ∈ topo.nodeMap, NodeComplete topo k
  memSize : ∀ nodeId : ℤ, topoIsValidNode topo nodeId = true → ∀ before, ∃ size,
    waycaScGetNodeMemSize topo nodeId (some before) = .ok (0, some size)
  packages : ∀ package ∈ topo.packages, ∀ k, k ∈ package.numaMap ↔
    k ∈ topo.nodeMap ∧ (onlineCpusOf topo k).Nonempty ∧ onlineCpusOf topo k ⊆ package.cpuMap

theorem NodeComplete.memSize {nodeId : ℤ} (hvalid : topoIsValidNode topo nodeId = true)
    (hcomplete : NodeComplete topo nodeId.toNat) (before : ℕ) :
    ∃ size, waycaScGetNodeMemSize topo nodeId (some before) = .ok (0, some size) := by
  obtain ⟨node, -, totalAvailKB, hat, -, -, hmeminfo⟩ := hcomplete
  refine ⟨totalAvailKB, ?_⟩
  unfold waycaScGetNodeMemSize
  simp only [hvalid, Bool.not_true, Bool.false_eq_true, if_false, hat, bind, Except.bind, deref,
    hmeminfo]

theorem NodesPointed.numaComplete (hpointed : NodesPointed topo)
    (hdense : topo.nodeMap = range topo.nNodes)
    (hloop : constructNumaLoop sys (cpuAllocSize topo.nCpus) (List.range topo.nNodes) topo =
      .ok (next, 0))
    (hnodes : ∀ k ∈ topo.nodeMap, NodeComplete next k) : NumaComplete next := by
  obtain ⟨hkeeps, hmarked⟩ := constructNumaLoop_success hloop
  have honline : ∀ k, onlineCpusOf next k = onlineCpusOf topo k := by
    intro k
    have hcpus : (next.node k).cpuMap = (topo.node k).cpuMap :=
      congrArg (·.2.2.1) (hkeeps.toKeepsTables.node k)
    rw [onlineCpusOf, onlineCpusOf, hkeeps.onlineCpuMap, hcpus]
  have hfits : ∀ k ∈ List.range topo.nNodes, k / 8 < cpuAllocSize topo.nCpus := by
    intro k hk
    apply hpointed.fits
    rw [hdense]
    exact mem_range.mpr (List.mem_range.mp hk)
  refine ⟨?_, ?_, ?_⟩
  · intro k hk
    rw [hkeeps.nodeMap] at hk
    exact hnodes k hk
  · intro nodeId hvalid before
    apply NodeComplete.memSize hvalid
    apply hnodes
    obtain ⟨hpos, hlt⟩ := of_decide_eq_true hvalid
    rw [hkeeps.nNodes] at hlt
    rw [hdense]
    exact mem_range.mpr (by omega)
  · intro package hpackage k
    rw [hmarked] at hpackage
    obtain ⟨before, hbefore, rfl⟩ := List.mem_map.mp hpackage
    have hcpus : ((List.range topo.nNodes).foldl (markNode (cpuAllocSize topo.nCpus) topo)
        before).cpuMap = before.cpuMap :=
      congrArg (·.2.2) (foldl_markNode_cpuPart _ topo _ before)
    rw [mem_marked hfits, hpointed.unmarked before hbefore, hcpus, honline, hkeeps.nodeMap]
    constructor
    · rintro (hempty | ⟨hk, hholds⟩)
      · exact absurd hempty (notMem_empty k)
      · have hmem : k ∈ topo.nodeMap := by
          rw [hdense]
          exact mem_range.mpr (List.mem_range.mp hk)
        exact ⟨hmem, (hpointed.holdsNode_iff hmem before).mp hholds⟩
    · rintro ⟨hmem, hholds⟩
      have hk : k ∈ List.range topo.nNodes := by
        rw [hdense] at hmem
        exact List.mem_range.mpr (mem_range.mp hmem)
      exact .inr ⟨hk, (hpointed.holdsNode_iff hmem before).mpr hholds⟩

theorem NodesPointed.constructNuma_dense (hpointed : NodesPointed topo)
    (hread : readCpulist sys.nodePossible topo.nCpus = some topo.nodeMap)
    (hdense : topo.nodeMap = range topo.nNodes) :
    ∃ next ret, topoConstructNumaTopology sys topo = .ok (next, ret) ∧
      (ret = 0 ↔ ∀ k ∈ topo.nodeMap, DirectoryRead sys topo k) ∧
      (ret = 0 → NumaComplete next) := by
  have hmem : ∀ k, k ∈ List.range topo.nNodes ↔ k ∈ topo.nodeMap := by
    intro k
    rw [hdense, List.mem_range, mem_range]
  have hcount : topo.nodeMap.card = topo.nNodes := by rw [hdense, card_range]
  obtain ⟨next, ret, hloop, hdirectories, hnodes⟩ := constructNumaLoop_returns sys
    (cpuAllocSize topo.nCpus) fun k hk => hpointed.hasNode ((hmem k).mp hk)
  rw [hpointed.constructNuma_eq hread, if_pos ⟨rfl, hcount⟩]
  refine ⟨next, ret, hloop, ?_, ?_⟩
  · rw [hdirectories]
    exact forall_congr' fun k => imp_congr_left (hmem k)
  · rintro rfl
    exact hpointed.numaComplete hdense hloop fun k hk => hnodes rfl k (.inr ((hmem k).mpr hk))

/-! ## Complete or an error -/

/-- Where `node/possible` can be read, there is no node, or it lists the nodes of
the CPUs as the code counts them, and these are the numbers from zero on or a
directory in front of the first gap does not show what is asked of it. -/
def NodesConstructed (sys : Sysfs) (topo : WaycaTopo) : Prop :=
  ∀ listed, readCpulist sys.nodePossible topo.nCpus = some listed → topo.nNodes = 0 ∨
    (listed = topo.nodeMap ∧ listed.card = topo.nNodes) ∧
      (topo.nodeMap = range topo.nNodes ∨
        ∃ k < topo.nNodes, (∀ j ≤ k, j ∈ topo.nodeMap) ∧ ¬ DirectoryRead sys topo k)

/-- The call returns, and with zero the topology is complete. -/
def CompleteOrError (outcome : Outcome (WaycaTopo × ℤ)) : Prop :=
  ∃ next ret, outcome = .ok (next, ret) ∧ (ret = 0 → NumaComplete next)

section Exact

variable (hpointed : NodesPointed topo)

include hpointed

/-- Before the directories are read no node has its memory, so the topology is
complete only if there is no node. -/
theorem NodesPointed.complete_iff : NumaComplete topo ↔ topo.nNodes = 0 := by
  constructor
  · intro hcomplete
    by_contra hnodes
    have hvalid : topoIsValidNode topo 0 = true := decide_eq_true (by omega)
    obtain ⟨size, hsize⟩ := hcomplete.memSize 0 hvalid 0
    unfold waycaScGetNodeMemSize at hsize
    simp only [hvalid, Bool.not_true, Bool.false_eq_true, if_false] at hsize
    obtain ⟨node, hnode, hsize⟩ := bind_eq_ok.mp hsize
    obtain ⟨p, -, hobject⟩ := Option.bind_eq_some_iff.mp (nodeAt_success hnode)
    rw [(hpointed.members node (List.mem_of_getElem? hobject)).1] at hsize
    cases hsize
  · intro hnone
    have hcount := hpointed.count
    have hempty : topo.nodeMap = ∅ := card_eq_zero.mp (by omega)
    refine ⟨?_, ?_, ?_⟩
    · rw [hempty]
      exact fun k hk => absurd hk (notMem_empty k)
    · intro nodeId hvalid
      have hrange := of_decide_eq_true hvalid
      omega
    · intro package hpackage k
      rw [hpointed.unmarked package hpackage, hempty]
      exact iff_of_false (notMem_empty k) fun hboth => notMem_empty k hboth.1

theorem NodesPointed.exists_gap (hcount : topo.nodeMap.card = topo.nNodes)
    (hgap : topo.nodeMap ≠ range topo.nNodes) :
    ∃ gap < topo.nNodes, topo.slotAt gap = none ∧ ∀ k < gap, k ∈ topo.nodeMap := by
  have hmissing : ∃ k, k < topo.nNodes ∧ k ∉ topo.nodeMap := by
    by_contra hall
    push Not at hall
    apply hgap
    symm
    apply eq_of_subset_of_card_le
    · exact fun k hk => hall k (mem_range.mp hk)
    · rw [card_range, hcount]
  classical
  obtain ⟨hlt, hout⟩ := Nat.find_spec hmissing
  refine ⟨Nat.find hmissing, hlt, ?_, ?_⟩
  · -- the nodes of the map fit, so there is room for as many numbers
    have hroom : topo.nodeMap ⊆ range (8 * cpuAllocSize topo.nCpus) := by
      intro k hk
      have := hpointed.fits k hk
      exact mem_range.mpr (by omega)
    have hcard := card_le_card hroom
    rw [card_range, hcount] at hcard
    rw [hpointed.created, not_and'] at hout
    exact Option.not_isSome_iff_eq_none.mp (hout (by omega))
  · intro k hk
    by_contra hnot
    exact Nat.find_min hmissing hk ⟨hk.trans hlt, hnot⟩

theorem NodesPointed.loop_with_gap (hcount : topo.nodeMap.card = topo.nNodes)
    (hgap : topo.nodeMap ≠ range topo.nNodes) (setsize : ℕ) :
    CompleteOrError (constructNumaLoop sys setsize (List.range topo.nNodes) topo) ↔
      ∃ k < topo.nNodes, (∀ j ≤ k, j ∈ topo.nodeMap) ∧ ¬ DirectoryRead sys topo k := by
  obtain ⟨gap, hlt, habsent, hbefore⟩ := hpointed.exists_gap hcount hgap
  obtain ⟨rest, hrest⟩ : ∃ rest, List.range topo.nNodes = List.range gap ++ gap :: rest := by
    obtain ⟨more, hmore⟩ := Nat.exists_eq_add_of_lt hlt
    rw [hmore, Nat.add_assoc, List.range_add, List.range_succ_eq_map, List.map_cons]
    exact ⟨_, rfl⟩
  obtain ⟨middle, ret, hloop, hret, -⟩ := constructNumaLoop_returns sys setsize fun k hk =>
    hpointed.hasNode (hbefore k (List.mem_range.mp hk))
  rw [hrest, constructNumaLoop_append, hloop]
  by_cases hzero : ret = 0
  · subst hzero
    apply iff_of_false
    · -- the gap is reached, and its element is a null pointer
      rintro ⟨next, ret, houtcome, -⟩
      rw [andThen_ok, constructNumaLoop] at houtcome
      obtain ⟨result, hresult, -⟩ := bind_eq_ok.mp houtcome
      have hpresent := readNodeTopology_present hresult
      rw [(constructNumaLoop_success hloop).1.slotAt, habsent] at hpresent
      cases hpresent
    · rintro ⟨k, -, hmem, hunread⟩
      apply hunread
      apply hret.mp rfl
      rw [List.mem_range]
      by_contra hge
      have hcreated := (hpointed.created gap).mp (hmem gap (not_lt.mp hge))
      rw [habsent] at hcreated
      exact Bool.false_ne_true hcreated.1
  · apply iff_of_true
    · refine ⟨middle, ret, ?_, fun hnone => absurd hnone hzero⟩
      simp [andThen, bind, Except.bind, hzero]
    · rw [hret] at hzero
      push Not at hzero
      obtain ⟨k, hk, hunread⟩ := hzero
      have hk := List.mem_range.mp hk
      exact ⟨k, hk.trans hlt, fun j hj => hbefore j (hj.trans_lt hk), hunread⟩

theorem NodesPointed.completeOrError_iff :
    CompleteOrError (topoConstructNumaTopology sys topo) ↔ NodesConstructed sys topo := by
  unfold NodesConstructed
  cases hread : readCpulist sys.nodePossible topo.nCpus with
  | none =>
      unfold topoConstructNumaTopology
      rw [hread]
      exact iff_of_true ⟨topo, -ENOENT, rfl, fun hret => absurd hret (by decide)⟩ nofun
  | some listed =>
      simp only [Option.some.injEq, forall_eq']
      by_cases hmatch : listed = topo.nodeMap ∧ listed.card = topo.nNodes
      · have hcount : topo.nodeMap.card = topo.nNodes := hmatch.1 ▸ hmatch.2
        rw [and_iff_right hmatch]
        by_cases hdense : topo.nodeMap = range topo.nNodes
        · apply iff_of_true _ (.inr (.inl hdense))
          obtain ⟨next, ret, hnuma, -, hcomplete⟩ :=
            hpointed.constructNuma_dense (hmatch.1 ▸ hread) hdense
          exact ⟨next, ret, hnuma, hcomplete⟩
        · have hsome : topo.nNodes ≠ 0 := by
            intro hnone
            rw [hnone, card_eq_zero] at hcount
            exact hdense (by rw [hcount, hnone, range_zero])
          rw [hpointed.constructNuma_eq hread, if_pos hmatch, hpointed.loop_with_gap hcount hdense,
            or_iff_right hsome, or_iff_right hdense]
      · rw [hpointed.constructNuma_eq hread, if_neg hmatch, ← hpointed.complete_iff,
          or_iff_left fun hboth => hmatch hboth.1]
        constructor
        · rintro ⟨next, ret, houtcome, hcomplete⟩
          cases houtcome
          exact hcomplete rfl
        · exact fun hcomplete => ⟨topo, 0, rfl, fun _ => hcomplete⟩

end Exact

/-- The nodes are complete or an error is returned, exactly where the nodes are
listed as the code counts them and numbered from zero on, or reading stops with an
error in front of the first gap. -/
theorem numa_complete_or_error
    {depth : ℕ} {state read : TopoState} (hallocates : (topoAllocCpu sys .zeroed).2 = 0)
    (hreads : topoConstructCpuTopology sys (recreation sys depth)
      (state.withTopo (allocated sys)) = .ok (read, 0)) :
    CompleteOrError (topoConstructNumaTopology sys read.topo) ↔
      NodesConstructed sys read.topo := by
  have hagrees := constructCpu_agrees hallocates hreads
  have hread := (constructCpuLoop_success (indexMatches_allocated sys state)
    (fun cpu _ hcpu => hagrees.at (by rwa [Nat.zero_add] at hcpu)) hreads).1
  have hpointed : NodesPointed read.topo :=
    ((nodesPointed_allocated sys).readCpus _ 0).of_ok hread
  exact hpointed.completeOrError_iff

/-- Two nodes with one CPU each. -/
theorem numa_complete_or_error_two_nodes :
    ∃ read next, topoConstructCpuTopology (smallSysfs [0, 1]) (recreation (smallSysfs [0, 1]) 0)
        (TopoState.start.withTopo (allocated (smallSysfs [0, 1]))) = .ok (read, 0) ∧
      NodesConstructed (smallSysfs [0, 1]) read.topo ∧
      topoConstructNumaTopology (smallSysfs [0, 1]) read.topo = .ok (next, 0) ∧
      NumaComplete next := by
  have hrun : ∃ result ∈ (topoConstructCpuTopology (smallSysfs [0, 1])
      (recreation (smallSysfs [0, 1]) 0)
      (TopoState.start.withTopo (allocated (smallSysfs [0, 1])))).toOption,
      result.2 = 0 ∧
      readCpulist (smallSysfs [0, 1]).nodePossible result.1.topo.nCpus =
        some result.1.topo.nodeMap ∧
      result.1.topo.nodeMap = range result.1.topo.nNodes ∧
      (topoConstructNumaTopology (smallSysfs [0, 1]) result.1.topo).toOption.map Prod.snd =
        some 0 := by
    decide +kernel
  obtain ⟨⟨read, ret⟩, hread, rfl, hpossible, hdense, hnuma⟩ := hrun
  have hconstructed : NodesConstructed (smallSysfs [0, 1]) read.topo := by
    intro listed hlisted
    rw [hpossible] at hlisted
    cases hlisted
    exact .inr ⟨⟨rfl, by rw [hdense, card_range]⟩, .inl hdense⟩
  obtain ⟨next, ret, hnext, hcomplete⟩ :=
    (numa_complete_or_error (by decide +kernel) (ok_of_toOption hread)).mpr hconstructed
  have hret : ret = 0 := by
    rw [hnext] at hnuma
    exact Option.some.inj hnuma
  subst hret
  exact ⟨read, next, ok_of_toOption hread, hconstructed, hnext, hcomplete rfl⟩

/-- One CPU on node 0, and a node 1 that has memory only. -/
def memoryNodeSysfs : Sysfs := { smallSysfs [0] with nodePossible := some {0, 1} }

/-- With a node without CPUs in `node/possible` zero is returned, and the memory
of the other node is looked for behind a null pointer. -/
theorem memory_node_leaves_nodes_incomplete :
    ∃ read next, topoConstructCpuTopology memoryNodeSysfs (recreation memoryNodeSysfs 0)
        (TopoState.start.withTopo (allocated memoryNodeSysfs)) = .ok (read, 0) ∧
      topoConstructNumaTopology memoryNodeSysfs read.topo = .ok (next, 0) ∧
      0 ∈ next.nodeMap ∧ topoIsValidNode next 0 = true ∧
      waycaScGetNodeMemSize next 0 (some 0) = .error .badPointer := by
  refine ⟨_, _, rfl, rfl, ?_, ?_, rfl⟩
  · decide +kernel
  · decide +kernel

end WaycaScheduler
