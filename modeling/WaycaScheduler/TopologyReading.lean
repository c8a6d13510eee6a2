import WaycaScheduler.Library.Fallible
import WaycaScheduler.Topology

/-!
# Reading the CPUs of a consistent snapshot

When `cpu<n>/online` agrees with the list of the online CPUs, the online check
answers from the list.  `readCpu` is then what is left of the reading of a CPU,
a step that grows the array of nodes by its own length.  The code grows the
array by a variable that outlives it, and both agree as long as the variable
stands at the last element and every node number is in reach.
-/

namespace WaycaScheduler

open Fallible

variable {final : TopoState} {k : ℕ} {slots : List (Option ℕ)}
variable {middle : WaycaTopo} {first second : ℕ}

variable {sys : Sysfs} {recreate : TopoState → Outcome TopoState} {state : TopoState}
  {topo next : WaycaTopo} {cpu : ℕ} {online : Bool}

/-! ## Steps one after another -/

section AndThen

variable {α : Type} {first : Outcome (α × ℤ)} {rest : α → Outcome (α × ℤ)}

theorem andThen_eq_success {final : α} :
    andThen first rest = .ok (final, 0) ↔
      ∃ middle, first = .ok (middle, 0) ∧ rest middle = .ok (final, 0) := by
  unfold andThen
  rw [bind_eq_ok]
  constructor
  · intro hboth
    obtain ⟨⟨middle, ret⟩, hfirst, hrest⟩ := hboth
    by_cases hret : ret = 0
    · subst hret
      exact ⟨middle, hfirst, hrest⟩
    · simp only [ne_eq, hret, not_false_eq_true, if_true] at hrest
      exact absurd (congrArg Prod.snd (Except.ok.inj hrest)) hret
  · intro hboth
    obtain ⟨middle, hfirst, hrest⟩ := hboth
    exact ⟨(middle, 0), hfirst, hrest⟩

theorem ensures_andThen {Excluded : Failure → Prop} {Post : α → Prop}
    (hfirst : Ensures first Excluded fun result => Post result.1)
    (hrest : ∀ middle, Post middle → Ensures (rest middle) Excluded fun result => Post result.1) :
    Ensures (andThen first rest) Excluded fun result => Post result.1 := by
  apply hfirst.bind
  intro result hpost
  dsimp only
  split
  next => exact hpost
  next => exact hrest result.1 hpost

end AndThen

theorem onTopo_eq_success {step : WaycaTopo → Outcome (WaycaTopo × ℤ)} :
    onTopo step state = .ok (final, 0) ↔
      ∃ topo, step state.topo = .ok (topo, 0) ∧ final = state.withTopo topo := by
  unfold onTopo
  rw [bind_eq_ok]
  constructor
  · intro hboth
    obtain ⟨⟨topo, ret⟩, hstep, hfinal⟩ := hboth
    cases hfinal
    exact ⟨topo, hstep, rfl⟩
  · intro hboth
    obtain ⟨topo, hstep, hfinal⟩ := hboth
    exact ⟨(topo, 0), hstep, by rw [hfinal]⟩

theorem onTopo_total {step : WaycaTopo → WaycaTopo × ℤ}
    (hsuccess : onTopo (fun topo => .ok (step topo)) state = .ok (final, 0)) :
    final = state.withTopo (step state.topo).1 := by
  obtain ⟨topo, hstep, hfinal⟩ := onTopo_eq_success.mp hsuccess
  rw [hfinal, Except.ok.inj hstep]

theorem andThen_onTopo {first : WaycaTopo → Outcome (WaycaTopo × ℤ)}
    (second : WaycaTopo → Outcome (WaycaTopo × ℤ))
    {rest : TopoState → Outcome (TopoState × ℤ)}
    (hrest : ∀ topo, first state.topo = .ok (topo, 0) →
      rest (state.withTopo topo) = onTopo second (state.withTopo topo)) :
    andThen (onTopo first state) rest = onTopo (fun topo => andThen (first topo) second) state := by
  unfold onTopo
  dsimp only
  cases hfirst : first state.topo with
  | error failure => rfl
  | ok result =>
      obtain ⟨topo, ret⟩ := result
      by_cases hret : ret = 0
      · subst hret
        exact hrest topo hfirst
      · simp [andThen, bind, Except.bind, hret]

def topoOf (outcome : Outcome (TopoState × ℤ)) : Outcome (WaycaTopo × ℤ) :=
  outcome.map fun result => (result.1.topo, result.2)

theorem topoOf_onTopo (step : WaycaTopo → Outcome (WaycaTopo × ℤ)) (state : TopoState) :
    topoOf (onTopo step state) = step state.topo := by
  unfold onTopo
  cases step state.topo with
  | error failure => rfl
  | ok result => rfl

theorem topoOf_andThen {first : Outcome (TopoState × ℤ)} {before : Outcome (WaycaTopo × ℤ)}
    {rest : TopoState → Outcome (TopoState × ℤ)} {after : WaycaTopo → Outcome (WaycaTopo × ℤ)}
    (hfirst : topoOf first = before)
    (hrest : ∀ middle, first = .ok (middle, 0) → topoOf (rest middle) = after middle.topo) :
    topoOf (andThen first rest) = andThen before after := by
  subst hfirst
  cases first with
  | error failure => rfl
  | ok result =>
      obtain ⟨middle, ret⟩ := result
      by_cases hret : ret = 0
      · subst hret
        exact hrest middle rfl
      · simp [andThen, topoOf, Except.map, bind, Except.bind, hret]

/-! ## The online check on a consistent snapshot -/

def WaycaTopo.isOnline (topo : WaycaTopo) (cpu : ℕ) : Bool :=
  decide (cpu = 0) || cpuIssetS cpu topo.setsize topo.onlineCpuMap

/-- The file of each CPU agrees with the list of the online CPUs. -/
def OnlineAgrees (sys : Sysfs) (topo : WaycaTopo) : Prop :=
  ∀ cpu, 0 < cpu → cpu < topo.nCpus →
    (sys.cpuAttribute cpu (·.online)).getD (sys.unreadOnline cpu) =
      if cpuIssetS cpu topo.setsize topo.onlineCpuMap then 1 else 0

def OnlineAgreesAt (sys : Sysfs) (topo : WaycaTopo) (cpu : ℕ) : Prop :=
  0 < cpu → (sys.cpuAttribute cpu (·.online)).getD (sys.unreadOnline cpu) =
    if cpuIssetS cpu topo.setsize topo.onlineCpuMap then 1 else 0

instance (sys : Sysfs) (topo : WaycaTopo) (cpu : ℕ) : Decidable (OnlineAgreesAt sys topo cpu) := by
  unfold OnlineAgreesAt
  infer_instance

theorem OnlineAgrees.at (hagrees : OnlineAgrees sys topo) (hcpu : cpu < topo.nCpus) :
    OnlineAgreesAt sys topo cpu :=
  fun hpos => hagrees cpu hpos hcpu

/-- An index that a query is given is valid if it is below the count. -/
theorem valid_iff {i count : ℕ} : decide (0 ≤ (i : ℤ) ∧ (i : ℤ) < count) = true ↔ i < count := by
  simp

theorem isCpuOnline_of_agrees
    (hagrees : OnlineAgreesAt sys state.topo cpu) (hcpu : cpu < state.topo.nCpus) :
    waycaScIsCpuOnline sys recreate state cpu = .ok (state.topo.isOnline cpu, state) := by
  have hvalid : topoIsValidCpu state.topo cpu = true := valid_iff.mpr hcpu
  unfold waycaScIsCpuOnline
  rw [hvalid, Bool.not_true, if_neg Bool.false_ne_true]
  rcases Nat.eq_zero_or_pos cpu with rfl | hpos
  · rfl
  · have hne : ¬ (cpu : ℤ) = 0 := by omega
    have hzero : decide (cpu = 0) = false := decide_eq_false (by omega)
    rw [if_neg hne]
    simp only [Int.toNat_natCast, hagrees hpos, if_true]
    rw [WaycaTopo.isOnline, hzero, Bool.false_or]

/-! ## Reading by the length of the array -/

def WaycaTopo.grown (topo : WaycaTopo) (k : ℕ) : WaycaTopo :=
  let slots := topo.nodes.getD []
  { topo with nodes := some (slots ++ List.replicate (k + 1 - slots.length) none) }

def nodeInfo (sys : Sysfs) (cpu : ℕ) (topo : WaycaTopo) : Outcome (WaycaTopo × ℤ) :=
  match sys.cpu cpu with
  | none => .ok (topo, -ENOENT)
  | some attributes =>
      match attributes.node with
      | none => .ok (topo, 0)
      | some k => do
          let topo ← createNode (topo.grown k) k
          let topo ← addCpuToNode topo k cpu
          .ok (topo, 0)

def cpuDetails (sys : Sysfs) (cpu : ℕ) (online : Bool) (topo : WaycaTopo) :
    Outcome (WaycaTopo × ℤ) :=
  andThen (coreInfo sys cpu online topo) fun topo =>
  andThen (topoParseCpuClusterInfo sys cpu topo) fun topo =>
  andThen (packageInfo sys cpu online topo) (cacheInfo sys cpu online)

/-- The reading of one CPU without a refresh. -/
def readCpu (sys : Sysfs) (cpu : ℕ) (topo : WaycaTopo) : Outcome (WaycaTopo × ℤ) :=
  andThen (nodeInfo sys cpu (topo.setCpu cpu (WaycaCpu.fresh cpu)))
    (cpuDetails sys cpu (topo.isOnline cpu))

def readCpus (sys : Sysfs) : ℕ → ℕ → WaycaTopo → Outcome (WaycaTopo × ℤ)
  | 0, _, topo => .ok (topo, 0)
  | remaining + 1, i, topo =>
      if i < topo.nCpus then andThen (readCpu sys i topo) (readCpus sys remaining (i + 1))
      else .ok (topo, 0)

/-- The construction with the array of the nodes grown by its own length. -/
def constructByLength (sys : Sysfs) : Outcome (WaycaTopo × ℤ) :=
  andThen (.ok (topoAllocCpu sys .zeroed)) fun topo =>
  andThen (.ok (topoAllocNodeMap topo)) fun topo =>
  andThen (readCpus sys topo.nCpus 0 topo) fun topo =>
  andThen (topoConstructNumaTopology sys topo) fun topo =>
  andThen (topoConstructCoreTopology topo) fun topo =>
  .ok (topo, if sys.ioDevices then 0 else -1)

/-! ## What the steps leave alone -/

structure SameFrame (topo next : WaycaTopo) : Prop where
  kernelMaxCpus : next.kernelMaxCpus = topo.kernelMaxCpus
  setsize : next.setsize = topo.setsize
  nCpus : next.nCpus = topo.nCpus
  cpuMap : next.cpuMap = topo.cpuMap
  onlineCpuMap : next.onlineCpuMap = topo.onlineCpuMap
  cores : next.cores = topo.cores

structure SameNodes (topo next : WaycaTopo) : Prop extends SameFrame topo next where
  nNodes : next.nNodes = topo.nNodes
  nodeMap : next.nodeMap = topo.nodeMap
  nodes : next.nodes = topo.nodes

theorem SameFrame.refl (topo : WaycaTopo) : SameFrame topo topo := ⟨rfl, rfl, rfl, rfl, rfl, rfl⟩

theorem SameFrame.trans (hfirst : SameFrame topo middle)
    (hsecond : SameFrame middle next) : SameFrame topo next :=
  ⟨hsecond.kernelMaxCpus.trans hfirst.kernelMaxCpus, hsecond.setsize.trans hfirst.setsize,
    hsecond.nCpus.trans hfirst.nCpus, hsecond.cpuMap.trans hfirst.cpuMap,
    hsecond.onlineCpuMap.trans hfirst.onlineCpuMap, hsecond.cores.trans hfirst.cores⟩

theorem SameNodes.refl (topo : WaycaTopo) : SameNodes topo topo := ⟨.refl topo, rfl, rfl, rfl⟩

theorem SameNodes.trans (hfirst : SameNodes topo middle)
    (hsecond : SameNodes middle next) : SameNodes topo next :=
  ⟨hfirst.toSameFrame.trans hsecond.toSameFrame, hsecond.nNodes.trans hfirst.nNodes,
    hsecond.nodeMap.trans hfirst.nodeMap, hsecond.nodes.trans hfirst.nodes⟩

theorem SameFrame.agrees (hsame : SameFrame topo next) (hagrees : OnlineAgrees sys topo) :
    OnlineAgrees sys next := by
  intro cpu hpos hcpu
  rw [hsame.setsize, hsame.onlineCpuMap]
  rw [hsame.nCpus] at hcpu
  exact hagrees cpu hpos hcpu

theorem SameFrame.agreesAt (hsame : SameFrame topo next) (hagrees : OnlineAgreesAt sys topo cpu) :
    OnlineAgreesAt sys next cpu := by
  unfold OnlineAgreesAt
  rw [hsame.setsize, hsame.onlineCpuMap]
  exact hagrees

theorem SameFrame.isOnline (hsame : SameFrame topo next) (cpu : ℕ) :
    next.isOnline cpu = topo.isOnline cpu := by
  unfold WaycaTopo.isOnline
  rw [hsame.setsize, hsame.onlineCpuMap]

theorem sameNodes_setCpu (topo : WaycaTopo) (cpu : ℕ) (value : WaycaCpu) :
    SameNodes topo (topo.setCpu cpu value) :=
  ⟨⟨rfl, rfl, rfl, rfl, rfl, rfl⟩, rfl, rfl, rfl⟩

theorem sameNodes_modifyNode (topo : WaycaTopo) (pointer : ℕ)
    (change : WaycaNode → WaycaNode) : SameNodes topo (topo.modifyNode pointer change) :=
  ⟨⟨rfl, rfl, rfl, rfl, rfl, rfl⟩, rfl, rfl, rfl⟩

def WaycaNode.filled (node : WaycaNode) : Finset ℕ × Option ℕ := (node.cpuMap, node.pMeminfo)

/-- What the details of a CPU bring: the nodes keep their CPUs and their memory, and
so many packages are new at most. -/
structure DetailsAdded (most : ℕ) (topo next : WaycaTopo) : Prop extends SameNodes topo next where
  members : next.nodeObjects.map WaycaNode.filled = topo.nodeObjects.map WaycaNode.filled
  packages : ∃ added, next.packages = topo.packages ++ added ∧ added.length ≤ most ∧
    ∀ package ∈ added, package.numaMap = ∅

theorem SameNodes.detailsAdded (hsame : SameNodes topo next)
    (hmembers : next.nodeObjects.map WaycaNode.filled = topo.nodeObjects.map WaycaNode.filled)
    (hpackages : next.packages = topo.packages) (most : ℕ) : DetailsAdded most topo next :=
  ⟨hsame, hmembers, [], hpackages.trans (List.append_nil _).symm, Nat.zero_le _,
    fun _ hpackage => absurd hpackage List.not_mem_nil⟩

theorem DetailsAdded.refl (most : ℕ) (topo : WaycaTopo) : DetailsAdded most topo topo :=
  (SameNodes.refl topo).detailsAdded rfl rfl most

theorem DetailsAdded.trans
    (hfirst : DetailsAdded first topo middle) (hsecond : DetailsAdded second middle next) :
    DetailsAdded (first + second) topo next := by
  obtain ⟨earlier, hearlier, hfew, hunmarked⟩ := hfirst.packages
  obtain ⟨later, hlater, hmore, hclear⟩ := hsecond.packages
  refine ⟨hfirst.toSameNodes.trans hsecond.toSameNodes, hsecond.members.trans hfirst.members,
    earlier ++ later, by rw [hlater, hearlier, List.append_assoc], ?_, ?_⟩
  · rw [List.length_append]
    omega
  · intro package hpackage
    exact (List.mem_append.mp hpackage).elim (hunmarked package) (hclear package)

def AddsDetails (most : ℕ) (topo : WaycaTopo) (outcome : Outcome (WaycaTopo × ℤ)) : Prop :=
  Ensures outcome (· = .nodesAccess) fun result => DetailsAdded most topo result.1

theorem AddsDetails.andThen {outcome : Outcome (WaycaTopo × ℤ)}
    {rest : WaycaTopo → Outcome (WaycaTopo × ℤ)} (hfirst : AddsDetails first topo outcome)
    (hrest : ∀ middle, AddsDetails second middle (rest middle)) :
    AddsDetails (first + second) topo (andThen outcome rest) := by
  apply Ensures.bind hfirst
  intro result hadded
  dsimp only
  split
  next => exact hadded.trans (.refl second result.1)
  next => exact (hrest result.1).mono fun _ hlater => hadded.trans hlater

theorem deref_ensures {α : Type} (pointer : Option α) :
    Ensures (deref pointer) (· = .nodesAccess) fun target => pointer = some target := by
  cases pointer with
  | none => exact nofun
  | some target => exact rfl

theorem cpuAt_ensures (topo : WaycaTopo) (cpu : ℕ) :
    Ensures (topo.cpuAt cpu) (· = .nodesAccess) fun found => topo.cpus cpu = some found := by
  unfold WaycaTopo.cpuAt
  split
  next =>
    split
    next found hfound => exact hfound
    next => exact nofun
  next => exact nofun

theorem modifyCpu_ensures (topo : WaycaTopo) (cpu : ℕ) (change : WaycaCpu → WaycaCpu) :
    Ensures (topo.modifyCpu cpu change) (· = .nodesAccess) (DetailsAdded 0 topo) :=
  (cpuAt_ensures topo cpu).bind fun found _ =>
    (sameNodes_setCpu topo cpu (change found)).detailsAdded rfl rfl 0

theorem modifyCpu_addsDetails (topo : WaycaTopo) (cpu : ℕ) (change : WaycaCpu → WaycaCpu)
    (ret : ℤ) : AddsDetails 0 topo (do .ok (← topo.modifyCpu cpu change, ret)) :=
  (modifyCpu_ensures topo cpu change).bind fun _ hadded => hadded

theorem coreInfo_addsDetails (topo : WaycaTopo) :
    AddsDetails 0 topo (coreInfo sys cpu online topo) := by
  unfold coreInfo
  split
  next => exact modifyCpu_addsDetails topo cpu _ 0
  next =>
    split
    next => exact DetailsAdded.refl 0 topo
    next coreId hcoreId =>
      apply (modifyCpu_ensures topo cpu _).bind
      intro middle hadded
      split
      next => exact hadded
      next list hlist =>
        exact (modifyCpu_addsDetails _ cpu _ 0).mono fun _ hlater => hadded.trans hlater

theorem map_modify_of_kept {α β : Type} {part : α → β} {change : α → α}
    (hchange : ∀ value, part (change value) = part value) (list : List α) (p : ℕ) :
    (list.modify p change).map part = list.map part := by
  apply List.ext_getElem?
  intro j
  rw [List.getElem?_map, List.getElem?_map, List.getElem?_modify]
  cases list[j]? with
  | none => rfl
  | some value =>
      simp only [Option.map_eq_map, Option.map_some]
      split
      next => rw [hchange]
      next => rfl

theorem createCcl_addsDetails (clusterId : ℤ) (topo : WaycaTopo) :
    AddsDetails 0 topo (createCcl sys cpu clusterId topo) := by
  unfold createCcl
  split
  next => exact ⟨⟨⟨rfl, rfl, rfl, rfl, rfl, rfl⟩, rfl, rfl, rfl⟩, rfl, [], by simp⟩
  next list hlist =>
    apply (cpuAt_ensures _ cpu).bind
    intro found hfound
    apply (deref_ensures found.pNumaNode).bind
    intro pointer hpointer
    refine ⟨⟨⟨rfl, rfl, rfl, rfl, rfl, rfl⟩, rfl, rfl, rfl⟩, ?_, [], by simp [WaycaTopo.modifyNode]⟩
    apply map_modify_of_kept
    exact fun _ => rfl

theorem clusterInfo_addsDetails (topo : WaycaTopo) :
    AddsDetails 0 topo (topoParseCpuClusterInfo sys cpu topo) := by
  unfold topoParseCpuClusterInfo
  split
  next => exact modifyCpu_addsDetails topo cpu _ 0
  next clusterId hcluster =>
    change AddsDetails (0 + 0) topo _
    refine AddsDetails.andThen ?_ fun middle => modifyCpu_addsDetails middle cpu _ 0
    split
    next => exact createCcl_addsDetails clusterId topo
    next => exact DetailsAdded.refl 0 topo

theorem createPackage_addsDetails (physicalPackageId : ℤ) (topo : WaycaTopo) :
    AddsDetails 1 topo (createPackage sys cpu physicalPackageId topo) := by
  have hone : ∀ package : WaycaPackage, package.numaMap = ∅ →
      DetailsAdded 1 topo { topo with packages := topo.packages ++ [package] } := by
    intro package hpackage
    refine ⟨⟨⟨rfl, rfl, rfl, rfl, rfl, rfl⟩, rfl, rfl, rfl⟩, rfl, [package], rfl, le_rfl, ?_⟩
    exact fun other hother => List.mem_singleton.mp hother ▸ hpackage
  unfold createPackage
  split
  next => exact hone _ rfl
  next => exact hone _ rfl

theorem packageInfo_addsDetails (topo : WaycaTopo) :
    AddsDetails 1 topo (packageInfo sys cpu online topo) := by
  have hless : ∀ {outcome}, AddsDetails 0 topo outcome → AddsDetails 1 topo outcome :=
    fun hzero => hzero.mono fun result hadded => hadded.trans (.refl 1 result.1)
  unfold packageInfo
  split
  next => exact hless (modifyCpu_addsDetails topo cpu _ 0)
  next =>
    split
    next => exact DetailsAdded.refl 1 topo
    next physicalPackageId hpackage =>
      change AddsDetails (1 + 0) topo _
      refine AddsDetails.andThen ?_ fun middle => modifyCpu_addsDetails middle cpu _ 0
      split
      next => exact createPackage_addsDetails physicalPackageId topo
      next => exact DetailsAdded.refl 1 topo

theorem cpuDetails_addsDetails (topo : WaycaTopo) :
    AddsDetails 1 topo (cpuDetails sys cpu online topo) := by
  change AddsDetails (0 + (0 + (1 + 0))) topo _
  apply (coreInfo_addsDetails topo).andThen
  intro afterCore
  apply (clusterInfo_addsDetails afterCore).andThen
  intro afterCluster
  apply (packageInfo_addsDetails afterCluster).andThen
  exact fun afterPackage => modifyCpu_addsDetails afterPackage cpu _ _

/-! ## The array of nodes -/

def WaycaTopo.nodeCapacity (topo : WaycaTopo) : Option ℕ := topo.nodes.map List.length

def capacityAfter (capacity : Option ℕ) : Option ℕ → Option ℕ
  | none => capacity
  | some k => some (max (capacity.getD 0) (k + 1))

theorem grown_capacity (topo : WaycaTopo) (k : ℕ) :
    (topo.grown k).nodeCapacity = capacityAfter topo.nodeCapacity (some k) := by
  unfold WaycaTopo.nodeCapacity WaycaTopo.grown capacityAfter
  cases topo.nodes with
  | none => simp
  | some slots =>
      simp only [Option.getD_some, Option.map_some, List.length_append, List.length_replicate,
        Option.some.injEq]
      omega

/-- The pointer in element `k` of the array, null where there is none. -/
def WaycaTopo.slotAt (topo : WaycaTopo) (k : ℕ) : Option ℕ := (topo.nodes.bind (·[k]?)).join

theorem slotAt_grown (topo : WaycaTopo) (k j : ℕ) : (topo.grown k).slotAt j = topo.slotAt j := by
  unfold WaycaTopo.slotAt WaycaTopo.grown
  cases topo.nodes with
  | none =>
      simp only [Option.getD_none, List.nil_append, Option.bind_some, Option.bind_none,
        List.getElem?_replicate]
      split <;> rfl
  | some slots =>
      simp only [Option.getD_some, Option.bind_some]
      by_cases hj : j < slots.length
      · rw [List.getElem?_append_left hj]
      · rw [List.getElem?_append_right (not_lt.mp hj), List.getElem?_eq_none (not_lt.mp hj),
          List.getElem?_replicate]
        split <;> rfl

/-- The step returns with the array of the given length and the same frame, or
fails elsewhere than at the array of nodes. -/
def KeepsFrame (topo : WaycaTopo) (capacity : Option ℕ) (next : WaycaTopo) : Prop :=
  SameFrame topo next ∧ next.nodeCapacity = capacity

theorem createNode_ensures (topo : WaycaTopo) :
    Ensures (createNode (topo.grown k) k) (· = .nodesAccess)
      (KeepsFrame topo (capacityAfter topo.nodeCapacity (some k))) := by
  have hcapacity := grown_capacity topo k
  unfold createNode
  split
  next => exact ⟨⟨rfl, rfl, rfl, rfl, rfl, rfl⟩, hcapacity⟩
  next =>
    split
    next hnodes => exact absurd hnodes (Option.some_ne_none _)
    next slots hslots =>
      have hlength : some slots.length = capacityAfter topo.nodeCapacity (some k) := by
        rw [← hcapacity, WaycaTopo.nodeCapacity, hslots, Option.map_some]
      split
      next =>
        refine ⟨⟨rfl, rfl, rfl, rfl, rfl, rfl⟩, ?_⟩
        rw [← hlength, WaycaTopo.nodeCapacity, Option.map_some, List.length_set]
      next houtside =>
        have := Option.some.inj hlength
        omega

theorem nodeSlot_ensures {length : ℕ} (hcapacity : topo.nodeCapacity = some length)
    (hk : k < length) :
    Ensures (topo.nodeSlot k) (· = .nodesAccess) fun slot =>
      topo.nodes.bind (·[k]?) = some slot := by
  obtain ⟨slots, hslots, hlength⟩ := Option.map_eq_some_iff.mp hcapacity
  have hinside : topo.nodes.bind (·[k]?) = some (slots.get ⟨k, hlength ▸ hk⟩) := by
    rw [hslots]
    exact List.getElem?_eq_getElem _
  unfold WaycaTopo.nodeSlot
  rw [hinside]
  exact rfl

theorem addCpuToNode_ensures {length : ℕ} (hcapacity : topo.nodeCapacity = some length)
    (hk : k < length) :
    Ensures (addCpuToNode topo k cpu) (· = .nodesAccess) (KeepsFrame topo (some length)) := by
  apply (nodeSlot_ensures hcapacity hk).bind
  intro slot hslot
  apply (deref_ensures slot).bind
  intro pointer hpointer
  apply (modifyCpu_ensures _ cpu _).mono
  intro result hsame
  refine ⟨(sameNodes_modifyNode topo pointer _).toSameFrame.trans hsame.toSameFrame, ?_⟩
  rw [WaycaTopo.nodeCapacity, hsame.nodes]
  exact hcapacity

structure ReadsNode (sys : Sysfs) (cpu : ℕ) (topo next : WaycaTopo) : Prop
    extends SameFrame topo next where
  capacity : next.nodeCapacity =
    capacityAfter topo.nodeCapacity (sys.cpuAttribute cpu (·.node))
  nodeMap : sys.cpuAttribute cpu (·.node) = none → next.nodeMap = topo.nodeMap

theorem nodeInfo_ensures (topo : WaycaTopo) :
    Ensures (nodeInfo sys cpu topo) (· = .nodesAccess) fun result =>
      ReadsNode sys cpu topo result.1 := by
  unfold nodeInfo
  split
  next hcpu =>
    have hnode : sys.cpuAttribute cpu (·.node) = none := by
      rw [Sysfs.cpuAttribute, hcpu, Option.bind_none]
    exact ⟨.refl topo, by rw [hnode]; rfl, fun _ => rfl⟩
  next attributes hcpu =>
    have hattribute : sys.cpuAttribute cpu (·.node) = attributes.node := by
      rw [Sysfs.cpuAttribute, hcpu, Option.bind_some]
    split
    next hnode => exact ⟨.refl topo, by rw [hattribute, hnode]; rfl, fun _ => rfl⟩
    next k hnode =>
      rw [hnode] at hattribute
      apply (createNode_ensures topo).bind
      intro created hcreated
      have hk : k < max (topo.nodeCapacity.getD 0) (k + 1) := by omega
      apply (addCpuToNode_ensures hcreated.2 hk).bind
      intro added hadded
      refine ⟨hcreated.1.trans hadded.1, by rw [hattribute]; exact hadded.2, ?_⟩
      intro hnone
      rw [hattribute] at hnone
      cases hnone

theorem readCpu_ensures (topo : WaycaTopo) :
    Ensures (readCpu sys cpu topo) (· = .nodesAccess) fun result =>
      ReadsNode sys cpu topo result.1 := by
  have hfresh := sameNodes_setCpu topo cpu (WaycaCpu.fresh cpu)
  have hnode : Ensures (nodeInfo sys cpu (topo.setCpu cpu (WaycaCpu.fresh cpu)))
      (· = .nodesAccess) fun result => ReadsNode sys cpu topo result.1 := by
    apply (nodeInfo_ensures _).mono
    intro result hreads
    exact ⟨hfresh.toSameFrame.trans hreads.toSameFrame, hreads.capacity, hreads.nodeMap⟩
  apply ensures_andThen hnode
  intro middle hreads
  apply (cpuDetails_addsDetails middle).mono
  intro result hsame
  refine ⟨hreads.toSameFrame.trans hsame.toSameFrame, ?_, ?_⟩
  · rw [WaycaTopo.nodeCapacity, hsame.nodes]
    exact hreads.capacity
  · intro hnone
    rw [hsame.nodeMap]
    exact hreads.nodeMap hnone

/-! ## The variable and the array -/

/-- The largest index seen is the last one of the array. -/
structure IndexMatches (state : TopoState) : Prop where
  capacity : ∀ length, state.topo.nodeCapacity = some length → (length : ℤ) = state.maxNodeIndex + 1
  unallocated : state.topo.nodes = none → state.topo.nodeMap = ∅

/-- The node number is above the variable when the array is to be allocated,
and at most one past an array that is there. -/
def InReach (state : TopoState) (k : ℕ) : Prop :=
  match state.topo.nodeCapacity with
  | none => state.maxNodeIndex < k
  | some length => k ≤ length

def TopoState.advanced (state : TopoState) : Option ℕ → TopoState
  | none => state
  | some k => { state with maxNodeIndex := max state.maxNodeIndex k }

theorem expandMem_at_end (hlast : slots.length = k) :
    topoExpandMem (some slots) k (k + 1) = .ok (slots ++ [none]) := by
  unfold topoExpandMem
  by_cases hzero : k = 0
  · have hempty : slots = [] := List.eq_nil_of_length_eq_zero (by omega)
    simp [hzero, hempty]
  · have htake : slots.take k = slots := List.take_of_length_le hlast.le
    simp [hzero, hlast, htake]

theorem expandMem_out_of_reach (hbeyond : slots.length < k) :
    topoExpandMem (some slots) k (k + 1) = .error .nodesAccess := by
  have hpositive : ¬ k = 0 := by omega
  unfold topoExpandMem
  simp [hpositive, hbeyond]

theorem grown_of_lt (hnodes : topo.nodes = some slots) (hk : k < slots.length) :
    topo.grown k = topo := by
  have hinside : k + 1 - slots.length = 0 := by omega
  unfold WaycaTopo.grown
  simp only [hnodes, Option.getD_some, hinside, List.replicate_zero, List.append_nil]
  rw [← hnodes]

theorem IndexMatches.length (hmatches : IndexMatches state) {slots : List (Option ℕ)}
    (hnodes : state.topo.nodes = some slots) :
    (slots.length : ℤ) = state.maxNodeIndex + 1 := by
  apply hmatches.capacity
  rw [WaycaTopo.nodeCapacity, hnodes, Option.map_some]

theorem inReach_unallocated (hnodes : state.topo.nodes = none) :
    InReach state k ↔ state.maxNodeIndex < k := by
  simp [InReach, WaycaTopo.nodeCapacity, hnodes]

theorem inReach_allocated (hnodes : state.topo.nodes = some slots) :
    InReach state k ↔ k ≤ slots.length := by
  simp [InReach, WaycaTopo.nodeCapacity, hnodes]

theorem growNodes_of_inReach (hmatches : IndexMatches state) (hreach : InReach state k) :
    growNodes state k = .ok ((state.advanced (some k)).withTopo (state.topo.grown k)) := by
  unfold growNodes
  cases hnodes : state.topo.nodes with
  | none =>
      have habove : (k : ℤ) > state.maxNodeIndex := (inReach_unallocated hnodes).mp hreach
      rw [if_pos habove]
      simp [topoExpandMem, bind, Except.bind, TopoState.withTopo, TopoState.advanced,
        WaycaTopo.grown, hnodes, habove.le]
  | some slots =>
      have hlength := hmatches.length hnodes
      have hk := (inReach_allocated hnodes).mp hreach
      by_cases habove : (k : ℤ) > state.maxNodeIndex
      · have hlast : slots.length = k := by omega
        have hone : k + 1 - slots.length = 1 := by omega
        rw [if_pos habove, expandMem_at_end hlast]
        simp [bind, Except.bind, TopoState.withTopo, TopoState.advanced, WaycaTopo.grown, hnodes,
          habove.le, hone]
      · have hindex : max state.maxNodeIndex k = state.maxNodeIndex := max_eq_left (by omega)
        rw [if_neg habove, grown_of_lt hnodes (by omega)]
        simp only [TopoState.withTopo, TopoState.advanced, hindex]

theorem createNode_out_of_reach (hmatches : IndexMatches state) (hreach : ¬ InReach state k) :
    (do let grown ← growNodes state k; createNode grown.topo k) = .error .nodesAccess := by
  unfold growNodes
  cases hnodes : state.topo.nodes with
  | none =>
      have hbelow : ¬ (k : ℤ) > state.maxNodeIndex := hreach ∘ (inReach_unallocated hnodes).mpr
      have hunmarked : cpuIssetS k (cpuAllocSize state.topo.nCpus) state.topo.nodeMap = false := by
        rw [hmatches.unallocated hnodes]
        simp [cpuIssetS]
      rw [if_neg hbelow]
      change createNode state.topo k = .error .nodesAccess
      unfold createNode
      rw [hunmarked, if_neg Bool.false_ne_true, hnodes]
  | some slots =>
      have hlength := hmatches.length hnodes
      have hbeyond : slots.length < k := not_le.mp (hreach ∘ (inReach_allocated hnodes).mpr)
      have habove : (k : ℤ) > state.maxNodeIndex := by omega
      rw [if_pos habove, expandMem_out_of_reach hbeyond]
      rfl

/-! ## The code reads by the length of the array -/

theorem parseCpuNodeInfo_of_inReach (hmatches : IndexMatches state)
    (hreach : ∀ k, sys.cpuAttribute cpu (·.node) = some k → InReach state k) :
    topoParseCpuNodeInfo sys state cpu =
      onTopo (nodeInfo sys cpu) (state.advanced (sys.cpuAttribute cpu (·.node))) := by
  unfold topoParseCpuNodeInfo nodeInfo onTopo
  unfold Sysfs.cpuAttribute at *
  cases hcpu : sys.cpu cpu with
  | none => rfl
  | some attributes =>
      rw [hcpu, Option.bind_some] at hreach
      dsimp only [Option.bind_some]
      cases hnode : attributes.node with
      | none => rfl
      | some k =>
          dsimp only
          rw [growNodes_of_inReach hmatches (hreach k hnode)]
          dsimp only [bind, Except.bind, TopoState.withTopo, TopoState.advanced]
          cases createNode (state.topo.grown k) k with
          | error failure => rfl
          | ok created =>
              dsimp only
              cases addCpuToNode created k cpu with
              | error failure => rfl
              | ok added => rfl

theorem parseCpuNodeInfo_out_of_reach (hmatches : IndexMatches state)
    (hnode : sys.cpuAttribute cpu (·.node) = some k) (hreach : ¬ InReach state k) :
    topoParseCpuNodeInfo sys state cpu = .error .nodesAccess := by
  have hfault := createNode_out_of_reach hmatches hreach
  obtain ⟨attributes, hattributes, hk⟩ := Option.bind_eq_some_iff.mp hnode
  unfold topoParseCpuNodeInfo
  rw [hattributes]
  dsimp only
  rw [hk]
  dsimp only [bind, Except.bind] at hfault ⊢
  cases hgrow : growNodes state k with
  | error failure =>
      rw [hgrow] at hfault
      exact congrArg _ (Except.error.inj hfault)
  | ok grown =>
      rw [hgrow] at hfault
      dsimp only at hfault ⊢
      rw [hfault]

theorem checked_of_agrees {step : Bool → WaycaTopo → Outcome (WaycaTopo × ℤ)}
    (hagrees : OnlineAgreesAt sys state.topo cpu) (hcpu : cpu < state.topo.nCpus) :
    (do
      let (online, state) ← waycaScIsCpuOnline sys recreate state cpu
      onTopo (step online) state) = onTopo (step (state.topo.isOnline cpu)) state := by
  rw [isCpuOnline_of_agrees hagrees hcpu]
  rfl

theorem advanced_topo (state : TopoState) (node : Option ℕ) :
    (state.advanced node).topo = state.topo := by
  cases node with
  | none => rfl
  | some k => rfl

theorem parseCpuDetails_eq (hagrees : OnlineAgreesAt sys state.topo cpu)
    (hcpu : cpu < state.topo.nCpus) :
    (andThen (topoParseCpuCoreInfo sys recreate cpu state) fun state =>
      andThen (onTopo (topoParseCpuClusterInfo sys cpu) state) fun state =>
      andThen (topoParseCpuPkgInfo sys recreate cpu state) fun state =>
      topoParseCpuCacheInfo sys recreate cpu state) =
      onTopo (cpuDetails sys cpu (state.topo.isOnline cpu)) state := by
  unfold topoParseCpuCoreInfo topoParseCpuPkgInfo topoParseCpuCacheInfo
  rw [checked_of_agrees hagrees hcpu]
  apply andThen_onTopo
  intro afterCore hcore
  have hsameCore := (coreInfo_addsDetails state.topo).of_ok hcore
  apply andThen_onTopo
  intro afterCluster hcluster
  have hsameCluster := hsameCore.trans ((clusterInfo_addsDetails afterCore).of_ok hcluster)
  rw [checked_of_agrees (hsameCluster.agreesAt hagrees) (hsameCluster.nCpus ▸ hcpu)]
  dsimp only [TopoState.withTopo]
  rw [hsameCluster.isOnline]
  apply andThen_onTopo
  intro afterPackage hpackage
  have hsamePackage := hsameCluster.trans ((packageInfo_addsDetails afterCluster).of_ok hpackage)
  rw [checked_of_agrees (hsamePackage.agreesAt hagrees) (hsamePackage.nCpus ▸ hcpu)]
  dsimp only [TopoState.withTopo]
  rw [hsamePackage.isOnline]

section

variable (hmatches : IndexMatches state)
variable {remaining i : ℕ}

include hmatches

theorem readCpuTopology_of_inReach (hagrees : OnlineAgreesAt sys state.topo cpu)
    (hcpu : cpu < state.topo.nCpus)
    (hreach : ∀ k, sys.cpuAttribute cpu (·.node) = some k → InReach state k) :
    topoReadCpuTopology sys recreate cpu state =
      onTopo (readCpu sys cpu) (state.advanced (sys.cpuAttribute cpu (·.node))) := by
  have hfresh := sameNodes_setCpu state.topo cpu (WaycaCpu.fresh cpu)
  have hmatchesFresh :
      IndexMatches (state.withTopo (state.topo.setCpu cpu (WaycaCpu.fresh cpu))) :=
    ⟨hmatches.capacity, hmatches.unallocated⟩
  unfold topoReadCpuTopology
  dsimp only
  rw [parseCpuNodeInfo_of_inReach hmatchesFresh hreach,
    andThen_onTopo (cpuDetails sys cpu (state.topo.isOnline cpu))]
  · cases sys.cpuAttribute cpu (·.node) with
    | none => rfl
    | some k => rfl
  · intro afterNode hnode
    rw [advanced_topo] at hnode
    have hframe := hfresh.toSameFrame.trans ((nodeInfo_ensures _).of_ok hnode).toSameFrame
    rw [parseCpuDetails_eq (hframe.agreesAt hagrees) (hframe.nCpus ▸ hcpu)]
    dsimp only [TopoState.withTopo]
    rw [hframe.isOnline]

theorem readCpuTopology_out_of_reach (hnode : sys.cpuAttribute cpu (·.node) = some k)
    (hreach : ¬ InReach state k) :
    topoReadCpuTopology sys recreate cpu state = .error .nodesAccess := by
  have hmatchesFresh :
      IndexMatches (state.withTopo (state.topo.setCpu cpu (WaycaCpu.fresh cpu))) :=
    ⟨hmatches.capacity, hmatches.unallocated⟩
  unfold topoReadCpuTopology
  dsimp only
  rw [parseCpuNodeInfo_out_of_reach hmatchesFresh hnode hreach]
  rfl

theorem IndexMatches.read (hreach : ∀ k, sys.cpuAttribute cpu (·.node) = some k → InReach state k)
    (hreads : ReadsNode sys cpu state.topo next) :
    IndexMatches ((state.advanced (sys.cpuAttribute cpu (·.node))).withTopo next) := by
  have hcapacity := hreads.capacity
  cases hnode : sys.cpuAttribute cpu (·.node) with
  | none =>
      rw [hnode] at hcapacity
      constructor
      · intro length hlength
        exact hmatches.capacity length (hcapacity.symm.trans hlength)
      · intro hnodes
        have hunallocated : state.topo.nodeCapacity = none := by
          rw [← show next.nodeCapacity = state.topo.nodeCapacity from hcapacity]
          exact Option.map_eq_none_iff.mpr hnodes
        exact (hreads.nodeMap hnode).trans
          (hmatches.unallocated (Option.map_eq_none_iff.mp hunallocated))
  | some k =>
      rw [hnode] at hcapacity
      have hk := hreach k hnode
      constructor
      · intro length hlength
        have hvalue : max (state.topo.nodeCapacity.getD 0) (k + 1) = length :=
          Option.some.inj (hcapacity.symm.trans hlength)
        change (length : ℤ) = max state.maxNodeIndex k + 1
        cases hbefore : state.topo.nodeCapacity with
        | none =>
            rw [InReach, hbefore] at hk
            rw [hbefore, Option.getD_none] at hvalue
            omega
        | some before =>
            have hindex := hmatches.capacity before hbefore
            rw [hbefore, Option.getD_some] at hvalue
            omega
      · intro hnodes
        have hunallocated : next.nodeCapacity = none := Option.map_eq_none_iff.mpr hnodes
        rw [hunallocated] at hcapacity
        cases hcapacity

/-- As long as the attributes agree, the loop leaves the array or reads by the
length of the array. -/
theorem constructCpuLoop_reads
    (hagrees : ∀ cpu, i ≤ cpu → cpu < i + remaining → OnlineAgreesAt sys state.topo cpu) :
    constructCpuLoop sys recreate remaining i state = .error .nodesAccess ∨
      topoOf (constructCpuLoop sys recreate remaining i state) =
          readCpus sys remaining i state.topo ∧
        ∀ final, constructCpuLoop sys recreate remaining i state = .ok (final, 0) →
          IndexMatches final := by
  induction remaining generalizing i state with
  | zero =>
      right
      constructor
      · rfl
      · intro final hfinal
        cases hfinal
        exact hmatches
  | succ remaining ih =>
      unfold constructCpuLoop readCpus
      by_cases hi : i < state.topo.nCpus
      · rw [if_pos hi, if_pos hi]
        by_cases hreach : ∀ k, sys.cpuAttribute i (·.node) = some k → InReach state k
        · have hat := hagrees i le_rfl (by omega)
          rw [readCpuTopology_of_inReach hmatches hat hi hreach]
          unfold onTopo
          rw [advanced_topo]
          cases hread : readCpu sys i state.topo with
          | error failure =>
              right
              constructor
              · rfl
              · intro final hfinal
                cases hfinal
          | ok result =>
              obtain ⟨next, ret⟩ := result
              by_cases hret : ret = 0
              · subst hret
                have hreads := (readCpu_ensures state.topo).of_ok hread
                apply ih (hmatches.read hreach hreads)
                intro cpu hfrom hto
                exact hreads.toSameFrame.agreesAt (hagrees cpu (by omega) (by omega))
              · right
                constructor
                · simp [andThen, topoOf, Except.map, bind, Except.bind, hret, TopoState.withTopo]
                · intro final hfinal
                  obtain ⟨middle, hmiddle, -⟩ := andThen_eq_success.mp hfinal
                  cases hmiddle
                  exact absurd rfl hret
        · push Not at hreach
          obtain ⟨k, hnode, hout⟩ := hreach
          rw [readCpuTopology_out_of_reach hmatches hnode hout]
          exact .inl rfl
      · rw [if_neg hi, if_neg hi]
        right
        constructor
        · rfl
        · intro final hfinal
          cases hfinal
          exact hmatches

theorem constructCpuLoop_success
    (hagrees : ∀ cpu, i ≤ cpu → cpu < i + remaining → OnlineAgreesAt sys state.topo cpu)
    (hloop : constructCpuLoop sys recreate remaining i state = .ok (final, 0)) :
    readCpus sys remaining i state.topo = .ok (final.topo, 0) ∧ IndexMatches final := by
  rcases constructCpuLoop_reads hmatches hagrees with hfault | ⟨hreads, hlater⟩
  · rw [hfault] at hloop
    cases hloop
  · rw [hloop] at hreads
    exact ⟨hreads.symm, hlater final hloop⟩

end

def allocated (sys : Sysfs) : WaycaTopo := (topoAllocNodeMap (topoAllocCpu sys .zeroed).1).1

theorem allocCpu_nodes (sys : Sysfs) (topo : WaycaTopo) :
    (topoAllocCpu sys topo).1.nodes = topo.nodes := by
  unfold topoAllocCpu
  dsimp only
  split
  next => rfl
  next =>
    split <;> rfl

theorem allocated_nodes (sys : Sysfs) : (allocated sys).nodes = none := allocCpu_nodes sys .zeroed

theorem indexMatches_allocated (sys : Sysfs) (state : TopoState) :
    IndexMatches (state.withTopo (allocated sys)) := by
  constructor
  · intro length hlength
    have hunallocated : (allocated sys).nodeCapacity = none := by
      rw [WaycaTopo.nodeCapacity, allocated_nodes, Option.map_none]
    rw [show (state.withTopo (allocated sys)).topo = allocated sys from rfl, hunallocated]
      at hlength
    cases hlength
  · intro _
    rfl

theorem topoOf_construct
    (hread : topoOf (topoConstructCpuTopology sys recreate (state.withTopo (allocated sys))) =
      readCpus sys (allocated sys).nCpus 0 (allocated sys)) :
    topoOf (topoConstruct sys recreate state) = constructByLength sys := by
  unfold topoConstruct constructByLength
  apply topoOf_andThen
  · exact topoOf_onTopo _ _
  intro afterCpu hcpu
  rw [onTopo_total hcpu]
  apply topoOf_andThen
  · exact topoOf_onTopo _ _
  intro afterMap hmap
  rw [onTopo_total hmap]
  apply topoOf_andThen
  · exact hread
  intro afterCpus hcpus
  apply topoOf_andThen
  · exact topoOf_onTopo _ _
  intro afterNuma hnuma
  apply topoOf_andThen
  · exact topoOf_onTopo _ _
  intro afterCores hcores
  rfl

theorem construct_reads_cpus (hsuccess : topoConstruct sys recreate state = .ok (final, 0)) :
    ∃ read, topoConstructCpuTopology sys recreate (state.withTopo (allocated sys)) =
      .ok (read, 0) := by
  obtain ⟨afterCpu, hcpu, hrest⟩ := andThen_eq_success.mp hsuccess
  rw [onTopo_total hcpu] at hrest
  obtain ⟨afterMap, hmap, hrest⟩ := andThen_eq_success.mp hrest
  rw [onTopo_total hmap] at hrest
  obtain ⟨read, hread, hrest⟩ := andThen_eq_success.mp hrest
  exact ⟨read, hread⟩

theorem construct_success (hagrees : OnlineAgrees sys (allocated sys))
    (hsuccess : topoConstruct sys recreate state = .ok (final, 0)) :
    constructByLength sys = .ok (final.topo, 0) := by
  obtain ⟨read, hread⟩ := construct_reads_cpus hsuccess
  have hreadByLength : readCpus sys (allocated sys).nCpus 0 (allocated sys) = .ok (read.topo, 0) :=
    (constructCpuLoop_success (indexMatches_allocated sys state)
      (fun cpu _ hcpu => hagrees.at (by rwa [Nat.zero_add] at hcpu)) hread).1
  rw [← topoOf_construct (by rw [hread, hreadByLength]; rfl), hsuccess]
  rfl

end WaycaScheduler
