import WaycaScheduler.NestedConstruction
import WaycaScheduler.TopologyAssembly

/-!
# What any construction leaves

Whatever sysfs shows, a CPU brings in at most one node and one package, so a
topology has no more of them than CPUs.  A construction never touches the
numbers of cores and clusters that outlive the topology, also when it is
started again from inside.
-/

namespace WaycaScheduler

open Fallible

variable {sys : Sysfs} {topo next : WaycaTopo} {cpu nodes packages : ℕ} {online : Bool}
variable {moreNodes morePackages : ℕ} {state final : TopoState}

/-! ## At most one node and one package for a CPU -/

structure Within (nodes packages : ℕ) (topo : WaycaTopo) : Prop where
  nNodes : topo.nNodes ≤ nodes
  packages : topo.packages.length ≤ packages

def EndsWithin (nodes packages : ℕ) (outcome : Outcome (WaycaTopo × ℤ)) : Prop :=
  Ensures outcome (fun _ => False) fun result => Within nodes packages result.1

theorem Within.mono (hwithin : Within nodes packages topo)
    (hnodes : nodes ≤ moreNodes) (hpackages : packages ≤ morePackages) :
    Within moreNodes morePackages topo :=
  ⟨hwithin.nNodes.trans hnodes, hwithin.packages.trans hpackages⟩

theorem EndsWithin.andThen {outcome : Outcome (WaycaTopo × ℤ)}
    {rest : WaycaTopo → Outcome (WaycaTopo × ℤ)} (hfirst : EndsWithin nodes packages outcome)
    (hnodes : nodes ≤ moreNodes) (hpackages : packages ≤ morePackages)
    (hrest : ∀ middle, Within nodes packages middle →
      EndsWithin moreNodes morePackages (rest middle)) :
    EndsWithin moreNodes morePackages (andThen outcome rest) := by
  apply Ensures.bind hfirst
  intro result hresult
  dsimp only
  split
  next => exact hresult.mono hnodes hpackages
  next => exact hrest result.1 hresult

namespace Within

section

variable (hwithin : Within nodes packages topo)

include hwithin

theorem modifyCpu (cpu : ℕ) (change : WaycaCpu → WaycaCpu) :
    Ensures (topo.modifyCpu cpu change) (fun _ => False) (Within nodes packages) := by
  apply (ensures_nothing _).bind
  intro found _
  exact ⟨hwithin.nNodes, hwithin.packages⟩

theorem createNode (k : ℕ) :
    Ensures (createNode topo k) (fun _ => False) (Within (nodes + 1) packages) := by
  unfold WaycaScheduler.createNode
  split
  next => exact hwithin.mono (Nat.le_succ nodes) le_rfl
  next =>
    split
    next => exact id
    next =>
      split
      next => exact ⟨Nat.succ_le_succ hwithin.nNodes, hwithin.packages⟩
      next => exact id

theorem addCpuToNode (k cpu : ℕ) :
    Ensures (addCpuToNode topo k cpu) (fun _ => False) (Within nodes packages) := by
  apply (ensures_nothing _).bind
  intro slot _
  apply (ensures_nothing _).bind
  intro pointer _
  apply Within.modifyCpu
  exact ⟨hwithin.nNodes, hwithin.packages⟩

theorem nodeInfo : EndsWithin (nodes + 1) packages (nodeInfo sys cpu topo) := by
  have hmore := hwithin.mono (Nat.le_succ nodes) le_rfl
  unfold WaycaScheduler.nodeInfo
  split
  next => exact hmore
  next =>
    split
    next => exact hmore
    next k hnode =>
      have hgrown : Within nodes packages (topo.grown k) := ⟨hwithin.nNodes, hwithin.packages⟩
      apply (hgrown.createNode k).bind
      intro created hcreated
      apply (hcreated.addCpuToNode k cpu).bind
      intro added hadded
      exact hadded

theorem details {most : ℕ} (hdetails : DetailsAdded most topo next) :
    Within nodes (packages + most) next := by
  obtain ⟨added, hpackages, hfew, -⟩ := hdetails.packages
  refine ⟨hdetails.nNodes.trans_le hwithin.nNodes, ?_⟩
  rw [hpackages, List.length_append]
  exact Nat.add_le_add hwithin.packages hfew

theorem readCpu : EndsWithin (nodes + 1) (packages + 1) (readCpu sys cpu topo) := by
  have hfresh : Within nodes packages (topo.setCpu cpu (WaycaCpu.fresh cpu)) :=
    ⟨hwithin.nNodes, hwithin.packages⟩
  apply hfresh.nodeInfo.andThen le_rfl (Nat.le_succ packages)
  intro afterNode hnode
  exact (cpuDetails_addsDetails afterNode).permit fun _ => hnode.details

theorem readCpus (remaining i : ℕ) :
    EndsWithin (nodes + remaining) (packages + remaining) (readCpus sys remaining i topo) := by
  induction remaining generalizing nodes packages i topo with
  | zero => exact hwithin
  | succ remaining ih =>
      unfold WaycaScheduler.readCpus
      split
      next =>
        apply hwithin.readCpu.andThen (by omega) (by omega)
        intro middle hmiddle
        rw [Nat.add_comm remaining, ← Nat.add_assoc, ← Nat.add_assoc]
        exact ih hmiddle (i + 1)
      next => exact hwithin.mono (Nat.le_add_right ..) (Nat.le_add_right ..)

end

end Within

theorem within_allocated (sys : Sysfs) : Within 0 0 (allocated sys) := by
  have hzeroed : Within 0 0 .zeroed := ⟨le_rfl, le_rfl⟩
  unfold allocated topoAllocNodeMap topoAllocCpu
  dsimp only
  split
  next => exact ⟨hzeroed.nNodes, hzeroed.packages⟩
  next =>
    split
    next => exact ⟨hzeroed.nNodes, hzeroed.packages⟩
    next => exact ⟨hzeroed.nNodes, hzeroed.packages⟩

theorem KeepsTables.within (hkeeps : KeepsTables topo next) (hwithin : Within nodes packages topo) :
    Within nodes packages next := by
  constructor
  · rw [hkeeps.nNodes]
    exact hwithin.nNodes
  · rw [← List.length_map WaycaPackage.cpuPart, hkeeps.packages, List.length_map]
    exact hwithin.packages

theorem KeepsTables.agrees (hkeeps : KeepsTables topo next) (hagrees : OnlineAgrees sys topo) :
    OnlineAgrees sys next := by
  intro cpu hpos hcpu
  rw [hkeeps.setsize, hkeeps.onlineCpuMap]
  rw [hkeeps.nCpus] at hcpu
  exact hagrees cpu hpos hcpu

theorem constructByLength_within (hagrees : OnlineAgrees sys (allocated sys))
    (hsuccess : constructByLength sys = .ok (topo, 0)) :
    topo.nCpus = (allocated sys).nCpus ∧ OnlineAgrees sys topo ∧
      Within topo.nCpus topo.nCpus topo := by
  obtain ⟨afterCpu, hcpu, hsuccess⟩ := andThen_eq_success.mp hsuccess
  obtain ⟨afterMap, hmap, hsuccess⟩ := andThen_eq_success.mp hsuccess
  obtain ⟨read, hread, hsuccess⟩ := andThen_eq_success.mp hsuccess
  obtain ⟨assembled, hnuma, hsuccess⟩ := andThen_eq_success.mp hsuccess
  obtain ⟨built, hcore, hsuccess⟩ := andThen_eq_success.mp hsuccess
  have hallocated : allocated sys = afterMap := by
    rw [allocated, Except.ok.inj hcpu]
    exact congrArg Prod.fst (Except.ok.inj hmap)
  have hfinal : built = topo := congrArg Prod.fst (Except.ok.inj hsuccess)
  subst hallocated hfinal
  have hframe := (readCpus_ensures _ 0 (allocated sys)).of_ok hread
  have hwithin := ((within_allocated sys).readCpus _ 0).of_ok hread
  have hkeeps := (constructNuma_success hnuma).toKeepsTables.trans
    (constructCoreLoop_keeps (constructCore_success hcore)).1
  rw [Nat.zero_add] at hwithin
  have hcount : built.nCpus = (allocated sys).nCpus := hkeeps.nCpus.trans hframe.nCpus
  refine ⟨hcount, hkeeps.agrees (hframe.agrees hagrees), ?_⟩
  rw [hcount]
  exact hkeeps.within hwithin

/-! ## The variables that outlive the topology -/

structure SameMaxima (state next : TopoState) : Prop where
  maxCores : next.maxCores = state.maxCores
  maxCcls : next.maxCcls = state.maxCcls

theorem SameMaxima.trans {state middle final : TopoState} (hfirst : SameMaxima state middle)
    (hsecond : SameMaxima middle final) : SameMaxima state final :=
  ⟨hsecond.maxCores.trans hfirst.maxCores, hsecond.maxCcls.trans hfirst.maxCcls⟩

theorem SameMaxima.ofWithTopo {topo : WaycaTopo}
    (hsame : SameMaxima (state.withTopo topo) final) : SameMaxima state final :=
  ⟨hsame.maxCores, hsame.maxCcls⟩

def KeepsMaxima (state : TopoState) (outcome : Outcome (TopoState × ℤ)) : Prop :=
  Ensures outcome (fun _ => False) fun result => SameMaxima state result.1

theorem KeepsMaxima.andThen {state : TopoState} {outcome : Outcome (TopoState × ℤ)}
    {rest : TopoState → Outcome (TopoState × ℤ)} (hfirst : KeepsMaxima state outcome)
    (hrest : ∀ middle, KeepsMaxima middle (rest middle)) :
    KeepsMaxima state (andThen outcome rest) := by
  apply ensures_andThen hfirst
  intro middle hsame
  exact (hrest middle).mono fun result hlater => hsame.trans hlater

theorem onTopo_keepsMaxima (step : WaycaTopo → Outcome (WaycaTopo × ℤ)) (state : TopoState) :
    KeepsMaxima state (onTopo step state) :=
  (ensures_nothing _).bind fun _ _ => ⟨rfl, rfl⟩

theorem nodeInfo_keepsMaxima (state : TopoState) :
    KeepsMaxima state (topoParseCpuNodeInfo sys state cpu) := by
  have hgrow : ∀ k, Ensures (growNodes state k) (fun _ => False) (SameMaxima state) := by
    intro k
    unfold growNodes
    split
    next => exact (ensures_nothing _).bind fun _ _ => ⟨rfl, rfl⟩
    next => exact ⟨rfl, rfl⟩
  unfold topoParseCpuNodeInfo
  split
  next => exact ⟨rfl, rfl⟩
  next =>
    split
    next => exact ⟨rfl, rfl⟩
    next k hnode =>
      apply (hgrow k).bind
      intro grown hsame
      apply (ensures_nothing _).bind
      intro created _
      apply (ensures_nothing _).bind
      intro added _
      exact ⟨hsame.maxCores, hsame.maxCcls⟩

section Recreate

variable {recreate : TopoState → Outcome TopoState}
  (hrecreate : ∀ state, Ensures (recreate state) (fun _ => False) (SameMaxima state))

include hrecreate

theorem checked_keepsMaxima (state : TopoState)
    (step : Bool → WaycaTopo → Outcome (WaycaTopo × ℤ)) :
    KeepsMaxima state (do
      let (online, state) ← waycaScIsCpuOnline sys recreate state cpu
      onTopo (step online) state) := by
  have hcheck : Ensures (waycaScIsCpuOnline sys recreate state cpu) (fun _ => False)
      fun result => SameMaxima state result.2 := by
    unfold waycaScIsCpuOnline
    split
    next => exact ⟨rfl, rfl⟩
    next =>
      split
      next => exact ⟨rfl, rfl⟩
      next =>
        apply iteInduction (motive := fun outcome => Ensures outcome (fun _ => False)
          fun result : Bool × TopoState => SameMaxima state result.2)
        · exact fun _ => ⟨rfl, rfl⟩
        · exact fun _ => (hrecreate state).bind fun _ hsame => hsame
  apply hcheck.bind
  intro result hsame
  exact (onTopo_keepsMaxima _ result.2).mono fun _ hlater => hsame.trans hlater

theorem readCpuTopology_keepsMaxima (state : TopoState) :
    KeepsMaxima state (topoReadCpuTopology sys recreate cpu state) := by
  unfold topoReadCpuTopology
  apply KeepsMaxima.andThen
  · exact (nodeInfo_keepsMaxima (state.withTopo _)).mono fun _ => SameMaxima.ofWithTopo
  intro afterNode
  apply KeepsMaxima.andThen
  · exact checked_keepsMaxima hrecreate afterNode _
  intro afterCore
  apply KeepsMaxima.andThen
  · exact onTopo_keepsMaxima _ afterCore
  intro afterCluster
  apply KeepsMaxima.andThen
  · exact checked_keepsMaxima hrecreate afterCluster _
  intro afterPackage
  exact checked_keepsMaxima hrecreate afterPackage _

theorem constructCpuLoop_keepsMaxima (remaining i : ℕ) (state : TopoState) :
    KeepsMaxima state (constructCpuLoop sys recreate remaining i state) := by
  induction remaining generalizing i state with
  | zero => exact ⟨rfl, rfl⟩
  | succ remaining ih =>
      unfold constructCpuLoop
      split
      next => exact (readCpuTopology_keepsMaxima hrecreate state).andThen (ih (i + 1))
      next => exact ⟨rfl, rfl⟩

theorem construct_keepsMaxima (state : TopoState) :
    KeepsMaxima state (topoConstruct sys recreate state) := by
  apply KeepsMaxima.andThen
  · exact (onTopo_keepsMaxima _ (state.withTopo _)).mono fun _ => SameMaxima.ofWithTopo
  intro afterCpu
  apply KeepsMaxima.andThen
  · exact onTopo_keepsMaxima _ afterCpu
  intro afterMap
  apply KeepsMaxima.andThen
  · exact constructCpuLoop_keepsMaxima hrecreate _ 0 afterMap
  intro read
  apply KeepsMaxima.andThen
  · exact onTopo_keepsMaxima _ read
  intro assembled
  apply KeepsMaxima.andThen
  · exact onTopo_keepsMaxima _ assembled
  intro built
  exact ⟨rfl, rfl⟩

end Recreate

theorem topoInit_keepsMaxima (sys : Sysfs) (depth : ℕ) (state : TopoState) :
    Ensures (topoInit sys depth state) (fun _ => False) (SameMaxima state) := by
  induction depth generalizing state with
  | zero => exact id
  | succ depth ih =>
      have hrecreate : ∀ state, Ensures (topoInit sys depth (topoFree state)) (fun _ => False)
          (SameMaxima state) :=
        fun state => (ih (topoFree state)).mono fun _ => SameMaxima.ofWithTopo
      apply (construct_keepsMaxima hrecreate state).bind
      intro result hsame
      dsimp only
      split
      next => exact ⟨hsame.maxCores, hsame.maxCcls⟩
      next => exact hsame

theorem topoInit_bounds {depth : ℕ}
    (hinit : topoInit sys depth state = .ok final) :
    final.topo = .zeroed ∨ (topoAllocCpu sys .zeroed).2 = 0 ∧
      final.topo.nCpus = (allocated sys).nCpus ∧ OnlineAgrees sys final.topo ∧
      Within final.topo.nCpus final.topo.nCpus final.topo := by
  cases depth with
  | zero => cases hinit
  | succ depth =>
      obtain ⟨result, hconstruct, hfinal⟩ := bind_eq_ok.mp hinit
      dsimp only at hfinal
      split at hfinal
      next =>
        cases hfinal
        exact .inl rfl
      next hret =>
        cases hfinal
        have hsuccess : topoConstruct sys (recreation sys depth) state = .ok (result.1, 0) := by
          rw [← not_not.mp hret]
          exact hconstruct
        have hallocates : (topoAllocCpu sys .zeroed).2 = 0 := by
          obtain ⟨afterCpu, hcpu, -⟩ := andThen_eq_success.mp hsuccess
          exact congrArg Prod.snd (Except.ok.inj hcpu)
        obtain ⟨read, hread⟩ := construct_reads_cpus hsuccess
        have hagrees := constructCpu_agrees hallocates hread
        exact .inr ⟨hallocates,
          constructByLength_within hagrees (construct_success hagrees hsuccess)⟩

end WaycaScheduler
