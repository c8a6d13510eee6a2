import WaycaScheduler.TopologyAgreement

/-!
# Cores and classes of siblings

The cores are put together once the CPUs are read.  A CPU whose core id has no
core yet creates one with its own list of siblings and marks it in its node and
in its cluster.  The search compares the core id alone, so the cores are the
classes of siblings only where no core id is used in two packages.  The node is
the one the CPU points to, which the array has lost where the number of the node
does not fit and a later CPU had the node created anew.
-/

namespace WaycaScheduler

open Fallible KeyedTable Finset

variable {cpu id : ℕ}

variable {sys : Sysfs} {n i : ℕ} {online : Finset ℕ} {nodeOf : ℕ → ℕ}
  {topo next final : WaycaTopo}

/-! ## Meeting a core -/

/-- The core that the CPU is met with, none if it is offline or its id unreadable. -/
def coreIn (sys : Sysfs) (online : Finset ℕ) (cpu : ℕ) : Option ℤ :=
  if coreIdOf sys cpu (decide (cpu ∈ online)) = -1 then none
  else some (coreIdOf sys cpu (decide (cpu ∈ online)))

def siblingsIn (sys : Sysfs) (online : Finset ℕ) (cpu : ℕ) : Finset ℕ :=
  (coreCpusOf sys cpu (decide (cpu ∈ online)) sys.kernelMaxCpus).getD ∅

def newCore (sys : Sysfs) (online : Finset ℕ) (cpu : ℕ) (topo : WaycaTopo) (coreId : ℤ) :
    WaycaCore :=
  ⟨coreId, cpuCountS topo.setsize (siblingsIn sys online cpu), siblingsIn sys online cpu⟩

def cclPlace (sys : Sysfs) (topo : WaycaTopo) (cpu : ℕ) : Option ℕ :=
  (clusterOf sys cpu).map (place WaycaCluster.clusterId topo.ccls)

def WaycaTopo.objectCores (topo : WaycaTopo) : ℕ → Finset ℕ :=
  maskAt WaycaNode.coreMap topo.nodeObjects

def WaycaTopo.nodeCores (topo : WaycaTopo) (k : ℕ) : Finset ℕ := (topo.node k).coreMap

def WaycaTopo.cclCores (topo : WaycaTopo) : ℕ → Finset ℕ :=
  maskAt WaycaCluster.coreMap topo.ccls

structure CoreMet (sys : Sysfs) (online : Finset ℕ) (cpu : ℕ) (topo next : WaycaTopo) : Prop
    extends KeepsTables topo next where
  cores : next.cores =
    meet WaycaCore.coreId topo.cores (coreIn sys online cpu) (newCore sys online cpu topo)
  objectCores : next.objectCores = markNew WaycaCore.coreId topo.cores (coreIn sys online cpu)
    (topo.nodePointer cpu) topo.objectCores
  cclCores : next.cclCores = markNew WaycaCore.coreId topo.cores (coreIn sys online cpu)
    (cclPlace sys topo cpu) topo.cclCores

theorem coreMet_known
    (hknown : ∀ id, coreIn sys online i = some id → id ∈ topo.cores.map WaycaCore.coreId) :
    CoreMet sys online i topo topo :=
  ⟨.refl topo, (meet_known hknown).symm, (markNew_known hknown _).symm,
    (markNew_known hknown _).symm⟩

def cclsWithCore (topo : WaycaTopo) (pCluster : Option ℕ) : List WaycaCluster :=
  match pCluster with
  | none => topo.ccls
  | some q => topo.ccls.modify q fun ccl =>
      { ccl with coreMap := cpuSetS topo.cores.length topo.setsize ccl.coreMap }

def WaycaTopo.withCore (topo : WaycaTopo) (core : WaycaCore) (pCluster : Option ℕ) : WaycaTopo :=
  { topo with cores := topo.cores ++ [core], ccls := cclsWithCore topo pCluster }

theorem addCoreToCcl_success {core : WaycaCore} {pCluster : Option ℕ}
    (hadd : addCoreToCcl { topo with cores := topo.cores ++ [core] } topo.cores.length pCluster =
      .ok next) : next = topo.withCore core pCluster := by
  unfold addCoreToCcl at hadd
  split at hadd
  next =>
    obtain ⟨q, hq, hadd⟩ := bind_eq_ok.mp hadd
    cases hadd
    rw [(deref_ensures pCluster).of_ok hq]
    rfl
  next hnone =>
    cases hadd
    have hempty : topo.ccls = [] := List.eq_nil_of_length_eq_zero (Nat.eq_zero_of_not_pos hnone)
    cases pCluster with
    | none => rfl
    | some q =>
        rw [WaycaTopo.withCore, cclsWithCore, hempty, List.modify_nil]

theorem createCore_success {found : WaycaCpu} (hcreate : createCore found topo = .ok next) :
    ∃ list p, found.coreCpusMap = some list ∧ found.pNumaNode = some p ∧
      next = (topo.withCore ⟨found.coreId, cpuCountS topo.setsize list, list⟩
        found.pCluster).modifyNode p fun node =>
          { node with coreMap := cpuSetS topo.cores.length topo.setsize node.coreMap } := by
  obtain ⟨list, hlist, hcreate⟩ := bind_eq_ok.mp hcreate
  obtain ⟨middle, hccl, hcreate⟩ := bind_eq_ok.mp hcreate
  obtain ⟨p, hp, hcreate⟩ := bind_eq_ok.mp hcreate
  have hmiddle := addCoreToCcl_success hccl
  subst hmiddle
  cases hcreate
  exact ⟨list, p, (deref_ensures _).of_ok hlist, (deref_ensures _).of_ok hp, rfl⟩

theorem maskAt_modify {ρ : Type} {mask : ρ → Finset ℕ} {table : List ρ} {change : ρ → ρ}
    {number p : ℕ} (hp : p < table.length)
    (hchange : ∀ record, mask (change record) = insert number (mask record)) (box : ℕ) :
    maskAt mask (table.modify p change) box =
      if some p = some box then insert number (maskAt mask table box)
      else maskAt mask table box := by
  unfold maskAt
  rw [List.getElem?_modify]
  by_cases hbox : p = box
  · subst hbox
    rw [List.getElem?_eq_getElem hp]
    simp [hchange]
  · simp [hbox]

/-! ## One CPU of the loop -/

section Loop

variable {rest : List ℕ} {found : WaycaCpu}

theorem findCore_eq (topo : WaycaTopo) (id : ℤ) :
    topo.findCore id = place WaycaCore.coreId topo.cores id := rfl

theorem CpuRecord.coreIn_eq (hkept : CpuRecord sys online topo i found) :
    coreIn sys online i = if found.coreId = -1 then none else some found.coreId := by
  rw [hkept.coreId]
  rfl

theorem TablesBuilt.cclPlace_lt (hbuilt : TablesBuilt sys n online nodeOf topo) (hi : i < n) {q : ℕ}
    (hq : cclPlace sys topo i = some q) : q < topo.ccls.length := by
  obtain ⟨id, hid, hplace⟩ := Option.map_eq_some_iff.mp hq
  rw [← hplace, place_lt_iff]
  exact hbuilt.ccls.mem (mem_range.mpr hi) hid

theorem coreMet_new (hbuilt : TablesBuilt sys n online nodeOf topo) (hi : i < n)
    (hfound : topo.cpus i = some found) (hkept : CpuRecord sys online topo i found)
    (hfits : topo.cores.length / 8 < topo.setsize)
    (hin : coreIn sys online i = some found.coreId)
    (hnew : found.coreId ∉ topo.cores.map WaycaCore.coreId)
    (hcreate : createCore found topo = .ok next) : CoreMet sys online i topo next := by
  have hkeeps := (createCore_keeps hcreate).1
  obtain ⟨list, p, hlist, hp, hnext⟩ := createCore_success hcreate
  have hsiblings : siblingsIn sys online i = list := by
    rw [siblingsIn, ← hkept.coreCpusMap, hlist, Option.getD_some]
  have hpointer : topo.nodePointer i = some p := by
    rw [WaycaTopo.nodePointer, hfound]
    exact hp
  have hlt : p < topo.nodeObjects.length := by
    obtain ⟨q, hq, ⟨node, hnode, -⟩, -⟩ := hbuilt.owned i hi
    rw [hpointer] at hq
    cases hq
    exact (List.getElem?_eq_some_iff.mp hnode).1
  refine ⟨hkeeps, ?_, ?_, ?_⟩
  · rw [hin, hnext]
    change _ = enter WaycaCore.coreId topo.cores found.coreId _
    rw [enter_new hnew, newCore, hsiblings]
    rfl
  · funext box
    rw [hin, markNew_new hnew, hpointer, WaycaTopo.objectCores, hnext]
    exact maskAt_modify hlt (fun node => cpuSetS_of_fits hfits node.coreMap) box
  · funext box
    have hplace : found.pCluster = cclPlace sys topo i := hkept.pCluster
    rw [hin, markNew_new hnew, ← hplace, WaycaTopo.cclCores, hnext]
    change maskAt WaycaCluster.coreMap (cclsWithCore topo found.pCluster) box = _
    cases hcluster : found.pCluster with
    | none => rfl
    | some q =>
        exact maskAt_modify (hbuilt.cclPlace_lt hi (hplace ▸ hcluster))
          (fun ccl => cpuSetS_of_fits hfits ccl.coreMap) box

theorem constructCoreLoop_step (hbuilt : TablesBuilt sys n online nodeOf topo) (hi : i < n)
    (hfits : topo.cores.length / 8 < topo.setsize)
    (hloop : constructCoreLoop (i :: rest) topo = .ok final) :
    ∃ next, CoreMet sys online i topo next ∧ constructCoreLoop rest next = .ok final := by
  obtain ⟨found, hcpu, hloop⟩ := bind_eq_ok.mp hloop
  obtain ⟨kept, hfound, hkept⟩ := hbuilt.records i hi
  have hsame : kept = found := Option.some.inj (hfound.symm.trans (cpuAt_success hcpu))
  subst hsame
  have hin := hkept.coreIn_eq
  split at hloop
  next hskipped =>
    rw [if_pos hskipped] at hin
    refine ⟨topo, coreMet_known ?_, hloop⟩
    rw [hin]
    exact nofun
  next hpresent =>
    rw [if_neg hpresent] at hin
    split at hloop
    next hplace =>
      refine ⟨topo, coreMet_known ?_, hloop⟩
      intro id hid
      rw [hin] at hid
      cases hid
      exact place_lt_iff.mp hplace
    next hplace =>
      obtain ⟨next, hcreate, hloop⟩ := bind_eq_ok.mp hloop
      have hnew := fun hmem => hplace (place_lt_iff.mpr hmem)
      exact ⟨next, coreMet_new hbuilt hi hfound hkept hfits hin hnew hcreate, hloop⟩

end Loop

/-! ## The invariant of the loop -/

/-- The table has the cores of the first `i` CPUs. -/
structure CoreTables (sys : Sysfs) (n : ℕ) (online : Finset ℕ) (nodeOf : ℕ → ℕ) (i : ℕ)
    (topo : WaycaTopo) : Prop where
  tables : TablesBuilt sys n online nodeOf topo
  cores : Tabulates WaycaCore.coreId (coreIn sys online) (range i) topo.cores
  newCores : ∀ core ∈ topo.cores, ∃ cpu < i, coreIn sys online cpu = some core.coreId ∧
    core.coreCpusMap = siblingsIn sys online cpu
  count : topo.cores.length ≤ i
  pointerMarks : Marked WaycaCore.coreId (coreIn sys online) topo.nodePointer (range i)
    topo.cores topo.objectCores
  cclMarks : Marked WaycaCore.coreId (coreIn sys online) (cclPlace sys topo)
    (range i) topo.cores topo.cclCores

structure CoresUpTo (sys : Sysfs) (n : ℕ) (online : Finset ℕ) (nodeOf : ℕ → ℕ) (i : ℕ)
    (topo : WaycaTopo) : Prop extends CoreTables sys n online nodeOf i topo where
  built : Built sys n online nodeOf topo

theorem KeepsTables.cclPlace (hkeeps : KeepsTables topo next) :
    cclPlace sys next = cclPlace sys topo := by
  funext cpu
  unfold WaycaScheduler.cclPlace
  congr 1
  funext id
  exact place_congr hkeeps.cclKeys id

theorem CoreTables.step (hup : CoreTables sys n online nodeOf i topo)
    (hmet : CoreMet sys online i topo next) : CoreTables sys n online nodeOf (i + 1) next where
  tables := hup.tables.keep hmet.toKeepsTables
  cores := by
    rw [hmet.cores, range_add_one]
    exact hup.cores.meet fun _ => rfl
  newCores := by
    intro core hcore
    rw [hmet.cores] at hcore
    rcases of_mem_meet hcore with hold | ⟨id, hid, -, hnew⟩
    · obtain ⟨cpu, hcpu, hcreator⟩ := hup.newCores core hold
      exact ⟨cpu, Nat.lt_succ_of_lt hcpu, hcreator⟩
    · subst hnew
      exact ⟨i, Nat.lt_succ_self i, hid, rfl⟩
  count := by
    rw [hmet.cores]
    exact (length_meet_le _ _ _ _).trans (Nat.succ_le_succ hup.count)
  pointerMarks := by
    rw [hmet.objectCores, hmet.cores, hmet.nodePointer, range_add_one]
    exact hup.pointerMarks.meet hup.cores (fun _ => rfl) fun cpu hcpu => (mem_range.mp hcpu).le
  cclMarks := by
    rw [hmet.cclCores, hmet.cores, hmet.cclPlace, range_add_one]
    exact hup.cclMarks.meet hup.cores (fun _ => rfl) fun cpu hcpu => (mem_range.mp hcpu).le

theorem CoreTables.run {remaining : ℕ} (hsnap : Snapshot sys n online nodeOf)
    (hup : CoreTables sys n online nodeOf i topo) (hcount : i + remaining = n)
    (hloop : constructCoreLoop (List.range' i remaining) topo = .ok final) :
    CoreTables sys n online nodeOf n final := by
  induction remaining generalizing i topo with
  | zero =>
      cases hloop
      have hall : i = n := hcount
      rwa [hall] at hup
  | succ remaining ih =>
      have hi : i < n := by omega
      have hfits := hsnap.fits_setsize hup.tables.framed (hup.count.trans_lt hi)
      rw [List.range'_succ] at hloop
      obtain ⟨next, hmet, hloop⟩ := constructCoreLoop_step hup.tables hi hfits hloop
      exact ih (hup.step hmet) (by omega) hloop

theorem maskAt_empty {ρ : Type} {mask : ρ → Finset ℕ} {table : List ρ}
    (hempty : ∀ record ∈ table, mask record = ∅) : maskAt mask table = fun _ => ∅ := by
  funext j
  rw [maskAt]
  cases hrecord : table[j]? with
  | none => rfl
  | some record => exact hempty record (List.mem_of_getElem? hrecord)

theorem TablesUpTo.coreTables_zero {read : WaycaTopo}
    (hread : TablesUpTo sys n online nodeOf n read) (hnuma : NumaRead read topo) :
    CoreTables sys n online nodeOf 0 topo := by
  have hcores : topo.cores = [] := hnuma.cores.trans hread.cores
  have hobjectCores : topo.objectCores = fun _ => ∅ := by
    apply maskAt_empty
    intro node hnode
    have hmap := List.mem_map_of_mem (f := WaycaNode.coreMap) hnode
    rw [hnuma.coreMaps] at hmap
    obtain ⟨before, hbefore, hsame⟩ := List.mem_map.mp hmap
    rw [← hsame]
    exact hread.nodeCores before hbefore
  have hcclCores : topo.cclCores = fun _ => ∅ := by
    rw [WaycaTopo.cclCores, hnuma.sameCcls]
    apply maskAt_empty
    intro ccl hccl
    obtain ⟨cpu, -, -, hnew⟩ := hread.newCcls ccl hccl
    rw [hnew]
    rfl
  refine ⟨hread.built.keep hnuma.toKeepsTables, ?_, ?_, ?_, ?_, ?_⟩
  · rw [hcores]
    exact .empty
  · rw [hcores]
    exact fun core hcore => absurd hcore List.not_mem_nil
  · rw [hcores]
    exact le_rfl
  · rw [hcores, hobjectCores]
    exact .empty
  · rw [hcores, hcclCores]
    exact .empty

section Construction

variable {recreate : TopoState → Outcome TopoState} {before state : TopoState}
  (hsnap : Snapshot sys n online nodeOf)
  (hsuccess : topoConstruct sys recreate before = .ok (state, 0))

include hsnap hsuccess

theorem Snapshot.coreTables : CoreTables sys n online nodeOf n state.topo := by
  obtain ⟨read, assembled, hread, -, hnuma, hloop⟩ := hsnap.stages hsuccess
  rw [List.range_eq_range'] at hloop
  exact (hread.coreTables_zero (constructNuma_success hnuma)).run hsnap (Nat.zero_add n) hloop

theorem Snapshot.coresUpTo (hnodes : NodesFit n nodeOf) :
    CoresUpTo sys n online nodeOf n state.topo :=
  ⟨hsnap.coreTables hsuccess, hsnap.built hsuccess hnodes⟩

end Construction

theorem nodeCores_eq (topo : WaycaTopo) :
    topo.nodeCores = fun k => (topo.slotAt k).elim ∅ topo.objectCores := by
  funext k
  unfold WaycaTopo.nodeCores WaycaTopo.node WaycaTopo.nodeView WaycaTopo.objectCores maskAt
  cases topo.slotAt k with
  | none => rfl
  | some p =>
      dsimp only [Option.bind_some, Option.elim_some]
      cases topo.nodeObjects[p]? with
      | none => rfl
      | some node => rfl

/-- Where the numbers fit, a core is marked in the node of the CPU that created it. -/
theorem CoresUpTo.nodeMarks (hup : CoresUpTo sys n online nodeOf n topo) :
    Marked WaycaCore.coreId (coreIn sys online) (fun cpu => some (nodeOf cpu)) (range n)
      topo.cores topo.nodeCores := by
  have hnodes := hup.built.wellFormed
  rw [nodeCores_eq]
  constructor
  · intro i core hcore
    obtain ⟨creator, hseen, hin, hbox, hfirst⟩ := hup.pointerMarks.creator i core hcore
    have hslot := hup.built.toNodesMet.slotAt_eq hup.built.fit (mem_range.mp hseen)
    obtain ⟨p, hp, hnumber, -⟩ := hup.built.owned creator (mem_range.mp hseen)
    rw [hp] at hslot
    refine ⟨creator, hseen, hin, fun k => ?_, hfirst⟩
    rw [Option.some.injEq]
    cases hk : topo.slotAt k with
    | none =>
        refine iff_of_false (notMem_empty i) ?_
        rintro rfl
        rw [hk] at hslot
        cases hslot
    | some q =>
        rw [Option.elim_some, hbox, hp, Option.some.injEq]
        constructor
        · rintro rfl
          exact ((hnodes.pointer k p hk).unique hnumber)
        · rintro rfl
          rw [hk] at hslot
          exact Option.some.inj hslot
  · intro k i hi
    cases hk : topo.slotAt k with
    | none =>
        rw [hk] at hi
        exact absurd hi (notMem_empty i)
    | some q =>
        rw [hk] at hi
        exact hup.pointerMarks.lt_length q i hi

/-! ## Classes of siblings -/

/-- A core is identified by its package and its core id, and the list of an
online CPU names the online CPUs with the same pair. -/
structure SiblingSnapshot (sys : Sysfs) (n : ℕ) (online : Finset ℕ) (nodeOf : ℕ → ℕ)
    (coreId packageId : ℕ → ℤ) : Prop extends Snapshot sys n online nodeOf where
  core : ∀ cpu ∈ online, sys.cpuAttribute cpu (·.coreId) = some (coreId cpu)
  package : ∀ cpu ∈ online, sys.cpuAttribute cpu (·.physicalPackageId) = some (packageId cpu)
  siblings : ∀ cpu ∈ online, sys.cpuAttribute cpu (·.coreCpusList) = some
    (online.filter fun other => packageId other = packageId cpu ∧ coreId other = coreId cpu)

/-- No core id is used in two packages, and none is the mark of an offline CPU. -/
structure SeparateIds (online : Finset ℕ) (coreId packageId : ℕ → ℤ) : Prop where
  package : ∀ first ∈ online, ∀ second ∈ online, coreId first = coreId second →
    packageId first = packageId second
  marked : ∀ cpu ∈ online, coreId cpu ≠ -1

/-- Beside that, a core that lies in one node was marked in the node that the array
still has: the one of its first CPU. -/
structure SeparateCores (n : ℕ) (online : Finset ℕ) (nodeOf : ℕ → ℕ) (coreId packageId : ℕ → ℤ) :
    Prop extends SeparateIds online coreId packageId where
  stays : ∀ cpu ∈ online, (∀ other ∈ online, coreId other = coreId cpu →
    cpu ≤ other ∧ nodeOf other = nodeOf cpu) → NodeStays n nodeOf n cpu

def HasCoreId (sys : Sysfs) (recreate : TopoState → Outcome TopoState) (state : TopoState)
    (cpu id : ℕ) : Prop :=
  waycaScGetCoreId sys recreate state cpu = .ok ((id : ℤ), state)

def HasCoreMask (sys : Sysfs) (recreate : TopoState → Outcome TopoState) (state : TopoState)
    (id : ℕ) (mask : Finset ℕ) : Prop :=
  Reports (waycaScCoreCpuMask sys recreate state id) state state.topo.nCpus mask

/-- The cores of the online CPUs are the classes of the sibling lists. -/
structure CoresAreClasses (sys : Sysfs) (recreate : TopoState → Outcome TopoState)
    (state : TopoState) (online : Finset ℕ) (nodeOf : ℕ → ℕ) : Prop where
  own : ∀ cpu ∈ online, ∃ (id : ℕ) (mask : Finset ℕ), HasCoreId sys recreate state cpu id ∧
    topoIsValidCore state.topo id = true ∧ HasCoreMask sys recreate state id mask ∧ cpu ∈ mask
  sameId : ∀ first ∈ online, ∀ second ∈ online, ∀ list,
    sys.cpuAttribute first (·.coreCpusList) = some list →
    ((∃ id, HasCoreId sys recreate state first id ∧ HasCoreId sys recreate state second id) ↔
      second ∈ list)
  disjoint : ∀ (first second : ℕ) (firstMask secondMask : Finset ℕ), first ≠ second →
    topoIsValidCore state.topo first = true → topoIsValidCore state.topo second = true →
    HasCoreMask sys recreate state first firstMask →
    HasCoreMask sys recreate state second secondMask → Disjoint firstMask secondMask
  cover : ∀ cpu, cpu ∈ online ↔ ∃ (id : ℕ) (mask : Finset ℕ), topoIsValidCore state.topo id = true ∧
    HasCoreMask sys recreate state id mask ∧ cpu ∈ mask
  node : ∀ id k : ℕ, topoIsValidCore state.topo id = true →
    (∀ cpu ∈ online, HasCoreId sys recreate state cpu id → nodeOf cpu = k) →
    (state.topo.nodeAt k).isOk = true ∧
      ∀ box node, state.topo.nodeAt box = .ok node → (id ∈ node.coreMap ↔ box = k)
  ccl : ∀ (id : ℕ) shown, topoIsValidCore state.topo id = true →
    (∀ cpu ∈ online, HasCoreId sys recreate state cpu id →
      sys.cpuAttribute cpu (·.clusterId) = shown) →
    ∀ ccl ∈ state.topo.ccls, id ∈ ccl.coreMap ↔ shown = some ccl.clusterId

section Classes

variable {recreate : TopoState → Outcome TopoState} {state : TopoState} {coreId packageId : ℕ → ℤ}
  (hsnap : SiblingSnapshot sys n online nodeOf coreId packageId)

section Siblings

include hsnap

theorem SiblingSnapshot.coreIn_some {id : ℤ} (hcpu : cpu ∈ online)
    (hin : coreIn sys online cpu = some id) : coreId cpu = id ∧ id ≠ -1 := by
  unfold coreIn coreIdOf at hin
  simp only [hcpu, decide_true, if_true, hsnap.core cpu hcpu, Option.getD_some] at hin
  split at hin
  next => cases hin
  next hmark =>
    cases hin
    exact ⟨rfl, hmark⟩

theorem SiblingSnapshot.siblingsIn_pair (hcpu : cpu ∈ online) :
    siblingsIn sys online cpu = online.filter fun other =>
      packageId other = packageId cpu ∧ coreId other = coreId cpu := by
  unfold siblingsIn coreCpusOf
  rw [if_pos (decide_eq_true hcpu), hsnap.siblings cpu hcpu,
    hsnap.toSnapshot.readCpulist fun other hother =>
      hsnap.online_lt other (mem_filter.mp hother).1, Option.getD_some]

theorem SiblingSnapshot.getCoreId_found (hbuilt : TablesBuilt sys n online nodeOf state.topo)
    (hcpu : cpu ∈ online) :
    waycaScGetCoreId sys recreate state cpu =
      .ok (foundAt (place WaycaCore.coreId state.topo.cores (coreId cpu))
        state.topo.cores.length, state) := by
  obtain ⟨hlt, honline⟩ := hsnap.toSnapshot.online_built hbuilt hcpu
  obtain ⟨found, hfound, hkept⟩ := hbuilt.records cpu (hsnap.online_lt cpu hcpu)
  have hid : found.coreId = coreId cpu := by
    rw [hkept.coreId, coreIdOf, if_pos (decide_eq_true hcpu), hsnap.core cpu hcpu,
      Option.getD_some]
  unfold waycaScGetCoreId
  rw [onlineQuery_of_agrees (hsnap.onlineAgrees hbuilt.framed) hlt honline hfound]
  simp only [bind, Except.bind, findCore_eq, hid]

end Siblings

variable (hseparate : SeparateIds online coreId packageId)

include hsnap hseparate

theorem SiblingSnapshot.coreIn_eq (cpu : ℕ) :
    coreIn sys online cpu = if cpu ∈ online then some (coreId cpu) else none := by
  unfold coreIn coreIdOf
  by_cases hcpu : cpu ∈ online
  · simp only [hcpu, decide_true, if_true, hsnap.core cpu hcpu, Option.getD_some,
      hseparate.marked cpu hcpu, if_false]
  · simp [hcpu]

theorem SiblingSnapshot.siblingsIn_eq (hcpu : cpu ∈ online) :
    siblingsIn sys online cpu = online.filter fun other => coreId other = coreId cpu := by
  rw [hsnap.siblingsIn_pair hcpu]
  apply filter_congr
  intro other hother
  constructor
  · exact And.right
  · exact fun hcore => ⟨hseparate.package other hother cpu hcpu hcore, hcore⟩

variable (hup : CoreTables sys n online nodeOf n state.topo)

include hup

theorem SiblingSnapshot.coreTable :
    OnlineTable WaycaCore.coreId WaycaCore.coreCpusMap coreId online state.topo.cores where
  nodup := hup.cores.nodup
  mem := by
    intro cpu hcpu
    apply hup.cores.mem (mem_range.mpr (hsnap.online_lt cpu hcpu))
    rw [hsnap.coreIn_eq hseparate, if_pos hcpu]
  cpus := by
    intro core hcore
    obtain ⟨cpu, -, hin, hlist⟩ := hup.newCores core hcore
    rw [hsnap.coreIn_eq hseparate] at hin
    split at hin
    next hcpu => rw [hlist, hsnap.siblingsIn_eq hseparate hcpu, Option.some.inj hin]
    next => cases hin

theorem SiblingSnapshot.getCoreId (hcpu : cpu ∈ online) :
    HasCoreId sys recreate state cpu (place WaycaCore.coreId state.topo.cores (coreId cpu)) := by
  have hmem := (hsnap.coreTable hseparate hup).mem cpu hcpu
  rw [HasCoreId, hsnap.getCoreId_found hup.tables hcpu, foundAt_of_mem hmem]

theorem SiblingSnapshot.coreMask (hid : id < state.topo.cores.length) :
    HasCoreMask sys recreate state id (maskAt WaycaCore.coreCpusMap state.topo.cores id) := by
  have hvalid : topoIsValidCore state.topo id = true := valid_iff.mpr hid
  unfold HasCoreMask waycaScCoreCpuMask
  rw [maskAt_of_record (List.getElem?_eq_getElem hid)]
  apply maskQuery_reports (hsnap.onlineAgrees hup.tables.framed) hvalid
  · rw [elementAt_eq hid]
    rfl
  · intro cpu hcpu
    rw [(hsnap.coreTable hseparate hup).cpus _ (List.getElem_mem hid)] at hcpu
    rw [hup.tables.framed.nCpus]
    exact hsnap.online_lt cpu (mem_filter.mp hcpu).1

omit hsnap hseparate hup in
theorem valid_core_iff (topo : WaycaTopo) (id : ℕ) :
    topoIsValidCore topo id = true ↔ id < topo.cores.length :=
  valid_iff

omit hsnap hseparate hup in
theorem HasCoreId.unique {first second : ℕ} (hfirst : HasCoreId sys recreate state cpu first)
    (hsecond : HasCoreId sys recreate state cpu second) : first = second := by
  have hsame := hfirst.symm.trans hsecond
  simpa using hsame

theorem SiblingSnapshot.creator_hasCoreId (recreate : TopoState → Outcome TopoState)
    {core : WaycaCore} (hcore : state.topo.cores[id]? = some core)
    (hin : coreIn sys online cpu = some core.coreId) :
    cpu ∈ online ∧ HasCoreId sys recreate state cpu id := by
  rw [hsnap.coreIn_eq hseparate] at hin
  split at hin
  next hcpu =>
    have hplace := place_of_record hup.cores.nodup hcore
    rw [← Option.some.inj hin] at hplace
    have hown : HasCoreId sys recreate state cpu _ := hsnap.getCoreId hseparate hup hcpu
    rw [hplace] at hown
    exact ⟨hcpu, hown⟩
  next => cases hin

/-- Two CPUs have one core id exactly if the list of one names the other. -/
theorem SiblingSnapshot.sameId_iff {first second : ℕ} (hfirst : first ∈ online)
    (hsecond : second ∈ online) {list : Finset ℕ}
    (hlist : sys.cpuAttribute first (·.coreCpusList) = some list) :
    (∃ id, HasCoreId sys recreate state first id ∧ HasCoreId sys recreate state second id) ↔
      second ∈ list := by
  have hmem := (hsnap.coreTable hseparate hup).mem
  have hsiblings := (hsnap.siblings first hfirst).symm.trans hlist
  rw [← Option.some.inj hsiblings, mem_filter]
  constructor
  · rintro ⟨id, hfirstId, hsecondId⟩
    have hplaceFirst := hfirstId.unique (hsnap.getCoreId hseparate hup hfirst)
    have hplaceSecond := hsecondId.unique (hsnap.getCoreId hseparate hup hsecond)
    have hcore := place_injective (hmem second hsecond) (hmem first hfirst)
      (hplaceSecond.symm.trans hplaceFirst)
    exact ⟨hsecond, hseparate.package second hsecond first hfirst hcore, hcore⟩
  · rintro ⟨-, -, hcore⟩
    refine ⟨_, hsnap.getCoreId hseparate hup hfirst, ?_⟩
    rw [← hcore]
    exact hsnap.getCoreId hseparate hup hsecond

/-- The CPU that created the core; the array knows the core by the node of that
CPU, if it still has it. -/
theorem SiblingSnapshot.core_creator (hid : id < state.topo.cores.length) :
    ∃ creator ∈ online, place WaycaCore.coreId state.topo.cores (coreId creator) = id ∧
      (∀ other ∈ online, coreId other = coreId creator → creator ≤ other) ∧
      (state.topo.nodeAt (nodeOf creator)).isOk = true ∧
      ((∀ box node, state.topo.nodeAt box = .ok node →
        (id ∈ node.coreMap ↔ box = nodeOf creator)) ↔ NodeStays n nodeOf n creator) := by
  have hcore := List.getElem?_eq_getElem hid
  obtain ⟨creator, hseen, hin, hmarks, hfirst⟩ := hup.pointerMarks.creator id _ hcore
  have hshown := hin
  rw [hsnap.coreIn_eq hseparate] at hshown
  split at hshown
  next honline =>
    have hkey : coreId creator = state.topo.cores[id].coreId := Option.some.inj hshown
    obtain ⟨p, hp, hnumber, hslot⟩ := hup.tables.owned creator (mem_range.mp hseen)
    obtain ⟨q, hq⟩ := Option.isSome_iff_exists.mp
      ((hup.tables.present _).mpr (mem_image_of_mem nodeOf hseen))
    obtain ⟨object, hobject, -⟩ := hup.tables.numbered _ q hq
    have hat := (nodeAt_eq hq hobject).1
    have hmark : ∀ box node, state.topo.nodeAt box = .ok node →
        (id ∈ node.coreMap ↔ state.topo.slotAt box = some p) := by
      intro box node hnode
      obtain ⟨r, hr, hrecord⟩ := Option.bind_eq_some_iff.mp (nodeAt_success hnode)
      have hbox := hmarks r
      rw [WaycaTopo.objectCores, maskAt_of_record hrecord, hp] at hbox
      rw [hbox, hr, Option.some.injEq, Option.some.injEq]
      exact eq_comm
    refine ⟨creator, honline, ?_, ?_, by rw [hat]; rfl, ?_⟩
    · rw [hkey]
      exact place_of_record hup.cores.nodup hcore
    · intro other hother hsame
      apply hfirst other (mem_range.mpr (hsnap.online_lt other hother))
      rw [hsnap.coreIn_eq hseparate, if_pos hother, hsame, hkey]
    · rw [← hslot]
      constructor
      · intro hall
        exact (hmark _ object hat).mp ((hall _ object hat).mpr rfl)
      · intro hstays box node hnode
        rw [hmark box node hnode]
        constructor
        · intro hbox
          exact hnumber.unique (hup.tables.numbered box p hbox)
        · rintro rfl
          exact hstays
  next => cases hshown

theorem SiblingSnapshot.core_in_ccl {shown : Option ℤ} (hid : id < state.topo.cores.length)
    (hshown : ∀ cpu ∈ online, HasCoreId sys recreate state cpu id →
      sys.cpuAttribute cpu (·.clusterId) = shown)
    {ccl : WaycaCluster} (hccl : ccl ∈ state.topo.ccls) :
    id ∈ ccl.coreMap ↔ shown = some ccl.clusterId := by
  have hcore := List.getElem?_eq_getElem hid
  obtain ⟨creator, hseen, hin, hmarks, -⟩ := hup.cclMarks.creator id _ hcore
  obtain ⟨honline, hown⟩ := hsnap.creator_hasCoreId hseparate hup recreate hcore hin
  have hcluster : clusterOf sys creator = shown := hshown creator honline hown
  obtain ⟨box, hbox⟩ := List.mem_iff_getElem?.mp hccl
  have hmark := hmarks box
  rw [WaycaTopo.cclCores, maskAt_of_record hbox, cclPlace, hcluster,
    Option.map_eq_some_iff] at hmark
  rw [hmark]
  constructor
  · rintro ⟨value, hvalue, hplace⟩
    have hmem := hup.tables.ccls.mem hseen (hcluster.trans hvalue)
    obtain ⟨record, hrecord, hkey⟩ := record_at_place hmem
    rw [hplace, hbox] at hrecord
    rw [hvalue, ← hkey, Option.some.inj hrecord]
  · intro hvalue
    exact ⟨ccl.clusterId, hvalue, place_of_record hup.tables.ccls.nodup hbox⟩

end Classes

section Exact

variable {recreate : TopoState → Outcome TopoState} {state : TopoState} {coreId packageId : ℕ → ℤ}
  (hsnap : SiblingSnapshot sys n online nodeOf coreId packageId)
  (hup : CoreTables sys n online nodeOf n state.topo)

include hsnap hup

theorem SiblingSnapshot.classes (hseparate : SeparateCores n online nodeOf coreId packageId) :
    CoresAreClasses sys recreate state online nodeOf := by
  have hids := hseparate.toSeparateIds
  have htable := hsnap.coreTable hids hup
  have hmask := fun id (hid : id < state.topo.cores.length) =>
    (hsnap.coreMask hids hup hid : HasCoreMask sys recreate state id _)
  constructor
  · intro cpu hcpu
    have hlt := place_lt_iff.mpr (htable.mem cpu hcpu)
    exact ⟨_, _, hsnap.getCoreId hids hup hcpu, (valid_core_iff _ _).mpr hlt,
      hmask _ hlt, (htable.masks.mem_iff hlt hcpu).mpr rfl⟩
  · intro first hfirst second hsecond list hlist
    exact hsnap.sameId_iff hids hup hfirst hsecond hlist
  · intro first second firstMask secondMask hne hfirst hsecond hfirstMask hsecondMask
    rw [valid_core_iff] at hfirst hsecond
    rw [hfirstMask.unique (hmask first hfirst), hsecondMask.unique (hmask second hsecond)]
    exact htable.masks.disjoint hfirst hsecond hne
  · intro cpu
    constructor
    · intro hcpu
      have hlt := place_lt_iff.mpr (htable.mem cpu hcpu)
      exact ⟨_, _, valid_iff.mpr hlt, hmask _ hlt, (htable.masks.mem_iff hlt hcpu).mpr rfl⟩
    · rintro ⟨id, mask, hid, hreports, hcpu⟩
      rw [valid_core_iff] at hid
      rw [hreports.unique (hmask id hid), maskAt_of_record (List.getElem?_eq_getElem hid),
        htable.cpus _ (List.getElem_mem hid)] at hcpu
      exact (mem_filter.mp hcpu).1
  · intro id k hid hk
    obtain ⟨creator, honline, hplace, hfirst, hok, hiff⟩ :=
      hsnap.core_creator hids hup ((valid_core_iff _ _).mp hid)
    have hown : ∀ other ∈ online, coreId other = coreId creator → nodeOf other = k := by
      intro other hother hsame
      apply hk other hother
      rw [← hplace, ← hsame]
      exact hsnap.getCoreId hids hup hother
    have hnode := hown creator honline rfl
    rw [← hnode]
    refine ⟨hok, hiff.mpr (hseparate.stays creator honline fun other hother hsame => ?_)⟩
    exact ⟨hfirst other hother hsame, (hown other hother hsame).trans hnode.symm⟩
  · intro id shown hid hshown ccl hccl
    exact hsnap.core_in_ccl hids hup ((valid_core_iff _ _).mp hid) hshown hccl

variable (hclasses : CoresAreClasses sys recreate state online nodeOf)

include hclasses

theorem SiblingSnapshot.separateIds : SeparateIds online coreId packageId where
  package := by
    intro first hfirst second hsecond hcore
    obtain ⟨id, -, hid, -⟩ := hclasses.own first hfirst
    have hother : HasCoreId sys recreate state second id := by
      rw [HasCoreId, hsnap.getCoreId_found hup.tables hsecond, ← hcore,
        ← hsnap.getCoreId_found hup.tables hfirst]
      exact hid
    have hlisted := (hclasses.sameId first hfirst second hsecond _
      (hsnap.siblings first hfirst)).mp ⟨id, hid, hother⟩
    exact (mem_filter.mp hlisted).2.1.symm
  marked := by
    intro cpu hcpu hmark
    obtain ⟨id, -, hid, -⟩ := hclasses.own cpu hcpu
    have habsent : (-1 : ℤ) ∉ state.topo.cores.map WaycaCore.coreId := by
      rw [hup.cores.mem_iff]
      rintro ⟨other, -, hin⟩
      unfold coreIn at hin
      split at hin
      next => cases hin
      next hne => exact hne (Option.some.inj hin)
    rw [HasCoreId, hsnap.getCoreId_found hup.tables hcpu, hmark, place_eq_length habsent,
      foundAt, if_neg (Nat.lt_irrefl _)] at hid
    have hnegative := congrArg Prod.fst (Except.ok.inj hid)
    dsimp only at hnegative
    unfold EINVAL at hnegative
    omega

theorem SiblingSnapshot.separateCores : SeparateCores n online nodeOf coreId packageId := by
  have hids := hsnap.separateIds hup hclasses
  refine ⟨hids, fun cpu hcpu hall => ?_⟩
  have hmem := (hsnap.coreTable hids hup).mem
  have hlt := place_lt_iff.mpr (hmem cpu hcpu)
  obtain ⟨creator, honline, hplace, hfirst, -, hiff⟩ := hsnap.core_creator hids hup hlt
  have hsame := place_injective (hmem creator honline) (hmem cpu hcpu) hplace
  have hcreator : creator = cpu :=
    le_antisymm (hfirst cpu hcpu hsame.symm) (hall creator honline hsame).1
  subst hcreator
  apply hiff.mp
  apply (hclasses.node _ _ ((valid_core_iff _ _).mpr hlt) _).2
  intro other hother hid
  have hcore := hid.unique (hsnap.getCoreId hids hup hother)
  exact (hall other hother (place_injective (hmem other hother) (hmem creator hcpu) hcore.symm)).2

end Exact

/-- The cores of a topology are the classes of siblings exactly where no core id is
used in two packages, none is the mark of an offline CPU, and the node that a core
was marked in is still the one in the array. -/
theorem cores_are_sibling_classes {recreate : TopoState → Outcome TopoState}
    {before state : TopoState} {coreId packageId : ℕ → ℤ}
    (hsnap : SiblingSnapshot sys n online nodeOf coreId packageId)
    (hsuccess : topoConstruct sys recreate before = .ok (state, 0)) :
    CoresAreClasses sys recreate state online nodeOf ↔
      SeparateCores n online nodeOf coreId packageId := by
  have hup := hsnap.toSnapshot.coreTables hsuccess
  exact ⟨hsnap.separateCores hup, hsnap.classes hup⟩

theorem siblings_machineSysfs {coreId clusterId packageId : ℕ → ℤ} (hboot : 0 ∈ online)
    (honline : ∀ cpu ∈ online, cpu < n) :
    SiblingSnapshot (machineSysfs n online nodeOf coreId clusterId packageId) n online nodeOf
      coreId packageId where
  toSnapshot := snapshot_machineSysfs hboot honline
  core := fun _ hcpu => if_pos hcpu
  package := fun _ hcpu => if_pos hcpu
  siblings := fun _ hcpu => if_pos hcpu

theorem cores_are_sibling_classes_two_threads :
    ∃ state, topoConstruct (machineSysfs 4 {0, 1, 2} (· / 2) (· / 2) (· / 2) 0) .ok .start =
        .ok (state, 0) ∧
      CoresAreClasses (machineSysfs 4 {0, 1, 2} (· / 2) (· / 2) (· / 2) 0) .ok state {0, 1, 2}
        (· / 2) := by
  have hsnap : SiblingSnapshot (machineSysfs 4 {0, 1, 2} (· / 2) (· / 2) (· / 2) 0) 4
      {0, 1, 2} (· / 2) (· / 2) 0 :=
    siblings_machineSysfs (by decide) (by decide)
  have hseparate : SeparateCores 4 {0, 1, 2} (· / 2) (· / 2) 0 :=
    ⟨⟨fun _ _ _ _ _ => rfl, by decide⟩, fun cpu hcpu _ => .inl (nodesFit_of_lt (by decide) cpu
      (hsnap.online_lt cpu hcpu))⟩
  have hreturn : (topoConstruct (machineSysfs 4 {0, 1, 2} (· / 2) (· / 2) (· / 2) 0) .ok
      .start).map Prod.snd = .ok 0 := rfl
  obtain ⟨state, hconstruct⟩ := success_of_return hreturn
  exact ⟨state, hconstruct, (cores_are_sibling_classes hsnap hconstruct).mpr hseparate⟩

/-- Two packages of one CPU each, with the same core id. -/
def twoPackages : Sysfs := machineSysfs 2 {0, 1} (·) 0 (·) (·)

/-- The packages share one core, which has the CPU of the first one alone. -/
theorem equal_core_ids_share_core :
    SiblingSnapshot twoPackages 2 {0, 1} (·) 0 (·) ∧
      twoPackages.cpuAttribute 0 (·.coreCpusList) = some {0} ∧
      (do let (state, ret) ← topoConstruct twoPackages .ok .start
          let (first, state) ← waycaScGetCoreId twoPackages .ok state 0
          let (second, state) ← waycaScGetCoreId twoPackages .ok state 1
          let ((_, mask), _) ← waycaScCoreCpuMask twoPackages .ok state second 8 (some ∅)
          .ok (ret, first, second, mask)) = .ok (0, 0, 0, some {0}) := by
  refine ⟨siblings_machineSysfs (by decide) (by decide), ?_, ?_⟩
  · decide +kernel
  · decide +kernel

end WaycaScheduler
