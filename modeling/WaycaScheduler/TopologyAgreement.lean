import WaycaScheduler.ListedNodes

/-!
# Ids, masks and maps agree

For a snapshot with consistent ids, the queries of the built topology fit
together: the id of an online CPU names the mask that contains it, the masks
of a level are disjoint, the nodes partition the CPUs, and the maps between
the levels say which clusters a node has and which nodes a package has.
-/

namespace WaycaScheduler

open Fallible KeyedTable Finset

variable {cpu k i : ℕ} {coreId : ℕ → ℤ}
variable {ρ : Type} {records : List ρ} {level : Level}

/-! ## Consistent snapshots -/

/-- The list of packages of an online CPU names the online CPUs that share its
id. -/
structure PackagedSnapshot (sys : Sysfs) (n : ℕ) (online : Finset ℕ) (nodeOf : ℕ → ℕ)
    (packageId : ℕ → ℤ) : Prop extends Snapshot sys n online nodeOf where
  package : ∀ cpu ∈ online, sys.cpuAttribute cpu (·.physicalPackageId) = some (packageId cpu)
  packageCpus : ∀ cpu ∈ online, sys.cpuAttribute cpu (·.packageCpusList) =
    some (online.filter fun other => packageId other = packageId cpu)

/-- The same of the clusters. -/
structure ClusteredSnapshot (sys : Sysfs) (n : ℕ) (online : Finset ℕ) (nodeOf : ℕ → ℕ)
    (clusterId packageId : ℕ → ℤ) : Prop
    extends PackagedSnapshot sys n online nodeOf packageId where
  cluster : ∀ cpu ∈ online, sys.cpuAttribute cpu (·.clusterId) = some (clusterId cpu)
  clusterCpus : ∀ cpu ∈ online, sys.cpuAttribute cpu (·.clusterCpusList) =
    some (online.filter fun other => clusterId other = clusterId cpu)

/-- An offline CPU shows no cluster, or one with the online CPUs of it. -/
structure ListedSnapshot (sys : Sysfs) (n : ℕ) (online : Finset ℕ) (nodeOf : ℕ → ℕ)
    (clusterId packageId : ℕ → ℤ) : Prop
    extends ClusteredSnapshot sys n online nodeOf clusterId packageId where
  offlineCpus : ∀ cpu < n, cpu ∉ online → ∀ id, sys.cpuAttribute cpu (·.clusterId) = some id →
    sys.cpuAttribute cpu (·.clusterCpusList) =
      some (online.filter fun other => clusterId other = id)

/-- The nodes are numbered from zero on in the order in which the CPUs meet
them. -/
structure ConsistentSnapshot (sys : Sysfs) (n : ℕ) (online : Finset ℕ) (nodeOf : ℕ → ℕ)
    (clusterId packageId : ℕ → ℤ) : Prop
    extends ClusteredSnapshot sys n online nodeOf clusterId packageId where
  ascending : ∀ cpu < n, 0 < nodeOf cpu → ∃ earlier < cpu, nodeOf earlier + 1 = nodeOf cpu

variable {sys : Sysfs} {recreate : TopoState → Outcome TopoState} {state : TopoState} {n : ℕ}
  {online : Finset ℕ} {nodeOf : ℕ → ℕ} {clusterId packageId : ℕ → ℤ}

section Snapshot

variable (hsnap : ConsistentSnapshot sys n online nodeOf clusterId packageId)

include hsnap

theorem ConsistentSnapshot.nodeOf_le (hcpu : cpu < n) : nodeOf cpu ≤ cpu := by
  induction cpu using Nat.strong_induction_on with
  | _ cpu ih =>
      rcases Nat.eq_zero_or_pos (nodeOf cpu) with hzero | hpos
      · omega
      · obtain ⟨earlier, hearlier, hnode⟩ := hsnap.ascending cpu hcpu hpos
        have hbound := ih earlier hearlier (hearlier.trans hcpu)
        omega

theorem ConsistentSnapshot.node_below (hcpu : cpu < n) (hk : k ≤ nodeOf cpu) :
    ∃ other < n, nodeOf other = k := by
  induction cpu using Nat.strong_induction_on with
  | _ cpu ih =>
      rcases hk.eq_or_lt with heq | hlt
      · exact ⟨cpu, hcpu, heq.symm⟩
      · obtain ⟨earlier, hearlier, hnode⟩ := hsnap.ascending cpu hcpu (by omega)
        exact ih earlier hearlier (hearlier.trans hcpu) (by omega)

theorem ConsistentSnapshot.nodeNumbers_eq :
    (range n).image nodeOf = range ((range n).image nodeOf).card := by
  apply eq_of_subset_of_card_le
  · intro k hk
    obtain ⟨cpu, hcpu, rfl⟩ := mem_image.mp hk
    have hbelow : range (nodeOf cpu + 1) ⊆ (range n).image nodeOf := by
      intro j hj
      obtain ⟨other, hother, hnode⟩ := hsnap.node_below (mem_range.mp hcpu)
        (Nat.lt_succ_iff.mp (mem_range.mp hj))
      exact mem_image.mpr ⟨other, mem_range.mpr hother, hnode⟩
    have hcard := card_le_card hbelow
    rw [card_range] at hcard
    exact mem_range.mpr hcard
  · rw [card_range]

theorem ConsistentSnapshot.nodesFit : NodesFit n nodeOf :=
  fun _ hcpu => lt_cpuAllocSize ((hsnap.nodeOf_le hcpu).trans_lt hcpu)

end Snapshot

/-! ## The largest count of a list -/

theorem foldl_max_le (count : ρ → ℕ) {bound start : ℕ}
    (hstart : start ≤ bound) (hrecords : ∀ record ∈ records, count record ≤ bound) :
    records.foldl (fun most record => max most (count record)) start ≤ bound := by
  induction records generalizing start with
  | nil => exact hstart
  | cons first rest ih =>
      apply ih
      · exact max_le hstart (hrecords first List.mem_cons_self)
      · exact fun record hrecord => hrecords record (List.mem_cons_of_mem first hrecord)

theorem start_le_foldl_max (count : ρ → ℕ) (start : ℕ) (records : List ρ) :
    start ≤ records.foldl (fun most record => max most (count record)) start := by
  induction records generalizing start with
  | nil => exact le_rfl
  | cons first rest ih => exact (le_max_left _ _).trans (ih _)

theorem le_foldl_max (count : ρ → ℕ) (start : ℕ) {record : ρ}
    (hrecord : record ∈ records) :
    count record ≤ records.foldl (fun most record => max most (count record)) start := by
  induction records generalizing start with
  | nil => cases hrecord
  | cons first rest ih =>
      rcases List.mem_cons.mp hrecord with rfl | hrest
      · exact (le_max_right _ _).trans (start_le_foldl_max count _ rest)
      · exact ih _ hrest

/-! ## The queries of a level -/

inductive Level where
  | node
  | ccl
  | package

def Level.getId (level : Level) (sys : Sysfs) (recreate : TopoState → Outcome TopoState) :
    TopoState → ℤ → Outcome (ℤ × TopoState) :=
  match level with
  | .node => waycaScGetNodeId
  | .ccl => waycaScGetCclId sys recreate
  | .package => waycaScGetPackageId sys recreate

def Level.cpuMask (level : Level) (sys : Sysfs) (recreate : TopoState → Outcome TopoState) :
    TopoState → ℤ → ℕ → Option (Finset ℕ) → Outcome ((ℤ × Option (Finset ℕ)) × TopoState) :=
  match level with
  | .node => waycaScNodeCpuMask sys recreate
  | .ccl => waycaScCclCpuMask sys recreate
  | .package => waycaScPackageCpuMask sys recreate

def Level.isValid (level : Level) : WaycaTopo → ℤ → Bool :=
  match level with
  | .node => topoIsValidNode
  | .ccl => topoIsValidCcl
  | .package => topoIsValidPackage

/-- The id that the level has for the CPU. -/
def Level.Answers (level : Level) (sys : Sysfs) (recreate : TopoState → Outcome TopoState)
    (state : TopoState) (cpu : ℕ) (id : ℤ) : Prop :=
  ∃ after, level.getId sys recreate state cpu = .ok (id, after) ∧ after.topo = state.topo

/-- The CPUs that the level has for the id. -/
def Level.HasMask (level : Level) (sys : Sysfs) (recreate : TopoState → Outcome TopoState)
    (state : TopoState) (id : ℤ) (mask : Finset ℕ) : Prop :=
  Reports (level.cpuMask sys recreate state id) state state.topo.nCpus mask

/-- The ids of the CPUs and the masks of the ids are inverse to each other. -/
structure LevelAgrees (sys : Sysfs) (recreate : TopoState → Outcome TopoState)
    (state : TopoState) (online : Finset ℕ) (level : Level) : Prop where
  hasMask : ∀ id : ℕ, level.isValid state.topo id = true →
    ∃ mask, level.HasMask sys recreate state id mask
  own : ∀ cpu ∈ online, ∃ id : ℕ, ∃ mask, level.Answers sys recreate state cpu id ∧
    level.isValid state.topo id = true ∧ level.HasMask sys recreate state id mask ∧ cpu ∈ mask ∧
    ∀ other ∈ online, other ∈ mask ↔ level.Answers sys recreate state other id
  disjoint : ∀ (first second : ℕ) (firstMask secondMask : Finset ℕ), first ≠ second →
    level.isValid state.topo first = true → level.isValid state.topo second = true →
    level.HasMask sys recreate state first firstMask →
    level.HasMask sys recreate state second secondMask → Disjoint firstMask secondMask

/-- A level as a table of masks with a place for each CPU. -/
structure LevelTable (sys : Sysfs) (recreate : TopoState → Outcome TopoState)
    (state : TopoState) (online : Finset ℕ) (level : Level) (count : ℕ)
    (maskAt : ℕ → Finset ℕ) (placeOf : ℕ → ℕ) : Prop where
  valid : ∀ id : ℕ, level.isValid state.topo id = true ↔ id < count
  hasMask : ∀ id < count, level.HasMask sys recreate state id (maskAt id)
  answers : ∀ cpu ∈ online, level.Answers sys recreate state cpu (placeOf cpu)
  placeOf_lt : ∀ cpu ∈ online, placeOf cpu < count
  mem_iff : ∀ id < count, ∀ cpu ∈ online, cpu ∈ maskAt id ↔ placeOf cpu = id
  disjoint : ∀ first < count, ∀ second < count, first ≠ second →
    Disjoint (maskAt first) (maskAt second)

theorem Level.Answers.unique {first second : ℤ}
    (hfirst : level.Answers sys recreate state cpu first)
    (hsecond : level.Answers sys recreate state cpu second) : first = second := by
  obtain ⟨after, hafter, -⟩ := hfirst
  obtain ⟨other, hother, -⟩ := hsecond
  rw [hafter] at hother
  cases hother
  rfl

theorem LevelTable.agrees {count : ℕ} {maskAt : ℕ → Finset ℕ} {placeOf : ℕ → ℕ}
    (htable : LevelTable sys recreate state online level count maskAt placeOf) :
    LevelAgrees sys recreate state online level where
  hasMask := fun id hid => ⟨maskAt id, htable.hasMask id ((htable.valid id).mp hid)⟩
  own := by
    intro cpu hcpu
    have hlt := htable.placeOf_lt cpu hcpu
    refine ⟨placeOf cpu, maskAt (placeOf cpu), htable.answers cpu hcpu,
      (htable.valid _).mpr hlt, htable.hasMask _ hlt, (htable.mem_iff _ hlt cpu hcpu).mpr rfl, ?_⟩
    intro other hother
    rw [htable.mem_iff _ hlt other hother]
    constructor
    · intro hplace
      rw [← hplace]
      exact htable.answers other hother
    · intro hanswer
      exact_mod_cast (htable.answers other hother).unique hanswer
  disjoint := by
    intro first second firstMask secondMask hne hfirst hsecond hfirstMask hsecondMask
    have hfirstLt := (htable.valid first).mp hfirst
    have hsecondLt := (htable.valid second).mp hsecond
    rw [hfirstMask.unique (htable.hasMask first hfirstLt),
      hsecondMask.unique (htable.hasMask second hsecondLt)]
    exact htable.disjoint first hfirstLt second hsecondLt hne

/-! ## Tables of online CPUs -/

section OnlineTable

variable {ρ : Type} {key : ρ → ℤ} {cpus : ρ → Finset ℕ} {table : List ρ} {id : ℕ → ℤ}

/-- The mask of a record has the online CPUs with its key and no CPU of another
mask. -/
structure MaskTable (key : ρ → ℤ) (cpus : ρ → Finset ℕ) (id : ℕ → ℤ) (online : Finset ℕ)
    (table : List ρ) : Prop where
  nodup : (table.map key).Nodup
  mem : ∀ cpu ∈ online, id cpu ∈ table.map key
  members : ∀ record ∈ table, ∀ cpu ∈ online, cpu ∈ cpus record ↔ id cpu = key record
  apart : ∀ first ∈ table, ∀ second ∈ table, key first ≠ key second →
    Disjoint (cpus first) (cpus second)

structure OnlineTable (key : ρ → ℤ) (cpus : ρ → Finset ℕ) (id : ℕ → ℤ) (online : Finset ℕ)
    (table : List ρ) : Prop where
  nodup : (table.map key).Nodup
  mem : ∀ cpu ∈ online, id cpu ∈ table.map key
  cpus : ∀ record ∈ table, cpus record = online.filter fun cpu => id cpu = key record

theorem OnlineTable.masks (htable : OnlineTable key cpus id online table) :
    MaskTable key cpus id online table where
  nodup := htable.nodup
  mem := htable.mem
  members := fun record hrecord cpu hcpu => by
    rw [htable.cpus record hrecord, mem_filter, and_iff_right hcpu]
  apart := by
    intro first hfirst second hsecond hne
    rw [htable.cpus first hfirst, htable.cpus second hsecond]
    exact disjoint_filter.mpr fun _ _ hid hother => hne (hid.symm.trans hother)

def maskAt (cpus : ρ → Finset ℕ) (table : List ρ) (i : ℕ) : Finset ℕ :=
  (table[i]?).elim ∅ cpus

theorem maskAt_of_record {record : ρ} (hrecord : table[i]? = some record) :
    maskAt cpus table i = cpus record := by
  rw [maskAt, hrecord, Option.elim_some]

section

variable (htable : MaskTable key cpus id online table)

include htable

theorem MaskTable.mem_iff (hi : i < table.length) (hcpu : cpu ∈ online) :
    cpu ∈ maskAt cpus table i ↔ place key table (id cpu) = i := by
  have hrecord := List.getElem?_eq_getElem hi
  rw [maskAt_of_record hrecord, htable.members _ (List.getElem_mem hi) cpu hcpu,
    place_eq_iff htable.nodup (htable.mem cpu hcpu) hrecord]

theorem MaskTable.disjoint {j : ℕ} (hi : i < table.length) (hj : j < table.length)
    (hne : i ≠ j) : Disjoint (maskAt cpus table i) (maskAt cpus table j) := by
  have hrecord := List.getElem?_eq_getElem hi
  have hother := List.getElem?_eq_getElem hj
  rw [maskAt_of_record hrecord, maskAt_of_record hother]
  refine htable.apart _ (List.getElem_mem hi) _ (List.getElem_mem hj) fun hsame => hne ?_
  rw [← place_of_record htable.nodup hrecord, hsame, place_of_record htable.nodup hother]

/-- The queries of a level answer from its table. -/
theorem MaskTable.levelTable
    (hvalid : ∀ i : ℕ, level.isValid state.topo i = true ↔ i < table.length)
    (hmask : ∀ (i : ℕ) (hi : i < table.length), level.HasMask sys recreate state i (cpus table[i]))
    (hanswers : ∀ cpu ∈ online, level.Answers sys recreate state cpu
      (place key table (id cpu) : ℕ)) :
    LevelTable sys recreate state online level table.length (maskAt cpus table)
      (fun cpu => place key table (id cpu)) where
  valid := hvalid
  hasMask := by
    intro i hi
    rw [maskAt_of_record (List.getElem?_eq_getElem hi)]
    exact hmask i hi
  answers := hanswers
  placeOf_lt := fun cpu hcpu => place_lt_iff.mpr (htable.mem cpu hcpu)
  mem_iff := fun i hi cpu hcpu => htable.mem_iff hi hcpu
  disjoint := fun first hfirst second hsecond hne => htable.disjoint hfirst hsecond hne

end

end OnlineTable

theorem Built.nodeAt {topo : WaycaTopo} (hbuilt : Built sys n online nodeOf topo)
    (hk : k ∈ topo.nodeMap) : topo.nodeAt k = .ok (topo.node k) := by
  obtain ⟨p, hslot⟩ := Option.isSome_iff_exists.mp ((hbuilt.wellFormed.created k).mp hk)
  obtain ⟨node, hobject, -⟩ := hbuilt.wellFormed.pointer k p hslot
  obtain ⟨hat, hnode⟩ := nodeAt_eq hslot hobject
  rw [hat, hnode]

theorem foundAt_of_mem {key : ρ → ℤ} {table : List ρ} {id : ℤ}
    (hmem : id ∈ table.map key) :
    foundAt (place key table id) table.length = (place key table id : ℕ) :=
  if_pos (place_lt_iff.mpr hmem)

theorem elementAt_eq {α : Type} {array : List α} (hi : i < array.length) :
    elementAt array i = .ok (array.get ⟨i, hi⟩) := by
  unfold elementAt
  rw [Int.toNat_natCast, List.getElem?_eq_getElem hi]
  rfl

/-! ## Clusters and packages -/

theorem Snapshot.readOnline (hsnap : Snapshot sys n online nodeOf) (id : ℕ → ℤ) (value : ℤ) :
    WaycaScheduler.readCpulist (some (online.filter fun cpu => id cpu = value))
      sys.kernelMaxCpus = some (online.filter fun cpu => id cpu = value) :=
  hsnap.readCpulist fun cpu hcpu => hsnap.online_lt cpu (mem_filter.mp hcpu).1

theorem Snapshot.online_built (hsnap : Snapshot sys n online nodeOf)
    (hbuilt : TablesBuilt sys n online nodeOf state.topo) (hcpu : cpu ∈ online) :
    cpu < state.topo.nCpus ∧ state.topo.isOnline cpu = true := by
  have hlt := hsnap.online_lt cpu hcpu
  rw [hbuilt.framed.nCpus, hsnap.isOnline hbuilt.framed hlt]
  exact ⟨hlt, decide_eq_true hcpu⟩

section Packaged

variable (hpackaged : PackagedSnapshot sys n online nodeOf packageId)

include hpackaged

theorem PackagedSnapshot.packageIn_eq (cpu : ℕ) :
    packageIn sys online cpu = if cpu ∈ online then some (packageId cpu) else none := by
  unfold packageIn packageOf
  simp only [decide_eq_true_eq]
  split
  next honline => exact hpackaged.package cpu honline
  next => rfl

variable (hbuilt : TablesBuilt sys n online nodeOf state.topo)

include hbuilt

theorem PackagedSnapshot.packageCpuMap {package : WaycaPackage}
    (hpackage : package ∈ state.topo.packages) :
    package.cpuMap = online.filter fun cpu => packageId cpu = package.physicalPackageId := by
  obtain ⟨cpu, hcpu, hin, hpart⟩ := hbuilt.newPackages package hpackage
  rw [hpackaged.packageIn_eq] at hin
  split at hin
  next honline =>
    have hid : packageId cpu = package.physicalPackageId := Option.some.inj hin
    rw [show package.cpuMap = _ from congrArg (·.2.2) hpart, ← hid]
    simp only [WaycaPackage.cpuPart, newPackage, hpackaged.packageCpus cpu honline,
      hbuilt.framed.kernelMaxCpus, hpackaged.toSnapshot.readOnline, Option.getD_some]
  next => cases hin

theorem PackagedSnapshot.packageTable :
    OnlineTable WaycaPackage.physicalPackageId WaycaPackage.cpuMap packageId online
      state.topo.packages where
  nodup := hbuilt.packages.nodup
  mem := by
    intro cpu hcpu
    apply hbuilt.packages.mem (mem_range.mpr (hpackaged.online_lt cpu hcpu))
    rw [hpackaged.packageIn_eq, if_pos hcpu]
  cpus := fun _ hpackage => hpackaged.packageCpuMap hbuilt hpackage

theorem PackagedSnapshot.getPackageId (hcpu : cpu ∈ online) :
    Level.Answers .package sys recreate state cpu
      (place WaycaPackage.physicalPackageId state.topo.packages (packageId cpu) : ℕ) := by
  obtain ⟨hlt, honline⟩ := hpackaged.toSnapshot.online_built hbuilt hcpu
  obtain ⟨found, hfound, hkept⟩ := hbuilt.records cpu (hpackaged.online_lt cpu hcpu)
  have hagrees := hpackaged.onlineAgrees hbuilt.framed
  have hmem := (hpackaged.packageTable hbuilt).mem cpu hcpu
  obtain ⟨package, hpackage, hid⟩ := record_at_place hmem
  have hpointer : found.pPackage =
      some (place WaycaPackage.physicalPackageId state.topo.packages (packageId cpu)) := by
    rw [hkept.pPackage, hpackaged.packageIn_eq, if_pos hcpu, Option.map_some]
  refine ⟨state, ?_, rfl⟩
  unfold Level.getId waycaScGetPackageId
  dsimp only
  rw [onlineQuery_of_agrees hagrees hlt honline hfound]
  simp only [bind, Except.bind, deref, hpointer, hpackage, hid, findPackage_eq, foundAt_of_mem hmem]

end Packaged

theorem cpusInCcl_returns {ccl : WaycaCluster} (hccl : ccl ∈ state.topo.ccls)
    (hsome : 0 < ccl.nCpus) (hle : ∀ ccl ∈ state.topo.ccls, ccl.nCpus ≤ state.topo.nCpus) :
    ∃ (count : ℕ) (after : TopoState),
      waycaScCpusInCcl state = ((count : ℤ), after) ∧ after.topo = state.topo := by
  have hpresent : ¬ state.topo.ccls.length < 1 := by
    have := List.length_pos_of_mem hccl
    omega
  have hmost := foldl_max_le WaycaCluster.nCpus (Nat.zero_le _) hle
  have hpos := hsome.trans_le (le_foldl_max WaycaCluster.nCpus 0 hccl)
  have hmax : 0 < state.topo.nCpus /
      state.topo.ccls.foldl (fun most ccl => max most ccl.nCpus) 0 := Nat.div_pos hmost hpos
  unfold waycaScCpusInCcl waycaScCclsInTotal
  simp only [hpresent, if_false, hpos, if_true, hmax]
  exact ⟨_, _, rfl, rfl⟩

/-- A CPU has the id of a cluster only if no cluster has more CPUs than the
system. -/
theorem Level.Answers.cpusInCcl {id : ℕ} (hanswers : Level.Answers .ccl sys recreate state cpu id) :
    (∃ (count : ℕ) (after : TopoState),
      waycaScCpusInCcl state = ((count : ℤ), after) ∧ after.topo = state.topo) ∧
      ∀ ccl ∈ state.topo.ccls, ccl.nCpus ≤ state.topo.nCpus := by
  obtain ⟨result, hresult, -⟩ := hanswers
  have hcount : 0 ≤ (waycaScCpusInCcl state).1 := by
    by_contra hneg
    unfold Level.getId waycaScGetCclId at hresult
    simp only [if_pos (not_le.mp hneg)] at hresult
    split at hresult
    all_goals
      have hid := (Prod.mk.inj (Except.ok.inj hresult)).1
      unfold EINVAL at hid
      omega
  have hmost := fun ccl (hccl : ccl ∈ state.topo.ccls) => le_foldl_max WaycaCluster.nCpus 0 hccl
  unfold waycaScCpusInCcl waycaScCclsInTotal at hcount ⊢
  generalize state.topo.ccls.foldl (fun most ccl => max most ccl.nCpus) 0 = most at hmost hcount ⊢
  have hfails : ¬ 0 ≤ -ENODATA := by decide
  by_cases hnone : state.topo.ccls.length < 1
  · rw [if_pos hnone] at hcount
    exact absurd hcount hfails
  by_cases hsome : 0 < most
  · simp only [hnone, hsome, if_false, if_true] at hcount ⊢
    split at hcount
    next hmax =>
      rw [if_pos hmax]
      exact ⟨⟨_, _, rfl, rfl⟩, fun ccl hccl =>
        (hmost ccl hccl).trans (Nat.div_pos_iff.mp hmax).2⟩
    next => exact absurd hcount hfails
  · simp only [hnone, hsome, if_false] at hcount ⊢
    split at hcount
    next hmax =>
      rw [if_pos hmax]
      exact ⟨⟨_, _, rfl, rfl⟩, fun ccl hccl => (hmost ccl hccl).trans (by omega)⟩
    next => exact absurd hcount hfails

theorem Snapshot.getCclId (hsnap : Snapshot sys n online nodeOf)
    (hbuilt : TablesBuilt sys n online nodeOf state.topo)
    (hcount : ∃ (count : ℕ) (after : TopoState),
      waycaScCpusInCcl state = ((count : ℤ), after) ∧ after.topo = state.topo)
    {cpu : ℕ} (hcpu : cpu ∈ online) {id : ℤ}
    (hcluster : sys.cpuAttribute cpu (·.clusterId) = some id) :
    Level.Answers .ccl sys recreate state cpu
      (place WaycaCluster.clusterId state.topo.ccls id : ℕ) := by
  obtain ⟨hlt, honline⟩ := hsnap.online_built hbuilt hcpu
  obtain ⟨count, after, hcount, htopo⟩ := hcount
  obtain ⟨found, hfound, hkept⟩ := hbuilt.records cpu (hsnap.online_lt cpu hcpu)
  have hagrees := hsnap.onlineAgrees hbuilt.framed
  have hmem := hbuilt.ccls.mem (mem_range.mpr (hsnap.online_lt cpu hcpu)) hcluster
  obtain ⟨ccl, hccl, hid⟩ := record_at_place hmem
  have hpointer : found.pCluster = some (place WaycaCluster.clusterId state.topo.ccls id) := by
    rw [hkept.pCluster, clusterOf, hcluster, Option.map_some]
  have hvalid : topoIsValidCpu state.topo cpu = true := valid_iff.mpr hlt
  refine ⟨after, ?_, htopo⟩
  unfold Level.getId waycaScGetCclId
  simp only [hvalid, Bool.not_true, Bool.false_eq_true, if_false, hcount,
    not_lt.mpr (Int.natCast_nonneg count)]
  rw [← htopo] at hagrees hlt honline hfound hpointer hccl hmem ⊢
  rw [onlineQuery_of_agrees hagrees hlt honline hfound]
  simp only [bind, Except.bind, deref, hpointer, hccl, hid, findCcl_eq, foundAt_of_mem hmem]

/-! ## The lists of the clusters -/

/-- The list that the construction reads for a cluster, that of the first CPU that
shows it.  This CPU may be offline. -/
def cclList (sys : Sysfs) (n : ℕ) (id : ℤ) : Finset ℕ :=
  ((List.range n).find? fun cpu => clusterOf sys cpu = some id).elim ∅ fun cpu =>
    (readCpulist (sys.cpuAttribute cpu (·.clusterCpusList)) sys.kernelMaxCpus).getD ∅

/-- The lists name the online CPUs of their clusters.  No two of them have a CPU in
common, in the bits of a mask, and none has more CPUs than the system. -/
structure ListsCcls (sys : Sysfs) (n : ℕ) (online : Finset ℕ) (clusterId : ℕ → ℤ) : Prop where
  members : ∀ id, ∀ cpu ∈ online, cpu ∈ cclList sys n id ↔ clusterId cpu = id
  apart : Pairwise fun id other => Disjoint (cpuSeen (cpuAllocSize n) (cclList sys n id))
    (cpuSeen (cpuAllocSize n) (cclList sys n other))
  count : ∀ id, cpuCountS (cpuAllocSize sys.kernelMaxCpus) (cclList sys n id) ≤ n

section Ccls

variable (hbuilt : TablesBuilt sys n online nodeOf state.topo)

include hbuilt

theorem TablesBuilt.cclCpus {ccl : WaycaCluster} (hccl : ccl ∈ state.topo.ccls) :
    ccl.cpuMap = cclList sys n ccl.clusterId ∧
      ccl.nCpus = cpuCountS (cpuAllocSize sys.kernelMaxCpus) ccl.cpuMap := by
  obtain ⟨cpu, hcpu, ⟨hshows, hfirst⟩, hpart⟩ := hbuilt.newCcls ccl hccl
  have hfind : (List.range n).find? (fun cpu => clusterOf sys cpu = some ccl.clusterId) =
      some cpu := by
    simpa [List.find?_range_eq_some, hcpu, hshows] using hfirst
  have hmap : ccl.cpuMap = _ := congrArg (·.2.2) hpart
  refine ⟨?_, ?_⟩
  · rw [hmap, cclList, hfind, Option.elim_some, ← hbuilt.framed.kernelMaxCpus]
    rfl
  · rw [hmap, ← hbuilt.framed.setsize]
    exact congrArg (·.2.1) hpart

theorem TablesBuilt.mem_ccls_of_list {id : ℤ} (hcpu : cpu ∈ cclList sys n id) :
    id ∈ state.topo.ccls.map WaycaCluster.clusterId := by
  unfold cclList at hcpu
  cases hfind : (List.range n).find? fun cpu => clusterOf sys cpu = some id with
  | none =>
      rw [hfind] at hcpu
      exact absurd hcpu (notMem_empty cpu)
  | some first =>
      exact hbuilt.ccls.mem (mem_range.mpr (List.mem_range.mp (List.mem_of_find?_eq_some hfind)))
        (by simpa using List.find?_some hfind)

end Ccls

section Clustered

variable (hsnap : ClusteredSnapshot sys n online nodeOf clusterId packageId)
  (hbuilt : TablesBuilt sys n online nodeOf state.topo)

include hsnap hbuilt

theorem ClusteredSnapshot.mem_ccls (hcpu : cpu ∈ online) :
    clusterId cpu ∈ state.topo.ccls.map WaycaCluster.clusterId :=
  hbuilt.ccls.mem (mem_range.mpr (hsnap.online_lt cpu hcpu)) (hsnap.cluster cpu hcpu)

theorem ClusteredSnapshot.cclMask (hi : i < state.topo.ccls.length) :
    Level.HasMask .ccl sys recreate state i
      (cpuSeen (cpuAllocSize n) state.topo.ccls[i].cpuMap) := by
  rw [← hbuilt.framed.nCpus]
  unfold Level.HasMask Level.cpuMask waycaScCclCpuMask
  apply maskQuery_reports_seen (hsnap.onlineAgrees hbuilt.framed) (valid_iff.mpr hi)
  rw [elementAt_eq hi]
  rfl

section Lists

variable (hlists : ListsCcls sys n online clusterId)

include hlists

theorem ClusteredSnapshot.getCclId (hcpu : cpu ∈ online) :
    Level.Answers .ccl sys recreate state cpu
      (place WaycaCluster.clusterId state.topo.ccls (clusterId cpu) : ℕ) := by
  obtain ⟨ccl, hccl, hid⟩ := record_at_place (hsnap.mem_ccls hbuilt hsnap.boot)
  have hmem := List.mem_of_getElem? hccl
  have hsome : 0 < ccl.nCpus := by
    obtain ⟨hmap, hcount⟩ := hbuilt.cclCpus hmem
    rw [hcount, hmap, cpuCountS, card_pos]
    exact ⟨0, mem_filter.mpr ⟨(hlists.members _ 0 hsnap.boot).mpr hid.symm, lt_cpuAllocSize
      ((hsnap.online_lt 0 hsnap.boot).trans_le hsnap.fits)⟩⟩
  have hle : ∀ ccl ∈ state.topo.ccls, ccl.nCpus ≤ state.topo.nCpus := by
    intro ccl hccl
    obtain ⟨hmap, hcount⟩ := hbuilt.cclCpus hccl
    rw [hcount, hmap, hbuilt.framed.nCpus]
    exact hlists.count _
  exact hsnap.toSnapshot.getCclId hbuilt (cpusInCcl_returns hmem hsome hle) hcpu
    (hsnap.cluster cpu hcpu)

theorem ClusteredSnapshot.cclLevel :
    LevelTable sys recreate state online .ccl state.topo.ccls.length
      (maskAt (fun ccl => cpuSeen (cpuAllocSize n) ccl.cpuMap) state.topo.ccls)
      (fun cpu => place WaycaCluster.clusterId state.topo.ccls (clusterId cpu)) := by
  have htable : MaskTable WaycaCluster.clusterId
      (fun ccl => cpuSeen (cpuAllocSize n) ccl.cpuMap) clusterId online state.topo.ccls := by
    refine ⟨hbuilt.ccls.nodup, fun cpu hcpu => hsnap.mem_ccls hbuilt hcpu, ?_, ?_⟩
    · intro ccl hccl cpu hcpu
      rw [cpuSeen, mem_filter, and_iff_left (lt_cpuAllocSize (hsnap.online_lt cpu hcpu)),
        (hbuilt.cclCpus hccl).1, hlists.members _ cpu hcpu]
    · intro first hfirst second hsecond hne
      rw [(hbuilt.cclCpus hfirst).1, (hbuilt.cclCpus hsecond).1]
      exact hlists.apart hne
  exact htable.levelTable (fun _ => valid_iff) (fun i hi => hsnap.cclMask hbuilt hi)
    fun cpu hcpu => hsnap.getCclId hbuilt hlists hcpu

end Lists

theorem ClusteredSnapshot.listMask {id : ℤ}
    (hid : id ∈ state.topo.ccls.map WaycaCluster.clusterId) :
    Level.HasMask .ccl sys recreate state (place WaycaCluster.clusterId state.topo.ccls id : ℕ)
      (cpuSeen (cpuAllocSize n) (cclList sys n id)) := by
  obtain ⟨ccl, hccl, rfl⟩ := record_at_place hid
  obtain ⟨hlt, hget⟩ := List.getElem?_eq_some_iff.mp hccl
  have hmask : Level.HasMask .ccl sys recreate state _ _ := hsnap.cclMask hbuilt hlt
  rwa [hget, (hbuilt.cclCpus (List.mem_of_getElem? hccl)).1] at hmask

theorem ClusteredSnapshot.listsCcls_of_agrees
    (hagrees : LevelAgrees sys recreate state online .ccl) :
    ListsCcls sys n online clusterId := by
  obtain ⟨_, _, hboot, -⟩ := hagrees.own 0 hsnap.boot
  obtain ⟨hreturns, hle⟩ := hboot.cpusInCcl
  have hapart : Pairwise fun id other => Disjoint (cpuSeen (cpuAllocSize n) (cclList sys n id))
      (cpuSeen (cpuAllocSize n) (cclList sys n other)) := by
    intro id other hne
    rw [disjoint_left]
    intro cpu hmem hother
    have hid := hbuilt.mem_ccls_of_list (mem_filter.mp hmem).1
    have hid' := hbuilt.mem_ccls_of_list (mem_filter.mp hother).1
    exact disjoint_left.mp (hagrees.disjoint _ _ _ _
      (fun hplace => hne (place_injective hid hid' hplace))
      (valid_iff.mpr (place_lt_iff.mpr hid)) (valid_iff.mpr (place_lt_iff.mpr hid'))
      (hsnap.listMask hbuilt hid) (hsnap.listMask hbuilt hid')) hmem hother
  refine ⟨fun id cpu hcpu => ?_, hapart, fun id => ?_⟩
  · have hfits := lt_cpuAllocSize (hsnap.online_lt cpu hcpu)
    have hown : cpu ∈ cclList sys n (clusterId cpu) := by
      obtain ⟨k, mask, hanswer, -, hmask, hmem, -⟩ := hagrees.own cpu hcpu
      rw [hanswer.unique (hsnap.toSnapshot.getCclId hbuilt hreturns hcpu
        (hsnap.cluster cpu hcpu))] at hmask
      rw [hmask.unique (hsnap.listMask hbuilt (hsnap.mem_ccls hbuilt hcpu))] at hmem
      exact (mem_filter.mp hmem).1
    constructor
    · intro hmem
      by_contra hne
      exact disjoint_left.mp (hapart hne) (mem_filter.mpr ⟨hown, hfits⟩)
        (mem_filter.mpr ⟨hmem, hfits⟩)
    · rintro rfl
      exact hown
  · rcases (cclList sys n id).eq_empty_or_nonempty with hempty | ⟨cpu, hcpu⟩
    · rw [hempty]
      exact Nat.zero_le n
    · obtain ⟨ccl, hccl, rfl⟩ := List.mem_map.mp (hbuilt.mem_ccls_of_list hcpu)
      obtain ⟨hmap, hcount⟩ := hbuilt.cclCpus hccl
      rw [← hmap, ← hcount, ← hbuilt.framed.nCpus]
      exact hle ccl hccl

end Clustered

section Listed

variable (hlisted : ListedSnapshot sys n online nodeOf clusterId packageId)

include hlisted

theorem ListedSnapshot.cclList_eq (id : ℤ) :
    cclList sys n id = online.filter fun cpu => clusterId cpu = id := by
  unfold cclList
  cases hfind : (List.range n).find? fun cpu => clusterOf sys cpu = some id with
  | none =>
      refine (filter_eq_empty_iff.mpr fun cpu hcpu hid => ?_).symm
      refine List.find?_eq_none.mp hfind cpu (List.mem_range.mpr (hlisted.online_lt cpu hcpu)) ?_
      exact decide_eq_true (hid ▸ hlisted.cluster cpu hcpu)
  | some cpu =>
      have hcluster : clusterOf sys cpu = some id := by simpa using List.find?_some hfind
      have hcpu := List.mem_range.mp (List.mem_of_find?_eq_some hfind)
      have hlist : sys.cpuAttribute cpu (·.clusterCpusList) =
          some (online.filter fun other => clusterId other = id) := by
        by_cases honline : cpu ∈ online
        · rw [← Option.some.inj ((hlisted.cluster cpu honline).symm.trans hcluster)]
          exact hlisted.clusterCpus cpu honline
        · exact hlisted.offlineCpus cpu hcpu honline id hcluster
      rw [Option.elim_some, hlist, hlisted.toSnapshot.readOnline, Option.getD_some]

theorem ListedSnapshot.countCclList (id : ℤ) :
    cpuCountS (cpuAllocSize sys.kernelMaxCpus) (cclList sys n id) = (cclList sys n id).card := by
  rw [cpuCountS, cpuSeen_of_fits]
  intro cpu hcpu
  rw [hlisted.cclList_eq] at hcpu
  exact lt_cpuAllocSize ((hlisted.online_lt cpu (mem_filter.mp hcpu).1).trans_le hlisted.fits)

theorem ListedSnapshot.listsCcls : ListsCcls sys n online clusterId where
  members := fun id cpu hcpu => by rw [hlisted.cclList_eq, mem_filter, and_iff_right hcpu]
  apart := by
    intro id other hne
    rw [hlisted.cclList_eq, hlisted.cclList_eq]
    exact disjoint_filter_filter
      (disjoint_filter.mpr fun _ _ hid hother => hne (hid.symm.trans hother))
  count := by
    intro id
    rw [hlisted.countCclList, hlisted.cclList_eq, ← card_range n]
    exact card_le_card fun cpu hcpu =>
      mem_range.mpr (hlisted.online_lt cpu (mem_filter.mp hcpu).1)

variable (hbuilt : TablesBuilt sys n online nodeOf state.topo)

include hbuilt

theorem ListedSnapshot.cclCpus {ccl : WaycaCluster} (hccl : ccl ∈ state.topo.ccls) :
    ccl.cpuMap = online.filter (fun cpu => clusterId cpu = ccl.clusterId) ∧
      ccl.nCpus = ccl.cpuMap.card := by
  obtain ⟨hmap, hcount⟩ := hbuilt.cclCpus hccl
  rw [hcount, hmap, hlisted.countCclList, hlisted.cclList_eq]
  exact ⟨rfl, rfl⟩

theorem ListedSnapshot.cclTable :
    OnlineTable WaycaCluster.clusterId WaycaCluster.cpuMap clusterId online state.topo.ccls where
  nodup := hbuilt.ccls.nodup
  mem := fun _ hcpu => hlisted.toClusteredSnapshot.mem_ccls hbuilt hcpu
  cpus := fun _ hccl => (hlisted.cclCpus hbuilt hccl).1

end Listed

section Levels

variable (hsnap : ConsistentSnapshot sys n online nodeOf clusterId packageId)
  (hbuilt : Built sys n online nodeOf state.topo)

include hsnap hbuilt

theorem ConsistentSnapshot.mem_nodeMap : k ∈ state.topo.nodeMap ↔ k < state.topo.nNodes := by
  rw [hbuilt.nNodes, hbuilt.nodeMap, hsnap.nodeNumbers_eq, card_range, mem_range]

omit hsnap in
theorem Built.getNodeId (hcpu : cpu < n) :
    waycaScGetNodeId state cpu = .ok (nodeOf cpu, state) := by
  obtain ⟨found, hfound, hkept⟩ := hbuilt.cpus cpu hcpu
  have hmem : nodeOf cpu ∈ state.topo.nodeMap := by
    rw [hbuilt.nodeMap]
    exact mem_image_of_mem nodeOf (mem_range.mpr hcpu)
  obtain ⟨p, hslot⟩ := Option.isSome_iff_exists.mp ((hbuilt.wellFormed.created _).mp hmem)
  obtain ⟨node, hobject, hindex⟩ := hbuilt.wellFormed.pointer _ p hslot
  have hcount : cpu < state.topo.nCpus := by rwa [hbuilt.framed.nCpus]
  have hvalid : topoIsValidCpu state.topo cpu = true := valid_iff.mpr hcount
  have hat : state.topo.cpuAt (cpu : ℤ).toNat = .ok found := by
    rw [Int.toNat_natCast, WaycaTopo.cpuAt, if_pos hcount, hfound]
  have hpointer : found.pNumaNode = some p := hkept.pNumaNode.trans hslot
  unfold waycaScGetNodeId
  simp only [hvalid, Bool.not_true, Bool.false_eq_true, if_false, hat, bind, Except.bind, deref,
    hpointer, hobject, hindex]

theorem ConsistentSnapshot.nodeMask (hk : k < state.topo.nNodes) :
    Level.HasMask .node sys recreate state k (nodeMembers nodeOf n k) := by
  have hmem := (hsnap.mem_nodeMap hbuilt).mpr hk
  have hvalid : topoIsValidNode state.topo k = true := valid_iff.mpr hk
  unfold Level.HasMask Level.cpuMask waycaScNodeCpuMask
  apply maskQuery_reports (hsnap.onlineAgrees hbuilt.framed) hvalid
  · rw [Int.toNat_natCast, hbuilt.nodeAt hmem, ← hbuilt.nodeCpus k]
    rfl
  · intro cpu hcpu
    rw [hbuilt.framed.nCpus]
    exact mem_range.mp (mem_filter.mp hcpu).1

theorem ConsistentSnapshot.nodeTable :
    LevelTable sys recreate state online .node state.topo.nNodes (nodeMembers nodeOf n) nodeOf where
  valid := fun _ => valid_iff
  hasMask := fun id hid => hsnap.nodeMask hbuilt hid
  answers := fun cpu hcpu =>
    ⟨state, hbuilt.getNodeId (hsnap.online_lt cpu hcpu), rfl⟩
  placeOf_lt := by
    intro cpu hcpu
    rw [← hsnap.mem_nodeMap hbuilt, hbuilt.nodeMap]
    exact mem_image_of_mem nodeOf (mem_range.mpr (hsnap.online_lt cpu hcpu))
  mem_iff := by
    intro id _ cpu hcpu
    have hlt := hsnap.online_lt cpu hcpu
    simp [nodeMembers, hlt]
  disjoint := by
    intro first _ second _ hne
    rw [disjoint_left]
    intro cpu hfirst hsecond
    exact hne ((mem_filter.mp hfirst).2.symm.trans (mem_filter.mp hsecond).2)

/-! ## The queries of clusters and packages -/

theorem ConsistentSnapshot.packageLevel :
    LevelTable sys recreate state online .package state.topo.packages.length
      (maskAt WaycaPackage.cpuMap state.topo.packages)
      (fun cpu => place WaycaPackage.physicalPackageId state.topo.packages (packageId cpu)) := by
  have htable := hsnap.packageTable hbuilt.toTablesBuilt
  refine htable.masks.levelTable (fun _ => valid_iff) (fun i hi => ?_) fun cpu hcpu =>
    hsnap.getPackageId hbuilt.toTablesBuilt hcpu
  unfold Level.HasMask Level.cpuMask waycaScPackageCpuMask
  apply maskQuery_reports (hsnap.onlineAgrees hbuilt.framed) (valid_iff.mpr hi)
  · rw [elementAt_eq hi]
    rfl
  · intro cpu hcpu
    rw [htable.cpus _ (List.getElem_mem hi)] at hcpu
    rw [hbuilt.framed.nCpus]
    exact hsnap.online_lt cpu (mem_filter.mp hcpu).1

theorem ConsistentSnapshot.levelAgrees (hlists : ListsCcls sys n online clusterId)
    (level : Level) : LevelAgrees sys recreate state online level := by
  cases level with
  | node => exact (hsnap.nodeTable hbuilt).agrees
  | ccl => exact (hsnap.cclLevel hbuilt.toTablesBuilt hlists).agrees
  | package => exact (hsnap.packageLevel hbuilt).agrees

/-! ## Maps between the levels -/

def InCluster (sys : Sysfs) (topo : WaycaTopo) (cpu id : ℕ) : Prop :=
  ∃ ccl, topo.ccls[id]? = some ccl ∧ sys.cpuAttribute cpu (·.clusterId) = some ccl.clusterId

def ClustersNest (sys : Sysfs) (n : ℕ) (nodeOf : ℕ → ℕ) : Prop :=
  ∀ first < n, ∀ second < n, ∀ id, sys.cpuAttribute first (·.clusterId) = some id →
    sys.cpuAttribute second (·.clusterId) = some id → nodeOf first = nodeOf second

def NodeLiesIn (online : Finset ℕ) (nodeOf : ℕ → ℕ) (k : ℕ) (cpus : Finset ℕ) : Prop :=
  (online.filter fun cpu => nodeOf cpu = k).Nonempty ∧
    (online.filter fun cpu => nodeOf cpu = k) ⊆ cpus

theorem ConsistentSnapshot.nodeCclMask (hnested : ClustersNest sys n nodeOf)
    (hk : k < state.topo.nNodes) :
    ∃ mask, Reports (waycaScNodeCclMask sys recreate state k) state state.topo.ccls.length mask ∧
      ∀ id, id ∈ mask ↔ ∃ cpu < n, nodeOf cpu = k ∧ InCluster sys state.topo cpu id := by
  have hvalid : topoIsValidNode state.topo k = true := valid_iff.mpr hk
  refine ⟨(state.topo.node k).clusterMap, ?_, ?_⟩
  · apply maskQuery_reports (hsnap.onlineAgrees hbuilt.framed) hvalid
    · rw [Int.toNat_natCast, hbuilt.nodeAt ((hsnap.mem_nodeMap hbuilt).mpr hk)]
      rfl
    · exact hbuilt.cclMarks.lt_length k
  · intro id
    have hiff := fun record (hrecord : state.topo.ccls[id]? = some record) =>
      hbuilt.cclMarks.mem_iff (fun first hfirst second hsecond id hid hother =>
        congrArg some (hnested first (mem_range.mp hfirst) second
          (mem_range.mp hsecond) id hid hother)) hrecord k
    constructor
    · intro hid
      have hrecord := List.getElem?_eq_getElem (hbuilt.cclMarks.lt_length k id hid)
      obtain ⟨cpu, hcpu, hcluster, hnode⟩ := (hiff _ hrecord).mp hid
      exact ⟨cpu, mem_range.mp hcpu, Option.some.inj hnode, _, hrecord, hcluster⟩
    · rintro ⟨cpu, hcpu, hnode, ccl, hrecord, hcluster⟩
      exact (hiff ccl hrecord).mpr ⟨cpu, mem_range.mpr hcpu, hcluster, congrArg some hnode⟩

end Levels

theorem Snapshot.online_inter_nodeMembers (hsnap : Snapshot sys n online nodeOf) (k : ℕ) :
    online ∩ nodeMembers nodeOf n k = online.filter fun cpu => nodeOf cpu = k := by
  ext cpu
  simp only [nodeMembers, mem_inter, mem_filter, mem_range]
  exact and_congr_right fun honline => and_iff_right (hsnap.online_lt cpu honline)

theorem ConsistentSnapshot.packageNodes
    (hsnap : ConsistentSnapshot sys n online nodeOf clusterId packageId)
    (hbuilt : Built sys n online nodeOf state.topo) (recreate : TopoState → Outcome TopoState)
    {p : ℕ} (hp : p < state.topo.packages.length)
    (hnodes : ∀ k ∈ state.topo.packages[p].numaMap, k < state.topo.nNodes) :
    Reports (waycaScPackageNodeMask sys recreate state p) state state.topo.nNodes
        state.topo.packages[p].numaMap ∧
      Level.HasMask .package sys recreate state p state.topo.packages[p].cpuMap := by
  have hvalid : topoIsValidPackage state.topo p = true := valid_iff.mpr hp
  have hcpus : Level.HasMask .package sys recreate state p _ :=
    (hsnap.packageLevel hbuilt).hasMask p hp
  rw [maskAt_of_record (List.getElem?_eq_getElem hp)] at hcpus
  refine ⟨maskQuery_reports (hsnap.onlineAgrees hbuilt.framed) hvalid ?_ hnodes, hcpus⟩
  rw [elementAt_eq hp]
  rfl

/-! ## Agreement -/

def NodesNest (online : Finset ℕ) (nodeOf : ℕ → ℕ) (packageId : ℕ → ℤ) : Prop :=
  ∀ first ∈ online, ∀ second ∈ online, nodeOf first = nodeOf second →
    packageId first = packageId second

/-- A node has the clusters with a CPU in it, and a package the nodes whose
online CPUs lie in it. -/
structure MapsAgree (sys : Sysfs) (recreate : TopoState → Outcome TopoState) (state : TopoState)
    (n : ℕ) (online : Finset ℕ) (nodeOf : ℕ → ℕ) : Prop where
  nodeCcls : ∀ k < state.topo.nNodes, ∃ mask,
    Reports (waycaScNodeCclMask sys recreate state k) state state.topo.ccls.length mask ∧
      ∀ id, id ∈ mask ↔ ∃ cpu < n, nodeOf cpu = k ∧ InCluster sys state.topo cpu id
  packageNodes : ∀ p < state.topo.packages.length, ∃ nodes cpus,
    Reports (waycaScPackageNodeMask sys recreate state p) state state.topo.nNodes nodes ∧
      Level.HasMask .package sys recreate state p cpus ∧
      ∀ k, k ∈ nodes ↔ k < state.topo.nNodes ∧ NodeLiesIn online nodeOf k cpus

/-- The ids, masks and maps of a topology agree; the maps between the levels
only have to when the levels nest. -/
structure QueriesAgree (sys : Sysfs) (recreate : TopoState → Outcome TopoState) (state : TopoState)
    (n : ℕ) (online : Finset ℕ) (nodeOf : ℕ → ℕ) (packageId : ℕ → ℤ) : Prop where
  levels : ∀ level, LevelAgrees sys recreate state online level
  partition : ∀ cpu, cpu < n ↔ ∃ k mask, k < state.topo.nNodes ∧
    Level.HasMask .node sys recreate state k mask ∧ cpu ∈ mask
  counts : ∀ k < state.topo.nNodes, ∃ node mask, state.topo.nodeAt k = .ok node ∧
    Level.HasMask .node sys recreate state k mask ∧ node.nCpus = mask.card
  maps : ClustersNest sys n nodeOf → NodesNest online nodeOf packageId →
    MapsAgree sys recreate state n online nodeOf

section Agreement

variable {before : TopoState}
  (hsnap : ConsistentSnapshot sys n online nodeOf clusterId packageId)
  (hsuccess : topoConstruct sys recreate before = .ok (state, 0))

include hsnap hsuccess

theorem ConsistentSnapshot.mapsAgree (hlists : ListsNodes sys n nodeOf)
    (hnested : ClustersNest sys n nodeOf) : MapsAgree sys recreate state n online nodeOf := by
  have hbuilt := hsnap.toSnapshot.built hsuccess hsnap.nodesFit
  refine ⟨fun k hk => hsnap.nodeCclMask hbuilt hnested hk, fun p hp => ?_⟩
  have hmem : ∀ k, k ∈ state.topo.packages[p].numaMap ↔ k < state.topo.nNodes ∧
      NodeLiesIn online nodeOf k state.topo.packages[p].cpuMap := by
    intro k
    rw [(hsnap.toSnapshot.listedNodes hlists hsuccess).2 _ (List.getElem_mem hp),
      hsnap.toSnapshot.online_inter_nodeMembers]
    rfl
  obtain ⟨hnodes, hcpus⟩ :=
    hsnap.packageNodes hbuilt recreate hp fun k hk => ((hmem k).mp hk).1
  exact ⟨_, _, hnodes, hcpus, hmem⟩

/-- Where the maps agree the package of CPU 0 is marked with the node of CPU 0,
so the construction has found the nodes in `node/possible`. -/
theorem ConsistentSnapshot.listsNodes_of_maps (hnodes : NodesNest online nodeOf packageId)
    (hmaps : MapsAgree sys recreate state n online nodeOf) : ListsNodes sys n nodeOf := by
  have hbuilt := hsnap.toSnapshot.built hsuccess hsnap.nodesFit
  have htable := hsnap.packageTable hbuilt.toTablesBuilt
  have hp := place_lt_iff.mpr (htable.mem 0 hsnap.boot)
  rcases Finset.eq_empty_or_nonempty (state.topo.packages[place WaycaPackage.physicalPackageId
      state.topo.packages (packageId 0)]).numaMap with hempty | hmarked
  · obtain ⟨hreports, hown⟩ := hsnap.packageNodes hbuilt recreate hp
      fun k hk => absurd (hempty ▸ hk) (notMem_empty k)
    obtain ⟨nodes, cpus, hother, hcpus, hmem⟩ := hmaps.packageNodes _ hp
    rw [hempty] at hreports
    rw [hother.unique hreports, hcpus.unique hown] at hmem
    refine absurd ((hmem (nodeOf 0)).mpr ⟨?_, ⟨0, mem_filter.mpr ⟨hsnap.boot, rfl⟩⟩, ?_⟩)
      (notMem_empty _)
    · rw [← hsnap.mem_nodeMap hbuilt, hbuilt.nodeMap]
      exact mem_image_of_mem nodeOf (mem_range.mpr (hsnap.online_lt 0 hsnap.boot))
    · intro cpu hcpu
      obtain ⟨honline, hnode⟩ := mem_filter.mp hcpu
      have hplace := (htable.masks.mem_iff hp honline).mpr
        (congrArg _ (hnodes cpu honline 0 hsnap.boot hnode))
      rwa [maskAt_of_record (List.getElem?_eq_getElem hp)] at hplace
  · exact hsnap.toSnapshot.listsNodes_of_marked hsuccess (List.getElem_mem hp) hmarked

/-- The ids, masks and maps of a topology built from a consistent snapshot agree
exactly if the clusters have the right lists, and `node/possible` lists the nodes
of the CPUs or the levels do not nest. -/
theorem ids_masks_and_maps_agree :
    QueriesAgree sys recreate state n online nodeOf packageId ↔
      ListsCcls sys n online clusterId ∧ (ListsNodes sys n nodeOf ∨
        ¬ (ClustersNest sys n nodeOf ∧ NodesNest online nodeOf packageId)) := by
  have hbuilt := hsnap.toSnapshot.built hsuccess hsnap.nodesFit
  constructor
  · intro hagree
    refine ⟨hsnap.listsCcls_of_agrees hbuilt.toTablesBuilt (hagree.levels .ccl), ?_⟩
    by_cases hnested : ClustersNest sys n nodeOf ∧ NodesNest online nodeOf packageId
    · exact .inl (hsnap.listsNodes_of_maps hsuccess hnested.2
        (hagree.maps hnested.1 hnested.2))
    · exact .inr hnested
  · rintro ⟨hccls, hcondition⟩
    refine ⟨fun level => hsnap.levelAgrees hbuilt hccls level, ?_, ?_, ?_⟩
    · intro cpu
      constructor
      · intro hcpu
        have hk : nodeOf cpu < state.topo.nNodes := by
          rw [← hsnap.mem_nodeMap hbuilt, hbuilt.nodeMap]
          exact mem_image_of_mem nodeOf (mem_range.mpr hcpu)
        exact ⟨nodeOf cpu, nodeMembers nodeOf n (nodeOf cpu), hk, hsnap.nodeMask hbuilt hk,
          mem_filter.mpr ⟨mem_range.mpr hcpu, rfl⟩⟩
      · rintro ⟨k, mask, hk, hmask, hcpu⟩
        rw [hmask.unique (hsnap.nodeMask hbuilt hk)] at hcpu
        exact mem_range.mp (mem_filter.mp hcpu).1
    · intro k hk
      exact ⟨state.topo.node k, nodeMembers nodeOf n k,
        hbuilt.nodeAt ((hsnap.mem_nodeMap hbuilt).mpr hk), hsnap.nodeMask hbuilt hk,
        hbuilt.nodeCount k⟩
    · intro hclusters hnodes
      exact hsnap.mapsAgree hsuccess (hcondition.resolve_right fun h => h ⟨hclusters, hnodes⟩)
        hclusters

end Agreement

/-- A machine with the given ids.  The lists name the online CPUs that share
them, where a core is identified within its package, and an offline CPU shows
its node only. -/
def machineSysfs (n : ℕ) (online : Finset ℕ) (nodeOf : ℕ → ℕ)
    (coreId clusterId packageId : ℕ → ℤ) : Sysfs where
  kernelMax := some (n - 1)
  possible := some (range n)
  online := some online
  cpu := fun cpu => some
    { node := some (nodeOf cpu)
      online := some (if cpu ∈ online then 1 else 0)
      coreId := if cpu ∈ online then some (coreId cpu) else none
      coreCpusList := if cpu ∈ online then some (online.filter fun other =>
        packageId other = packageId cpu ∧ coreId other = coreId cpu) else none
      clusterId := if cpu ∈ online then some (clusterId cpu) else none
      clusterCpusList := if cpu ∈ online then
        some (online.filter fun other => clusterId other = clusterId cpu) else none
      physicalPackageId := if cpu ∈ online then some (packageId cpu) else none
      packageCpusList := if cpu ∈ online then
        some (online.filter fun other => packageId other = packageId cpu) else none
      caches := [] }
  nodePossible := some ((range n).image nodeOf)
  node := fun k =>
    { cpulist := some (online.filter fun cpu => nodeOf cpu = k)
      distance := some (List.replicate n 10)
      meminfo := some 0 }
  ioDevices := true
  unreadOnline := fun _ => 0
  unreadList := ∅

section

variable (hboot : 0 ∈ online) (honline : ∀ cpu ∈ online, cpu < n)

include hboot honline

theorem snapshot_machineSysfs :
    Snapshot (machineSysfs n online nodeOf coreId clusterId packageId) n online nodeOf where
  possible := rfl
  fits := by
    change n ≤ n - 1 + 1
    omega
  onlineList := rfl
  boot := hboot
  online_lt := honline
  agrees := fun _ _ _ => rfl
  node := fun _ _ => rfl

theorem listed_machineSysfs :
    ListedSnapshot (machineSysfs n online nodeOf coreId clusterId packageId) n online nodeOf
      clusterId packageId where
  __ := snapshot_machineSysfs hboot honline
  cluster := fun _ hcpu => if_pos hcpu
  clusterCpus := fun _ hcpu => if_pos hcpu
  offlineCpus := fun _ _ hcpu _ hid => absurd ((if_neg hcpu).symm.trans hid) nofun
  package := fun _ hcpu => if_pos hcpu
  packageCpus := fun _ hcpu => if_pos hcpu

theorem consistent_machineSysfs
    (hascending : ∀ cpu < n, 0 < nodeOf cpu → ∃ earlier < cpu, nodeOf earlier + 1 = nodeOf cpu) :
    ConsistentSnapshot (machineSysfs n online nodeOf coreId clusterId packageId) n online nodeOf
      clusterId packageId :=
  ⟨(listed_machineSysfs hboot honline).toClusteredSnapshot, hascending⟩

end

theorem success_of_return {outcome : Outcome (TopoState × ℤ)}
    (hreturn : outcome.map Prod.snd = .ok 0) : ∃ state, outcome = .ok (state, 0) := by
  cases outcome with
  | error failure => cases hreturn
  | ok result =>
      obtain ⟨state, ret⟩ := result
      cases hreturn
      exact ⟨state, rfl⟩

theorem ids_masks_and_maps_agree_four_cpus :
    ∃ state, topoConstruct (machineSysfs 4 {0, 2, 3} (· / 2) (·) (· / 2) 0) .ok .start =
        .ok (state, 0) ∧
      QueriesAgree (machineSysfs 4 {0, 2, 3} (· / 2) (·) (· / 2) 0) .ok state 4 {0, 2, 3}
        (· / 2) 0 := by
  have hsnap : ConsistentSnapshot (machineSysfs 4 {0, 2, 3} (· / 2) (·) (· / 2) 0) 4
      {0, 2, 3} (· / 2) (· / 2) 0 :=
    consistent_machineSysfs (by decide) (by decide) (by decide)
  have hreturn : (topoConstruct (machineSysfs 4 {0, 2, 3} (· / 2) (·) (· / 2) 0) .ok .start).map
      Prod.snd = .ok 0 := rfl
  obtain ⟨state, hconstruct⟩ := success_of_return hreturn
  have hlists : ListsNodes (machineSysfs 4 {0, 2, 3} (· / 2) (·) (· / 2) 0) 4 (· / 2) := by
    unfold ListsNodes
    decide +kernel
  exact ⟨state, hconstruct, (ids_masks_and_maps_agree hsnap hconstruct).mpr
    ⟨(listed_machineSysfs (by decide) (by decide)).listsCcls, .inl hlists⟩⟩

/-- One CPU on node 0, and a node 1 that has memory only. -/
def memoryNodeMachine : Sysfs := { machineSysfs 1 {0} 0 0 0 0 with nodePossible := some {0, 1} }

/-- The topology is built, but its package has no node. -/
theorem memory_node_leaves_package_unmarked :
    ConsistentSnapshot memoryNodeMachine 1 {0} 0 0 0 ∧ ClustersNest memoryNodeMachine 1 0 ∧
      NodesNest {0} 0 0 ∧
      (do let (state, ret) ← topoConstruct memoryNodeMachine .ok .start
          let ((_, cpus), state) ← waycaScPackageCpuMask memoryNodeMachine .ok state 0 8 (some ∅)
          let ((_, nodes), _) ← waycaScPackageNodeMask memoryNodeMachine .ok state 0 8 (some ∅)
          .ok (ret, cpus, nodes)) = .ok (0, some {0}, some ∅) := by
  have hlisted : ListedSnapshot (machineSysfs 1 {0} 0 0 0 0) 1 {0} 0 0 0 :=
    listed_machineSysfs (by decide) (by decide)
  refine ⟨⟨⟨⟨⟨rfl, hlisted.fits, rfl, hlisted.boot, hlisted.online_lt, hlisted.agrees,
    hlisted.node⟩, hlisted.package, hlisted.packageCpus⟩, hlisted.cluster, hlisted.clusterCpus⟩,
    fun _ _ hpos => absurd hpos (lt_irrefl 0)⟩, fun _ _ _ _ _ _ _ => rfl, fun _ _ _ _ _ => rfl,
    ?_⟩
  decide +kernel

end WaycaScheduler
