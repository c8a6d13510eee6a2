import WaycaScheduler.TreeKeys

/-!
# Systems whose elements nest

On a system that is wholly online, a core and a cluster have the CPUs that
share their id with the CPU that was read first, within its package.  Such a
table is as long as the quotient by the largest element allows exactly when all
elements are of one size.
-/

namespace WaycaScheduler

open Fallible KeyedTable Subdivision Finset

def sharing (packageId id : ℕ → ℤ) (n cpu : ℕ) : Finset ℕ :=
  (range n).filter fun other => packageId other = packageId cpu ∧ id other = id cpu

/-- A system with all CPUs online, with clusters or without.  Cores and clusters
are identified within their package. -/
structure NestedSystem (sys : Sysfs) (n : ℕ) (nodeOf : ℕ → ℕ) (coreId packageId : ℕ → ℤ)
    (clusterId : Option (ℕ → ℤ)) : Prop
    extends SiblingSnapshot sys n (range n) nodeOf coreId packageId where
  packageCpus : ∀ cpu < n, sys.cpuAttribute cpu (·.packageCpusList) =
    some ((range n).filter fun other => packageId other = packageId cpu)
  cluster : ∀ cpu < n, sys.cpuAttribute cpu (·.clusterId) = clusterId.map (· cpu)
  clusterCpus : ∀ ids, clusterId = some ids → ∀ cpu < n,
    sys.cpuAttribute cpu (·.clusterCpusList) = some (sharing packageId ids n cpu)
  coresNest : ∀ first < n, ∀ second < n, packageId first = packageId second →
    coreId first = coreId second →
      nodeOf first = nodeOf second ∧ ∀ ids, clusterId = some ids → ids first = ids second
  clustersNest : ∀ ids, clusterId = some ids → ∀ first < n, ∀ second < n,
    packageId first = packageId second → ids first = ids second → nodeOf first = nodeOf second
  nodesNest : ∀ first < n, ∀ second < n, nodeOf first = nodeOf second →
    packageId first = packageId second

def Separate (n : ℕ) (packageId id : ℕ → ℤ) : Prop :=
  ∀ first < n, ∀ second < n, id first = id second → packageId first = packageId second

instance (n : ℕ) (packageId id : ℕ → ℤ) : Decidable (Separate n packageId id) :=
  inferInstanceAs (Decidable (∀ first < n, ∀ second < n, id first = id second →
    packageId first = packageId second))

structure Even (n : ℕ) (packageId id : ℕ → ℤ) : Prop where
  separate : Separate n packageId id
  sizes : ∀ first < n, ∀ second < n,
    (sharing packageId id n first).card = (sharing packageId id n second).card

/-- What the tree needs of a nested system with all CPUs online. -/
structure EvenSystem (sys : Sysfs) (n : ℕ) (nodeOf : ℕ → ℕ) (coreId packageId : ℕ → ℤ)
    (clusterId : Option (ℕ → ℤ)) : Prop where
  nodes : ListsNodes sys n nodeOf
  marked : ∀ cpu < n, coreId cpu ≠ -1
  cores : Even n packageId coreId
  clusters : ∀ ids, clusterId = some ids → Even n packageId ids

/-! ## Tables of elements -/

theorem OnlineTable.mem_maskAt {ρ : Type} {key : ρ → ℤ} {cpus : ρ → Finset ℕ} {table : List ρ}
    {id : ℕ → ℤ} {online : Finset ℕ} (htable : OnlineTable key cpus id online table) {cpu : ℕ}
    (hcpu : cpu ∈ online) (i : ℕ) :
    cpu ∈ maskAt cpus table i ↔ i = place key table (id cpu) := by
  rcases lt_or_ge i table.length with hlt | hge
  · rw [htable.masks.mem_iff hlt hcpu]
    exact eq_comm
  · apply iff_of_false
    · rw [maskAt, List.getElem?_eq_none hge]
      exact notMem_empty cpu
    · have hlt := place_lt_iff.mpr (htable.mem cpu hcpu)
      omega

section SharedTable

variable {ρ : Type} {key : ρ → ℤ} {cpus : ρ → Finset ℕ} {count : ρ → ℕ} {table : List ρ}
  {packageId id : ℕ → ℤ} {n cpu : ℕ}

theorem mem_sharing {other : ℕ} : other ∈ sharing packageId id n cpu ↔
    other < n ∧ packageId other = packageId cpu ∧ id other = id cpu := by
  rw [sharing, mem_filter, mem_range]

theorem sharing_card_le : (sharing packageId id n cpu).card ≤ n := by
  have hle := card_filter_le (range n)
    fun other => packageId other = packageId cpu ∧ id other = id cpu
  rwa [card_range] at hle

theorem Separate.sharing_eq (hseparate : Separate n packageId id) (hcpu : cpu < n) :
    sharing packageId id n cpu = (range n).filter fun other => id other = id cpu := by
  apply filter_congr
  intro other hother
  constructor
  · exact And.right
  · intro hsame
    exact ⟨hseparate other (mem_range.mp hother) cpu hcpu hsame, hsame⟩

structure SharedTable (key : ρ → ℤ) (cpus : ρ → Finset ℕ) (count : ρ → ℕ)
    (packageId id : ℕ → ℤ) (n : ℕ) (table : List ρ) : Prop where
  nodup : (table.map key).Nodup
  creator : ∀ record ∈ table, ∃ cpu < n, id cpu = key record ∧
    cpus record = sharing packageId id n cpu
  count : ∀ record ∈ table, count record = (cpus record).card

section Records

variable (htable : SharedTable key cpus count packageId id n table)

include htable

theorem SharedTable.count_pos {record : ρ} (hrecord : record ∈ table) : 0 < count record := by
  obtain ⟨cpu, hcpu, -, hcpus⟩ := htable.creator record hrecord
  rw [htable.count record hrecord, hcpus, card_pos]
  exact ⟨cpu, mem_sharing.mpr ⟨hcpu, rfl, rfl⟩⟩

theorem SharedTable.count_le {record : ρ} (hrecord : record ∈ table) : count record ≤ n := by
  obtain ⟨cpu, -, -, hcpus⟩ := htable.creator record hrecord
  rw [htable.count record hrecord, hcpus]
  exact sharing_card_le

theorem SharedTable.separate
    (hown : ∀ cpu < n, cpu ∈ maskAt cpus table (place key table (id cpu))) :
    Separate n packageId id := by
  intro first hfirst second hsecond hsame
  have hmem := hown first hfirst
  have hother := hown second hsecond
  rw [← hsame] at hother
  unfold maskAt at hmem hother
  cases hrecord : table[place key table (id first)]? with
  | none =>
      rw [hrecord] at hmem
      exact absurd hmem (notMem_empty first)
  | some record =>
      obtain ⟨cpu, -, -, hcpus⟩ := htable.creator record (List.mem_of_getElem? hrecord)
      rw [hrecord, Option.elim_some, hcpus] at hmem hother
      exact (mem_sharing.mp hmem).2.1.trans (mem_sharing.mp hother).2.1.symm

variable (hmem : ∀ cpu < n, id cpu ∈ table.map key)

include hmem

theorem SharedTable.length_eq : table.length = ((range n).image id).card := by
  have hkeys : (table.map key).toFinset = (range n).image id := by
    ext value
    rw [List.mem_toFinset, mem_image]
    constructor
    · intro hvalue
      obtain ⟨record, hrecord, rfl⟩ := List.mem_map.mp hvalue
      obtain ⟨cpu, hcpu, hid, -⟩ := htable.creator record hrecord
      exact ⟨cpu, mem_range.mpr hcpu, hid⟩
    · rintro ⟨cpu, hcpu, rfl⟩
      exact hmem cpu (mem_range.mp hcpu)
  rw [← hkeys, List.toFinset_card_of_nodup htable.nodup, List.length_map]

variable (hseparate : Separate n packageId id)

include hseparate

theorem SharedTable.onlineTable : OnlineTable key cpus id (range n) table where
  nodup := htable.nodup
  mem := fun cpu hcpu => hmem cpu (mem_range.mp hcpu)
  cpus := by
    intro record hrecord
    obtain ⟨cpu, hcpu, hid, hcpus⟩ := htable.creator record hrecord
    rw [hcpus, hseparate.sharing_eq hcpu, hid]

theorem SharedTable.record_of (hcpu : cpu < n) :
    ∃ record ∈ table, count record = (sharing packageId id n cpu).card := by
  obtain ⟨record, hrecord, hkey⟩ := record_at_place (hmem cpu hcpu)
  have hin := List.mem_of_getElem? hrecord
  refine ⟨record, hin, ?_⟩
  rw [htable.count record hin, (htable.onlineTable hmem hseparate).cpus record hin, hkey,
    hseparate.sharing_eq hcpu]

/-- The code counts every record exactly if all classes have one size. -/
theorem SharedTable.length_le_iff (hn : 0 < n) :
    table.length ≤ n / table.foldl (fun most record => max most (count record)) 0 ↔
      ∀ first < n, ∀ second < n,
        (sharing packageId id n first).card = (sharing packageId id n second).card := by
  have hclass : ∀ label ∈ (range n).image id, ∃ cpu < n, id cpu = label ∧
      (range n).filter (fun other => id other = label) = sharing packageId id n cpu := by
    intro label hlabel
    obtain ⟨cpu, hcpu, rfl⟩ := mem_image.mp hlabel
    have hlt := mem_range.mp hcpu
    exact ⟨cpu, hlt, rfl, (hseparate.sharing_eq hlt).symm⟩
  have hle : ∀ cpu < n, (sharing packageId id n cpu).card ≤
      table.foldl (fun most record => max most (count record)) 0 := by
    intro cpu hcpu
    obtain ⟨record, hrecord, hcount⟩ := htable.record_of hmem hseparate hcpu
    rw [← hcount]
    exact le_foldl_max count 0 hrecord
  have hlargest : 0 < table.foldl (fun most record => max most (count record)) 0 := by
    apply lt_of_lt_of_le _ (hle 0 hn)
    rw [card_pos]
    exact ⟨0, mem_sharing.mpr ⟨hn, rfl, rfl⟩⟩
  have hclasses : ∀ label ∈ (range n).image id,
      ((range n).filter fun other => id other = label).card ≤
        table.foldl (fun most record => max most (count record)) 0 := by
    intro label hlabel
    obtain ⟨cpu, hcpu, -, hfilter⟩ := hclass label hlabel
    rw [hfilter]
    exact hle cpu hcpu
  have hdivides := card_image_le_div_iff hlargest hclasses
  rw [card_range] at hdivides
  rw [htable.length_eq hmem, hdivides]
  constructor
  · intro hall first hfirst second hsecond
    rw [hseparate.sharing_eq hfirst, hseparate.sharing_eq hsecond,
      hall _ (mem_image_of_mem id (mem_range.mpr hfirst)),
      hall _ (mem_image_of_mem id (mem_range.mpr hsecond))]
  · intro hsame label hlabel
    obtain ⟨cpu, hcpu, -, hfilter⟩ := hclass label hlabel
    rw [hfilter]
    symm
    apply foldl_max_eq
    · intro record hrecord
      obtain ⟨other, hother, -, hcpus⟩ := htable.creator record hrecord
      rw [htable.count record hrecord, hcpus, hsame other hother cpu hcpu]
    · exact htable.record_of hmem hseparate hcpu

theorem SharedTable.places_lt_iff (hn : 0 < n) : (∀ cpu < n, place key table (id cpu) <
        n / table.foldl (fun most record => max most (count record)) 0) ↔
      ∀ first < n, ∀ second < n,
        (sharing packageId id n first).card = (sharing packageId id n second).card := by
  rw [← htable.length_le_iff hmem hseparate hn]
  constructor
  · intro hplaces
    by_contra hshort
    have hlt := not_le.mp hshort
    have hrecord := List.getElem?_eq_getElem hlt
    obtain ⟨cpu, hcpu, hid, -⟩ := htable.creator _ (List.getElem_mem hlt)
    have hplace := hplaces cpu hcpu
    rw [hid, place_of_record htable.nodup hrecord] at hplace
    exact Nat.lt_irrefl _ hplace
  · intro hlength cpu hcpu
    exact (place_lt_iff.mpr (hmem cpu hcpu)).trans_le hlength

end Records

end SharedTable

/-! ## The elements of a system -/

section NestedSystem

variable {sys : Sysfs} {n : ℕ} {nodeOf : ℕ → ℕ} {coreId packageId ids : ℕ → ℤ}
  {clusterId : Option (ℕ → ℤ)} {recreate : TopoState → Outcome TopoState} {state : TopoState}
  (hsystem : NestedSystem sys n nodeOf coreId packageId clusterId)

include hsystem

theorem NestedSystem.packaged : PackagedSnapshot sys n (range n) nodeOf packageId :=
  ⟨hsystem.toSnapshot, hsystem.package, fun cpu hcpu => hsystem.packageCpus cpu (mem_range.mp hcpu)⟩

theorem NestedSystem.readSharing (id : ℕ → ℤ) (cpu : ℕ) :
    readCpulist (some (sharing packageId id n cpu)) sys.kernelMaxCpus =
      some (sharing packageId id n cpu) :=
  hsystem.toSnapshot.readCpulist fun _ hother => (mem_sharing.mp hother).1

theorem NestedSystem.countSharing {topo : WaycaTopo}
    (hframed : Framed sys n (range n) topo) (id : ℕ → ℤ) (cpu : ℕ) :
    cpuCountS topo.setsize (sharing packageId id n cpu) = (sharing packageId id n cpu).card := by
  rw [cpuCountS, cpuSeen_of_fits]
  intro other hother
  exact hsystem.toSnapshot.fits_setsize hframed (mem_sharing.mp hother).1

theorem NestedSystem.coreTable (hup : CoresUpTo sys n (range n) nodeOf n state.topo)
    (hcounts : CountsCpus state.topo) :
    SharedTable WaycaCore.coreId WaycaCore.coreCpusMap WaycaCore.nCpus packageId coreId n
      state.topo.cores where
  nodup := hup.cores.nodup
  creator := by
    intro core hcore
    obtain ⟨cpu, hcpu, hin, hlist⟩ := hup.newCores core hcore
    have honline := mem_range.mpr hcpu
    refine ⟨cpu, hcpu, (hsystem.coreIn_some honline hin).1, ?_⟩
    rw [hlist, hsystem.siblingsIn_pair honline]
    rfl
  count := by
    intro core hcore
    obtain ⟨cpu, hcpu, -, hlist⟩ := hup.newCores core hcore
    have hshared : core.coreCpusMap = sharing packageId coreId n cpu := by
      rw [hlist, hsystem.siblingsIn_pair (mem_range.mpr hcpu)]
      rfl
    rw [hcounts core hcore, hshared]
    exact hsystem.countSharing hup.built.framed coreId cpu

theorem NestedSystem.clusterOf_eq (hids : clusterId = some ids) {cpu : ℕ} (hcpu : cpu < n) :
    clusterOf sys cpu = some (ids cpu) := by
  have hread := hsystem.cluster cpu hcpu
  rwa [hids] at hread

variable (hbuilt : TablesBuilt sys n (range n) nodeOf state.topo)

include hbuilt

theorem NestedSystem.ccls_eq_nil (hnone : clusterId = none) : state.topo.ccls = [] := by
  apply List.eq_nil_iff_forall_not_mem.mpr
  intro ccl hccl
  obtain ⟨cpu, hcpu, ⟨hcluster, -⟩, -⟩ := hbuilt.newCcls ccl hccl
  have hread := hsystem.cluster cpu hcpu
  rw [hnone] at hread
  exact absurd (hcluster.symm.trans hread) (Option.some_ne_none _)

variable (hids : clusterId = some ids)

include hids

theorem NestedSystem.cclTable :
    SharedTable WaycaCluster.clusterId WaycaCluster.cpuMap WaycaCluster.nCpus packageId ids n
      state.topo.ccls := by
  have hparts : ∀ ccl ∈ state.topo.ccls, ∃ cpu < n, ids cpu = ccl.clusterId ∧
      ccl.cpuMap = sharing packageId ids n cpu ∧ ccl.nCpus = ccl.cpuMap.card := by
    intro ccl hccl
    obtain ⟨cpu, hcpu, ⟨hcluster, -⟩, hpart⟩ := hbuilt.newCcls ccl hccl
    have hid := hcluster.symm.trans (hsystem.clusterOf_eq hids hcpu)
    have hlist : (readCpulist (sys.cpuAttribute cpu (·.clusterCpusList))
        state.topo.kernelMaxCpus).getD ∅ = sharing packageId ids n cpu := by
      rw [hsystem.clusterCpus ids hids cpu hcpu, hbuilt.framed.kernelMaxCpus,
        hsystem.readSharing, Option.getD_some]
    have hmap : ccl.cpuMap = sharing packageId ids n cpu := by
      rw [← hlist]
      exact congrArg (·.2.2) hpart
    refine ⟨cpu, hcpu, (Option.some.inj hid).symm, hmap, ?_⟩
    rw [hmap, ← hsystem.countSharing hbuilt.framed, ← hlist]
    exact congrArg (·.2.1) hpart
  constructor
  · exact hbuilt.ccls.nodup
  · intro ccl hccl
    obtain ⟨cpu, hcpu, hid, hmap, -⟩ := hparts ccl hccl
    exact ⟨cpu, hcpu, hid, hmap⟩
  · intro ccl hccl
    obtain ⟨-, -, -, -, hcount⟩ := hparts ccl hccl
    exact hcount

theorem NestedSystem.cclMem {cpu : ℕ} (hcpu : cpu < n) :
    ids cpu ∈ state.topo.ccls.map WaycaCluster.clusterId :=
  hbuilt.ccls.mem (mem_range.mpr hcpu) (hsystem.clusterOf_eq hids hcpu)

theorem NestedSystem.getCclId {cpu : ℕ} (hcpu : cpu < n) :
    Level.Answers .ccl sys recreate state cpu
      (place WaycaCluster.clusterId state.topo.ccls (ids cpu) : ℕ) := by
  have htable := hsystem.cclTable hbuilt hids
  obtain ⟨ccl, hccl, -⟩ := List.mem_map.mp (hsystem.cclMem hbuilt hids hcpu)
  have hcount := cpusInCcl_returns hccl (htable.count_pos hccl) (by
    intro other hother
    rw [hbuilt.framed.nCpus]
    exact htable.count_le hother)
  exact hsystem.toSnapshot.getCclId hbuilt hcount (mem_range.mpr hcpu)
    (hsystem.clusterOf_eq hids hcpu)

theorem NestedSystem.largestCcl_ne_zero : state.topo.largestCcl ≠ 0 := by
  have hboot := mem_range.mp hsystem.boot
  obtain ⟨ccl, hccl, -⟩ := List.mem_map.mp (hsystem.cclMem hbuilt hids hboot)
  have hpos := (hsystem.cclTable hbuilt hids).count_pos hccl
  exact (hpos.trans_le (le_foldl_max WaycaCluster.nCpus 0 hccl)).ne'

end NestedSystem

theorem nested_machineSysfs {n : ℕ} {nodeOf : ℕ → ℕ} {coreId clusterId packageId : ℕ → ℤ}
    (hn : 0 < n) (hseparate : Separate n packageId clusterId)
    (hcores : ∀ first < n, ∀ second < n, packageId first = packageId second →
      coreId first = coreId second → clusterId first = clusterId second)
    (hclusters : ∀ first < n, ∀ second < n, clusterId first = clusterId second →
      nodeOf first = nodeOf second)
    (hnodes : ∀ first < n, ∀ second < n, nodeOf first = nodeOf second →
      packageId first = packageId second) :
    NestedSystem (machineSysfs n (range n) nodeOf coreId clusterId packageId) n nodeOf
      coreId packageId (some clusterId) where
  toSiblingSnapshot := siblings_machineSysfs (mem_range.mpr hn)
    fun _ hcpu => mem_range.mp hcpu
  packageCpus := fun cpu hcpu => if_pos (mem_range.mpr hcpu)
  cluster := fun cpu hcpu => if_pos (mem_range.mpr hcpu)
  clusterCpus := by
    rintro _ ⟨⟩ cpu hcpu
    rw [hseparate.sharing_eq hcpu]
    exact if_pos (mem_range.mpr hcpu)
  coresNest := by
    intro first hfirst second hsecond hpackage hcore
    have hcluster := hcores first hfirst second hsecond hpackage hcore
    refine ⟨hclusters first hfirst second hsecond hcluster, ?_⟩
    rintro _ ⟨⟩
    exact hcluster
  clustersNest := by
    rintro _ ⟨⟩ first hfirst second hsecond - hcluster
    exact hclusters first hfirst second hsecond hcluster
  nodesNest := hnodes

end WaycaScheduler
