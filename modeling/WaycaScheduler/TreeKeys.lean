import WaycaScheduler.TopologyTree

/-!
# The indices in the tree

What a builder that returns has done to its element: the level and the index
stay, and the children that lead to CPUs follow from the topology.  A tree
that `build_topo` has built is therefore grown from its root by the masks and
counts of the topology, whatever devices and interrupts it shows.
-/

namespace WaycaScheduler

open Fallible KeyedTable ReturnCodes SiblingForest

variable {child : TopoElement} {numbers : List ℕ} {children : List TopoElement} {count numaId : ℤ}
  {cpu : ℕ}

def TopoElement.index (node : TopoElement) : Option ℤ :=
  match xmlGetProp node .index with
  | some (.number index) => some index
  | _ => none

abbrev ElementKey := TopoLevel × Option ℤ

/-- What tells an element from its siblings. -/
def TopoElement.key (node : TopoElement) : ElementKey := (node.level, node.index)

def TopoLevel.onWay : TopoLevel → Bool
  | .sys | .pkg | .numa | .ccl | .core | .cpu => true
  | .intr | .irq | .pcidev | .smmudev => false

def TopoLevel.height : TopoLevel → ℕ
  | .sys => 5
  | .pkg => 4
  | .numa => 3
  | .ccl => 2
  | .core => 1
  | .cpu | .intr | .irq | .pcidev | .smmudev => 0

theorem index_of_getIndex {node : TopoElement} {index : ℤ}
    (hindex : getIndexFromProp node = .ok index) : node.index = some index := by
  unfold getIndexFromProp at hindex
  unfold TopoElement.index
  split at hindex
  next => cases hindex
  next found hfound =>
    rw [hfound]
    exact congrArg some (Except.ok.inj hindex)
  next => cases hindex

theorem key_xmlNewProp (node : TopoElement) {prop : PropName} (content : PropContent)
    (hne : prop ≠ .index) : (xmlNewProp node prop content).key = node.key := by
  have hprop : xmlGetProp (xmlNewProp node prop content) .index = xmlGetProp node .index := by
    unfold xmlGetProp xmlNewProp
    rw [List.find?_append]
    simp [hne]
  unfold TopoElement.key TopoElement.index
  rw [hprop]
  rfl

theorem key_indexed (level : TopoLevel) (index pIndex : ℤ) :
    (buildPropIndex (buildPropIndex ⟨level, []⟩ index .index) pIndex .pIndex).key =
      (level, some index) := by
  unfold buildPropIndex
  rw [key_xmlNewProp _ _ (by decide)]
  rfl

/-! ## Children by index -/

section Children

variable {state after : TopoState} {mask : Finset ℕ} {level : TopoLevel}

theorem returns_lookup {α : Type} {value : α} (ask : WaycaTopo → Outcome α)
    (hreturns : Returns (call fun state => (ask state.topo).map (·, state) : Builder α)
      state value after) : state = after := by
  rw [returns_call] at hreturns
  cases hanswer : ask state.topo with
  | error failure =>
      rw [hanswer] at hreturns
      cases hreturns
  | ok answer =>
      rw [hanswer] at hreturns
      cases hreturns
      rfl

theorem topoBuildSingleElem_key {index : ℤ}
    (hreturns : Returns (topoBuildSingleElem index level) state child after) :
    state = after ∧ child.key = (level, if level.hasIdx then some index else none) := by
  unfold topoBuildSingleElem at hreturns
  dsimp only at hreturns
  cases hidx : level.hasIdx with
  | false =>
      rw [hidx, Bool.not_false, if_pos rfl, returns_pure] at hreturns
      obtain ⟨rfl, rfl⟩ := hreturns
      exact ⟨rfl, rfl⟩
  | true =>
      rw [hidx, Bool.not_true, if_neg Bool.false_ne_true] at hreturns
      rw [if_pos rfl]
      split at hreturns
      next =>
        obtain ⟨pIndex, middle, hcall, hreturns⟩ := returns_bind.mp hreturns
        obtain ⟨_, checked, hguard, hreturns⟩ := returns_bind.mp hreturns
        obtain ⟨-, rfl⟩ := returns_guardCode.mp hguard
        obtain ⟨rfl, rfl⟩ := returns_pure.mp hreturns
        exact ⟨returns_lookup (waycaScGetPhysicalId · level index) hcall,
          key_indexed level index pIndex⟩
      next =>
        obtain ⟨rfl, rfl⟩ := returns_pure.mp hreturns
        exact ⟨rfl, key_indexed level index index⟩

def shownKeys (level : TopoLevel) (limit : ℕ) (mask : Finset ℕ) : List ElementKey :=
  ((List.range limit).filter fun i => decide (i ∈ mask)).map fun i : ℕ => (level, some (i : ℤ))

theorem topoBuildNextElem_keys (hidx : level.hasIdx = true)
    (hreturns : Returns (topoBuildNextElem mask level numbers) state children after) :
    state = after ∧ children.map TopoElement.key =
      (numbers.filter fun i => cpuIssetT i mask).map fun i : ℕ => (level, some (i : ℤ)) := by
  induction numbers generalizing state children with
  | nil =>
      obtain ⟨rfl, rfl⟩ := returns_pure.mp hreturns
      exact ⟨rfl, rfl⟩
  | cons i rest ih =>
      unfold topoBuildNextElem at hreturns
      rw [List.filter_cons]
      cases hset : cpuIssetT i mask with
      | false =>
          rw [hset, Bool.not_false, if_pos rfl] at hreturns
          rw [if_neg Bool.false_ne_true]
          exact ih hreturns
      | true =>
          rw [hset, Bool.not_true, if_neg Bool.false_ne_true] at hreturns
          obtain ⟨child, middle, hchild, hreturns⟩ := returns_bind.mp hreturns
          obtain ⟨others, last, hothers, hreturns⟩ := returns_bind.mp hreturns
          obtain ⟨rfl, rfl⟩ := returns_pure.mp hreturns
          obtain ⟨rfl, hkey⟩ := topoBuildSingleElem_key hchild
          obtain ⟨rfl, hkeys⟩ := ih hothers
          refine ⟨rfl, ?_⟩
          rw [if_pos rfl, List.map_cons, List.map_cons, hkey, hkeys, hidx, if_pos rfl]

theorem buildPackages_keys (hreturns : Returns (buildPackages numbers) state children after) :
    state = after ∧
      children.map TopoElement.key = numbers.map fun i : ℕ => (.pkg, some (i : ℤ)) := by
  induction numbers generalizing state children with
  | nil =>
      obtain ⟨rfl, rfl⟩ := returns_pure.mp hreturns
      exact ⟨rfl, rfl⟩
  | cons i rest ih =>
      obtain ⟨child, middle, hchild, hreturns⟩ := returns_bind.mp hreturns
      obtain ⟨others, last, hothers, hreturns⟩ := returns_bind.mp hreturns
      obtain ⟨rfl, rfl⟩ := returns_pure.mp hreturns
      obtain ⟨rfl, hkey⟩ := topoBuildSingleElem_key hchild
      obtain ⟨rfl, hkeys⟩ := ih hothers
      refine ⟨rfl, ?_⟩
      rw [List.map_cons, List.map_cons, hkey, hkeys]
      rfl

end Children

/-! ## Questions to the library -/

section Questions

variable {sys : Sysfs} {recreate : TopoState → Outcome TopoState} {state after : TopoState}

theorem maskQuery_success {isValid : WaycaTopo → Bool} {count : WaycaTopo → ℕ}
    {map : WaycaTopo → Outcome (Finset ℕ)} {setsize : ℕ} {target : Finset ℕ}
    {answer : ℤ × Option (Finset ℕ)} (hagrees : OnlineAgrees sys state.topo)
    (hquery : maskQuery sys recreate isValid count map state setsize (some target) =
      .ok (answer, after)) (hret : ¬ answer.1 < 0) :
    state = after ∧ ∃ source, map state.topo = .ok source ∧
      cpuSeen setsize (answer.2.getD ∅) = cpuSeen (cpuAllocSize (count state.topo)) source := by
  have hnegative : (-EINVAL : ℤ) < 0 := by decide
  unfold maskQuery at hquery
  dsimp only at hquery
  split at hquery
  next =>
    cases hquery
    exact absurd hnegative hret
  next =>
    rw [checkAndUpdate_of_agrees hagrees] at hquery
    obtain ⟨checked, hchecked, hquery⟩ := bind_eq_ok.mp hquery
    cases hchecked
    split at hquery
    next =>
      cases hquery
      exact absurd hnegative hret
    next hsize =>
      obtain ⟨source, hsource, hquery⟩ := bind_eq_ok.mp hquery
      cases hquery
      exact ⟨rfl, source, hsource, cpuSeen_copy (not_lt.mp hsize) target source⟩

theorem cpuIssetT_eq (i : ℕ) (mask : Finset ℕ) :
    cpuIssetT i mask = decide (i ∈ cpuSeen SIZEOF_CPU_SET_T mask) := by
  unfold cpuIssetT cpuIssetS cpuSeen
  simp only [Finset.mem_filter, Bool.decide_and]
  exact Bool.and_comm _ _

theorem maskFrom_keys {isValid : WaycaTopo → Bool} {count : WaycaTopo → ℕ}
    {map : WaycaTopo → Outcome (Finset ℕ)} {mask : Finset ℕ}
    (hagrees : OnlineAgrees sys state.topo)
    (hreturns : Returns (maskFrom fun state => maskQuery sys recreate isValid count map state)
      state mask after) :
    state = after ∧ ∃ source, map state.topo = .ok source ∧ ∀ (level : TopoLevel) (limit : ℕ),
      ((List.range limit).filter fun i => cpuIssetT i mask).map
        (fun i : ℕ => (level, some (i : ℤ))) =
        shownKeys level limit (cpuSeen (cpuAllocSize (count state.topo)) source) := by
  obtain ⟨answer, middle, hcall, hreturns⟩ := returns_bind.mp hreturns
  obtain ⟨_, checked, hguard, hreturns⟩ := returns_bind.mp hreturns
  obtain ⟨hret, rfl⟩ := returns_guardCode.mp hguard
  obtain ⟨rfl, rfl⟩ := returns_pure.mp hreturns
  obtain ⟨rfl, source, hsource, hseen⟩ :=
    maskQuery_success hagrees (returns_call.mp hcall) (of_decide_eq_false hret)
  refine ⟨rfl, source, hsource, ?_⟩
  intro level limit
  unfold shownKeys
  simp only [cpuIssetT_eq, hseen]

theorem countFrom_returns {ask : TopoState → ℤ × TopoState}
    (hreturns : Returns (countFrom ask) state count after) :
    ask state = (count, after) ∧ ¬ count < 0 := by
  obtain ⟨answer, middle, hquery, hreturns⟩ := returns_bind.mp hreturns
  obtain ⟨_, checked, hguard, hreturns⟩ := returns_bind.mp hreturns
  obtain ⟨hret, rfl⟩ := returns_guardCode.mp hguard
  obtain ⟨rfl, rfl⟩ := returns_pure.mp hreturns
  exact ⟨returns_query.mp hquery, of_decide_eq_false hret⟩

theorem numberFrom_returns {number : WaycaTopo → ℕ}
    (hreturns : Returns (countFrom (numberOf number)) state count after) :
    state = after ∧ count.toNat = number state.topo := by
  obtain ⟨hnumber, hcount⟩ := countFrom_returns hreturns
  unfold numberOf at hnumber
  split at hnumber
  next =>
    cases hnumber
    exact absurd (by decide) hcount
  next =>
    cases hnumber
    exact ⟨rfl, Int.toNat_natCast _⟩

def WaycaTopo.largestCore (topo : WaycaTopo) : ℕ :=
  topo.cores.foldl (fun most core => max most core.nCpus) 0

def WaycaTopo.largestCcl (topo : WaycaTopo) : ℕ :=
  topo.ccls.foldl (fun most ccl => max most ccl.nCpus) 0

theorem coresFrom_returns (hreturns : Returns (countFrom waycaScCoresInTotal) state count after) :
    after.topo = state.topo ∧ count.toNat = state.topo.nCpus / state.topo.largestCore := by
  obtain ⟨hcores, hcount⟩ := countFrom_returns hreturns
  unfold waycaScCoresInTotal at hcores
  dsimp only at hcores
  split at hcores
  next =>
    cases hcores
    exact absurd (by decide) hcount
  next =>
    split at hcores
    next =>
      cases hcores
      exact ⟨rfl, Int.toNat_natCast _⟩
    next =>
      cases hcores
      exact absurd (by decide) hcount

theorem cclsInTotal_eq (hccls : waycaScCclsInTotal state = (count, after)) :
    after.topo = state.topo ∧ (count < 0 ↔ state.topo.largestCcl = 0) ∧
      (¬ count < 0 → count.toNat = state.topo.nCpus / state.topo.largestCcl) := by
  have hnegative : (-ENODATA : ℤ) < 0 := by decide
  unfold waycaScCclsInTotal at hccls
  dsimp only at hccls
  split at hccls
  next hnone =>
    cases hccls
    have hempty : state.topo.largestCcl = 0 := by
      unfold WaycaTopo.largestCcl
      rw [List.length_eq_zero_iff.mp (Nat.lt_one_iff.mp hnone), List.foldl_nil]
    exact ⟨rfl, iff_of_true hnegative hempty, fun hcount => absurd hnegative hcount⟩
  next =>
    split at hccls
    next hpos =>
      cases hccls
      refine ⟨rfl, iff_of_false ?_ hpos.ne', fun _ => Int.toNat_natCast _⟩
      exact not_lt.mpr (Int.natCast_nonneg _)
    next hzero =>
      cases hccls
      exact ⟨rfl, iff_of_true hnegative (Nat.eq_zero_of_not_pos hzero),
        fun hcount => absurd hnegative hcount⟩

theorem onlineQuery_keeps {offline value : ℤ} {answer : WaycaTopo → WaycaCpu → Outcome ℤ}
    (hagrees : OnlineAgrees sys state.topo)
    (hquery : onlineQuery sys recreate offline answer state cpu = .ok (value, after)) :
    state = after := by
  unfold onlineQuery at hquery
  by_cases hcpu : cpu < state.topo.nCpus
  · have hvalid : topoIsValidCpu state.topo cpu = true := valid_iff.mpr hcpu
    rw [hvalid, Bool.not_true, if_neg Bool.false_ne_true,
      isCpuOnline_of_agrees (hagrees.at hcpu) hcpu] at hquery
    obtain ⟨online, honline, hquery⟩ := bind_eq_ok.mp hquery
    cases honline
    dsimp only at hquery
    split at hquery
    next =>
      cases hquery
      rfl
    next =>
      obtain ⟨found, -, hquery⟩ := bind_eq_ok.mp hquery
      obtain ⟨id, -, hquery⟩ := bind_eq_ok.mp hquery
      cases hquery
      rfl
  · have hvalid : topoIsValidCpu state.topo cpu = false :=
      decide_eq_false fun hboth => hcpu (by exact_mod_cast hboth.2)
    rw [hvalid, Bool.not_false, if_pos rfl] at hquery
    cases hquery
    rfl

theorem returns_cacheSize {level size : ℤ} {type : List Char}
    (hagrees : OnlineAgrees sys state.topo)
    (hreturns : Returns (call fun state => cacheSizeQuery sys recreate level type state cpu :
      Builder ℤ) state size after) : state = after :=
  onlineQuery_keeps hagrees (returns_call.mp hreturns)

end Questions

/-! ## The children in the topology -/

/-- The children that the topology gives an element. -/
def keyChildren (topo : WaycaTopo) : ElementKey → List ElementKey
  | (.sys, _) => (List.range topo.packages.length).map fun i : ℕ => (.pkg, some (i : ℤ))
  | (.pkg, some p) => shownKeys .numa topo.nNodes
      (cpuSeen (cpuAllocSize topo.nNodes) (maskAt WaycaPackage.numaMap topo.packages p.toNat))
  | (.numa, some k) =>
      if topo.largestCcl = 0 then
        shownKeys .core (topo.nCpus / topo.largestCore)
          (cpuSeen (cpuAllocSize topo.cores.length) (topo.nodeCores k.toNat))
      else
        shownKeys .ccl (topo.nCpus / topo.largestCcl)
          (cpuSeen (cpuAllocSize topo.ccls.length) (topo.node k.toNat).clusterMap)
  | (.ccl, some c) => shownKeys .core (topo.nCpus / topo.largestCore)
      (cpuSeen (cpuAllocSize topo.cores.length) (topo.cclCores c.toNat))
  | (.core, some r) => shownKeys .cpu topo.nCpus
      (cpuSeen (cpuAllocSize topo.nCpus) (maskAt WaycaCore.coreCpusMap topo.cores r.toNat))
  | _ => []

theorem mem_shownKeys {level : TopoLevel} {limit : ℕ} {mask : Finset ℕ} {key : ElementKey} :
    key ∈ shownKeys level limit mask ↔ ∃ i < limit, i ∈ mask ∧ key = (level, some (i : ℤ)) := by
  unfold shownKeys
  simp only [List.mem_map, List.mem_filter, List.mem_range, decide_eq_true_eq]
  constructor
  · rintro ⟨i, ⟨hi, hmask⟩, rfl⟩
    exact ⟨i, hi, hmask, rfl⟩
  · rintro ⟨i, hi, hmask, rfl⟩
    exact ⟨i, ⟨hi, hmask⟩, rfl⟩

theorem filter_shownKeys {level : TopoLevel} (honWay : level.onWay = true) (limit : ℕ)
    (mask : Finset ℕ) :
    ((shownKeys level limit mask).filter fun key => key.1.onWay) = shownKeys level limit mask := by
  rw [List.filter_eq_self]
  intro key hkey
  obtain ⟨i, -, -, rfl⟩ := mem_shownKeys.mp hkey
  exact honWay

theorem keyChildren_off_way (topo : WaycaTopo) (key : ElementKey) (hoff : key.1.onWay = false) :
    keyChildren topo key = [] := by
  obtain ⟨level, index⟩ := key
  cases level with
  | intr | irq | pcidev | smmudev => rfl
  | sys | pkg | numa | ccl | core | cpu => cases hoff

theorem keyChildren_height (topo : WaycaTopo) (key child : ElementKey)
    (hchild : child ∈ keyChildren topo key) : child.1.height < key.1.height := by
  have hshown : ∀ {level limit mask}, child ∈ shownKeys level limit mask → child.1 = level := by
    intro level limit mask hmem
    obtain ⟨i, -, -, rfl⟩ := mem_shownKeys.mp hmem
    rfl
  obtain ⟨level, index⟩ := key
  cases index with
  | none =>
      cases level with
      | sys =>
          obtain ⟨i, -, rfl⟩ := List.mem_map.mp hchild
          exact Nat.lt_succ_self 4
      | pkg | numa | ccl | core | cpu | intr | irq | pcidev | smmudev => cases hchild
  | some index =>
      cases level with
      | sys =>
          obtain ⟨i, -, rfl⟩ := List.mem_map.mp hchild
          exact Nat.lt_succ_self 4
      | pkg =>
          rw [hshown hchild]
          exact Nat.lt_succ_self 3
      | numa =>
          simp only [keyChildren] at hchild
          split at hchild
          · rw [hshown hchild]
            exact Nat.lt_add_of_pos_right (by decide : 0 < 2)
          · rw [hshown hchild]
            exact Nat.lt_succ_self 2
      | ccl =>
          rw [hshown hchild]
          exact Nat.lt_succ_self 1
      | core =>
          rw [hshown hchild]
          exact Nat.lt_succ_self 0
      | cpu | intr | irq | pcidev | smmudev => cases hchild

section Builders

variable {sys : Sysfs} {recreate : TopoState → Outcome TopoState} {input : TreeInput}
  {state after : TopoState} {node : TopoElement} {built : TopoElement × List TopoElement}

/-- The builder keeps the key and makes the children of the topology. -/
def Expanded (topo : WaycaTopo) (node label : TopoElement) (children : List TopoElement) :
    Prop :=
  label.key = node.key ∧
    ((children.map TopoElement.key).filter fun key => key.1.onWay) = keyChildren topo node.key

theorem corePropBuild_key (hagrees : OnlineAgrees sys state.topo)
    (hreturns : Returns (corePropBuild sys recreate node cpu) state child after) :
    state = after ∧ child.key = node.key := by
  obtain ⟨l1i, first, hfirst, hreturns⟩ := returns_bind.mp hreturns
  have hsame := returns_cacheSize hagrees hfirst
  subst hsame
  obtain ⟨l1d, second, hsecond, hreturns⟩ := returns_bind.mp hreturns
  have hsame := returns_cacheSize hagrees hsecond
  subst hsame
  obtain ⟨l2, third, hthird, hreturns⟩ := returns_bind.mp hreturns
  have hsame := returns_cacheSize hagrees hthird
  subst hsame
  obtain ⟨rfl, rfl⟩ := returns_pure.mp hreturns
  refine ⟨rfl, ?_⟩
  simp (disch := decide) only [key_xmlNewProp]

theorem elementMap_eq {α : Type} {array : List α} {field : α → Finset ℕ} {id : ℤ}
    {source : Finset ℕ}
    (hmap : (do .ok (field (← elementAt array id)) : Outcome (Finset ℕ)) = .ok source) :
    source = maskAt field array id.toNat := by
  obtain ⟨record, hrecord, hsource⟩ := bind_eq_ok.mp hmap
  cases hsource
  rw [maskAt_of_record ((deref_ensures _).of_ok hrecord)]

theorem nodeMap_eq {topo : WaycaTopo} {field : WaycaNode → Finset ℕ} {k : ℕ} {source : Finset ℕ}
    (hmap : (do .ok (field (← topo.nodeAt k)) : Outcome (Finset ℕ)) = .ok source) :
    source = field (topo.node k) := by
  obtain ⟨found, hfound, hsource⟩ := bind_eq_ok.mp hmap
  cases hsource
  rw [WaycaTopo.node, nodeAt_success hfound, Option.getD_some]

theorem coreElemBuild_expands (hlevel : node.level = .core) (hagrees : OnlineAgrees sys state.topo)
    (hreturns : Returns (coreElemBuild sys recreate node) state built after) :
    after.topo = state.topo ∧ Expanded state.topo node built.1 built.2 := by
  obtain ⟨coreId, _, hindex, hreturns⟩ := returns_bind.mp hreturns
  obtain ⟨hid, rfl⟩ := returns_compute.mp hindex
  obtain ⟨mask, _, hmask, hreturns⟩ := returns_bind.mp hreturns
  obtain ⟨rfl, source, hsource, hkeys⟩ := maskFrom_keys hagrees hmask
  obtain ⟨cNr, _, hcount, hreturns⟩ := returns_bind.mp hreturns
  obtain ⟨rfl, hlimit⟩ := numberFrom_returns hcount
  obtain ⟨propped, _, hprops, hreturns⟩ := returns_bind.mp hreturns
  obtain ⟨rfl, hkey⟩ := corePropBuild_key hagrees hprops
  obtain ⟨children, _, hchildren, hreturns⟩ := returns_bind.mp hreturns
  obtain ⟨rfl, hshown⟩ := topoBuildNextElem_keys rfl hchildren
  obtain ⟨rfl, rfl⟩ := returns_pure.mp hreturns
  refine ⟨rfl, hkey, ?_⟩
  rw [hshown, hkeys, filter_shownKeys rfl, hlimit, elementMap_eq hsource, TopoElement.key,
    hlevel, index_of_getIndex hid]
  rfl

theorem cclElemBuild_expands (hlevel : node.level = .ccl) (hagrees : OnlineAgrees sys state.topo)
    (hreturns : Returns (cclElemBuild sys recreate node) state built after) :
    after.topo = state.topo ∧ Expanded state.topo node built.1 built.2 := by
  obtain ⟨cclId, _, hindex, hreturns⟩ := returns_bind.mp hreturns
  obtain ⟨hid, rfl⟩ := returns_compute.mp hindex
  obtain ⟨mask, _, hmask, hreturns⟩ := returns_bind.mp hreturns
  obtain ⟨rfl, source, hsource, hkeys⟩ := maskFrom_keys hagrees hmask
  obtain ⟨cNr, counted, hcount, hreturns⟩ := returns_bind.mp hreturns
  obtain ⟨htopo, hlimit⟩ := coresFrom_returns hcount
  obtain ⟨children, _, hchildren, hreturns⟩ := returns_bind.mp hreturns
  obtain ⟨rfl, hshown⟩ := topoBuildNextElem_keys rfl hchildren
  obtain ⟨rfl, rfl⟩ := returns_pure.mp hreturns
  refine ⟨htopo, rfl, ?_⟩
  rw [hshown, hkeys, filter_shownKeys rfl, hlimit, elementMap_eq hsource, TopoElement.key,
    hlevel, index_of_getIndex hid]
  rfl

theorem packageElemBuild_expands (hlevel : node.level = .pkg)
    (hagrees : OnlineAgrees sys state.topo)
    (hreturns : Returns (packageElemBuild sys recreate node) state built after) :
    after.topo = state.topo ∧ Expanded state.topo node built.1 built.2 := by
  obtain ⟨packageId, _, hindex, hreturns⟩ := returns_bind.mp hreturns
  obtain ⟨hid, rfl⟩ := returns_compute.mp hindex
  obtain ⟨mask, _, hmask, hreturns⟩ := returns_bind.mp hreturns
  obtain ⟨rfl, source, hsource, hkeys⟩ := maskFrom_keys hagrees hmask
  obtain ⟨numaNr, _, hcount, hreturns⟩ := returns_bind.mp hreturns
  obtain ⟨rfl, hlimit⟩ := numberFrom_returns hcount
  obtain ⟨children, _, hchildren, hreturns⟩ := returns_bind.mp hreturns
  obtain ⟨rfl, hshown⟩ := topoBuildNextElem_keys rfl hchildren
  obtain ⟨rfl, rfl⟩ := returns_pure.mp hreturns
  refine ⟨rfl, rfl, ?_⟩
  rw [hshown, hkeys, filter_shownKeys rfl, hlimit, elementMap_eq hsource, TopoElement.key,
    hlevel, index_of_getIndex hid]
  rfl

theorem l3SizeIn_keeps {mask : Finset ℕ} {size result : ℤ} (hagrees : OnlineAgrees sys state.topo)
    (hreturns : Returns (l3SizeIn sys recreate mask numbers size) state result after) :
    state = after := by
  induction numbers generalizing state size with
  | nil => exact (returns_pure.mp hreturns).2
  | cons i rest ih =>
      unfold l3SizeIn at hreturns
      split at hreturns
      next => exact ih hagrees hreturns
      next =>
        obtain ⟨found, middle, hfound, hreturns⟩ := returns_bind.mp hreturns
        have hsame := returns_cacheSize hagrees hfound
        subst hsame
        split at hreturns
        next => exact (returns_pure.mp hreturns).2
        next => exact ih hagrees hreturns

theorem numaPropBuild_key (hagrees : OnlineAgrees sys state.topo)
    (hreturns : Returns (numaPropBuild sys recreate node numaId) state child after) :
    state = after ∧ child.key = node.key := by
  obtain ⟨memSize, first, hsize, hreturns⟩ := returns_bind.mp hreturns
  have hsame := returns_lookup (waycaScGetNodeMemSize · numaId (some 0)) hsize
  subst hsame
  obtain ⟨_, _, hguard, hreturns⟩ := returns_bind.mp hreturns
  obtain ⟨-, rfl⟩ := returns_guardCode.mp hguard
  obtain ⟨mask, _, hmask, hreturns⟩ := returns_bind.mp hreturns
  obtain ⟨rfl, -⟩ := maskFrom_keys hagrees hmask
  obtain ⟨numCpu, _, hcount, hreturns⟩ := returns_bind.mp hreturns
  obtain ⟨rfl, -⟩ := numberFrom_returns hcount
  obtain ⟨cacheSize, last, hcache, hreturns⟩ := returns_bind.mp hreturns
  have hsame := l3SizeIn_keeps hagrees hcache
  subst hsame
  obtain ⟨rfl, rfl⟩ := returns_pure.mp hreturns
  refine ⟨rfl, ?_⟩
  simp (disch := decide) only [key_xmlNewProp]

theorem numaChildren_keys (hagrees : OnlineAgrees sys state.topo)
    (hreturns : Returns (numaChildren sys recreate numaId) state children after) :
    after.topo = state.topo ∧
      children.map TopoElement.key = keyChildren state.topo (.numa, some numaId) := by
  obtain ⟨cNr, counted, hcount, hreturns⟩ := returns_bind.mp hreturns
  obtain ⟨htopo, hzero, hcount⟩ := cclsInTotal_eq (returns_query.mp hcount)
  rw [← htopo] at hagrees
  unfold keyChildren
  dsimp only
  split at hreturns
  next hnone =>
    obtain ⟨cNr, cores, hcores, hreturns⟩ := returns_bind.mp hreturns
    obtain ⟨hcoresTopo, hcores⟩ := coresFrom_returns hcores
    rw [← hcoresTopo] at hagrees
    obtain ⟨mask, _, hmask, hreturns⟩ := returns_bind.mp hreturns
    obtain ⟨rfl, source, hsource, hkeys⟩ := maskFrom_keys hagrees hmask
    obtain ⟨rfl, hchildren⟩ := topoBuildNextElem_keys rfl hreturns
    refine ⟨hcoresTopo.trans htopo, ?_⟩
    rw [if_pos (hzero.mp hnone), hchildren, hkeys, hcores, nodeMap_eq hsource, hcoresTopo, htopo]
    rfl
  next hsome =>
    obtain ⟨mask, _, hmask, hreturns⟩ := returns_bind.mp hreturns
    obtain ⟨rfl, source, hsource, hkeys⟩ := maskFrom_keys hagrees hmask
    obtain ⟨rfl, hchildren⟩ := topoBuildNextElem_keys rfl hreturns
    refine ⟨htopo, ?_⟩
    rw [if_neg fun hlargest => hsome (hzero.mpr hlargest), hchildren, hkeys, hcount hsome,
      nodeMap_eq hsource, htopo]

/-! ## Devices and interrupts -/

def OffWay (children : List TopoElement) : Prop := ∀ child ∈ children, child.level.onWay = false

theorem OffWay.filter (hoff : OffWay children) :
    ((children.map TopoElement.key).filter fun key => key.1.onWay) = [] := by
  rw [List.filter_eq_nil_iff]
  intro key hkey
  obtain ⟨child, hchild, rfl⟩ := List.mem_map.mp hkey
  exact Bool.eq_false_iff.mp (hoff child hchild)

theorem offWay_nil : OffWay [] := fun _ hchild => absurd hchild List.not_mem_nil

theorem deviceElem_offWay {name : Option DeviceName} (hdevice : deviceElem input name = .ok child) :
    child.level.onWay = false := by
  unfold deviceElem at hdevice
  dsimp only at hdevice
  split at hdevice
  next => cases hdevice
  next =>
    split at hdevice
    next =>
      cases hdevice
      rfl
    next =>
      cases hdevice
      rfl
    next => cases hdevice

theorem deviceElems_offWay {names : List (Option DeviceName)}
    (hdevices : deviceElems input names = .ok children) : OffWay children := by
  induction names generalizing children with
  | nil =>
      cases hdevices
      exact offWay_nil
  | cons name rest ih =>
      unfold deviceElems at hdevices
      split at hdevices
      next => cases hdevices
      next element helement =>
        split at hdevices
        next => cases hdevices
        next others hothers =>
          cases hdevices
          intro child hchild
          rcases List.mem_cons.mp hchild with rfl | hlater
          · exact deviceElem_offWay helement
          · exact ih hothers child hlater

theorem not_returns_fault {α : Type} {failure : Failure} {value : α} :
    ¬ Returns (call fun _ => .error failure : Builder α) state value after := by
  rw [returns_call]
  exact nofun

theorem numaDevElemBuild_offWay
    (hreturns : Returns (numaDevElemBuild input numaId) state children after) :
    state = after ∧ OffWay children := by
  unfold numaDevElemBuild at hreturns
  split at hreturns
  next => exact absurd hreturns not_returns_fault
  next =>
    split at hreturns
    next => exact absurd hreturns not_returns_failWith
    next =>
      split at hreturns
      next =>
        obtain ⟨rfl, rfl⟩ := returns_pure.mp hreturns
        exact ⟨rfl, offWay_nil⟩
      next =>
        split at hreturns
        next => exact absurd hreturns not_returns_fault
        next =>
          split at hreturns
          next => exact absurd hreturns not_returns_failWith
          next =>
            obtain ⟨hdevices, rfl⟩ := returns_compute.mp hreturns
            exact ⟨rfl, deviceElems_offWay hdevices⟩

theorem numaElemBuild_expands (hlevel : node.level = .numa) (hagrees : OnlineAgrees sys state.topo)
    (hreturns : Returns (numaElemBuild sys recreate input node) state built after) :
    after.topo = state.topo ∧ Expanded state.topo node built.1 built.2 := by
  obtain ⟨numaId, _, hindex, hreturns⟩ := returns_bind.mp hreturns
  obtain ⟨hid, rfl⟩ := returns_compute.mp hindex
  obtain ⟨propped, _, hprops, hreturns⟩ := returns_bind.mp hreturns
  obtain ⟨rfl, hkey⟩ := numaPropBuild_key hagrees hprops
  obtain ⟨children, counted, hchildren, hreturns⟩ := returns_bind.mp hreturns
  obtain ⟨htopo, hkeys⟩ := numaChildren_keys hagrees hchildren
  have hshown : ((children.map TopoElement.key).filter fun key => key.1.onWay) =
      keyChildren state.topo node.key := by
    rw [hkeys, TopoElement.key, hlevel, index_of_getIndex hid]
    unfold keyChildren
    dsimp only
    split
    · exact filter_shownKeys rfl _ _
    · exact filter_shownKeys rfl _ _
  split at hreturns
  next =>
    obtain ⟨rfl, rfl⟩ := returns_pure.mp hreturns
    exact ⟨htopo, hkey, hshown⟩
  next =>
    obtain ⟨devices, _, hdevices, hreturns⟩ := returns_bind.mp hreturns
    obtain ⟨rfl, hoff⟩ := numaDevElemBuild_offWay hdevices
    obtain ⟨rfl, rfl⟩ := returns_pure.mp hreturns
    refine ⟨htopo, hkey, ?_⟩
    rw [List.map_append, List.filter_append, hoff.filter, List.append_nil, hshown]

theorem systemElemBuild_expands (hlevel : node.level = .sys)
    (hreturns : Returns (systemElemBuild input node) state built after) :
    after.topo = state.topo ∧ Expanded state.topo node built.1 built.2 := by
  obtain ⟨packageNr, _, hcount, hreturns⟩ := returns_bind.mp hreturns
  obtain ⟨rfl, hlimit⟩ := numberFrom_returns hcount
  obtain ⟨packages, _, hpackages, hreturns⟩ := returns_bind.mp hreturns
  obtain ⟨rfl, hkeys⟩ := buildPackages_keys hpackages
  have hchildren : ((packages.map TopoElement.key).filter fun key => key.1.onWay) =
      keyChildren state.topo node.key := by
    rw [hkeys, hlimit, TopoElement.key, hlevel, List.filter_eq_self.mpr]
    · rfl
    · intro key hkey
      obtain ⟨i, -, rfl⟩ := List.mem_map.mp hkey
      rfl
  split at hreturns
  next =>
    obtain ⟨rfl, rfl⟩ := returns_pure.mp hreturns
    exact ⟨rfl, rfl, hchildren⟩
  next =>
    obtain ⟨interrupt, _, hinterrupt, hreturns⟩ := returns_bind.mp hreturns
    obtain ⟨rfl, hkey⟩ := topoBuildSingleElem_key hinterrupt
    obtain ⟨rfl, rfl⟩ := returns_pure.mp hreturns
    refine ⟨rfl, rfl, ?_⟩
    rw [List.map_append, List.filter_append, hchildren, List.map_singleton, hkey]
    exact List.append_nil _

theorem offWay_expands (hlevel : node.level.onWay = false) (hkey : built.1.key = node.key)
    (hoff : OffWay built.2) : Expanded state.topo node built.1 built.2 :=
  ⟨hkey, by rw [hoff.filter, keyChildren_off_way _ _ hlevel]⟩

theorem intrElemBuild_off (hreturns : Returns (intrElemBuild input node) state built after) :
    state = after ∧ built.1.key = node.key ∧ OffWay built.2 := by
  unfold intrElemBuild at hreturns
  split at hreturns
  next => exact absurd hreturns not_returns_failWith
  next =>
    obtain ⟨rfl, rfl⟩ := returns_pure.mp hreturns
    refine ⟨rfl, rfl, ?_⟩
    intro child hchild
    obtain ⟨irq, -, rfl⟩ := List.mem_map.mp hchild
    rfl

theorem irqElemBuild_off (hreturns : Returns (irqElemBuild input node) state built after) :
    state = after ∧ built.1.key = node.key ∧ OffWay built.2 := by
  unfold irqElemBuild at hreturns
  split at hreturns
  next irqNumber hnumber =>
    obtain ⟨hprops, rfl⟩ := returns_compute.mp hreturns
    refine ⟨rfl, ?_⟩
    unfold irqPropBuild at hprops
    split at hprops
    next => cases hprops
    next =>
      split at hprops
      next =>
        cases hprops
        refine ⟨?_, offWay_nil⟩
        simp (disch := decide) only [key_xmlNewProp]
      next => cases hprops
  next => exact absurd hreturns not_returns_failWith
  next => exact absurd hreturns not_returns_failWith

theorem devElemBuild_off {nameAttr : PropName} {props : TopoElement → DeviceInfo → TopoElement}
    (hprops : ∀ node devInfo, (props node devInfo).key = node.key)
    (hreturns : Returns (devElemBuild input nameAttr props node) state built after) :
    state = after ∧ built.1.key = node.key ∧ OffWay built.2 := by
  unfold devElemBuild at hreturns
  split at hreturns
  next =>
    split at hreturns
    next =>
      obtain ⟨rfl, rfl⟩ := returns_pure.mp hreturns
      exact ⟨rfl, hprops _ _, offWay_nil⟩
    next => exact absurd hreturns not_returns_failWith
  next => exact absurd hreturns not_returns_failWith

theorem pciProps_key (node : TopoElement) (devInfo : DeviceInfo) :
    (pciProps node devInfo).key = node.key := by
  unfold pciProps
  dsimp only
  split
  next =>
    simp (disch := decide) only [key_xmlNewProp]
  next => exact key_xmlNewProp _ _ (by decide)

theorem smmuProps_key (node : TopoElement) (devInfo : DeviceInfo) :
    (smmuProps node devInfo).key = node.key := by
  unfold smmuProps
  dsimp only
  split
  next =>
    simp (disch := decide) only [key_xmlNewProp]
  next => exact key_xmlNewProp _ _ (by decide)

/-- Every builder makes the children that the topology gives the element. -/
theorem elemBuild_expands (hagrees : OnlineAgrees sys state.topo)
    (hreturns : Returns (elemBuild sys recreate input node) state built after) :
    after.topo = state.topo ∧ Expanded state.topo node built.1 built.2 := by
  have hoff : ∀ {level}, node.level = level → level.onWay = false →
      state = after ∧ built.1.key = node.key ∧ OffWay built.2 →
      after.topo = state.topo ∧ Expanded state.topo node built.1 built.2 := by
    rintro level rfl hlevel ⟨rfl, hkey, hbelow⟩
    exact ⟨rfl, offWay_expands hlevel hkey hbelow⟩
  unfold elemBuild at hreturns
  split at hreturns
  next hlevel => exact systemElemBuild_expands hlevel hreturns
  next hlevel => exact packageElemBuild_expands hlevel hagrees hreturns
  next hlevel => exact numaElemBuild_expands hlevel hagrees hreturns
  next hlevel => exact cclElemBuild_expands hlevel hagrees hreturns
  next hlevel => exact coreElemBuild_expands hlevel hagrees hreturns
  next hlevel =>
    obtain ⟨rfl, rfl⟩ := returns_pure.mp hreturns
    refine ⟨rfl, rfl, ?_⟩
    rw [TopoElement.key, hlevel]
    rfl
  next hlevel => exact hoff hlevel rfl (intrElemBuild_off hreturns)
  next hlevel => exact hoff hlevel rfl (irqElemBuild_off hreturns)
  next hlevel => exact hoff hlevel rfl (devElemBuild_off pciProps_key hreturns)
  next hlevel => exact hoff hlevel rfl (devElemBuild_off smmuProps_key hreturns)

theorem buildTopo_grown {depth : ℕ} {roots : List TopoElement} {forest : Forest TopoElement}
    (hagrees : OnlineAgrees sys state.topo)
    (hreturns : Returns (buildTopo sys recreate input depth roots) state forest after) :
    after.topo = state.topo ∧ Grown (Expanded state.topo) roots forest := by
  induction depth generalizing roots forest state after with
  | zero => exact absurd hreturns not_returns_fault
  | succ depth ih =>
      unfold buildTopo at hreturns
      induction roots generalizing forest state after with
      | nil =>
          obtain ⟨rfl, rfl⟩ := returns_pure.mp hreturns
          exact ⟨rfl, .nil⟩
      | cons root rest ihRest =>
          obtain ⟨built, afterRoot, hbuilt, hreturns⟩ := returns_bind.mp hreturns
          obtain ⟨label, children⟩ := built
          obtain ⟨hrootTopo, hexpanded⟩ := elemBuild_expands hagrees hbuilt
          rw [← hrootTopo] at hagrees hexpanded ⊢
          dsimp only at hreturns
          split at hreturns
          next hempty =>
            obtain ⟨next, afterNext, hnext, hreturns⟩ := returns_bind.mp hreturns
            obtain ⟨hnextTopo, hgrown⟩ := ihRest hagrees hnext
            obtain ⟨rfl, rfl⟩ := returns_pure.mp hreturns
            rw [List.isEmpty_iff.mp hempty] at hexpanded
            exact ⟨hnextTopo, .node hexpanded .nil hgrown⟩
          next =>
            obtain ⟨below, afterBelow, hbelow, hreturns⟩ := returns_bind.mp hreturns
            obtain ⟨hbelowTopo, hgrownBelow⟩ := ih hagrees hbelow
            rw [← hbelowTopo] at hagrees hexpanded hgrownBelow ⊢
            obtain ⟨next, afterNext, hnext, hreturns⟩ := returns_bind.mp hreturns
            obtain ⟨hnextTopo, hgrown⟩ := ihRest hagrees hnext
            obtain ⟨rfl, rfl⟩ := returns_pure.mp hreturns
            exact ⟨hnextTopo, .node hexpanded hgrownBelow hgrown⟩

theorem buildTopoInfo_ways {depth : ℕ} {tree : Forest TopoElement}
    (hagrees : OnlineAgrees sys state.topo)
    (hreturns : Returns (buildTopoInfo sys recreate input depth) state tree after)
    (cpu : ℕ) :
    (tree.trailsOf fun node => decide (node.key = (.cpu, some (cpu : ℤ)))).map
        (List.map TopoElement.key) =
      ways (keyChildren state.topo) (fun key => decide (key = (.cpu, some (cpu : ℤ)))) 6
        (.sys, none) := by
  have hgrown := (buildTopo_grown hagrees hreturns).2
  have honWay : ∀ key : ElementKey, decide (key = (.cpu, some (cpu : ℤ))) = true →
      key.1.onWay = true := by
    intro key hkey
    rw [of_decide_eq_true hkey]
    rfl
  have hdepth : ∀ key ∈ [TopoElement.key ⟨.sys, []⟩].filter fun key => key.1.onWay,
      key.1.height < 6 := by
    decide
  rw [hgrown.trailsOf_keys TopoElement.key (fun _ _ _ hexpanded => hexpanded) honWay
    (keyChildren_off_way _) (keyChildren_height _) hdepth]
  exact List.append_nil _

end Builders

end WaycaScheduler
