import WaycaScheduler.DeployRuns
import WaycaScheduler.ManagedThreads
import Mathlib.Algebra.BigOperators.Pi

/-!
# Deployment of single threads

For a program whose threads are placed one by one the daemon reads the maps of
the threads into an array that it has just allocated, and then books the load of
each of the hundred maps.  The allocation is not cleared, and the reader fills
the maps and fields that the text has and no others.  A run adds up one summand
for each map, which depends on the old contents of this map alone.
-/

namespace WaycaScheduler

open CText Fuelled Finset

variable {map : TaskCpuMap}

section Program

variable (machine : DeployMachine)

def bookMap (loads : DeployLoads) (map : TaskCpuMap) : DeployLoads :=
  if 0 < cpuCountS cpuSetBytes map.tasks then
    let nodes := cpuCountS cpuSetBytes map.nodes
    let cpus := cpuCountS cpuSetBytes map.cpus
    if 0 < nodes then
      (List.range machine.nodes).foldl (fun loads j =>
        if cpuIssetS j cpuSetBytes map.nodes then bookNode loads j (map.cpuUtil.tdiv nodes)
        else loads) loads
    else
      (List.range machine.cpusInTotal).foldl (fun loads j =>
        if cpuIssetS j cpuSetBytes map.cpus then
          bookCcl (bookNode loads (j / machine.cpusInNode) (map.cpuUtil.tdiv cpus))
            (j / machine.cpusInCcl) (map.cpuUtil.tdiv cpus)
        else loads) loads
  else loads

/-- The call with the array that `malloc` returns, or none. -/
def processManagedThreadsBind (perror : ℤ → ℤ) (fuel : ℕ) (cpuList : List Char)
    (malloc : Option (ℕ → TaskCpuMap)) (loads : DeployLoads) : Option (ℤ × DeployLoads) :=
  match malloc with
  | none => some (-1, loads)
  | some maps =>
      (toTaskCpuMap perror machine.cpusInTotal machine.cpusInNode machine.nodes fuel (some cpuList)
        maps).map fun parsed =>
          (0, (List.range MAX_MANAGED_MAPS).foldl (fun loads i =>
            bookMap machine loads (parsed.2 i)) loads)

end Program

/-- A map as the bytes of an allocation may give it. -/
structure RawMap extends TaskCpuMap where
  tasks_lt : ∀ task ∈ tasks, task < 8 * cpuSetBytes
  cpus_lt : ∀ cpu ∈ cpus, cpu < 8 * cpuSetBytes
  nodes_lt : ∀ node ∈ nodes, node < 8 * cpuSetBytes
  util_low : -2 ^ 31 ≤ cpuUtil
  util_high : cpuUtil < 2 ^ 31

theorem DeployMachine.nodes_pos (machine : DeployMachine) : 0 < machine.nodes :=
  Nat.div_pos (Nat.le_of_dvd machine.total_pos (machine.node_dvd.trans machine.package_dvd))
    machine.node_pos

/-! ## What a map books -/

section Booked

variable {machine : DeployMachine} {loads : DeployLoads}

def DeployLoads.add (loads : DeployLoads) (booked : (ℕ → ℤ) × (ℕ → ℤ)) : DeployLoads :=
  ⟨loads.ccl + booked.1, loads.node + booked.2⟩

@[simp]
theorem DeployLoads.add_none (loads : DeployLoads) : loads.add 0 = loads := by
  simp [DeployLoads.add]

theorem DeployLoads.add_add (loads : DeployLoads) (booked more : (ℕ → ℤ) × (ℕ → ℤ)) :
    (loads.add booked).add more = loads.add (booked + more) := by
  simp [DeployLoads.add, add_assoc]

theorem DeployLoads.add_inj {booked other : (ℕ → ℤ) × (ℕ → ℤ)} :
    loads.add booked = loads.add other ↔ booked = other := by
  simp [DeployLoads.add, Prod.ext_iff]

theorem bookCcl_eq (loads : DeployLoads) (ccl : ℕ) (cpuUtil : ℤ) :
    bookCcl loads ccl cpuUtil = loads.add (Pi.single ccl cpuUtil, 0) := by
  unfold bookCcl DeployLoads.add
  congr 1
  · funext k
    simp only [update_add, Pi.add_apply, Pi.single_apply]
  · exact (add_zero loads.node).symm

theorem bookNode_eq (loads : DeployLoads) (node : ℕ) (cpuUtil : ℤ) :
    bookNode loads node cpuUtil = loads.add (0, Pi.single node cpuUtil) := by
  unfold bookNode DeployLoads.add
  congr 1
  · exact (add_zero loads.ccl).symm
  · funext m
    simp only [update_add, Pi.add_apply, Pi.single_apply]

theorem foldl_range_add {step : DeployLoads → ℕ → DeployLoads} {booked : ℕ → (ℕ → ℤ) × (ℕ → ℤ)}
    (hstep : ∀ loads j, step loads j = loads.add (booked j)) (count : ℕ) (loads : DeployLoads) :
    (List.range count).foldl step loads = loads.add (∑ j ∈ range count, booked j) := by
  induction count with
  | zero => exact loads.add_none.symm
  | succ count ih =>
      rw [List.range_succ, List.foldl_append, List.foldl_cons, List.foldl_nil, ih, hstep,
        DeployLoads.add_add, sum_range_succ]

def mapBooked (machine : DeployMachine) (map : TaskCpuMap) : (ℕ → ℤ) × (ℕ → ℤ) :=
  if 0 < cpuCountS cpuSetBytes map.tasks then
    if 0 < cpuCountS cpuSetBytes map.nodes then
      ∑ j ∈ range machine.nodes,
        if cpuIssetS j cpuSetBytes map.nodes then
          (0, Pi.single j (map.cpuUtil.tdiv (cpuCountS cpuSetBytes map.nodes)))
        else 0
    else
      ∑ j ∈ range machine.cpusInTotal,
        if cpuIssetS j cpuSetBytes map.cpus then
          (Pi.single (j / machine.cpusInCcl)
            (map.cpuUtil.tdiv (cpuCountS cpuSetBytes map.cpus)),
          Pi.single (j / machine.cpusInNode)
            (map.cpuUtil.tdiv (cpuCountS cpuSetBytes map.cpus)))
        else 0
  else 0

theorem bookMap_eq (machine : DeployMachine) (loads : DeployLoads) (map : TaskCpuMap) :
    bookMap machine loads map = loads.add (mapBooked machine map) := by
  unfold bookMap mapBooked
  split
  next htasks =>
    dsimp only
    split
    next hnodes =>
      apply foldl_range_add
      intro loads j
      split
      next => exact bookNode_eq loads j _
      next => exact loads.add_none.symm
    next hnodes =>
      apply foldl_range_add
      intro loads j
      split
      next => rw [bookCcl_eq, bookNode_eq, DeployLoads.add_add, Prod.mk_add_mk, zero_add, add_zero]
      next => exact loads.add_none.symm
  next htasks => exact loads.add_none.symm

theorem foldl_bookMap (machine : DeployMachine) (loads : DeployLoads) (maps : ℕ → TaskCpuMap)
    (count : ℕ) :
    (List.range count).foldl (fun loads i => bookMap machine loads (maps i)) loads =
      loads.add (∑ i ∈ range count, mapBooked machine (maps i)) :=
  foldl_range_add (fun loads i => bookMap_eq machine loads (maps i)) count loads

theorem mem_of_isset {j : ℕ} {set : Finset ℕ} :
    cpuIssetS j cpuSetBytes set = true ↔ j ∈ cpuSeen cpuSetBytes set := by
  rw [cpuIssetS, Bool.and_eq_true, decide_eq_true_eq, decide_eq_true_eq, cpuSeen, mem_filter]
  exact And.comm

theorem mapBooked_node (htasks : 0 < cpuCountS cpuSetBytes map.tasks)
    (hnodes : 0 < cpuCountS cpuSetBytes map.nodes) {m : ℕ} (hm : m < machine.nodes) :
    (mapBooked machine map).2 m = if m ∈ cpuSeen cpuSetBytes map.nodes then
        map.cpuUtil.tdiv (cpuCountS cpuSetBytes map.nodes)
      else 0 := by
  rw [mapBooked, if_pos htasks, if_pos hnodes, Prod.snd_sum, Finset.sum_apply,
    sum_eq_single_of_mem m (mem_range.mpr hm)]
  · simp only [mem_of_isset]
    split
    next hin => exact Pi.single_eq_same m _
    next hout => rfl
  · intro j hj hne
    split
    next hin => exact Pi.single_eq_of_ne hne.symm _
    next hout => rfl

theorem mapBooked_no_tasks (htasks : cpuCountS cpuSetBytes map.tasks = 0) :
    mapBooked machine map = 0 := by
  rw [mapBooked, if_neg (by omega)]

theorem mapBooked_no_util (hutil : map.cpuUtil = 0) :
    mapBooked machine map = 0 := by
  simp only [mapBooked, hutil, Int.zero_tdiv, Pi.single_zero, Prod.mk_zero_zero, ite_self,
    sum_const_zero]

theorem mapBooked_no_nodes (hnodes : ∀ node ∈ cpuSeen cpuSetBytes map.nodes, machine.nodes ≤ node)
    (hcpus : cpuSeen cpuSetBytes map.nodes = ∅ → cpuSeen cpuSetBytes map.cpus = ∅) :
    mapBooked machine map = 0 := by
  unfold mapBooked
  split
  next htasks =>
    split
    next hsome =>
      apply sum_eq_zero
      intro j hj
      rw [if_neg]
      intro hin
      exact absurd (hnodes j (mem_of_isset.mp hin)) (not_le.mpr (mem_range.mp hj))
    next hnone =>
      have hempty := hcpus (card_eq_zero.mp (Nat.eq_zero_of_not_pos hnone))
      apply sum_eq_zero
      intro j hj
      rw [if_neg]
      intro hin
      rw [mem_of_isset, hempty] at hin
      exact notMem_empty j hin
  next htasks => rfl

end Booked

/-! ## What a run books -/

section Runs

variable {machine : DeployMachine} {loads : DeployLoads} {text : List Char} {perror : ℤ → ℤ}

def slotAfter (machine : DeployMachine) (writes : List MapWrite) (i : ℕ) (map : TaskCpuMap) :
    TaskCpuMap :=
  match writes[i]? with
  | some write => write.apply machine.cpusInNode machine.nodes map
  | none => map

theorem applyFrom_eq_slotAfter (writes : List MapWrite) (maps : ℕ → TaskCpuMap) (i : ℕ) :
    applyFrom machine.cpusInNode machine.nodes 0 writes maps i =
      slotAfter machine writes i (maps i) := by
  unfold slotAfter
  cases hwrite : writes[i]? with
  | none => exact applyFrom_behind (by rw [Nat.zero_add]; exact List.getElem?_eq_none_iff.mp hwrite)
  | some write =>
      have hentry : applyFrom machine.cpusInNode machine.nodes 0 writes maps (0 + i) = _ :=
        applyFrom_entry hwrite
      rw [Nat.zero_add] at hentry
      exact hentry

theorem processManagedThreadsBind_returns {maps : ℕ → TaskCpuMap} {ret : ℤ} {after : DeployLoads} :
    Returns (fun fuel => processManagedThreadsBind machine perror fuel text (some maps) loads)
        (ret, after) ↔
      ∃ writes status, MapEntries perror machine.cpusInTotal MAX_MANAGED_MAPS text writes status ∧
        ret = 0 ∧ after = loads.add (∑ i ∈ range MAX_MANAGED_MAPS,
          mapBooked machine (slotAfter machine writes i (maps i))) := by
  unfold processManagedThreadsBind toTaskCpuMap
  simp only [returns_map, toTaskCpuMapLoop_returns, foldl_bookMap, Prod.mk.injEq]
  constructor
  · rintro ⟨parsed, ⟨writes, status, hentries, rfl⟩, hret, hafter⟩
    simp only [applyFrom_eq_slotAfter] at hafter
    exact ⟨writes, status, hentries, hret, hafter⟩
  · rintro ⟨writes, status, hentries, hret, hafter⟩
    refine ⟨_, ⟨writes, status, hentries, rfl⟩, hret, ?_⟩
    simp only [applyFrom_eq_slotAfter]
    exact hafter

end Runs

/-! ## Entries that write all that is read -/

section Determined

variable {machine : DeployMachine} {write : MapWrite}

/-- What the entry books does not rest on a field that it leaves: it has no
tasks or a utilisation of 0, or it has nodes, and a utilisation if one of them
is a node of the machine. -/
def MapWrite.Determined (machine : DeployMachine) (write : MapWrite) : Prop :=
  cpuCountS cpuSetBytes write.tasks = 0 ∨ write.cpuUtil = some 0 ∨
    ∃ nodes, write.target = .nodes nodes ∧
      (write.cpuUtil ≠ none ∨ ∀ node ∈ cpuSeen cpuSetBytes nodes, machine.nodes ≤ node)

def MapWrite.booked (machine : DeployMachine) (write : MapWrite) (map : TaskCpuMap) :
    (ℕ → ℤ) × (ℕ → ℤ) :=
  mapBooked machine (write.apply machine.cpusInNode machine.nodes map)

theorem nodemaskToCpumask_empty {nodes : Finset ℕ} (hempty : cpuSeen cpuSetBytes nodes = ∅) :
    cpuSeen cpuSetBytes (nodemaskToCpumask machine.cpusInNode machine.nodes nodes) = ∅ := by
  rw [eq_empty_iff_forall_notMem]
  intro cpu hcpu
  obtain ⟨node, hnode, -, hfits, hfirst, -⟩ := mem_nodemaskToCpumask.mp (mem_filter.mp hcpu).1
  have hle : node ≤ node * machine.cpusInNode := Nat.le_mul_of_pos_right node machine.node_pos
  have hseen : node ∈ cpuSeen cpuSetBytes nodes := mem_filter.mpr ⟨hnode, by omega⟩
  rw [hempty] at hseen
  exact notMem_empty node hseen

theorem MapWrite.Determined.booked_eq (hdetermined : write.Determined machine)
    (map map' : TaskCpuMap) : write.booked machine map = write.booked machine map' := by
  unfold MapWrite.booked
  rcases hdetermined with htasks | hutil | ⟨nodes, htarget, hutil | hnone⟩
  · rw [mapBooked_no_tasks htasks, mapBooked_no_tasks htasks]
  · rw [mapBooked_no_util, mapBooked_no_util]
    · rw [MapWrite.apply, hutil, Option.getD_some]
    · rw [MapWrite.apply, hutil, Option.getD_some]
  · obtain ⟨util, hutil⟩ := Option.ne_none_iff_exists'.mp hutil
    unfold MapWrite.apply
    rw [htarget, hutil, Option.getD_some, Option.getD_some]
  · have hnothing (map : TaskCpuMap) :
        mapBooked machine (write.apply machine.cpusInNode machine.nodes map) = 0 := by
      apply mapBooked_no_nodes
      · unfold MapWrite.apply
        rw [htarget]
        exact hnone
      · unfold MapWrite.apply
        rw [htarget]
        exact nodemaskToCpumask_empty
    rw [hnothing map, hnothing map']

def oneNode (node : Fin 2) (util : Fin 1025) : RawMap where
  tasks := {0}
  cpus := ∅
  nodes := {node.val}
  cpuUtil := util.val
  tasks_lt := by
    intro task htask
    rw [mem_singleton.mp htask]
    decide
  cpus_lt := by simp
  nodes_lt := by
    intro other hother
    rw [mem_singleton.mp hother]
    exact node.isLt.trans (by decide)
  util_low := by omega
  util_high := by omega

theorem node_zero_booked {node : Fin 2} (htasks : 0 < cpuCountS cpuSetBytes map.tasks)
    (hnodes : map.nodes = {node.val}) :
    (mapBooked machine map).2 0 = if node.val = 0 then map.cpuUtil else 0 := by
  have hseen : cpuSeen cpuSetBytes map.nodes = {node.val} := by
    rw [hnodes, cpuSeen, filter_singleton, if_pos]
    exact (Nat.div_le_self node.val 8).trans_lt (node.isLt.trans (by decide))
  have hcount : cpuCountS cpuSetBytes map.nodes = 1 := by
    rw [cpuCountS, hseen, card_singleton]
  rw [mapBooked_node htasks (by omega) machine.nodes_pos, hseen, hcount, Nat.cast_one, Int.tdiv_one]
  simp only [mem_singleton, eq_comm]

theorem booked_differs {after : TaskCpuMap → TaskCpuMap} {util : ℤ} (hutil : util ≠ 0)
    (htasks : ∀ node, 0 < cpuCountS cpuSetBytes (after (oneNode node 1).toTaskCpuMap).tasks)
    (hnodes : ∀ node, (after (oneNode node 1).toTaskCpuMap).nodes = {node.val})
    (hvalue : ∀ node, (after (oneNode node 1).toTaskCpuMap).cpuUtil = util) :
    ∃ raw raw' : RawMap,
      mapBooked machine (after raw.toTaskCpuMap) ≠ mapBooked machine (after raw'.toTaskCpuMap) := by
  refine ⟨oneNode 0 1, oneNode 1 1, ?_⟩
  intro hsame
  have hzero := congrArg (fun booked => booked.2 0) hsame
  rw [node_zero_booked (htasks 0) (hnodes 0), node_zero_booked (htasks 1) (hnodes 1),
    if_pos (Fin.val_zero 2), if_neg (by decide), hvalue 0] at hzero
  exact hutil hzero

theorem MapWrite.booked_differs_without_nodes (htasks : 0 < cpuCountS cpuSetBytes write.tasks)
    (hutil : write.cpuUtil ≠ some 0) (hother : ∀ nodes, write.target ≠ .nodes nodes) :
    ∃ raw raw' : RawMap,
      write.booked machine raw.toTaskCpuMap ≠ write.booked machine raw'.toTaskCpuMap := by
  have hgiven : write.cpuUtil.getD 1 ≠ 0 := by
    cases hvalue : write.cpuUtil with
    | none => exact one_ne_zero
    | some util =>
        rintro rfl
        exact hutil hvalue
  refine booked_differs hgiven (fun _ => htasks) ?_ (fun _ => rfl)
  intro node
  unfold MapWrite.apply
  cases htarget : write.target with
  | cpus cpus => rfl
  | nodes nodes => exact absurd htarget (hother nodes)
  | bad => rfl

theorem cpuCountS_le (set : Finset ℕ) : cpuCountS cpuSetBytes set ≤ 1024 := by
  have hsub : cpuSeen cpuSetBytes set ⊆ range 1024 := by
    intro cpu hcpu
    have hfits : cpu / 8 < cpuSetBytes := (mem_filter.mp hcpu).2
    have hbytes : cpuSetBytes = 128 := rfl
    exact mem_range.mpr (by omega)
  have hcard := card_le_card hsub
  rw [card_range] at hcard
  exact hcard

theorem MapWrite.booked_without_util {nodes : Finset ℕ} {node : ℕ}
    (htasks : 0 < cpuCountS cpuSetBytes write.tasks) (hnone : write.cpuUtil = none)
    (htarget : write.target = .nodes nodes) (hseen : node ∈ cpuSeen cpuSetBytes nodes)
    (hnode : node < machine.nodes) :
    (write.booked machine map).2 node = map.cpuUtil.tdiv (cpuCountS cpuSetBytes nodes) := by
  have hnodes : (write.apply machine.cpusInNode machine.nodes map).nodes = nodes := by
    unfold MapWrite.apply
    rw [htarget]
  have hutil : (write.apply machine.cpusInNode machine.nodes map).cpuUtil = map.cpuUtil := by
    unfold MapWrite.apply
    rw [hnone, Option.getD_none]
  have hcount : 0 < cpuCountS cpuSetBytes
      (write.apply machine.cpusInNode machine.nodes map).nodes := by
    rw [hnodes]
    exact card_pos.mpr ⟨node, hseen⟩
  rw [MapWrite.booked, mapBooked_node htasks hcount hnode, hnodes, hutil, if_pos hseen]

theorem MapWrite.booked_differs_without_util {nodes : Finset ℕ} {node : ℕ}
    (htasks : 0 < cpuCountS cpuSetBytes write.tasks) (hnone : write.cpuUtil = none)
    (htarget : write.target = .nodes nodes) (hseen : node ∈ cpuSeen cpuSetBytes nodes)
    (hnode : node < machine.nodes) :
    ∃ raw raw' : RawMap,
      write.booked machine raw.toTaskCpuMap ≠ write.booked machine raw'.toTaskCpuMap := by
  have hmax := cpuCountS_le nodes
  have hcount : 0 < cpuCountS cpuSetBytes nodes := card_pos.mpr ⟨node, hseen⟩
  refine ⟨oneNode 0 0, oneNode 0 ⟨cpuCountS cpuSetBytes nodes, Nat.lt_succ_of_le hmax⟩, ?_⟩
  intro hsame
  have hzero := congrArg (fun booked => booked.2 node) hsame
  rw [MapWrite.booked_without_util htasks hnone htarget hseen hnode,
    MapWrite.booked_without_util htasks hnone htarget hseen hnode] at hzero
  have hself : (cpuCountS cpuSetBytes nodes : ℤ).tdiv (cpuCountS cpuSetBytes nodes) = 1 :=
    Int.tdiv_self (by omega)
  exact zero_ne_one ((Int.zero_tdiv _).symm.trans (hzero.trans hself))

theorem MapWrite.booked_differs_of_not_determined (hnot : ¬ write.Determined machine) :
    ∃ raw raw' : RawMap,
      write.booked machine raw.toTaskCpuMap ≠ write.booked machine raw'.toTaskCpuMap := by
  simp only [MapWrite.Determined, not_or, not_exists, not_and, not_forall, not_le, not_not] at hnot
  obtain ⟨htasks, hutil, hnodes⟩ := hnot
  have hsome : 0 < cpuCountS cpuSetBytes write.tasks := Nat.pos_of_ne_zero htasks
  cases htarget : write.target with
  | cpus cpus => exact booked_differs_without_nodes hsome hutil (by simp [htarget])
  | bad => exact booked_differs_without_nodes hsome hutil (by simp [htarget])
  | nodes nodes =>
      obtain ⟨hnone, node, hseen, hnode⟩ := hnodes nodes htarget
      exact booked_differs_without_util hsome hnone htarget hseen hnode

end Determined

theorem part_eq_of_sum_eq {α M : Type*} [AddCommGroup M] {part : ℕ → α → M} {count i : ℕ}
    (hsum : ∀ x y : ℕ → α,
      ∑ j ∈ range count, part j (x j) = ∑ j ∈ range count, part j (y j))
    (hi : i < count) (a b : α) : part i a = part i b := by
  have hmem := mem_range.mpr hi
  have hboth := hsum (fun _ => a) (Function.update (fun _ => a) i b)
  have hrest : ∑ j ∈ (range count).erase i, part j (Function.update (fun _ => a) i b j) =
      ∑ j ∈ (range count).erase i, part j a := by
    apply sum_congr rfl
    intro j hj
    rw [Function.update_of_ne (ne_of_mem_erase hj)]
  rw [← add_sum_erase _ _ hmem, ← add_sum_erase _ _ hmem, hrest, Function.update_self] at hboth
  exact add_right_cancel hboth

section TwoRuns

variable {machine : DeployMachine} {text : List Char} {writes : List MapWrite} {status : ℤ}
  {perror : ℤ → ℤ}

structure AllWritten (machine : DeployMachine) (writes : List MapWrite) : Prop where
  full : writes.length = MAX_MANAGED_MAPS
  determined : ∀ write ∈ writes, write.Determined machine

theorem slotAfter_booked_eq (hall : AllWritten machine writes) {i : ℕ} (hi : i < MAX_MANAGED_MAPS)
    (map map' : TaskCpuMap) :
    mapBooked machine (slotAfter machine writes i map) =
      mapBooked machine (slotAfter machine writes i map') := by
  have hin : i < writes.length := by
    rw [hall.full]
    exact hi
  unfold slotAfter
  rw [List.getElem?_eq_getElem hin]
  exact (hall.determined _ (List.getElem_mem hin)).booked_eq map map'

/-- A map that is not all written lets two memory contents be told apart. -/
theorem allWritten_iff
    (hentries : MapEntries perror machine.cpusInTotal MAX_MANAGED_MAPS text writes
      status) :
    AllWritten machine writes ↔ ∀ i < MAX_MANAGED_MAPS, ∀ raw raw' : RawMap,
      mapBooked machine (slotAfter machine writes i raw.toTaskCpuMap) =
        mapBooked machine (slotAfter machine writes i raw'.toTaskCpuMap) := by
  constructor
  · intro hall i hi raw raw'
    exact slotAfter_booked_eq hall hi _ _
  · intro hsame
    have hfull : writes.length = MAX_MANAGED_MAPS := by
      apply le_antisymm hentries.length_le
      by_contra hless
      have htask : 0 < cpuCountS cpuSetBytes ({0} : Finset ℕ) := by decide
      obtain ⟨raw, raw', hdiffers⟩ : ∃ raw raw' : RawMap,
          mapBooked machine (id raw.toTaskCpuMap) ≠ mapBooked machine (id raw'.toTaskCpuMap) :=
        booked_differs one_ne_zero (fun _ => htask) (fun _ => rfl) (fun _ => rfl)
      have hslot := hsame writes.length (not_le.mp hless) raw raw'
      unfold slotAfter at hslot
      rw [List.getElem?_eq_none le_rfl] at hslot
      exact hdiffers hslot
    refine ⟨hfull, ?_⟩
    intro write hwrite
    by_contra hnot
    obtain ⟨raw, raw', hdiffers⟩ := MapWrite.booked_differs_of_not_determined hnot
    obtain ⟨i, hi⟩ := List.mem_iff_getElem?.mp hwrite
    have hin := (List.getElem?_eq_some_iff.mp hi).1
    have hslot := hsame i (by omega) raw raw'
    unfold slotAfter at hslot
    rw [hi] at hslot
    exact hdiffers hslot

def entriesBooked (machine : DeployMachine) (loads : DeployLoads) (writes : List MapWrite) :
    DeployLoads :=
  writes.foldl (fun loads write =>
    bookMap machine loads (write.apply machine.cpusInNode machine.nodes zeroMap)) loads

/-- The loads depend on the request only, and are those of its entries. -/
structure DependsOnRequest (machine : DeployMachine) (perror : ℤ → ℤ) (text : List Char) :
    Prop where
  equal : ∀ (contents contents' : ℕ → RawMap) (loads after after' : DeployLoads) (ret ret' : ℤ),
    Returns (fun fuel => processManagedThreadsBind machine perror fuel text
      (some fun i => (contents i).toTaskCpuMap) loads) (ret, after) →
    Returns (fun fuel => processManagedThreadsBind machine perror fuel text
      (some fun i => (contents' i).toTaskCpuMap) loads) (ret', after') →
    after = after'
  entries : ∀ (contents : ℕ → RawMap) (loads after : DeployLoads) (ret : ℤ),
    Returns (fun fuel => processManagedThreadsBind machine perror fuel text
      (some fun i => (contents i).toTaskCpuMap) loads) (ret, after) →
    ∀ writes status, MapEntries perror machine.cpusInTotal MAX_MANAGED_MAPS text writes status →
      after = entriesBooked machine loads writes

theorem entriesBooked_eq (machine : DeployMachine) (loads : DeployLoads) (writes : List MapWrite) :
    entriesBooked machine loads writes = loads.add (∑ i ∈ range writes.length,
      mapBooked machine (slotAfter machine writes i zeroMap)) := by
  induction writes generalizing loads with
  | nil => exact loads.add_none.symm
  | cons write later ih =>
      have hfirst : entriesBooked machine loads (write :: later) =
          entriesBooked machine (bookMap machine loads
            (write.apply machine.cpusInNode machine.nodes zeroMap)) later := rfl
      rw [hfirst, ih, bookMap_eq, DeployLoads.add_add, List.length_cons, sum_range_succ', add_comm]
      rfl

/-- A run depends on the request alone exactly if the text has an entry for
every map and no entry leaves a field that its load rests on. -/
theorem fine_deployment_depends_on_request_iff (machine : DeployMachine) (perror : ℤ → ℤ)
    (text : List Char) :
    DependsOnRequest machine perror text ↔
      ∀ writes status, MapEntries perror machine.cpusInTotal MAX_MANAGED_MAPS text writes status →
        AllWritten machine writes := by
  constructor
  · intro hdepends writes status hentries
    rw [allWritten_iff hentries]
    intro i hi
    apply part_eq_of_sum_eq _ hi
    intro contents contents'
    have hreturns (contents : ℕ → RawMap) :
        Returns (fun fuel => processManagedThreadsBind machine perror fuel text
          (some fun i => (contents i).toTaskCpuMap) noLoads) (0, noLoads.add _) :=
      processManagedThreadsBind_returns.mpr ⟨writes, status, hentries, rfl, rfl⟩
    exact DeployLoads.add_inj.mp (hdepends.equal contents contents' noLoads _ _ 0 0
      (hreturns contents) (hreturns contents'))
  · intro hall
    have hafter : ∀ (contents : ℕ → RawMap) (loads after : DeployLoads) (ret : ℤ),
        Returns (fun fuel => processManagedThreadsBind machine perror fuel text
          (some fun i => (contents i).toTaskCpuMap) loads) (ret, after) →
        ∀ writes status, MapEntries perror machine.cpusInTotal MAX_MANAGED_MAPS text writes status →
          after = entriesBooked machine loads writes := by
      intro contents loads after ret hreturns writes status hentries
      obtain ⟨writes', status', hentries', -, rfl⟩ :=
        processManagedThreadsBind_returns.mp hreturns
      obtain rfl := hentries.unique hentries'
      have hwritten := hall writes status hentries
      rw [entriesBooked_eq, hwritten.full]
      apply congrArg loads.add
      apply sum_congr rfl
      intro i hi
      exact slotAfter_booked_eq hwritten (mem_range.mp hi) _ _
    constructor
    · intro contents contents' loads after after' ret ret' hreturns hreturns'
      obtain ⟨writes, status, hentries, -, -⟩ := processManagedThreadsBind_returns.mp hreturns
      rw [hafter contents loads after ret hreturns writes status hentries,
        hafter contents' loads after' ret' hreturns' writes status hentries]
    · exact hafter

/-- `0@c0$1` on a machine with two nodes: over a cleared array the entry books
on the first node and its cluster, over an array with node 1 everywhere the
entry and the 99 other maps book on the second node. -/
theorem fine_deployment_reads_old_contents :
    (processManagedThreadsBind twoNodes errnoKept 10 "0@c0$1".toList
        (some fun _ => zeroMap) noLoads).map
        (fun result => (result.2.node 0, result.2.node 1, result.2.ccl 0)) =
      some (1, 0, 1) ∧
    (processManagedThreadsBind twoNodes errnoKept 10 "0@c0$1".toList
        (some fun _ => (oneNode 1 1).toTaskCpuMap) noLoads).map
        (fun result => (result.2.node 0, result.2.node 1, result.2.ccl 0)) =
      some (0, 100, 0) := by
  decide +kernel

end TwoRuns

end WaycaScheduler
