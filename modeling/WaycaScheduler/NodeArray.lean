import WaycaScheduler.TopologyReading

/-!
# The array of nodes over several initialisations

The length of the array of nodes is taken from a variable that `topo_free`
leaves alone, and the copy on growth from the number of the new node.  A
construction is independent of the initialisations before it as long as the
first node number is above the variable and every later one at most one past
the array.
-/

namespace WaycaScheduler

open Fallible

variable {sys : Sysfs} {recreate : TopoState → Outcome TopoState} {state : TopoState}
  {topo next : WaycaTopo}

def nodeNumbers (sys : Sysfs) (i remaining : ℕ) : List ℕ :=
  (List.range' i remaining).filterMap fun cpu => sys.cpuAttribute cpu (·.node)

/-- Each number extends an array of the length or lies in it. -/
def Expands : ℕ → List ℕ → Prop
  | _, [] => True
  | length, k :: rest => k ≤ length ∧ Expands (max length (k + 1)) rest

def Restarts (index : ℤ) : List ℕ → Prop
  | [] => True
  | k :: rest => index < k ∧ Expands (k + 1) rest

/-- The attributes of the CPUs agree with the list of the online ones, and the
node numbers suit the variable. -/
structure RebuildsInReach (sys : Sysfs) (maxNodeIndex : ℤ) : Prop where
  agrees : OnlineAgrees sys (allocated sys)
  restarts : Restarts maxNodeIndex (nodeNumbers sys 0 (allocated sys).nCpus)

/-- Every access to the array of the nodes is inside it. -/
def StaysInReach (state : TopoState) (numbers : List ℕ) : Prop :=
  match state.topo.nodeCapacity with
  | none => Restarts state.maxNodeIndex numbers
  | some length => Expands length numbers

theorem StaysInReach.head {k : ℕ} {rest : List ℕ} (hstays : StaysInReach state (k :: rest)) :
    InReach state k := by
  unfold StaysInReach at hstays
  unfold InReach
  split
  next hcapacity =>
    rw [hcapacity] at hstays
    exact hstays.1
  next length hcapacity =>
    rw [hcapacity] at hstays
    exact hstays.1

theorem nodeNumbers_succ (sys : Sysfs) (i remaining : ℕ) :
    nodeNumbers sys i (remaining + 1) =
      (sys.cpuAttribute i (·.node)).toList ++ nodeNumbers sys (i + 1) remaining := by
  unfold nodeNumbers
  rw [List.range'_succ, List.filterMap_cons]
  cases sys.cpuAttribute i (·.node) with
  | none => rfl
  | some k => rfl

theorem StaysInReach.inReach {i remaining : ℕ}
    (hstays : StaysInReach state (nodeNumbers sys i (remaining + 1))) :
    ∀ k, sys.cpuAttribute i (·.node) = some k → InReach state k := by
  intro k hnode
  rw [nodeNumbers_succ, hnode] at hstays
  exact hstays.head

theorem StaysInReach.read {i remaining : ℕ}
    (hstays : StaysInReach state (nodeNumbers sys i (remaining + 1)))
    (hreads : ReadsNode sys i state.topo next) :
    StaysInReach ((state.advanced (sys.cpuAttribute i (·.node))).withTopo next)
      (nodeNumbers sys (i + 1) remaining) := by
  have hcapacity := hreads.capacity
  rw [nodeNumbers_succ] at hstays
  unfold StaysInReach at hstays ⊢
  rw [show ((state.advanced _).withTopo next).topo = next from rfl, hcapacity]
  cases hnode : sys.cpuAttribute i (·.node) with
  | none =>
      rw [hnode] at hstays
      exact hstays
  | some k =>
      rw [hnode] at hstays
      cases hbefore : state.topo.nodeCapacity with
      | none =>
          rw [hbefore] at hstays
          have hlength : max ((none : Option ℕ).getD 0) (k + 1) = k + 1 := Nat.zero_max _
          simp only [capacityAfter, hlength]
          exact hstays.2
      | some length =>
          rw [hbefore] at hstays
          exact hstays.2

/-! ## A construction in reach -/

theorem readCpus_ensures (remaining i : ℕ) (topo : WaycaTopo) :
    Ensures (readCpus sys remaining i topo) (· = .nodesAccess) fun result =>
      SameFrame topo result.1 := by
  induction remaining generalizing i topo with
  | zero => exact SameFrame.refl topo
  | succ remaining ih =>
      unfold readCpus
      split
      next =>
        apply ensures_andThen ((readCpu_ensures topo).mono fun _ hreads => hreads.toSameFrame)
        intro middle hframe
        exact (ih (i + 1) middle).mono fun _ hlater => hframe.trans hlater
      next => exact SameFrame.refl topo

theorem topoOf_constructCpuLoop {remaining i : ℕ} (hmatches : IndexMatches state)
    (hagrees : OnlineAgrees sys state.topo)
    (hstays : StaysInReach state (nodeNumbers sys i remaining)) :
    topoOf (constructCpuLoop sys recreate remaining i state) =
      readCpus sys remaining i state.topo := by
  induction remaining generalizing i state with
  | zero => rfl
  | succ remaining ih =>
      unfold constructCpuLoop readCpus
      by_cases hi : i < state.topo.nCpus
      · rw [if_pos hi, if_pos hi,
          readCpuTopology_of_inReach hmatches (hagrees.at hi) hi hstays.inReach]
        apply topoOf_andThen
        · rw [topoOf_onTopo, advanced_topo]
        · intro middle hmiddle
          rw [onTopo_eq_success, advanced_topo] at hmiddle
          obtain ⟨next, hread, rfl⟩ := hmiddle
          have hreads := (readCpu_ensures state.topo).of_ok hread
          exact ih (hmatches.read hstays.inReach hreads) (hreads.agrees hagrees)
            (hstays.read hreads)
      · rw [if_neg hi, if_neg hi]
        rfl

/-- Wherever the loop gets to, the variable stands at the last element and the
numbers that are left are in reach. -/
theorem constructCpuLoop_stays {remaining i later : ℕ} {reached : TopoState}
    (hmatches : IndexMatches state) (hagrees : OnlineAgrees sys state.topo)
    (hstays : StaysInReach state (nodeNumbers sys i (remaining + later)))
    (hcpus : i + remaining ≤ state.topo.nCpus)
    (hloop : constructCpuLoop sys recreate remaining i state = .ok (reached, 0)) :
    IndexMatches reached ∧ StaysInReach reached (nodeNumbers sys (i + remaining) later) := by
  induction remaining generalizing i state with
  | zero =>
      cases hloop
      rw [Nat.zero_add] at hstays
      exact ⟨hmatches, hstays⟩
  | succ remaining ih =>
      have hi : i < state.topo.nCpus := by omega
      rw [Nat.succ_add] at hstays
      unfold constructCpuLoop at hloop
      rw [if_pos hi, readCpuTopology_of_inReach hmatches (hagrees.at hi) hi hstays.inReach] at hloop
      obtain ⟨middle, hmiddle, hrest⟩ := andThen_eq_success.mp hloop
      rw [onTopo_eq_success, advanced_topo] at hmiddle
      obtain ⟨next, hread, rfl⟩ := hmiddle
      have hreads := (readCpu_ensures state.topo).of_ok hread
      have hcpusNext : i + 1 + remaining ≤ next.nCpus := by
        rw [hreads.nCpus]
        omega
      have hlater := ih (hmatches.read hstays.inReach hreads) (hreads.agrees hagrees)
        (hstays.read hreads) hcpusNext hrest
      rw [show i + (remaining + 1) = i + 1 + remaining by omega]
      exact hlater

/-! ## Independence of earlier initialisations -/

theorem staysInReach_allocated
    (hrestarts : Restarts state.maxNodeIndex (nodeNumbers sys 0 (allocated sys).nCpus)) :
    StaysInReach (state.withTopo (allocated sys)) (nodeNumbers sys 0 (allocated sys).nCpus) := by
  have hunallocated : (allocated sys).nodeCapacity = none := by
    rw [WaycaTopo.nodeCapacity, allocated_nodes, Option.map_none]
  unfold StaysInReach
  rw [show (state.withTopo (allocated sys)).topo = allocated sys from rfl, hunallocated]
  exact hrestarts

theorem Restarts.start {index : ℤ} {numbers : List ℕ} (hrestarts : Restarts index numbers) :
    Restarts TopoState.start.maxNodeIndex numbers := by
  cases numbers with
  | nil => trivial
  | cons k rest => exact ⟨by simp only [TopoState.start]; omega, hrestarts.2⟩

theorem RebuildsInReach.construct (hrebuilds : RebuildsInReach sys state.maxNodeIndex) :
    topoOf (topoConstruct sys recreate state) = constructByLength sys := by
  apply topoOf_construct
  exact topoOf_constructCpuLoop (indexMatches_allocated sys state) hrebuilds.agrees
    (staysInReach_allocated hrebuilds.restarts)

theorem initWith_topo (sys : Sysfs) (recreate : TopoState → Outcome TopoState) (state : TopoState) :
    (topoInitWith sys recreate state).map (·.topo) =
      (topoOf (topoConstruct sys recreate state)).map fun result =>
        if result.2 ≠ 0 then .zeroed else result.1 := by
  unfold topoInitWith topoOf
  cases topoConstruct sys recreate state with
  | error failure => rfl
  | ok result =>
      obtain ⟨final, ret⟩ := result
      simp only [bind, Except.bind, Except.map]
      by_cases hret : ret = 0
      · simp [hret]
      · simp [hret, topoFree, TopoState.withTopo]

/-- An initialisation in this state accesses the array where it is allocated,
keeps the nodes when it grows, and leaves the topology of a first one. -/
structure RebuildsAsFirst (sys : Sysfs) (fuel : ℕ) (state : TopoState) : Prop where
  inside : topoConstructCpuTopology sys (fun state => topoInit sys fuel (topoFree state))
    (state.withTopo (allocated sys)) ≠ .error .nodesAccess
  kept : ∀ cpu reached k, cpu < (allocated sys).nCpus →
    constructCpuLoop sys (fun state => topoInit sys fuel (topoFree state)) cpu 0
      (state.withTopo (allocated sys)) = .ok (reached, 0) →
    sys.cpuAttribute cpu (·.node) = some k →
    ∃ grown, growNodes reached k = .ok grown ∧ ∀ j, grown.topo.slotAt j = reached.topo.slotAt j
  same : (topoInit sys (fuel + 1) state).map (·.topo) =
    (topoInit sys (fuel + 1) .start).map (·.topo)

theorem RebuildsInReach.asFirst (fuel : ℕ)
    (hrebuilds : RebuildsInReach sys state.maxNodeIndex) : RebuildsAsFirst sys fuel state := by
  have hmatches := indexMatches_allocated sys state
  have hstays := staysInReach_allocated hrebuilds.restarts
  refine ⟨?_, ?_, ?_⟩
  · intro hfault
    have houtcome : topoOf (topoConstructCpuTopology sys
        (fun state => topoInit sys fuel (topoFree state)) (state.withTopo (allocated sys))) =
        readCpus sys (allocated sys).nCpus 0 (allocated sys) :=
      topoOf_constructCpuLoop hmatches hrebuilds.agrees hstays
    rw [hfault] at houtcome
    exact (readCpus_ensures _ 0 (allocated sys)).ne_error rfl houtcome.symm
  · intro cpu reached k hcpu hloop hnode
    obtain ⟨later, hlater⟩ := Nat.exists_eq_add_of_lt hcpu
    have hnumbers : StaysInReach (state.withTopo (allocated sys))
        (nodeNumbers sys 0 (cpu + (later + 1))) := by
      rw [show cpu + (later + 1) = (allocated sys).nCpus by omega]
      exact hstays
    have hcpus : 0 + cpu ≤ (allocated sys).nCpus := by omega
    have hreached := constructCpuLoop_stays hmatches hrebuilds.agrees hnumbers hcpus hloop
    rw [Nat.zero_add] at hreached
    refine ⟨_, growNodes_of_inReach hreached.1 (hreached.2.inReach k hnode), ?_⟩
    exact slotAt_grown reached.topo k
  · have hfirst : RebuildsInReach sys TopoState.start.maxNodeIndex :=
      ⟨hrebuilds.agrees, hrebuilds.restarts.start⟩
    unfold topoInit
    rw [initWith_topo, initWith_topo, hrebuilds.construct, hfirst.construct]

/-! ## Cycles -/

/-- `topo_init` and `topo_free` on one snapshot after the other. -/
def initFreeCycles (fuel : ℕ) : List Sysfs → TopoState → Outcome TopoState
  | [], state => .ok state
  | sys :: later, state => do
      let built ← topoInit sys fuel state
      initFreeCycles fuel later (topoFree built)

/-- Each initialisation of the run starts within the condition. -/
def CyclesInReach (fuel : ℕ) : List Sysfs → TopoState → Prop
  | [], _ => True
  | sys :: later, state => RebuildsInReach sys state.maxNodeIndex ∧
      ∀ built, topoInit sys fuel state = .ok built → CyclesInReach fuel later (topoFree built)

/-- In a run whose initialisations all start within the condition, each of them
does what a first initialisation on its snapshot does. -/
theorem rebuild_depends_on_sysfs {fuel : ℕ} {earlier later : List Sysfs} {reached : TopoState}
    (hcycles : CyclesInReach (fuel + 1) (earlier ++ sys :: later) state)
    (hreached : initFreeCycles (fuel + 1) earlier state = .ok reached) :
    RebuildsAsFirst sys fuel reached := by
  induction earlier generalizing state with
  | nil =>
      cases hreached
      exact hcycles.1.asFirst fuel
  | cons first earlier ih =>
      obtain ⟨built, hbuilt, hrest⟩ := bind_eq_ok.mp hreached
      exact ih (hcycles.2 built hbuilt) hrest

def smallSysfs (numbers : List ℕ) : Sysfs where
  kernelMax := some 7
  possible := some (Finset.range numbers.length)
  online := some (Finset.range numbers.length)
  cpu := fun cpu => some
    { node := numbers[cpu]?
      online := some 1
      coreId := some cpu
      coreCpusList := some {cpu}
      clusterId := none
      clusterCpusList := none
      physicalPackageId := some 0
      packageCpusList := some (Finset.range numbers.length)
      caches := [] }
  nodePossible := some numbers.toFinset
  node := fun k =>
    { cpulist := some ((Finset.range numbers.length).filter fun cpu => numbers[cpu]? = some k)
      distance := some (numbers.map fun _ => 10)
      meminfo := some 0 }
  ioDevices := true
  unreadOnline := fun _ => 0
  unreadList := ∅

/-- Two CPUs on node 1, where node 0 has memory only. -/
def secondNodeSysfs : Sysfs := { smallSysfs [1, 1] with nodePossible := some {0, 1} }

/-- A topology with node 0 is built and freed, then one with node 1. -/
theorem rebuild_depends_on_sysfs_two_cycles :
    ∃ reached, initFreeCycles 1 [smallSysfs [0]] .start = .ok reached ∧
      RebuildsAsFirst secondNodeSysfs 0 reached ∧
      ((topoInit secondNodeSysfs 1 reached).map (·.topo)).toOption.map
        (fun topo => (topo.nNodes, topo.nodeObjects.map (·.cpuMap))) = some (1, [{0, 1}]) := by
  have hfirst : RebuildsInReach (smallSysfs [0]) TopoState.start.maxNodeIndex := by
    constructor
    · intro cpu hpos hcpu
      have hcount : (allocated (smallSysfs [0])).nCpus = 1 := by decide +kernel
      omega
    · exact ⟨by decide, trivial⟩
  have hsecond : RebuildsInReach secondNodeSysfs 0 := by
    have hcount : (allocated secondNodeSysfs).nCpus = 2 := by decide +kernel
    constructor
    · intro cpu hpos hcpu
      have hone : cpu = 1 := by omega
      subst hone
      decide +kernel
    · rw [hcount]
      exact ⟨by decide, by decide, trivial⟩
  obtain ⟨built, hbuilt, hindex⟩ : ∃ built, topoInit (smallSysfs [0]) 1 .start = .ok built ∧
      built.maxNodeIndex = 0 := ⟨_, rfl, rfl⟩
  have hcycles : CyclesInReach 1 ([smallSysfs [0]] ++ secondNodeSysfs :: []) .start := by
    refine ⟨hfirst, fun other hother => ⟨?_, fun _ _ => trivial⟩⟩
    rw [hbuilt] at hother
    cases hother
    exact hindex.symm ▸ hsecond
  have hreached : initFreeCycles 1 [smallSysfs [0]] .start = .ok (topoFree built) := by
    rw [initFreeCycles, hbuilt]
    rfl
  have hdone := rebuild_depends_on_sysfs hcycles hreached
  refine ⟨_, hreached, hdone, ?_⟩
  rw [hdone.same]
  decide +kernel

/-- After `topo_free` the second initialisation accesses an array that has not
been allocated, and a gap in the node numbers makes the copy read beyond the
array in the first one. -/
theorem second_initialisation_leaves_array :
    (topoInit (smallSysfs [0, 1]) 1 .start).isOk = true ∧
      (do let first ← topoInit (smallSysfs [0, 1]) 1 .start
          topoInit (smallSysfs [0, 1]) 1 (topoFree first)) = .error .nodesAccess ∧
      topoInit (smallSysfs [0, 2]) 1 .start = .error .nodesAccess := by
  refine ⟨?_, ?_, ?_⟩
  · decide +kernel
  · rfl
  · rfl

end WaycaScheduler
