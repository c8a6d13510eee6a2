import WaycaScheduler.NodeArray

/-!
# Constructions inside constructions

An online check that finds the attribute of a CPU at odds with the list builds
the topology again, and the new construction makes the same checks.  When the
attributes agree with the list, a query builds at most once.  When a
construction gets to a CPU whose attribute differs, the nested one gets to it as
well, and none of them returns.
-/

namespace WaycaScheduler

open Fallible

variable {sys : Sysfs} {recreate : TopoState → Outcome TopoState} {state : TopoState} {cpu : ℕ}

/-- `topo_free` and `topo_init`, with a bound on the constructions inside one
another. -/
def recreation (sys : Sysfs) (depth : ℕ) (state : TopoState) : Outcome TopoState :=
  topoInit sys depth (topoFree state)

/-! ## The loop in two parts -/

theorem andThen_ok {α : Type} (value : α) (rest : α → Outcome (α × ℤ)) :
    andThen (.ok (value, 0)) rest = rest value :=
  rfl

theorem andThen_assoc {α : Type} (first : Outcome (α × ℤ)) (second third : α → Outcome (α × ℤ)) :
    andThen (andThen first second) third =
      andThen first fun value => andThen (second value) third := by
  cases first with
  | error failure => rfl
  | ok result =>
      obtain ⟨value, ret⟩ := result
      by_cases hret : ret = 0
      · subst hret
        rfl
      · simp [andThen, bind, Except.bind, hret]

theorem constructCpuLoop_add (first rest i : ℕ) (state : TopoState) :
    constructCpuLoop sys recreate (first + rest) i state =
      andThen (constructCpuLoop sys recreate first i state)
        (constructCpuLoop sys recreate rest (i + first)) := by
  induction first generalizing i state with
  | zero =>
      rw [Nat.zero_add]
      rfl
  | succ first ih =>
      rw [Nat.succ_add]
      unfold constructCpuLoop
      by_cases hi : i < state.topo.nCpus
      · rw [if_pos hi, if_pos hi, andThen_assoc]
        congr 1
        funext middle
        rw [ih (i + 1) middle, show i + 1 + first = i + (first + 1) by omega]
      · rw [if_neg hi, if_neg hi]
        cases rest with
        | zero => rfl
        | succ rest =>
            have hbeyond : ¬ i + (first + 1) < state.topo.nCpus := by omega
            change _ = constructCpuLoop sys recreate (rest + 1) (i + (first + 1)) state
            unfold constructCpuLoop
            rw [if_neg hbeyond]

theorem constructCpu_split {rest : ℕ} (hcount : (allocated sys).nCpus = cpu + (rest + 1))
    (state : TopoState) :
    topoConstructCpuTopology sys recreate (state.withTopo (allocated sys)) =
      andThen (constructCpuLoop sys recreate cpu 0 (state.withTopo (allocated sys)))
        (constructCpuLoop sys recreate (rest + 1) cpu) := by
  have hloop : constructCpuLoop sys recreate (cpu + (rest + 1)) 0
      (state.withTopo (allocated sys)) = _ := constructCpuLoop_add _ _ _ _
  rw [Nat.zero_add, ← hcount] at hloop
  exact hloop

/-! ## A check that finds a difference -/

theorem isCpuOnline_of_differs (hdiffers : ¬ OnlineAgreesAt sys state.topo cpu)
    (hcpu : cpu < state.topo.nCpus) :
    waycaScIsCpuOnline sys recreate state cpu = (do
      let state ← recreate state
      .ok (cpuIssetS cpu state.topo.setsize state.topo.onlineCpuMap, state)) := by
  have hvalid : topoIsValidCpu state.topo cpu = true := valid_iff.mpr hcpu
  unfold OnlineAgreesAt at hdiffers
  push Not at hdiffers
  have hne : ¬ (cpu : ℤ) = 0 := by omega
  unfold waycaScIsCpuOnline
  rw [hvalid, Bool.not_true, if_neg Bool.false_ne_true, if_neg hne]
  simp only [Int.toNat_natCast, hdiffers.2, if_false]

theorem SameFrame.differsAt {topo next : WaycaTopo} (hsame : SameFrame topo next)
    (hdiffers : ¬ OnlineAgreesAt sys topo cpu) : ¬ OnlineAgreesAt sys next cpu := by
  unfold OnlineAgreesAt
  rw [hsame.setsize, hsame.onlineCpuMap]
  exact hdiffers

/-- The construction gets to a CPU whose file differs from the online list. -/
structure MeetsDifference (sys : Sysfs) (cpu : ℕ) : Prop where
  allocates : (topoAllocCpu sys .zeroed).2 = 0
  lt : cpu < (allocated sys).nCpus
  below : ∀ other < cpu, OnlineAgreesAt sys (allocated sys) other
  differs : ¬ OnlineAgreesAt sys (allocated sys) cpu
  reads : ∃ topo, readCpus sys cpu 0 (allocated sys) = .ok (topo, 0)
  present : sys.cpu cpu ≠ none

theorem present_of_read {final : TopoState}
    (hread : topoReadCpuTopology sys recreate cpu state = .ok (final, 0)) : sys.cpu cpu ≠ none := by
  intro habsent
  unfold topoReadCpuTopology at hread
  obtain ⟨middle, hnode, -⟩ := andThen_eq_success.mp hread
  unfold topoParseCpuNodeInfo at hnode
  rw [habsent] at hnode
  cases hnode

theorem nodeInfo_returns_zero {topo next : WaycaTopo} {ret : ℤ} (hpresent : sys.cpu cpu ≠ none)
    (hnode : nodeInfo sys cpu topo = .ok (next, ret)) : ret = 0 := by
  unfold nodeInfo at hnode
  split at hnode
  next habsent => exact absurd habsent hpresent
  next =>
    split at hnode
    next =>
      cases hnode
      rfl
    next =>
      obtain ⟨created, -, hnode⟩ := bind_eq_ok.mp hnode
      obtain ⟨added, -, hnode⟩ := bind_eq_ok.mp hnode
      cases hnode
      rfl

theorem readCpuTopology_of_differs (hmatches : IndexMatches state)
    (hcpu : cpu < state.topo.nCpus) (hdiffers : ¬ OnlineAgreesAt sys state.topo cpu)
    (hpresent : sys.cpu cpu ≠ none)
    (hfails : ∀ before, ∃ failure, recreate before = .error failure) :
    ∃ failure, topoReadCpuTopology sys recreate cpu state = .error failure := by
  by_cases hreach : ∀ k, sys.cpuAttribute cpu (·.node) = some k → InReach state k
  · have hmatchesFresh :
        IndexMatches (state.withTopo (state.topo.setCpu cpu (WaycaCpu.fresh cpu))) :=
      ⟨hmatches.capacity, hmatches.unallocated⟩
    have hfresh := sameNodes_setCpu state.topo cpu (WaycaCpu.fresh cpu)
    unfold topoReadCpuTopology
    dsimp only
    rw [parseCpuNodeInfo_of_inReach hmatchesFresh hreach]
    cases hnode : onTopo (nodeInfo sys cpu) ((state.withTopo
        (state.topo.setCpu cpu (WaycaCpu.fresh cpu))).advanced (sys.cpuAttribute cpu (·.node))) with
    | error failure => exact ⟨failure, rfl⟩
    | ok result =>
        obtain ⟨middle, ret⟩ := result
        have hinfo := congrArg topoOf hnode
        rw [topoOf_onTopo, advanced_topo] at hinfo
        have hret := nodeInfo_returns_zero hpresent hinfo
        subst hret
        have hframe := hfresh.toSameFrame.trans ((nodeInfo_ensures _).of_ok hinfo).toSameFrame
        obtain ⟨failure, hfailure⟩ := hfails middle
        refine ⟨failure, ?_⟩
        rw [andThen_ok]
        unfold topoParseCpuCoreInfo
        rw [isCpuOnline_of_differs (hframe.differsAt hdiffers) (hframe.nCpus ▸ hcpu), hfailure]
        rfl
  · push Not at hreach
    obtain ⟨k, hnode, hout⟩ := hreach
    exact ⟨_, readCpuTopology_out_of_reach hmatches hnode hout⟩

theorem MeetsDifference.constructCpu (hmeets : MeetsDifference sys cpu)
    (hfails : ∀ before, ∃ failure, recreate before = .error failure) (state : TopoState) :
    ∃ failure, topoConstructCpuTopology sys recreate (state.withTopo (allocated sys)) =
      .error failure := by
  obtain ⟨topo, hreads⟩ := hmeets.reads
  have hlt := hmeets.lt
  have hbelow : ∀ other, 0 ≤ other → other < 0 + cpu →
      OnlineAgreesAt sys (state.withTopo (allocated sys)).topo other :=
    fun other _ hother => hmeets.below other (by omega)
  obtain ⟨rest, hrest⟩ := Nat.exists_eq_add_of_lt hlt
  rw [Nat.add_assoc] at hrest
  rw [constructCpu_split hrest]
  rcases constructCpuLoop_reads (indexMatches_allocated sys state) hbelow with
    hfault | ⟨htopo, hlater⟩
  · exact ⟨_, by rw [hfault]; rfl⟩
  · cases hloop : constructCpuLoop sys recreate cpu 0 (state.withTopo (allocated sys)) with
    | error failure => exact ⟨failure, rfl⟩
    | ok result =>
        obtain ⟨reached, ret⟩ := result
        rw [hloop, show (state.withTopo (allocated sys)).topo = allocated sys from rfl, hreads]
          at htopo
        have hsame : reached.topo = topo := congrArg Prod.fst (Except.ok.inj htopo)
        have hret : ret = 0 := congrArg Prod.snd (Except.ok.inj htopo)
        subst hsame hret
        have hframe := (readCpus_ensures cpu 0 (allocated sys)).of_ok hreads
        have hcpu : cpu < reached.topo.nCpus := by rwa [hframe.nCpus]
        obtain ⟨failure, hfailure⟩ := readCpuTopology_of_differs (hlater reached hloop) hcpu
          (hframe.differsAt hmeets.differs) hmeets.present hfails
        refine ⟨failure, ?_⟩
        rw [andThen_ok]
        unfold constructCpuLoop
        rw [if_pos hcpu, hfailure]
        rfl

theorem topoConstruct_of_allocates (hallocates : (topoAllocCpu sys .zeroed).2 = 0)
    (state : TopoState) :
    topoConstruct sys recreate state =
      andThen (topoConstructCpuTopology sys recreate (state.withTopo (allocated sys))) fun state =>
      andThen (onTopo (topoConstructNumaTopology sys) state) fun state =>
      andThen (onTopo topoConstructCoreTopology state) fun state =>
      .ok (state, if sys.ioDevices then 0 else -1) := by
  have hfirst : onTopo (fun topo => .ok (topoAllocCpu sys topo)) (state.withTopo .zeroed) =
      .ok (state.withTopo (topoAllocCpu sys .zeroed).1, 0) := by
    rw [← hallocates]
    rfl
  unfold topoConstruct
  rw [hfirst, andThen_ok]
  rfl

theorem MeetsDifference.topoInit (hmeets : MeetsDifference sys cpu) (depth : ℕ)
    (state : TopoState) : ∃ failure, topoInit sys depth state = .error failure := by
  induction depth generalizing state with
  | zero => exact ⟨.outOfFuel, rfl⟩
  | succ depth ih =>
      have hnested : ∀ before, ∃ failure, recreation sys depth before = .error failure :=
        fun before => ih (topoFree before)
      obtain ⟨failure, hfailure⟩ := hmeets.constructCpu hnested state
      refine ⟨failure, ?_⟩
      change topoInitWith sys (recreation sys depth) state = _
      unfold topoInitWith
      rw [topoConstruct_of_allocates hmeets.allocates, hfailure]
      rfl

/-- The first CPU whose attribute differs, as a split of the loop. -/
theorem first_difference (hdiffers : ¬ OnlineAgrees sys (allocated sys)) :
    ∃ cpu rest, (allocated sys).nCpus = cpu + (rest + 1) ∧
      (∀ other < cpu, OnlineAgreesAt sys (allocated sys) other) ∧
      ¬ OnlineAgreesAt sys (allocated sys) cpu := by
  have hexists : ∃ cpu, cpu < (allocated sys).nCpus ∧ ¬ OnlineAgreesAt sys (allocated sys) cpu := by
    by_contra hnone
    push Not at hnone
    exact hdiffers fun cpu hpos hcpu => hnone cpu hcpu hpos
  obtain ⟨hlt, hfirst⟩ := Nat.find_spec hexists
  obtain ⟨rest, hrest⟩ := Nat.exists_eq_add_of_lt hlt
  refine ⟨Nat.find hexists, rest, hrest, ?_, hfirst⟩
  intro other hother
  by_contra hdiffers
  exact Nat.find_min hexists hother ⟨hother.trans hlt, hdiffers⟩

theorem constructCpu_agrees {depth : ℕ} {final : TopoState}
    (hallocates : (topoAllocCpu sys .zeroed).2 = 0)
    (hreads : topoConstructCpuTopology sys (recreation sys depth)
      (state.withTopo (allocated sys)) = .ok (final, 0)) :
    OnlineAgrees sys (allocated sys) := by
  by_contra hdiffers
  obtain ⟨cpu, rest, hcount, hbelow, hfirst⟩ := first_difference hdiffers
  have hsplit := hreads
  rw [constructCpu_split hcount] at hsplit
  obtain ⟨reached, htaken, hsplit⟩ := andThen_eq_success.mp hsplit
  have hread := (constructCpuLoop_success (indexMatches_allocated sys state)
    (fun other _ hother => hbelow other (by omega)) htaken).1
  have hframe := (readCpus_ensures _ 0 (allocated sys)).of_ok hread
  have hcpu : cpu < reached.topo.nCpus := by
    rw [hframe.nCpus, hcount]
    omega
  unfold constructCpuLoop at hsplit
  rw [if_pos hcpu] at hsplit
  obtain ⟨middle, hdiffering, -⟩ := andThen_eq_success.mp hsplit
  have hmeets : MeetsDifference sys cpu :=
    ⟨hallocates, by omega, hbelow, hfirst, ⟨reached.topo, hread⟩, present_of_read hdiffering⟩
  have hnested : ∀ before, ∃ failure, recreation sys depth before = .error failure :=
    fun before => hmeets.topoInit depth (topoFree before)
  obtain ⟨failure, hfailure⟩ := hmeets.constructCpu hnested state
  rw [hreads] at hfailure
  cases hfailure

end WaycaScheduler
