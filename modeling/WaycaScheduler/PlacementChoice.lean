import WaycaScheduler.PlacementSearch

/-!
# One assignment of CPUs

The effect of a single assignment to a thread and of a single block for a member
group, on a group whose CPUs are whole topology sets.  While some CPU is
available the target lies in a topology set that still has an available CPU.  It
is itself available when the available CPUs are whole topology sets, and when
the incomplete set was searched for.
-/

namespace WaycaScheduler

open AlignedBlocks Finset

variable {cpu : ℕ}
variable {group : WaycaScGroup}

theorem mem_availableSet : cpu ∈ availableSet group ↔ cpu ∈ group.total ∧ cpu ∉ group.used := by
  unfold availableSet
  rw [mem_cpuAnd, mem_cpuXor, mem_cpuAll]
  constructor
  · rintro ⟨⟨hused, hlt⟩ | ⟨-, hused⟩, htotal⟩
    · exact absurd (CpuSet.lt_of_mem hused) hlt
    · exact ⟨htotal, hused⟩
  · exact fun ⟨htotal, hused⟩ => ⟨.inr ⟨CpuSet.lt_of_mem htotal, hused⟩, htotal⟩

theorem availableSet_cpus (group : WaycaScGroup) :
    (availableSet group).cpus = group.total.cpus \ group.used.cpus := by
  ext cpu
  rw [CpuSet.mem_cpus, mem_availableSet, mem_sdiff]
  rfl

/-- The range of the group consists of whole entities. -/
structure Shaped (group : WaycaScGroup) : Prop where
  level_pos : 0 < group.nrCpusPerTopo
  whole : WholeBlocks group.nrCpusPerTopo group.total.cpus

theorem Shaped.block_subset (hshaped : Shaped group)
    (hmem : cpu ∈ group.total) :
    block group.nrCpusPerTopo (cpu / group.nrCpusPerTopo) ⊆ group.total.cpus :=
  hshaped.whole cpu hmem

theorem Shaped.block_end (hshaped : Shaped group) {cpu : ℕ}
    (hmem : cpu ∈ group.total) :
    cpu / group.nrCpusPerTopo * group.nrCpusPerTopo + group.nrCpusPerTopo ≤ CPU_SETSIZE :=
  block_end_le hshaped.level_pos hshaped.whole hmem

/-! ## The target position -/

/-- What is known of the CPU that is chosen as the target. -/
structure Choice (group : WaycaScGroup) (cpu : ℕ) : Prop where
  mem_total : cpu ∈ group.total
  touches : ∃ d ∈ availableSet group, d / group.nrCpusPerTopo = cpu / group.nrCpusPerTopo
  free_of_whole : WholeBlocks group.nrCpusPerTopo (availableSet group).cpus →
    cpu ∈ availableSet group
  free_of_incomplete : hasFlag group.attr WT_GF_COMPACT →
    ¬ group.nrCpusPerTopo ∣ (availableSet group).cpus.card → cpu ∈ availableSet group ∧
      ¬ block group.nrCpusPerTopo (cpu / group.nrCpusPerTopo) ⊆ (availableSet group).cpus

/-- Without an incomplete set to fill, the target lies in the topology set that
the search for the idlest set takes. -/
theorem chooseTargetPos_idlest (loads : ℕ → ℤ) (hshaped : Shaped group)
    (havailable : (availableSet group).cpus.Nonempty)
    (hcomplete : ¬ (hasFlag group.attr WT_GF_COMPACT ∧
      ¬ group.nrCpusPerTopo ∣ (availableSet group).cpus.card)) :
    ∃ d ∈ availableSet group,
      (d % group.nrCpusPerTopo = 0 ∨ ∀ other ∈ availableSet group, d ≤ other) ∧
      ∃ cpu ∈ block group.nrCpusPerTopo (d / group.nrCpusPerTopo),
        chooseTargetPos loads group = some ((cpu : ℤ), true) := by
  have hlevel := hshaped.level_pos
  have hbranch : ¬ (cpuCount (availableSet group) % group.nrCpusPerTopo ≠ 0 ∧
      hasFlag group.attr WT_GF_COMPACT) := by
    intro ⟨hcount, hcompact⟩
    exact hcomplete ⟨hcompact, fun hdvd => hcount (Nat.mod_eq_zero_of_dvd hdvd)⟩
  obtain ⟨d, hd, hentry, hidlest⟩ := findIdlestSet_entry loads rfl hlevel havailable
  have hcpus := cpuSetRange_block (hshaped.block_end (mem_availableSet.mp hd).1)
  obtain ⟨c, hc, hcore, -⟩ := findIdlestCore_spec loads
    (show (cpuSetRange ((d / group.nrCpusPerTopo * group.nrCpusPerTopo : ℕ) : ℤ)
      group.nrCpusPerTopo cpuZero).cpus.Nonempty by
        rw [hcpus]; exact block_nonempty hlevel _)
  refine ⟨d, hd, hentry, c, ?_, ?_⟩
  · rw [← hcpus]
    exact hc
  · unfold chooseTargetPos
    simp only [hlevel.ne', if_false]
    rw [if_neg hbranch, hidlest, Option.bind_some, hcore]
    rfl

/-- A target is found whenever a CPU is free. -/
theorem chooseTargetPos_spec (loads : ℕ → ℤ) (hshaped : Shaped group)
    (havailable : (availableSet group).cpus.Nonempty) :
    ∃ cpu : ℕ, chooseTargetPos loads group = some ((cpu : ℤ), true) ∧ Choice group cpu := by
  have hlevel := hshaped.level_pos
  have hsubset : (availableSet group).cpus ⊆ group.total.cpus :=
    fun c hc => (mem_availableSet.mp hc).1
  by_cases hincomplete : hasFlag group.attr WT_GF_COMPACT ∧
      ¬ group.nrCpusPerTopo ∣ (availableSet group).cpus.card
  · obtain ⟨d, hd, hfound, hpartial⟩ :=
      findIncompleteSet_spec rfl hlevel hshaped.whole hsubset hincomplete.2
    have hdblock := mem_block.mp
      (mem_own_block hlevel : d ∈ block _ (d / group.nrCpusPerTopo))
    obtain ⟨c, hc, hscan, hlow, hhigh, -⟩ := scanAvailable_spec hd hdblock.1 hdblock.2
    have hindex : c / group.nrCpusPerTopo = d / group.nrCpusPerTopo :=
      (mem_block_iff_div hlevel).mp (mem_block.mpr ⟨hlow, by omega⟩)
    have hbranch : cpuCount (availableSet group) % group.nrCpusPerTopo ≠ 0 ∧
        hasFlag group.attr WT_GF_COMPACT :=
      ⟨fun h => hincomplete.2 (Nat.dvd_of_mod_eq_zero h), hincomplete.1⟩
    refine ⟨c, ?_, ?_⟩
    · unfold chooseTargetPos
      simp only [hlevel.ne', if_false]
      rw [if_pos hbranch, hfound, Option.map_some, hscan]
      simp only [Nat.cast_nonneg, decide_true]
    · refine ⟨hsubset hc, ⟨d, hd, hindex.symm⟩, fun _ => hc, fun _ _ => ⟨hc, ?_⟩⟩
      rw [hindex]
      exact hpartial
  · obtain ⟨d, hd, -, c, hcblock, hchoose⟩ :=
      chooseTargetPos_idlest loads hshaped havailable hincomplete
    have hindex := (mem_block_iff_div hlevel).mp hcblock
    refine ⟨c, hchoose, hshaped.block_subset (hsubset hd) hcblock, ⟨d, hd, hindex.symm⟩, ?_, ?_⟩
    · exact fun hwhole => hwhole d hd hcblock
    · exact fun hcompact hdvd => absurd ⟨hcompact, hdvd⟩ hincomplete

/-- With no CPU available the position is outside the bit map when the level
is the single CPU, and a CPU of the first topology set otherwise. -/
theorem chooseTargetPos_exhausted (loads : ℕ → ℤ) (hlevel : 0 < group.nrCpusPerTopo)
    (havailable : availableSet group = cpuZero) :
    if group.nrCpusPerTopo = 1 then chooseTargetPos loads group = some (-1, true)
    else ∃ cpu : ℕ, cpu < group.nrCpusPerTopo ∧ cpu < CPU_SETSIZE ∧
      chooseTargetPos loads group = some ((cpu : ℤ), true) := by
  have hcount : cpuCount cpuZero % group.nrCpusPerTopo = 0 := Nat.zero_mod _
  unfold chooseTargetPos
  simp only [hlevel.ne', if_false, havailable, hcount, ne_eq, not_true_eq_false, false_and,
    findIdlestSet_zero loads hlevel, Option.bind_some]
  split
  next hone => simp [findIdlestCore_zero]
  next hmany =>
    have hzero : 0 ∈ cpuSetRange 0 group.nrCpusPerTopo cpuZero :=
      mem_cpuSetRange.mpr (.inr ⟨by simp, by simpa using hlevel, by simp [CPU_SETSIZE]⟩)
    obtain ⟨c, hc, hcore, -⟩ := findIdlestCore_spec loads ⟨0, hzero⟩
    rcases mem_cpuSetRange.mp hc with h | ⟨-, hlt, hsize⟩
    · exact absurd h not_mem_cpuZero
    · refine ⟨c, by omega, hsize, ?_⟩
      simp [hcore]

/-! ## The CPUs of the thread and the books of the group -/

def threadCpus (group : WaycaScGroup) (cpu : ℕ) : Finset ℕ :=
  if hasFlag group.attr WT_GF_PERCPU then {cpu}
  else block group.nrCpusPerTopo (cpu / group.nrCpusPerTopo)

def bookedCpus (group : WaycaScGroup) (cpu : ℕ) : Finset ℕ :=
  if hasFlag group.attr WT_GF_COMPACT then insert cpu group.used.cpus
  else group.used.cpus ∪ block group.nrCpusPerTopo (cpu / group.nrCpusPerTopo)

theorem anchorOf_natCast (group : WaycaScGroup) (cpu : ℕ) :
    anchorOf group cpu = ((cpu / group.nrCpusPerTopo * group.nrCpusPerTopo : ℕ) : ℤ) :=
  firstPos_eq

@[simp] theorem placeThread_allowedSet (group : WaycaScGroup) (thread : WaycaThread) (pos : ℤ) :
    (placeThread group thread pos).allowedSet = (placeThread group thread pos).curSet := rfl

theorem placeThread_targetPos (group : WaycaScGroup) (thread : WaycaThread)
    (hsize : cpu < CPU_SETSIZE) :
    (placeThread group thread cpu).targetPos = cpu := by
  change ((cpu : ℤ) % 2 ^ 64).toNat = cpu
  have : cpu < 1024 := hsize
  omega

theorem placeThread_curSet (thread : WaycaThread) (hsize : cpu < CPU_SETSIZE)
    (hend : cpu / group.nrCpusPerTopo * group.nrCpusPerTopo + group.nrCpusPerTopo ≤ CPU_SETSIZE) :
    (placeThread group thread cpu).curSet.cpus = threadCpus group cpu := by
  unfold placeThread threadCpus
  dsimp only
  split
  next => rw [cpuSet_cpus hsize]; simp
  next => rw [anchorOf_natCast, cpuSetRange_block hend]

theorem bookTarget_eq (thread : WaycaThread) (hsize : cpu < CPU_SETSIZE)
    (hend : cpu / group.nrCpusPerTopo * group.nrCpusPerTopo + group.nrCpusPerTopo ≤ CPU_SETSIZE) :
    ∃ used : CpuSet, used.cpus = bookedCpus group cpu ∧
      bookTarget group (placeThread group thread cpu).allowedSet cpu = rollOver group used := by
  refine ⟨_, ?_, rfl⟩
  unfold bookedCpus
  by_cases hcompact : hasFlag group.attr WT_GF_COMPACT
  · simp only [hcompact, if_true]
    exact cpuSet_cpus hsize _
  · by_cases hpercpu : hasFlag group.attr WT_GF_PERCPU
    · simp only [hcompact, hpercpu, Bool.false_eq_true, if_true, if_false]
      ext c
      rw [CpuSet.mem_cpus, mem_cpuSetRange, anchorOf_natCast]
      simp only [mem_union, mem_block, CpuSet.mem_cpus]
      constructor
      · rintro (h | ⟨h, hlt, -⟩)
        · exact .inl h
        · exact .inr ⟨by exact_mod_cast h, by exact_mod_cast hlt⟩
      · rintro (h | ⟨h, hlt⟩)
        · exact .inl h
        · exact .inr ⟨by exact_mod_cast h, by exact_mod_cast hlt, by omega⟩
    · simp only [hcompact, hpercpu]
      rw [placeThread_allowedSet]
      simp only [Bool.false_eq_true, if_false, cpuOr_cpus]
      rw [placeThread_curSet thread hsize hend, threadCpus, if_neg hpercpu]

structure AssignedTo (group : WaycaScGroup) (thread : WaycaThread) (cpu : ℕ)
    (used cpus : CpuSet) (result : Assigned) : Prop where
  group_eq : result.group = rollOver group used
  thread_eq : result.thread =
    { thread with targetPos := cpu, curSet := cpus, allowedSet := cpus }
  held : result.held = true
  used_eq : used.cpus = bookedCpus group cpu
  cpus_eq : cpus.cpus = threadCpus group cpu

theorem assignedTo_of_target {loads : ℕ → ℤ} (thread : WaycaThread)
    (hchoose : chooseTargetPos loads group = some ((cpu : ℤ), true)) (hsize : cpu < CPU_SETSIZE)
    (hend : cpu / group.nrCpusPerTopo * group.nrCpusPerTopo + group.nrCpusPerTopo ≤ CPU_SETSIZE) :
    ∃ used cpus result, waycaGroupAssignThreadResource loads group thread = some result ∧
        AssignedTo group thread cpu used cpus result := by
  obtain ⟨used, hused, hbook⟩ := bookTarget_eq thread hsize hend
  refine ⟨used, (placeThread group thread cpu).curSet,
    ⟨bookTarget group (placeThread group thread cpu).allowedSet cpu,
      placeThread group thread cpu, true⟩, ?_, ?_⟩
  · unfold waycaGroupAssignThreadResource
    rw [hchoose]
    rfl
  · refine ⟨hbook, ?_, rfl, hused, placeThread_curSet thread hsize hend⟩
    change { thread with
      targetPos := (placeThread group thread cpu).targetPos
      curSet := _
      allowedSet := _ } = _
    rw [placeThread_targetPos group thread hsize]
    rfl

/-- An assignment succeeds whenever a CPU is free. -/
theorem assign_spec (loads : ℕ → ℤ) (hshaped : Shaped group) (thread : WaycaThread)
    (havailable : (availableSet group).cpus.Nonempty) :
    ∃ cpu used cpus result, waycaGroupAssignThreadResource loads group thread = some result ∧
        AssignedTo group thread cpu used cpus result ∧ Choice group cpu := by
  obtain ⟨cpu, hchoose, hchoice⟩ := chooseTargetPos_spec loads hshaped havailable
  obtain ⟨used, cpus, result, hassign, hto⟩ := assignedTo_of_target thread hchoose
    (CpuSet.lt_of_mem hchoice.mem_total) (hshaped.block_end hchoice.mem_total)
  exact ⟨cpu, used, cpus, result, hassign, hto, hchoice⟩

theorem assign_before_first {loads : ℕ → ℤ} (hlevel : group.nrCpusPerTopo = 1)
    (hchoose : chooseTargetPos loads group = some (-1, true)) (thread : WaycaThread) :
    waycaGroupAssignThreadResource loads group thread = some ⟨rollOver group group.used,
        { thread with
          targetPos := 2 ^ 64 - 1
          curSet := cpuZero
          allowedSet := cpuZero }, true⟩ := by
  have hanchor : anchorOf group (-1) = -1 := by
    unfold anchorOf
    rw [hlevel]
    rfl
  have hrange : ∀ set : CpuSet, cpuSetRange (-1) 1 set = set := by
    intro set
    refine CpuSet.ext ?_
    ext c
    rw [CpuSet.mem_cpus, mem_cpuSetRange]
    constructor
    · rintro (hmem | ⟨-, hlt, -⟩)
      · exact hmem
      · omega
    · exact fun hmem => .inl hmem
  have hneg : ∀ set : CpuSet, cpuSet (-1) set = set := fun set => cpuSet_of_neg (by decide) set
  have hplaced : placeThread group thread (-1) =
      { thread with targetPos := 2 ^ 64 - 1, curSet := cpuZero, allowedSet := cpuZero } := by
    unfold placeThread
    rw [hanchor, hlevel, hrange, hneg, ite_self]
    rfl
  unfold waycaGroupAssignThreadResource
  rw [hchoose, Option.map_some]
  simp only [hplaced]
  unfold bookTarget
  rw [hanchor, hlevel, hrange, hneg]
  have hor : cpuOr group.used cpuZero = group.used := CpuSet.ext (by simp)
  rw [hor, ite_self, ite_self]

theorem assign_exhausted (loads : ℕ → ℤ) (hshaped : Shaped group) (hzero : 0 ∈ group.total)
    (hfull : group.used = group.total) (thread : WaycaThread) :
    ∃ target cpus, waycaGroupAssignThreadResource loads group thread =
          some ⟨rollOver group group.total,
            { thread with targetPos := target, curSet := cpus, allowedSet := cpus }, true⟩ ∧
        (cpus = cpuZero ∨ ∃ cpu ∈ group.total, cpus.cpus = threadCpus group cpu) := by
  have hlevel := hshaped.level_pos
  have havailable : availableSet group = cpuZero := by
    refine CpuSet.ext ?_
    rw [availableSet_cpus, hfull, sdiff_self]
    rfl
  have hchoose := chooseTargetPos_exhausted loads hlevel havailable
  split at hchoose
  next hone =>
    refine ⟨2 ^ 64 - 1, cpuZero, ?_, .inl rfl⟩
    rw [assign_before_first hone hchoose thread, hfull]
  next hmany =>
    obtain ⟨cpu, hlt, hsize, hpos⟩ := hchoose
    have hdiv : cpu / group.nrCpusPerTopo = 0 := Nat.div_eq_of_lt hlt
    have hblock : block group.nrCpusPerTopo 0 ⊆ group.total.cpus := by
      simpa using hshaped.block_subset hzero
    have hend : cpu / group.nrCpusPerTopo * group.nrCpusPerTopo + group.nrCpusPerTopo ≤
        CPU_SETSIZE := by
      rw [hdiv]
      simpa using hshaped.block_end hzero
    have hmem : cpu ∈ group.total := hblock (mem_block.mpr ⟨by omega, by omega⟩)
    obtain ⟨used, cpus, result, hassign, hto⟩ := assignedTo_of_target thread hpos hsize hend
    have hused : used = group.total := by
      refine CpuSet.ext ?_
      rw [hto.used_eq, bookedCpus, hfull, hdiv]
      split
      next => exact insert_eq_of_mem hmem
      next => exact union_eq_left.mpr hblock
    refine ⟨cpu, cpus, ?_, .inr ⟨cpu, hmem, hto.cpus_eq⟩⟩
    obtain ⟨resultGroup, resultThread, resultHeld⟩ := result
    rw [hassign]
    obtain ⟨rfl, rfl, rfl, -, -⟩ := hto
    rw [hused]

/-! ## A block for a member group -/

theorem request_spec (loads : ℕ → ℤ) {father : WaycaScGroup} (hshaped : Shaped father)
    (havailable : (availableSet father).cpus.Nonempty) :
    ∃ cpu ∈ availableSet father, ∃ used granted : CpuSet,
      waycaGroupRequestResourceFromFather loads father = some (rollOver father used, granted) ∧
        granted.cpus = block father.nrCpusPerTopo (cpu / father.nrCpusPerTopo) ∧
        used.cpus = father.used.cpus ∪ block father.nrCpusPerTopo (cpu / father.nrCpusPerTopo) := by
  obtain ⟨cpu, hcpu, hidlest⟩ := findIdlestSet_touches loads rfl hshaped.level_pos havailable
  have hcpus := cpuSetRange_block (hshaped.block_end (mem_availableSet.mp hcpu).1)
  set granted := cpuSetRange
    ((cpu / father.nrCpusPerTopo * father.nrCpusPerTopo : ℕ) : ℤ) father.nrCpusPerTopo cpuZero
  refine ⟨cpu, hcpu, cpuOr father.used granted, cpuOr cpuZero granted, ?_, ?_, ?_⟩
  · unfold waycaGroupRequestResourceFromFather
    rw [hidlest]
    rfl
  · rw [cpuOr_cpus, hcpus]
    simp
  · rw [cpuOr_cpus, hcpus]

/-- Whatever the books of the father say, a block of its own level is handed out,
or nothing by a father of single CPUs that has none left. -/
theorem request_cases {loads : ℕ → ℤ} {father after : WaycaScGroup} {granted : CpuSet}
    (hlevel : 0 < father.nrCpusPerTopo) (hsize : father.nrCpusPerTopo ≤ CPU_SETSIZE)
    (hend : ∀ cpu ∈ father.total, cpu / father.nrCpusPerTopo * father.nrCpusPerTopo +
      father.nrCpusPerTopo ≤ CPU_SETSIZE)
    (hrequest : waycaGroupRequestResourceFromFather loads father = some (after, granted)) :
    (∃ cpu ∈ father.total,
      granted.cpus = block father.nrCpusPerTopo (cpu / father.nrCpusPerTopo)) ∨
    granted.cpus = if father.nrCpusPerTopo = 1 then ∅ else block father.nrCpusPerTopo 0 := by
  obtain ⟨found, hfound, hpair⟩ := Option.map_eq_some_iff.mp hrequest
  have hgranted : granted.cpus = found.cpus := by
    rw [← (Prod.mk.inj hpair).2, cpuOr_cpus, cpuZero_cpus, empty_union]
  rw [hgranted]
  by_cases havailable : (availableSet father).cpus.Nonempty
  · obtain ⟨cpu, hcpu, hidlest⟩ := findIdlestSet_touches loads rfl hlevel havailable
    rw [hidlest, Option.some.injEq] at hfound
    have htotal := (mem_availableSet.mp hcpu).1
    refine .inl ⟨cpu, htotal, ?_⟩
    rw [← hfound, cpuSetRange_block (hend cpu htotal)]
  · have hnone : availableSet father = cpuZero :=
      CpuSet.cpus_eq_empty.mp (Finset.not_nonempty_iff_eq_empty.mp havailable)
    rw [hnone, findIdlestSet_zero loads hlevel, Option.some.injEq] at hfound
    right
    rw [← hfound]
    split
    next => exact cpuZero_cpus
    next =>
      have hcpus := cpuSetRange_block
        (show 0 * father.nrCpusPerTopo + father.nrCpusPerTopo ≤ CPU_SETSIZE by omega)
      rwa [Nat.zero_mul, Nat.cast_zero] at hcpus

section RollOver

variable (group : WaycaScGroup) (used : CpuSet)

@[simp] theorem rollOver_total : (rollOver group used).total = group.total := rfl

@[simp] theorem rollOver_nrCpusPerTopo :
    (rollOver group used).nrCpusPerTopo = group.nrCpusPerTopo := rfl

@[simp] theorem rollOver_attr : (rollOver group used).attr = group.attr := rfl

theorem rollOver_shaped {group : WaycaScGroup} (hshaped : Shaped group) (used : CpuSet) :
    Shaped (rollOver group used) := by
  refine ⟨?_, ?_⟩
  · simpa using hshaped.level_pos
  · simpa using hshaped.whole

theorem rollOver_used_ne (htotal : group.total.cpus.Nonempty) :
    (rollOver group used).used ≠ group.total := by
  unfold rollOver
  split
  next =>
    intro h
    change cpuZero = group.total at h
    rw [← h] at htotal
    simp at htotal
  next hne => exact hne

theorem rollOver_used_subset (hsubset : used.cpus ⊆ group.total.cpus) :
    (rollOver group used).used.cpus ⊆ group.total.cpus := by
  unfold rollOver
  split
  next => simp
  next => exact hsubset

end RollOver

theorem available_nonempty (hsubset : group.used.cpus ⊆ group.total.cpus)
    (hne : group.used ≠ group.total) : (availableSet group).cpus.Nonempty := by
  rw [availableSet_cpus, sdiff_nonempty]
  intro hall
  exact hne (CpuSet.ext (Finset.Subset.antisymm hsubset hall))

theorem bookedCpus_subset (hshaped : Shaped group) (hmem : cpu ∈ group.total)
    (hsubset : group.used.cpus ⊆ group.total.cpus) :
    bookedCpus group cpu ⊆ group.total.cpus := by
  unfold bookedCpus
  split
  next => exact insert_subset hmem hsubset
  next => exact union_subset hsubset (hshaped.block_subset hmem)

theorem threadCpus_subset {cpu : ℕ} (hshaped : Shaped group) (hmem : cpu ∈ group.total) :
    threadCpus group cpu ⊆ group.total.cpus := by
  unfold threadCpus
  split
  next => exact singleton_subset_iff.mpr hmem
  next => exact hshaped.block_subset hmem

theorem threadCpus_nonempty (hshaped : Shaped group) (cpu : ℕ) :
    (threadCpus group cpu).Nonempty := by
  unfold threadCpus
  split
  next => exact singleton_nonempty cpu
  next => exact block_nonempty hshaped.level_pos _

end WaycaScheduler
