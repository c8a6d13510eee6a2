import WaycaScheduler.OccupancyBooks
import WaycaScheduler.RangeContainment

/-!
# Free CPUs are taken first

While some CPU of a group is free, the next thread should be put on a free
CPU.  `wayca_group_assign_thread_resource` guarantees this when it fills an
incomplete topology set, and otherwise when every topology set that
`find_idlest_set` may take is free as a whole.  The groups of a uniform machine
hold whole topology sets in every run in which each change of an attribute
fits.
-/

namespace WaycaScheduler

open AlignedBlocks IntrusiveList OwnedLists Transition

variable {machine : Machine} {state next : State}

/-- An incomplete topology set is filled, or the topology sets that the search
may take are free as a whole. -/
def SearchesFreeSets (group : WaycaScGroup) : Prop :=
  (hasFlag group.attr WT_GF_COMPACT ∧
      ¬ group.nrCpusPerTopo ∣ (availableSet group).cpus.card) ∨
    ∀ cpu ∈ (availableSet group).cpus,
      (cpu % group.nrCpusPerTopo = 0 ∨ ∀ other ∈ (availableSet group).cpus, cpu ≤ other) →
        block group.nrCpusPerTopo (cpu / group.nrCpusPerTopo) ⊆ (availableSet group).cpus

instance (group : WaycaScGroup) : Decidable (SearchesFreeSets group) := by
  unfold SearchesFreeSets
  infer_instance

section OneGroup

variable {group : WaycaScGroup}

theorem SearchesFreeSets.chooseTargetPos
    (hsearch : SearchesFreeSets group) (loads : ℕ → ℤ) (hshaped : Shaped group)
    (havailable : (availableSet group).cpus.Nonempty) :
    ∃ cpu ∈ availableSet group,
      WaycaScheduler.chooseTargetPos loads group = some ((cpu : ℤ), true) := by
  by_cases hincomplete : hasFlag group.attr WT_GF_COMPACT ∧
      ¬ group.nrCpusPerTopo ∣ (availableSet group).cpus.card
  · obtain ⟨cpu, hchoose, hchoice⟩ := chooseTargetPos_spec loads hshaped havailable
    exact ⟨cpu, (hchoice.free_of_incomplete hincomplete.1 hincomplete.2).1, hchoose⟩
  · obtain ⟨d, hd, hentry, cpu, hcpu, hchoose⟩ :=
      chooseTargetPos_idlest loads hshaped havailable hincomplete
    exact ⟨cpu, (hsearch.resolve_left hincomplete) d hd hentry hcpu, hchoose⟩

theorem SearchesFreeSets.assign
    (hsearch : SearchesFreeSets group) (loads : ℕ → ℤ) (hshaped : Shaped group)
    (hproper : group.used.cpus ⊂ group.total.cpus) (thread : WaycaThread) :
    ∃ assigned, waycaGroupAssignThreadResource loads group thread = some assigned ∧
      assigned.thread.targetPos ∈ group.total ∧ assigned.thread.targetPos ∉ group.used := by
  have hne : group.used ≠ group.total := fun heq => hproper.ne (congrArg CpuSet.cpus heq)
  obtain ⟨cpu, hcpu, hchoose⟩ :=
    hsearch.chooseTargetPos loads hshaped (available_nonempty hproper.subset hne)
  obtain ⟨htotal, hunused⟩ := mem_availableSet.mp hcpu
  obtain ⟨used, cpus, assigned, hassign, hto⟩ := assignedTo_of_target thread hchoose
    (CpuSet.lt_of_mem htotal) (hshaped.block_end htotal)
  refine ⟨assigned, hassign, ?_⟩
  rw [hto.thread_eq]
  exact ⟨htotal, hunused⟩

theorem request_whole {loads : ℕ → ℤ} {father after : WaycaScGroup} {granted : CpuSet}
    (hshaped : Shaped father) (hsize : father.nrCpusPerTopo ≤ CPU_SETSIZE)
    (hrequest : waycaGroupRequestResourceFromFather loads father = some (after, granted)) :
    WholeBlocks father.nrCpusPerTopo granted.cpus := by
  rcases request_cases hshaped.level_pos hsize (fun cpu => hshaped.block_end) hrequest with
    ⟨cpu, -, hgranted⟩ | hgranted
  · rw [hgranted]
    exact wholeBlocks_block hshaped.level_pos
  · rw [hgranted]
    split
    next => exact wholeBlocks_empty
    next => exact wholeBlocks_block hshaped.level_pos

end OneGroup

/-! ## Whole topology sets in every run -/

structure ShapedGroups (machine : Machine) (state : State) : Prop where
  levels : Levels machine state
  shaped : ∀ g, LiveGroup machine state g → Shaped (state.group g)

namespace ShapedGroups

variable {g : GroupId}
variable {links : Links GroupId GroupId} {father : GroupId} {t : ThreadId}

theorem withLoads (hgroups : ShapedGroups machine state) (loads : ℕ → ℤ) :
    ShapedGroups machine { state with loads := loads } :=
  ⟨⟨⟨hgroups.levels.membership.threads, hgroups.levels.membership.groups,
    hgroups.levels.membership.exclusive⟩, hgroups.levels.arranged, hgroups.levels.below⟩,
    hgroups.shaped⟩

theorem kept (hgroups : ShapedGroups machine state) (hlevels : Levels machine next)
    (hkept : QuietLevels machine state next) : ShapedGroups machine next :=
  ⟨hlevels, fun x hx => (hkept.shape x).shaped (hgroups.shaped x (hkept.live x hx))⟩

theorem move (hgroups : ShapedGroups machine state)
    (hbody : rearrangeMember machine g state t = some next) : ShapedGroups machine next :=
  hgroups.kept (hgroups.levels.congr (sameLinks_rearrangeMember hbody)
    (rearrangeMember_level hbody)) (rearrangeMember_quietLevels hbody)

section

variable (huniform : UniformMachine machine) (hgroups : ShapedGroups machine state)
  (hlive : LiveGroup machine state g)

include huniform hgroups hlive

theorem arrange {wanted attr : Attr} {level : ℕ} {total : CpuSet} {arranged : State}
    (harranged : Arranged machine (state.withAttr g wanted) g attr level total arranged)
    (hfather : ∀ father, (state.group g).father = some father →
      level < (state.group father).nrCpusPerTopo)
    (hmembers : ∀ m, MemberOf machine state m g → (state.group m).nrCpusPerTopo < level) :
    ShapedGroups machine arranged := by
  have hwith := sameLinks_withAttr state g wanted
  have hsame := hwith.trans harranged.sameLinks
  have hlevelPos := huniform.level_pos harranged.arrangedLevel_eq
  refine ⟨harranged.levels hgroups.levels hfather hmembers, ?_⟩
  intro x hx
  have hliveOther := hsame.liveGroup.mp hx
  by_cases hxg : x = g
  · subst hxg
    rw [harranged.group_self]
    refine ⟨hlevelPos, ?_⟩
    change WholeBlocks level total.cpus
    cases hf : (state.group x).father with
    | none =>
        rw [(harranged.root ((hwith.father x).trans hf)).1]
        exact huniform.total_whole harranged.arrangedLevel_eq
    | some father =>
        have hliveFather := hgroups.levels.membership.groups.owner_live x father hlive hf
        have hfatherLevel := hgroups.levels.arranged father hliveFather
        have hshaped := hgroups.shaped father hliveFather
        have hne : father ≠ x := by
          rintro rfl
          exact (hgroups.levels.below father father hlive hf).false
        obtain ⟨after, hgrant, -⟩ := harranged.member father ((hwith.father x).trans hf) hne
        rw [withAttr_group_other hne] at hgrant
        have hsize : (state.group father).nrCpusPerTopo ≤ CPU_SETSIZE :=
          (Nat.le_of_dvd machine.cpusInTotal_pos (huniform.level_dvd hfatherLevel)).trans
            huniform.cpus_le
        have hdvd := huniform.level_dvd_of_lt harranged.arrangedLevel_eq hfatherLevel
          (hfather father hf)
        exact (request_whole hshaped hsize hgrant).of_dvd hlevelPos hshaped.level_pos hdvd
  · by_cases hf : (state.group g).father = some x
    · obtain ⟨after, hgrant, hafter⟩ := harranged.member x ((hwith.father g).trans hf) hxg
      rw [withAttr_group_other hxg] at hgrant
      rw [hafter, requested_fields hgrant]
      exact ⟨(hgroups.shaped x hliveOther).level_pos, (hgroups.shaped x hliveOther).whole⟩
    · have hnot : ((state.withAttr g wanted).group g).father ≠ some x := by
        rw [hwith.father]
        exact hf
      rw [harranged.other x hxg hnot, withAttr_group_other hxg]
      exact hgroups.shaped x hliveOther

theorem rearrange {depth : ℕ} {ret : ℤ}
    (hrearrange : waycaGroupRearrangeGroup machine depth state g = some (next, ret)) :
    ShapedGroups machine next := by
  refine rearrange_keeps (ShapedGroups machine) ?_ ?_ hgroups.levels.membership hlive hgroups
    hrearrange
  · intro before x attr level total arranged _ hx _ hbefore harranged
    have hlevels := hbefore.levels
    have hlevel : level = (before.group x).nrCpusPerTopo := by
      have hpair := harranged.arrangedLevel_eq
      rw [hlevels.arranged x hx, Option.some.injEq] at hpair
      exact (congrArg Prod.snd hpair).symm
    rw [← withAttr_self before x] at harranged
    refine hbefore.arrange huniform hx harranged ?_ ?_
    · intro father hfather
      rw [hlevel]
      exact hlevels.below x father hx hfather
    · intro m hm
      rw [hlevel]
      exact hlevels.below m x hm.1 hm.2
  · exact fun before x t after _ _ hbefore hbody => hbefore.move hbody

theorem setAttr {wanted : Attr} (hfits : LevelFits machine state g wanted)
    (hrearrange : waycaGroupRearrangeGroup machine rearrangeDepth (state.withAttr g wanted) g =
      some (next, 0)) :
    ShapedGroups machine next := by
  have hwith := sameLinks_withAttr state g wanted
  rcases rearrange_spec (hwith.membership hgroups.levels.membership)
      (hwith.liveGroup.mpr hlive) hrearrange with
    ⟨hneg, -⟩ | ⟨-, attr, level, total, arranged, hdone⟩
  · exact absurd hneg (lt_irrefl 0)
  · have hlevel := hdone.arrange.arrangedLevel_eq
    rw [withAttr_attr] at hlevel
    obtain ⟨hbelow, habove⟩ := hfits (attr, level) hlevel
    have harranged := hgroups.arrange huniform hlive hdone.arrange hbelow
      fun m hm => habove m (liveGroup_iff.mp hm.1).1 hm.1 hm.2
    have hsame := hdone.arrange.sameLinks
    rcases hdone.visit with ⟨-, members, -, hloop⟩ | ⟨-, members, hmembers, hloop⟩
    · exact foldlM_keeps (ShapedGroups machine)
        (fun _ _ _ _ hbefore hbody => hbefore.move hbody) harranged hloop
    · refine (foldlM_keeps (fun s => SameLinks arranged s ∧ ShapedGroups machine s) ?_
        ⟨.refl arranged, harranged⟩ hloop).2
      intro before child after hmem hkept hbody
      obtain ⟨⟨result, code⟩, hrun, rfl⟩ := Option.map_eq_some_iff.mp hbody
      have hchild := ((hsame.groupMembers hmembers).mem_iff child).mp hmem
      exact ⟨hkept.1.trans (sameLinks_rearrange hrun),
        hkept.2.rearrange huniform (hkept.1.liveGroup.mpr hchild.1) hrun⟩

end

theorem created (huniform : UniformMachine machine) (hgroups : ShapedGroups machine state)
    (hlevels : Levels machine next) (hcreated : GroupCreated machine state g next) :
    ShapedGroups machine next := by
  refine ⟨hlevels, fun x hx => ?_⟩
  by_cases hxg : x = g
  · rw [hxg, hcreated.group_self]
    exact ⟨Nat.one_pos, huniform.total_whole (arrangedLevel_default machine)⟩
  · rw [hcreated.group_other hxg]
    exact hgroups.shaped x (((hcreated.live_iff x).mp hx).resolve_right hxg)

theorem groupAttach (huniform : UniformMachine machine)
    (hgroups : ShapedGroups machine state)
    (hattached : GroupAttached machine state g father links next) :
    ShapedGroups machine next := by
  have hlinked : ShapedGroups machine (state.setGroupLinks links) :=
    ⟨hattached.linked_levels hgroups.levels,
      fun x hx => ⟨(hgroups.shaped x hx).level_pos, (hgroups.shaped x hx).whole⟩⟩
  exact hlinked.rearrange huniform hattached.live_group hattached.rearrange

end ShapedGroups

theorem shapedGroups_start (machine : Machine) : ShapedGroups machine State.start :=
  ⟨levels_start machine, fun g hlive => absurd hlive (not_liveGroup_start machine g)⟩

/-- The step of the induction, for a call that fits. -/
theorem step_shapedGroups {call : Call} {ret : ℤ} (huniform : UniformMachine machine)
    (hgroups : ShapedGroups machine state) (hfits : FittingCall machine state call)
    (hstep : step machine state call = some (next, ret)) : ShapedGroups machine next := by
  have hmembership := hgroups.levels.membership
  have hlevels := step_levels hgroups.levels hfits hstep
  cases step_levelChange hmembership hstep with
  | quiet hkept => exact hgroups.kept hlevels hkept
  | created g hcreated => exact hgroups.created huniform hlevels hcreated
  | attached g father links hattached => exact hgroups.groupAttach huniform hattached
  | attrSet g wanted hcall hlive hrearrange =>
      subst hcall
      exact hgroups.setAttr huniform hlive (hfits hlive) hrearrange

/-- On a uniform machine, in every state that a run reaches with any loads
before each call and with changes of attributes that fit, a group with a free
CPU puts the next thread on a free CPU, for any loads, when it fills an
incomplete topology set or the sets its search may take are free as a whole. -/
theorem thread_takes_free_cpu {g : GroupId} (huniform : UniformMachine machine)
    (hreach : ReachableVia (stepWithLoads machine)
      (fun before action => FittingCall machine before action.2) State.start state)
    (hlive : LiveGroup machine state g)
    (hproper : (state.group g).used.cpus ⊂ (state.group g).total.cpus)
    (hsearch : SearchesFreeSets (state.group g)) (loads : ℕ → ℤ) (thread : WaycaThread) :
    ∃ assigned, waycaGroupAssignThreadResource loads (state.group g) thread = some assigned ∧
      assigned.thread.targetPos ∈ (state.group g).total ∧
      assigned.thread.targetPos ∉ (state.group g).used := by
  have hgroups : ShapedGroups machine state := by
    refine hreach.keeps (ShapedGroups machine) (shapedGroups_start machine) ?_
    intro before action after ret hbefore hfits hstep
    exact step_shapedGroups huniform (hbefore.withLoads action.1) hfits hstep
  exact hsearch.assign loads (hgroups.shaped g hlive) hproper thread

/-- Two CCLs of two CPUs, one thread in each half of the first: the next thread
goes to the second. -/
theorem thread_takes_free_cpu_second_ccl :
    ∃ state, ReachableVia (stepWithLoads smallMachine)
        (fun before action => FittingCall smallMachine before action.2) State.start state ∧
      (state.group 0).used.cpus = {0, 1} ∧ SearchesFreeSets (state.group 0) ∧
      ∃ assigned, waycaGroupAssignThreadResource state.loads (state.group 0) (state.thread 2) =
          some assigned ∧
        assigned.thread.targetPos ∈ (state.group 0).total ∧
        assigned.thread.targetPos ∉ (state.group 0).used := by
  have hrun : ∃ state ∈ runCalls (stepWithLoads smallMachine)
      (fun before action => FittingCall smallMachine before action.2) State.start
      [(fun _ => 0, .groupCreate true true),
        (fun _ => 0, .groupSetAttr 0 (some (WT_GF_CCL ||| WT_GF_COMPACT ||| WT_GF_PERCPU))),
        (fun _ => 0, createOnSmall), (fun _ => 0, createOnSmall), (fun _ => 0, createOnSmall),
        (fun _ => 0, .threadAttachGroup 0 0), (fun _ => 0, .threadAttachGroup 1 0)],
      LiveGroup smallMachine state 0 ∧ (state.group 0).used.cpus = {0, 1} ∧
        (state.group 0).used.cpus ⊂ (state.group 0).total.cpus ∧
        SearchesFreeSets (state.group 0) := by
    decide +kernel
  obtain ⟨state, hreach, hlive, hused, hproper, hsearch⟩ := exists_reachable_of_runCalls hrun
  exact ⟨state, hreach, hused, hsearch, thread_takes_free_cpu smallMachine_uniform hreach
    hlive hproper hsearch state.loads (state.thread 2)⟩

/-- Two CCLs of two CPUs are full and one CPU of each becomes free.  Two free
CPUs are a multiple of the level size, so the idlest set is searched for, and
the thread is put on a CPU that is used. -/
theorem begun_sets_double_up :
    UniformMachine smallMachine ∧
      ∃ state, Reaches smallMachine (fun _ call => call.singleLevel = true) state ∧
        LiveGroup smallMachine state 0 ∧
        (state.group 0).used.cpus ⊂ (state.group 0).total.cpus ∧
        ∃ assigned,
          waycaGroupAssignThreadResource state.loads (state.group 0) (state.thread 4) =
              some assigned ∧
            assigned.thread.targetPos ∈ (state.group 0).used := by
  have hrun : ∃ state ∈ runCalls (step smallMachine) (fun _ call => call.singleLevel = true)
      State.start
      [.groupCreate true true,
        .groupSetAttr 0 (some (WT_GF_CCL ||| WT_GF_COMPACT ||| WT_GF_PERCPU)),
        createOnSmall, createOnSmall, createOnSmall, createOnSmall, createOnSmall,
        .threadAttachGroup 0 0, .threadAttachGroup 1 0, .threadAttachGroup 2 0,
        .threadAttachGroup 3 0, .threadDetachGroup 1 0, .threadDetachGroup 3 0],
      LiveGroup smallMachine state 0 ∧ (state.group 0).used.cpus ⊂ (state.group 0).total.cpus ∧
        ∃ assigned ∈ waycaGroupAssignThreadResource state.loads (state.group 0) (state.thread 4),
          assigned.thread.targetPos ∈ (state.group 0).used := by
    decide +kernel
  exact ⟨smallMachine_uniform, exists_reachable_of_runCalls hrun⟩

end WaycaScheduler
