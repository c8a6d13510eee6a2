import WaycaScheduler.FatherBooks

/-!
# Detaching what has just been attached

A member is attached to a group that has only had attach calls since it was
empty, and is detached again.  For member groups and for most threads the CPUs
the detach takes out of the used set are those the attach has put there.  With
`WT_GF_PERCPU` alone an attach marks the topology set of the target, but the
detach clears the allowed set of the thread, which is the target only.
-/

namespace WaycaScheduler

open AlignedBlocks OwnedLists Transition Finset

variable {machine : Machine} {state next : State} {group : WaycaScGroup}
variable {loads : ℕ → ℤ} {g : GroupId} {thread : WaycaThread} {after : WaycaScGroup}
  {assigned : Assigned} {granted : CpuSet}

/-! ## The books of one record -/

theorem reopenRound_rollOver (group : WaycaScGroup) {used : CpuSet} (hused : used.cpus.Nonempty) :
    reopenRound (rollOver group used) = { group with used := used } := by
  have hcount : cpuCount used ≠ 0 := card_ne_zero.mpr hused
  have hzero : cpuCount cpuZero = 0 := rfl
  have hor : cpuOr cpuZero group.total = group.total := CpuSet.ext (by simp)
  unfold reopenRound rollOver
  by_cases hfull : used = group.total
  · simp [hfull, hzero, hor]
  · simp [hfull, hcount]

theorem cpuXor_of_union
    {before marked after : CpuSet} (hafter : after.cpus = before.cpus ∪ marked.cpus)
    (hdisjoint : Disjoint before.cpus marked.cpus) : cpuXor after marked = before := by
  apply CpuSet.ext_mem
  intro c
  have hmem : c ∈ after ↔ c ∈ before ∨ c ∈ marked := by
    rw [← CpuSet.mem_cpus, hafter, mem_union]
    rfl
  have hnot : c ∈ before → c ∉ marked := fun hin => disjoint_left.mp hdisjoint hin
  rw [mem_cpuXor, hmem]
  tauto

/-- What a detach clears is what the attach has marked. -/
def ClearsWhatItMarked (group : WaycaScGroup) : Prop :=
  hasFlag group.attr WT_GF_COMPACT ∨ ¬ hasFlag group.attr WT_GF_PERCPU ∨
    group.nrCpusPerTopo = 1

theorem bookedCpus_nonempty (group : WaycaScGroup) (cpu : ℕ) (hlevel : 0 < group.nrCpusPerTopo) :
    (bookedCpus group cpu).Nonempty := by
  unfold bookedCpus
  split
  next => exact insert_nonempty cpu _
  next => exact ⟨cpu, mem_union_right _ (mem_own_block hlevel)⟩

/-- Leaving right after an assignment restores the books. -/
theorem releaseThread_of_assigned {cpu : ℕ} {used cpus : CpuSet}
    (hto : AssignedTo group thread cpu used cpus assigned) (hlevel : 0 < group.nrCpusPerTopo)
    (hfree : cpu ∉ group.used)
    (hwhole : ¬ hasFlag group.attr WT_GF_COMPACT → WholeBlocks group.nrCpusPerTopo group.used.cpus)
    (hclears : ClearsWhatItMarked group) :
    releaseThread assigned.group assigned.thread = group := by
  have hopen : reopenRound assigned.group = { group with used := used } := by
    rw [hto.group_eq]
    apply reopenRound_rollOver
    rw [hto.used_eq]
    exact bookedCpus_nonempty group cpu hlevel
  have hattr : assigned.group.attr = group.attr := by rw [hto.group_eq, rollOver_attr]
  have htarget : assigned.thread.targetPos = cpu := by rw [hto.thread_eq]
  have hallowed : assigned.thread.allowedSet = cpus := by rw [hto.thread_eq]
  unfold releaseThread
  rw [hopen, hattr, htarget, hallowed]
  by_cases hcompact : hasFlag group.attr WT_GF_COMPACT
  · have hused : used.cpus = insert cpu group.used.cpus := by
      rw [hto.used_eq, bookedCpus, if_pos hcompact]
    by_cases hpercpu : hasFlag group.attr WT_GF_PERCPU
    · have hcpus : cpus.cpus = {cpu} := by rw [hto.cpus_eq, threadCpus, if_pos hpercpu]
      have hback : cpuXor used cpus = group.used := by
        apply cpuXor_of_union
        · rw [hused, hcpus, union_comm, ← insert_eq]
        · rw [hcpus, disjoint_singleton_right]
          exact hfree
      simp [hcompact, hpercpu, hback]
    · have hback : cpuClr cpu used = group.used := by
        apply CpuSet.ext
        rw [cpuClr_cpus, hused, erase_insert hfree]
      simp [hcompact, hpercpu, hback]
  · have hused : used.cpus = group.used.cpus ∪
        block group.nrCpusPerTopo (cpu / group.nrCpusPerTopo) := by
      rw [hto.used_eq, bookedCpus, if_neg hcompact]
    have hcpus : cpus.cpus = block group.nrCpusPerTopo (cpu / group.nrCpusPerTopo) := by
      rw [hto.cpus_eq, threadCpus]
      split
      next hpercpu =>
        rcases hclears with hflag | hflag | hone
        · exact absurd hflag hcompact
        · exact absurd hpercpu hflag
        · ext c
          rw [hone, mem_singleton, mem_block]
          omega
      next => rfl
    have hback : cpuXor used cpus = group.used := by
      apply cpuXor_of_union
      · rw [hused, hcpus]
      · rw [hcpus]
        exact (hwhole hcompact).disjoint_block hlevel hfree
    simp [hcompact, hback]

theorem releaseGroup_of_requested {father member : WaycaScGroup}
    (hshaped : Shaped father) (havailable : (availableSet father).cpus.Nonempty)
    (hwhole : WholeBlocks father.nrCpusPerTopo father.used.cpus)
    (hrequest : waycaGroupRequestResourceFromFather loads father = some (after, granted))
    (htotal : member.total = granted) : releaseGroup after member = father := by
  obtain ⟨cpu, hcpu, used, block, hserved, hblock, hused⟩ := request_spec loads hshaped havailable
  rw [hrequest, Option.some.injEq, Prod.mk.injEq] at hserved
  obtain ⟨rfl, rfl⟩ := hserved
  have hlevel := hshaped.level_pos
  have hopen : reopenRound (rollOver father used) = { father with used := used } := by
    apply reopenRound_rollOver
    rw [hused]
    exact ⟨cpu, mem_union_right _ (mem_own_block hlevel)⟩
  have hback : cpuXor used granted = father.used := by
    apply cpuXor_of_union
    · rw [hused, hblock]
    · rw [hblock]
      exact hwhole.disjoint_block hlevel (mem_availableSet.mp hcpu).2
  unfold releaseGroup
  rw [hopen, htotal, hback]

/-! ## Groups that have only been filled -/

/-- The books of a group that has had attach calls only since it was empty.
Threads of a compact group may leave one topology set partly used; otherwise
the used CPUs are whole topology sets. -/
structure Filling (group : WaycaScGroup) : Prop where
  shaped : Shaped group
  used_subset : group.used.cpus ⊆ group.total.cpus
  used_ne : group.used ≠ group.total
  onePartlyUsed : OnePartlyUsed group
  whole : (hasFlag group.attr WT_GF_COMPACT → group.nrThreads = 0) →
    WholeBlocks group.nrCpusPerTopo group.used.cpus

theorem Filling.available (hfilling : Filling group) : (availableSet group).cpus.Nonempty :=
  available_nonempty hfilling.used_subset hfilling.used_ne

theorem Filling.total_nonempty (hfilling : Filling group) : group.total.cpus.Nonempty := by
  obtain ⟨cpu, hcpu⟩ := hfilling.available
  exact ⟨cpu, (mem_availableSet.mp hcpu).1⟩

theorem onePartlyUsed_of_whole (hwhole : WholeBlocks group.nrCpusPerTopo group.used.cpus)
    (hlevel : 0 < group.nrCpusPerTopo) : OnePartlyUsed group := by
  intro first second hfirst
  obtain ⟨⟨c, hc⟩, hnot⟩ := hfirst
  rw [mem_inter] at hc
  have hindex := (mem_block_iff_div hlevel).mp hc.1
  rw [← hindex] at hnot
  exact absurd (hwhole c hc.2) hnot

theorem Filling.assign (hfilling : Filling group) {first : Option ThreadId} {count : ℤ}
    (hcount : 0 < count)
    (hassign : waycaGroupAssignThreadResource loads
      { group with threads := first, nrThreads := count } thread = some assigned) :
    Filling assigned.group ∧ ∃ cpu used cpus,
      AssignedTo { group with threads := first, nrThreads := count } thread cpu used cpus
        assigned ∧ cpu ∉ group.used := by
  have hshaped : Shaped { group with threads := first, nrThreads := count } :=
    ⟨hfilling.shaped.level_pos, hfilling.shaped.whole⟩
  have hlevel := hfilling.shaped.level_pos
  obtain ⟨cpu, used, cpus, result, hresult, hto, hchoice⟩ :=
    assign_spec loads hshaped thread hfilling.available
  rw [hassign, Option.some.injEq] at hresult
  subst hresult
  have hsubset : used.cpus ⊆ group.total.cpus := by
    rw [hto.used_eq]
    exact bookedCpus_subset hshaped hchoice.mem_total hfilling.used_subset
  have hne := rollOver_used_ne { group with threads := first, nrThreads := count } used
    hfilling.total_nonempty
  have hin := rollOver_used_subset { group with threads := first, nrThreads := count } used
    hsubset
  by_cases hcompact : hasFlag group.attr WT_GF_COMPACT
  · obtain ⟨hfree, hindex⟩ := hchoice.compact_free hshaped hcompact hfilling.used_subset
      hfilling.onePartlyUsed
    have hused : used.cpus = insert cpu group.used.cpus := by
      rw [hto.used_eq, bookedCpus, if_pos hcompact]
    constructor
    · rw [hto.group_eq]
      refine ⟨rollOver_shaped hshaped used, hin, hne,
        rollOver_onePartlyUsed hlevel hused hindex, ?_⟩
      intro hnone
      have hzero : count = 0 := hnone hcompact
      omega
    · exact ⟨cpu, used, cpus, hto, (mem_availableSet.mp hfree).2⟩
  · have hwhole := hfilling.whole fun h => absurd h hcompact
    have hfree := hchoice.free_of_whole (available_whole hshaped hwhole)
    have hused : used.cpus = group.used.cpus ∪
        block group.nrCpusPerTopo (cpu / group.nrCpusPerTopo) := by
      rw [hto.used_eq, bookedCpus, if_neg hcompact]
    constructor
    · have hafter := rollOver_whole hshaped.level_pos hwhole hused
      rw [hto.group_eq]
      exact ⟨rollOver_shaped hshaped used, hin, hne, onePartlyUsed_of_whole hafter hlevel,
        fun _ => hafter⟩
    · exact ⟨cpu, used, cpus, hto, (mem_availableSet.mp hfree).2⟩

theorem Filling.request (hfilling : Filling group) (hthreads : group.nrThreads = 0)
    (hrequest : waycaGroupRequestResourceFromFather loads group = some (after, granted)) :
    Filling after := by
  have hlevel := hfilling.shaped.level_pos
  have hwhole := hfilling.whole fun _ => hthreads
  obtain ⟨cpu, hcpu, used, block, hserved, -, hused⟩ :=
    request_spec loads hfilling.shaped hfilling.available
  rw [hrequest, Option.some.injEq, Prod.mk.injEq] at hserved
  obtain ⟨rfl, rfl⟩ := hserved
  have hsubset : used.cpus ⊆ group.total.cpus := by
    rw [hused]
    exact union_subset hfilling.used_subset
      (hfilling.shaped.block_subset (mem_availableSet.mp hcpu).1)
  have hafter := rollOver_whole hlevel hwhole hused
  exact ⟨rollOver_shaped hfilling.shaped used, rollOver_used_subset group used hsubset,
    rollOver_used_ne group used hfilling.total_nonempty, onePartlyUsed_of_whole hafter hlevel,
    fun _ => hafter⟩

theorem FreshFather.filling (hfresh : FreshFather machine g state) : Filling (state.group g) := by
  have hempty : WholeBlocks (state.group g).nrCpusPerTopo (state.group g).used.cpus := by
    rw [hfresh.used_eq]
    exact wholeBlocks_empty
  constructor
  · exact ⟨hfresh.level_pos, hfresh.whole⟩
  · rw [hfresh.used_eq]
    exact empty_subset _
  · intro hfull
    have hnonempty := hfresh.total_nonempty
    rw [← hfull, hfresh.used_eq] at hnonempty
    simp at hnonempty
  · exact onePartlyUsed_of_whole hempty hfresh.level_pos
  · intro _
    exact hempty

/-! ## One attach and its undoing -/

section Threads

variable {t : ThreadId} {g : GroupId} {links : Links GroupId ThreadId} {assigned : Assigned}

section

variable (hattached : ThreadAttached machine state t g links assigned next)

include hattached

theorem ThreadAttached.count_pos (hmembership : Membership machine state) : 0 < links.count g := by
  obtain ⟨members, -, hlength, -⟩ := hmembership.threads.chain g hattached.live_group
  rw [hattached.count_eq, Function.update_self]
  omega

theorem ThreadAttached.filling (hmembership : Membership machine state)
    (hfilling : Filling (state.group g)) :
    Filling (next.group g) := by
  rw [hattached.group_self]
  exact (hfilling.assign (hattached.count_pos hmembership) hattached.assign).1

theorem ThreadAttached.undone
    (hinsert : state.threadLinks.insert machine.threadsArraySize g t = some links)
    (hmembership : Membership machine state) (hfilling : Filling (state.group g))
    (hclears : ClearsWhatItMarked (state.group g)) :
    ∃ final, waycaScThreadDetachGroup machine next t g = some (final, 0) ∧
      final.group g = state.group g ∧ final.threadLinks = state.threadLinks := by
  have hsame := hattached.sameLinks
  have hmember : (next.thread t).group = some g := by
    rw [hsame.thread_group]
    change links.owner t = some g
    rw [hattached.owner_eq, Function.update_self]
  obtain ⟨final, back, hcall, hremove, hdetached⟩ :=
    detachThread_accepted (hattached.membership hmembership)
      (hsame.liveThread.mpr hattached.live_thread)
      (hsame.liveGroup.mpr hattached.live_group) hmember
  have hback : back = state.threadLinks := by
    have hundo := hmembership.threads.remove_insert (thread_capacity machine state)
      hattached.live_group hattached.live_thread hattached.free hinsert
    rw [hsame.threadLinks, State.threadLinks_setThreadLinks, hundo, Option.some.injEq] at hremove
    exact hremove.symm
  obtain ⟨-, cpu, used, cpus, hto, hfree⟩ :=
    hfilling.assign (hattached.count_pos hmembership) hattached.assign
  have hrelease := releaseThread_of_assigned hto hfilling.shaped.level_pos hfree
    (fun hcompact => hfilling.whole fun h => absurd h hcompact) hclears
  refine ⟨final, hcall, ?_, ?_⟩
  · rw [hdetached.group_self, hattached.group_self, hattached.thread_self, hrelease, hback]
    rfl
  · rw [hdetached.sameLinks.threadLinks, State.threadLinks_setThreadLinks, hback]

end

end Threads

section Groups

variable {g father : GroupId} {links : Links GroupId GroupId}

theorem Filling.setGroupLinks
    (hfilling : Filling (state.group father)) (links : Links GroupId GroupId) :
    Filling ((state.setGroupLinks links).group father) :=
  ⟨⟨hfilling.shaped.level_pos, hfilling.shaped.whole⟩, hfilling.used_subset, hfilling.used_ne,
    hfilling.onePartlyUsed, hfilling.whole⟩

theorem GroupAttached.filling (hattached : GroupAttached machine state g father links next)
    (hlevels : Levels machine state) (hfilling : Filling (state.group father)) :
    Filling (next.group father) := by
  obtain ⟨fatherAfter, granted, hrequest, hfather, -, -⟩ := hattached.request hlevels
  rw [hfather]
  exact (hfilling.setGroupLinks links).request hattached.no_threads hrequest

theorem GroupAttached.undone (hattached : GroupAttached machine state g father links next)
    (hinsert : state.groupLinks.insert machine.groupsArraySize father g = some links)
    (hlevels : Levels machine state) (hfilling : Filling (state.group father)) :
    ∃ final, waycaScGroupDetachGroup machine next g father = some (final, 0) ∧
      final.group father = state.group father ∧ final.groupLinks = state.groupLinks := by
  have hmembership := hlevels.membership
  have hsame := sameLinks_rearrange hattached.rearrange
  have hmember : (next.group g).father = some father := by
    rw [hsame.father]
    change links.owner g = some father
    rw [hattached.owner_eq, Function.update_self]
  obtain ⟨final, back, hcall, hremove, hdetached⟩ :=
    detachGroup_accepted (hattached.membership hmembership)
      (hsame.liveGroup.mpr hattached.live_group)
      (hsame.liveGroup.mpr hattached.live_father) hattached.ne hmember
  have hback : back = state.groupLinks := by
    have hundo := hmembership.groups.remove_insert (group_capacity machine state)
      hattached.live_father hattached.live_group hattached.free hinsert
    rw [hsame.groupLinks, State.groupLinks_setGroupLinks, hundo, Option.some.injEq] at hremove
    exact hremove.symm
  obtain ⟨fatherAfter, granted, hrequest, hfather, htotal, -⟩ := hattached.request hlevels
  have hlinked := hfilling.setGroupLinks links
  have hrelease := releaseGroup_of_requested hlinked.shaped hlinked.available
    (hlinked.whole fun _ => hattached.no_threads) hrequest htotal
  refine ⟨final, hcall, ?_, ?_⟩
  · rw [hdetached.next_eq, hback, hfather, hrelease]
    simp only [State.setGroupLinks, State.setGroup_group, Function.update_self]
    rfl
  · rw [hdetached.next_eq, State.groupLinks_setGroupLinks, hback]

end Groups

/-! ## Runs from an empty group -/

/-- Members are attached to the group, and every other call leaves its record
alone. -/
def AddsMembers (machine : Machine) (g : GroupId) (state : State) (call : Call) : Prop :=
  (∃ t, call = .threadAttachGroup t g) ∨ (∃ m, call = .groupAttachGroup m g) ∨
    ∀ outcome ∈ step machine state call, outcome.1.group g = state.group g

/-- The step of the induction: a thread that joins keeps the group filling. -/
theorem step_fills_threads {call : Call} {ret : ℤ}
    (hinv : Membership machine state ∧ ((state.group g).nrGroups = 0 →
      Filling (state.group g) ∧ ClearsWhatItMarked (state.group g)))
    (hadds : AddsMembers machine g state call)
    (hstep : step machine state call = some (next, ret)) :
    Membership machine next ∧ ((next.group g).nrGroups = 0 →
      Filling (next.group g) ∧ ClearsWhatItMarked (next.group g)) := by
  obtain ⟨hmembership, hfills⟩ := hinv
  constructor
  · exact step_membership hmembership hstep
  · intro hnone
    rcases hadds with ⟨t, rfl⟩ | ⟨m, rfl⟩ | hkeeps
    · rcases attachThread_cases hmembership hstep with ⟨-, rfl⟩ | ⟨-, links, assigned, hattached⟩
      · exact hfills hnone
      · obtain ⟨hfilling, hclears⟩ := hfills hattached.no_groups
        constructor
        · exact hattached.filling hmembership hfilling
        · rw [hattached.group_self, (assigned_fields hattached.assign).1]
          exact hclears
    · rcases attachGroup_cases hmembership hstep with ⟨-, rfl⟩ | ⟨-, links, hattached⟩
      · exact hfills hnone
      · obtain ⟨members, -, hlength, -⟩ := hmembership.groups.chain g hattached.live_father
        have hcount : (next.group g).nrGroups = links.count g :=
          congrFun (congrArg Links.count (sameLinks_rearrange hattached.rearrange).groupLinks) g
        rw [hcount, hattached.count_eq, Function.update_self] at hnone
        omega
    · have hsame : next.group g = state.group g := hkeeps _ hstep
      rw [hsame] at hnone ⊢
      exact hfills hnone

theorem step_fills_groups {call : Call} {ret : ℤ}
    (hinv : Levels machine state ∧ Filling (state.group g))
    (hadds : FittingCall machine state call ∧ AddsMembers machine g state call)
    (hstep : step machine state call = some (next, ret)) :
    Levels machine next ∧ Filling (next.group g) := by
  obtain ⟨hlevels, hfilling⟩ := hinv
  constructor
  · exact step_levels hlevels hadds.1 hstep
  · rcases hadds.2 with ⟨t, rfl⟩ | ⟨m, rfl⟩ | hkeeps
    · rcases attachThread_cases hlevels.membership hstep with
        ⟨-, rfl⟩ | ⟨-, links, assigned, hattached⟩
      · exact hfilling
      · exact hattached.filling hlevels.membership hfilling
    · rcases attachGroup_cases hlevels.membership hstep with ⟨-, rfl⟩ | ⟨-, links, hattached⟩
      · exact hfilling
      · exact hattached.filling hlevels hfilling
    · have hsame : next.group g = state.group g := hkeeps _ hstep
      rw [hsame]
      exact hfilling

/-- In every run that adds members to an empty group, one more attach is taken
back by the detach that follows: the record of the group and all the links are
as before. -/
theorem detach_undoes_attach (machine : Machine) (g : GroupId) :
    (∀ start state attached t, Reachable machine start → FreshFather machine g start →
      ClearsWhatItMarked (start.group g) →
      ReachableVia (step machine) (AddsMembers machine g) start state →
      step machine state (.threadAttachGroup t g) = some (attached, 0) →
      ∃ detached, step machine attached (.threadDetachGroup t g) = some (detached, 0) ∧
        detached.group g = state.group g ∧ detached.threadLinks = state.threadLinks) ∧
    ∀ start state attached m, Reaches machine (FittingCall machine) start →
      FreshFather machine g start →
      ReachableVia (step machine)
        (fun s call => FittingCall machine s call ∧ AddsMembers machine g s call) start state →
      step machine state (.groupAttachGroup m g) = some (attached, 0) →
      ∃ detached, step machine attached (.groupDetachGroup m g) = some (detached, 0) ∧
        detached.group g = state.group g ∧ detached.groupLinks = state.groupLinks := by
  constructor
  · intro start state attached t hreach hfresh hclears hrun hstep
    obtain ⟨hmembership, hfills⟩ := hrun.keeps
      (fun s => Membership machine s ∧ ((s.group g).nrGroups = 0 →
        Filling (s.group g) ∧ ClearsWhatItMarked (s.group g)))
      ⟨membership_of_reaches hreach, fun _ => ⟨hfresh.filling, hclears⟩⟩
      fun _ _ _ _ hinv hadds hnext => step_fills_threads hinv hadds hnext
    rcases attachThread_effect hmembership hstep with
      ⟨hneg, -⟩ | ⟨-, links, assigned, hinsert, hattached⟩
    · exact absurd hneg (lt_irrefl 0)
    · obtain ⟨hfilling, hmarks⟩ := hfills hattached.no_groups
      exact hattached.undone hinsert hmembership hfilling hmarks
  · intro start state attached m hreach hfresh hrun hstep
    obtain ⟨hlevels, hfilling⟩ := hrun.keeps
      (fun s => Levels machine s ∧ Filling (s.group g))
      ⟨levels_of_reaches hreach, hfresh.filling⟩
      fun _ _ _ _ hinv hadds hnext => step_fills_groups hinv hadds hnext
    rcases attachGroup_effect hlevels.membership hstep with
      ⟨hneg, -⟩ | ⟨-, links, hinsert, hattached⟩
    · exact absurd hneg (lt_irrefl 0)
    · exact hattached.undone hinsert hlevels hfilling

instance (machine : Machine) (g : GroupId) (state : State) (call : Call) :
    Decidable (AddsMembers machine g state call) :=
  decidable_of_iff
    ((match call with
      | .threadAttachGroup _ other => decide (other = g)
      | .groupAttachGroup _ other => decide (other = g)
      | _ => false) = true ∨
      ∀ outcome ∈ step machine state call, outcome.1.group g = state.group g)
    (by
      unfold AddsMembers
      rw [← or_assoc]
      apply or_congr_left
      cases call <;> simp)

/-- A fourth thread closes the round of a compact group of two CCLs and leaves
again; a group does so with a father of two CCLs that has one member. -/
theorem detach_undoes_attach_small :
    (∃ start state attached detached, Reachable smallMachine start ∧
      FreshFather smallMachine 0 start ∧
      ReachableVia (step smallMachine) (AddsMembers smallMachine 0) start state ∧
      (state.group 0).nrThreads = 3 ∧
      step smallMachine state (.threadAttachGroup 3 0) = some (attached, 0) ∧
      (attached.group 0).rollOverCnts = 1 ∧
      step smallMachine attached (.threadDetachGroup 3 0) = some (detached, 0) ∧
      detached.group 0 = state.group 0 ∧ detached.threadLinks = state.threadLinks) ∧
    ∃ start state attached detached, Reaches smallMachine (FittingCall smallMachine) start ∧
      FreshFather smallMachine 0 start ∧
      ReachableVia (step smallMachine) (fun s call => FittingCall smallMachine s call ∧
        AddsMembers smallMachine 0 s call) start state ∧
      (state.group 0).nrGroups = 1 ∧
      step smallMachine state (.groupAttachGroup 2 0) = some (attached, 0) ∧
      (attached.group 0).rollOverCnts = 1 ∧
      step smallMachine attached (.groupDetachGroup 2 0) = some (detached, 0) ∧
      detached.group 0 = state.group 0 ∧ detached.groupLinks = state.groupLinks := by
  constructor
  · have hrun : ∃ start ∈ runCalls (step smallMachine) (fun _ _ => True) State.start
        [createOnSmall, createOnSmall, createOnSmall, createOnSmall, .groupCreate true true,
          .groupSetAttr 0 (some (WT_GF_CCL ||| WT_GF_COMPACT))],
        FreshFather smallMachine 0 start ∧ hasFlag (start.group 0).attr WT_GF_COMPACT ∧
        ∃ state ∈ runCalls (step smallMachine) (AddsMembers smallMachine 0) start
          [.threadAttachGroup 0 0, .threadAttachGroup 1 0, .threadAttachGroup 2 0],
        (state.group 0).nrThreads = 3 ∧
        ∃ outcome ∈ step smallMachine state (.threadAttachGroup 3 0),
          outcome.2 = 0 ∧ (outcome.1.group 0).rollOverCnts = 1 := by
      decide +kernel
    obtain ⟨start, hreach, hfresh, hcompact, hfilled⟩ := exists_reachable_of_runCalls hrun
    obtain ⟨state, hvia, hthreads, ⟨attached, ret⟩, hattach, rfl, hclosed⟩ :=
      exists_reachable_of_runCalls hfilled
    obtain ⟨detached, hdetach, hgroup, hlinks⟩ := (detach_undoes_attach smallMachine 0).1
      start state attached 3 hreach hfresh (.inl hcompact) hvia hattach
    exact ⟨start, state, attached, detached, hreach, hfresh, hvia, hthreads, hattach, hclosed,
      hdetach, hgroup, hlinks⟩
  · have hrun : ∃ start ∈ runCalls (step smallMachine) (FittingCall smallMachine) State.start
        [.groupCreate true true, .groupCreate true true, .groupCreate true true,
          .groupSetAttr 0 (some WT_GF_CCL)],
        FreshFather smallMachine 0 start ∧
        ∃ state ∈ runCalls (step smallMachine) (fun s call => FittingCall smallMachine s call ∧
          AddsMembers smallMachine 0 s call) start [.groupAttachGroup 1 0],
        (state.group 0).nrGroups = 1 ∧
        ∃ outcome ∈ step smallMachine state (.groupAttachGroup 2 0),
          outcome.2 = 0 ∧ (outcome.1.group 0).rollOverCnts = 1 := by
      decide +kernel
    obtain ⟨start, hreach, hfresh, hfilled⟩ := exists_reachable_of_runCalls hrun
    obtain ⟨state, hvia, hgroups, ⟨attached, ret⟩, hattach, rfl, hclosed⟩ :=
      exists_reachable_of_runCalls hfilled
    obtain ⟨detached, hdetach, hgroup, hlinks⟩ := (detach_undoes_attach smallMachine 0).2
      start state attached 2 hreach hfresh hvia hattach
    exact ⟨start, state, attached, detached, hreach, hfresh, hvia, hgroups, hattach, hclosed,
      hdetach, hgroup, hlinks⟩

/-- With `WT_GF_PERCPU` and without `WT_GF_COMPACT` the first thread marks a
whole CCL, and its detach leaves the second CPU of the CCL marked. -/
theorem percpu_detach_leaves_block_marked :
    ∃ start attached detached, Reaches smallMachine (FittingCall smallMachine) start ∧
      FreshFather smallMachine 0 start ∧ (start.group 0).nrThreads = 0 ∧
      (start.group 0).attr = WT_GF_CCL ||| WT_GF_PERCPU ∧
      step smallMachine start (.threadAttachGroup 0 0) = some (attached, 0) ∧
      step smallMachine attached (.threadDetachGroup 0 0) = some (detached, 0) ∧
      (start.group 0).used.cpus = ∅ ∧ (attached.group 0).used.cpus = {0, 1} ∧
      (detached.group 0).used.cpus = {1} := by
  have hrun : ∃ start ∈ runCalls (step smallMachine) (FittingCall smallMachine) State.start
      [createOnSmall, .groupCreate true true,
        .groupSetAttr 0 (some (WT_GF_CCL ||| WT_GF_PERCPU))],
      FreshFather smallMachine 0 start ∧ (start.group 0).nrThreads = 0 ∧
      (start.group 0).attr = WT_GF_CCL ||| WT_GF_PERCPU ∧ (start.group 0).used.cpus = ∅ ∧
      ∃ first ∈ step smallMachine start (.threadAttachGroup 0 0),
      first.2 = 0 ∧ (first.1.group 0).used.cpus = {0, 1} ∧
      ∃ second ∈ step smallMachine first.1 (.threadDetachGroup 0 0),
        second.2 = 0 ∧ (second.1.group 0).used.cpus = {1} := by
    decide +kernel
  obtain ⟨start, hreach, hfresh, hthreads, hattr, hunused, ⟨attached, ret⟩, hattach, rfl,
    hmarked, ⟨detached, code⟩, hdetach, rfl, hleft⟩ := exists_reachable_of_runCalls hrun
  exact ⟨start, attached, detached, hreach, hfresh, hthreads, hattr, hattach, hdetach, hunused,
    hmarked, hleft⟩

end WaycaScheduler
