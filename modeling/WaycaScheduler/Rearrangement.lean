import WaycaScheduler.PlacementChoice
import WaycaScheduler.Api

/-!
# What a re-arrangement does

`wayca_group_rearrange_group` either refuses and leaves the state alone, or
arranges the group, which touches the group and the books of its father, and
then visits its members.  Under the membership invariant the loops over the two
intrusive lists are folds over the lists of members.
-/

namespace WaycaScheduler

open IntrusiveList OwnedLists Function

variable {t : ThreadId} {group : WaycaScGroup} {thread : WaycaThread} {loads : ℕ → ℤ} {ret : ℤ}
  {depth : ℕ}
variable {machine : Machine} {state next : State} {g : GroupId}

/-! ## Live objects and the membership invariant -/

def LiveThread (machine : Machine) (state : State) (t : ThreadId) : Prop :=
  isThreadIdValid machine state t = true

def LiveGroup (machine : Machine) (state : State) (g : GroupId) : Prop :=
  isGroupIdValid machine state g = true

theorem liveThread_iff {state : State} :
    LiveThread machine state t ↔ t < machine.threadsArraySize ∧ state.threadsArray t = true := by
  simp [LiveThread, isThreadIdValid]

theorem liveGroup_iff {state : State} :
    LiveGroup machine state g ↔ g < machine.groupsArraySize ∧ state.groupsArray g = true := by
  simp [LiveGroup, isGroupIdValid]

instance (machine : Machine) (state : State) (t : ThreadId) :
    Decidable (LiveThread machine state t) :=
  inferInstanceAs (Decidable (isThreadIdValid machine state t = true))

instance (machine : Machine) (state : State) (g : GroupId) :
    Decidable (LiveGroup machine state g) :=
  inferInstanceAs (Decidable (isGroupIdValid machine state g = true))

/-- Both kinds of member lists agree with the back pointers and the counters,
and no group has members of both kinds. -/
structure Membership (machine : Machine) (state : State) : Prop where
  threads : WellLinked (LiveThread machine state) (LiveGroup machine state) state.threadLinks
  groups : WellLinked (LiveGroup machine state) (LiveGroup machine state) state.groupLinks
  exclusive : ∀ g, LiveGroup machine state g →
    (state.group g).nrThreads = 0 ∨ (state.group g).nrGroups = 0

theorem capacity_of_lt {live : ℕ → Prop} {size : ℕ} (hlt : ∀ id, live id → id < size) :
    Capacity live size := by
  intro ids hnodup hlive
  have hsubset : ids.toFinset ⊆ Finset.range size := by
    intro id hid
    exact Finset.mem_range.mpr (hlt id (hlive id (List.mem_toFinset.mp hid)))
  have hcard := Finset.card_le_card hsubset
  rwa [List.toFinset_card_of_nodup hnodup, Finset.card_range] at hcard

theorem thread_capacity (machine : Machine) (state : State) :
    Capacity (LiveThread machine state) machine.threadsArraySize :=
  capacity_of_lt fun _ h => (liveThread_iff.mp h).1

theorem group_capacity (machine : Machine) (state : State) :
    Capacity (LiveGroup machine state) machine.groupsArraySize :=
  capacity_of_lt fun _ h => (liveGroup_iff.mp h).1

structure ThreadMembers (machine : Machine) (state : State) (g : GroupId)
    (members : List ThreadId) : Prop where
  nodup : members.Nodup
  mem_iff : ∀ t, t ∈ members ↔
    LiveThread machine state t ∧ (state.thread t).group = some g

structure GroupMembers (machine : Machine) (state : State) (g : GroupId)
    (members : List GroupId) : Prop where
  nodup : members.Nodup
  mem_iff : ∀ m, m ∈ members ↔
    LiveGroup machine state m ∧ (state.group m).father = some g

/-! ## Steps that leave the links alone -/

structure SameLinks (state next : State) : Prop where
  threadLinks : next.threadLinks = state.threadLinks
  groupLinks : next.groupLinks = state.groupLinks
  threadsArray : next.threadsArray = state.threadsArray
  groupsArray : next.groupsArray = state.groupsArray

namespace SameLinks

theorem refl (state : State) : SameLinks state state := ⟨rfl, rfl, rfl, rfl⟩

variable {state middle next : State}

theorem trans (hfirst : SameLinks state middle) (hsecond : SameLinks middle next) :
    SameLinks state next :=
  ⟨hsecond.threadLinks.trans hfirst.threadLinks, hsecond.groupLinks.trans hfirst.groupLinks,
    hsecond.threadsArray.trans hfirst.threadsArray,
    hsecond.groupsArray.trans hfirst.groupsArray⟩

section

variable (hsame : SameLinks state next)
variable {machine : Machine} {g : GroupId}

include hsame

theorem symm : SameLinks next state :=
  ⟨hsame.threadLinks.symm, hsame.groupLinks.symm, hsame.threadsArray.symm, hsame.groupsArray.symm⟩

theorem thread_group (t : ThreadId) : (next.thread t).group = (state.thread t).group :=
  congrFun (congrArg Links.owner hsame.threadLinks) t

theorem thread_siblings :
    (fun t => (next.thread t).siblings) = fun t => (state.thread t).siblings :=
  congrArg Links.siblings hsame.threadLinks

theorem father (g : GroupId) : (next.group g).father = (state.group g).father :=
  congrFun (congrArg Links.owner hsame.groupLinks) g

theorem group_siblings : (fun g => (next.group g).siblings) = fun g => (state.group g).siblings :=
  congrArg Links.siblings hsame.groupLinks

theorem nrThreads (g : GroupId) : (next.group g).nrThreads = (state.group g).nrThreads :=
  congrFun (congrArg Links.count hsame.threadLinks) g

theorem nrGroups (g : GroupId) : (next.group g).nrGroups = (state.group g).nrGroups :=
  congrFun (congrArg Links.count hsame.groupLinks) g

theorem liveThread : LiveThread machine next t ↔ LiveThread machine state t := by
  rw [liveThread_iff, liveThread_iff, hsame.threadsArray]

theorem liveGroup : LiveGroup machine next g ↔ LiveGroup machine state g := by
  rw [liveGroup_iff, liveGroup_iff, hsame.groupsArray]

theorem membership (hmembership : Membership machine state) :
    Membership machine next := by
  have hthread : LiveThread machine next = LiveThread machine state :=
    funext fun _ => propext hsame.liveThread
  have hgroup : LiveGroup machine next = LiveGroup machine state :=
    funext fun _ => propext hsame.liveGroup
  refine ⟨?_, ?_, ?_⟩
  · rw [hthread, hgroup, hsame.threadLinks]
    exact hmembership.threads
  · rw [hgroup, hsame.groupLinks]
    exact hmembership.groups
  · intro g hlive
    rw [hsame.nrThreads, hsame.nrGroups]
    exact hmembership.exclusive g (hsame.liveGroup.mp hlive)

theorem threadMembers {members : List ThreadId}
    (hmembers : ThreadMembers machine state g members) :
    ThreadMembers machine next g members := by
  refine ⟨hmembers.nodup, ?_⟩
  intro t
  rw [hmembers.mem_iff, hsame.liveThread, hsame.thread_group]

theorem groupMembers {members : List GroupId}
    (hmembers : GroupMembers machine state g members) :
    GroupMembers machine next g members := by
  refine ⟨hmembers.nodup, ?_⟩
  intro m
  rw [hmembers.mem_iff, hsame.liveGroup, hsame.father]

end

end SameLinks

theorem sameLinks_addLoad (machine : Machine) (state : State) (sign : ℤ) (t : ThreadId) :
    SameLinks state (state.addLoad machine sign t) := ⟨rfl, rfl, rfl, rfl⟩

theorem sameLinks_assert (state : State) (cond : Bool) :
    SameLinks state (state.waycaScAssert cond) := ⟨rfl, rfl, rfl, rfl⟩

theorem sameLinks_setGroup (state : State) (g : GroupId)
    (hthreads : group.threads = (state.group g).threads)
    (hnrThreads : group.nrThreads = (state.group g).nrThreads)
    (hsiblings : group.siblings = (state.group g).siblings)
    (hfather : group.father = (state.group g).father)
    (hgroups : group.groups = (state.group g).groups)
    (hnrGroups : group.nrGroups = (state.group g).nrGroups) :
    SameLinks state (state.setGroup g group) := by
  have hfield : ∀ {α : Type} (field : WaycaScGroup → α), field group = field (state.group g) →
      (fun x => field ((state.setGroup g group).group x)) = fun x => field (state.group x) := by
    intro α field hsame
    funext x
    by_cases hx : x = g
    · simp [hx, hsame]
    · simp [update_of_ne hx]
  refine ⟨?_, ?_, rfl, rfl⟩
  · ext1
    · exact hfield WaycaScGroup.threads hthreads
    · exact hfield WaycaScGroup.nrThreads hnrThreads
    · rfl
    · rfl
  · ext1
    · exact hfield WaycaScGroup.groups hgroups
    · exact hfield WaycaScGroup.nrGroups hnrGroups
    · exact hfield WaycaScGroup.siblings hsiblings
    · exact hfield WaycaScGroup.father hfather

theorem sameLinks_setThread (state : State) (t : ThreadId)
    (hsiblings : thread.siblings = (state.thread t).siblings)
    (hgroup : thread.group = (state.thread t).group) :
    SameLinks state (state.setThread t thread) := by
  have hfield : ∀ {α : Type} (field : WaycaThread → α), field thread = field (state.thread t) →
      (fun x => field ((state.setThread t thread).thread x)) = fun x => field (state.thread x) := by
    intro α field hsame
    funext x
    by_cases hx : x = t
    · simp [hx, hsame]
    · simp [update_of_ne hx]
  refine ⟨?_, rfl, rfl, rfl⟩
  ext1
  · rfl
  · rfl
  · exact hfield WaycaThread.siblings hsiblings
  · exact hfield WaycaThread.group hgroup

theorem rollOver_eq (group : WaycaScGroup) (used : CpuSet) :
    rollOver group used = { group with
        used := (rollOver group used).used
        rollOverCnts := (rollOver group used).rollOverCnts } := rfl

theorem assigned_fields {assigned : Assigned}
    (hassign : waycaGroupAssignThreadResource loads group thread = some assigned) :
    assigned.group = { group with
          used := assigned.group.used
          rollOverCnts := assigned.group.rollOverCnts } ∧
      assigned.thread = { thread with
          targetPos := assigned.thread.targetPos
          curSet := assigned.thread.curSet
          allowedSet := assigned.thread.curSet } := by
  obtain ⟨choice, -, rfl⟩ := Option.map_eq_some_iff.mp hassign
  exact ⟨rollOver_eq group _, rfl⟩

theorem assigned_used_ne {assigned : Assigned} (hnonempty : group.total.cpus.Nonempty)
    (hassign : waycaGroupAssignThreadResource loads group thread = some assigned) :
    assigned.group.used ≠ assigned.group.total := by
  obtain ⟨choice, -, rfl⟩ := Option.map_eq_some_iff.mp hassign
  exact rollOver_used_ne group _ hnonempty

theorem assignThread_cases (hassign : assignThread state g t = some next) :
    ∃ assigned, waycaGroupAssignThreadResource state.loads (state.group g) (state.thread t) =
          some assigned ∧
        next = ((state.setGroup g assigned.group).setThread t assigned.thread).waycaScAssert
          assigned.held := by
  obtain ⟨assigned, hassigned, rfl⟩ := Option.map_eq_some_iff.mp hassign
  exact ⟨assigned, hassigned, rfl⟩

theorem sameLinks_assignThread (hassign : assignThread state g t = some next) :
    SameLinks state next := by
  obtain ⟨assigned, hassigned, rfl⟩ := assignThread_cases hassign
  obtain ⟨hgroup, hthread⟩ := assigned_fields hassigned
  have hfirst : SameLinks state (state.setGroup g assigned.group) := by
    rw [hgroup]
    exact sameLinks_setGroup state g rfl rfl rfl rfl rfl rfl
  have hsecond : SameLinks (state.setGroup g assigned.group)
      ((state.setGroup g assigned.group).setThread t assigned.thread) := by
    rw [hthread]
    exact sameLinks_setThread _ t rfl rfl
  exact (hfirst.trans hsecond).trans (sameLinks_assert _ _)

section

variable {machine : Machine} {state next : State} {g : GroupId}
  (hmember : rearrangeMember machine g state t = some next)

include hmember

theorem rearrangeMember_cases :
    ∃ assigned, waycaGroupAssignThreadResource (state.addLoad machine (-1) t).loads (state.group g)
          (state.thread t) = some assigned ∧
        next = ((((state.addLoad machine (-1) t).setGroup g assigned.group).setThread t
          assigned.thread).waycaScAssert assigned.held).addLoad machine 1 t := by
  unfold rearrangeMember waycaGroupRearrangeThread at hmember
  simp only [waycaThreadUpdateLoad_eq, Option.bind_eq_bind, Option.bind_some] at hmember
  obtain ⟨middle, hassign, hlast⟩ := Option.bind_eq_some_iff.mp hmember
  obtain ⟨assigned, hassigned, rfl⟩ := assignThread_cases hassign
  exact ⟨assigned, hassigned, (Option.some.inj hlast).symm⟩

theorem sameLinks_rearrangeMember : SameLinks state next := by
  unfold rearrangeMember waycaGroupRearrangeThread at hmember
  simp only [waycaThreadUpdateLoad_eq, Option.bind_eq_bind, Option.bind_some] at hmember
  obtain ⟨middle, hassign, hlast⟩ := Option.bind_eq_some_iff.mp hmember
  rw [← Option.some.inj hlast]
  exact ((sameLinks_addLoad machine state _ t).trans (sameLinks_assignThread hassign)).trans
    (sameLinks_addLoad machine middle _ t)

theorem rearrangeMember_group_other {x : GroupId} (hx : x ≠ g) :
    next.group x = state.group x := by
  obtain ⟨assigned, -, rfl⟩ := rearrangeMember_cases hmember
  simp [update_of_ne hx]

end

/-! ## Arranging one group -/

theorem requested_fields {father fatherAfter : WaycaScGroup} {granted : CpuSet}
    (hrequest : waycaGroupRequestResourceFromFather loads father = some (fatherAfter, granted)) :
    fatherAfter = { father with
        used := fatherAfter.used
        rollOverCnts := fatherAfter.rollOverCnts } := by
  obtain ⟨block, -, hpair⟩ := Option.map_eq_some_iff.mp hrequest
  rw [← (Prod.mk.inj hpair).1]
  exact rollOver_eq father _

/-- The state once a group is arranged and its books are cleared: its level
follows its attribute, its CPUs are all CPUs or a block that the father hands
out, and nothing else is touched. -/
structure Arranged (machine : Machine) (state : State) (g : GroupId) (attr : Attr)
    (level : ℕ) (total : CpuSet) (next : State) : Prop where
  arrangedLevel_eq : arrangedLevel machine (state.group g).attr = some (attr, level)
  group_self : next.group g =
    { state.group g with
      attr := attr
      nrCpusPerTopo := level
      stride := if hasFlag attr WT_GF_COMPACT then 1 else level
      total := total
      used := cpuZero
      rollOverCnts := 0 }
  root : (state.group g).father = none →
    total = totalCpuSet machine ∧ next.asserts = state.asserts
  member : ∀ father, (state.group g).father = some father → father ≠ g →
    ∃ fatherAfter, waycaGroupRequestResourceFromFather state.loads (state.group father) =
        some (fatherAfter, total) ∧ next.group father = fatherAfter
  other : ∀ x, x ≠ g → (state.group g).father ≠ some x → next.group x = state.group x
  thread_eq : next.thread = state.thread
  loads_eq : next.loads = state.loads
  threadsArray_eq : next.threadsArray = state.threadsArray
  groupsArray_eq : next.groupsArray = state.groupsArray

theorem waycaGroupArrange_cases (harrange : waycaGroupArrange machine state g = some (next, ret)) :
    (ret = -EINVAL ∧ next = state ∧ arrangedLevel machine (state.group g).attr = none) ∨
      ret = 0 ∧ ∃ attr level total, Arranged machine state g attr level total
        (next.setGroup g { next.group g with used := cpuZero, rollOverCnts := 0 }) := by
  unfold waycaGroupArrange at harrange
  split at harrange
  next hlevel =>
    cases harrange
    exact .inl ⟨rfl, rfl, hlevel⟩
  next attr level hlevel =>
    right
    unfold waycaGroupRequestResource at harrange
    simp only [State.setGroup_group, update_self] at harrange
    split at harrange
    next hfather =>
      cases harrange
      refine ⟨rfl, attr, level, totalCpuSet machine, ?_⟩
      refine ⟨hlevel, ?_, fun _ => ⟨rfl, rfl⟩, ?_, ?_, rfl, rfl, rfl, rfl⟩
      · simp
      · intro father hsome
        rw [hfather] at hsome
        cases hsome
      · intro x hx _
        simp [update_of_ne hx]
    next father hfather =>
      obtain ⟨⟨fatherAfter, granted⟩, hrequest, hlast⟩ := Option.bind_eq_some_iff.mp harrange
      cases hlast
      refine ⟨rfl, attr, level, granted, ?_⟩
      simp only [State.waycaScAssert_loads, State.setGroup_loads, State.waycaScAssert_group,
        State.setGroup_group] at hrequest
      refine ⟨hlevel, ?_, ?_, ?_, ?_, rfl, rfl, rfl, rfl⟩
      · by_cases hself : father = g
        · subst hself
          rw [update_self] at hrequest
          rw [requested_fields hrequest]
          simp
        · simp [update_of_ne (Ne.symm hself)]
      · intro hnone
        rw [hfather] at hnone
        cases hnone
      · intro other hsome hne
        rw [hfather] at hsome
        cases hsome
        rw [update_of_ne hne] at hrequest
        exact ⟨fatherAfter, hrequest, by simp [update_of_ne hne]⟩
      · intro x hx hnot
        have hxf : x ≠ father := fun h => hnot (by rw [hfather, h])
        simp [update_of_ne hx, update_of_ne hxf]

theorem Arranged.sameLinks {attr : Attr} {level : ℕ}
    {total : CpuSet} (harranged : Arranged machine state g attr level total next) :
    SameLinks state next := by
  have hfield : ∀ {α : Type} (field : WaycaScGroup → α),
      (∀ (group : WaycaScGroup) attr nr stride total used rounds, field { group with
          attr := attr
          nrCpusPerTopo := nr
          stride := stride
          total := total
          used := used
          rollOverCnts := rounds } = field group) →
      (fun x => field (next.group x)) = fun x => field (state.group x) := by
    intro α field hsame
    funext x
    by_cases hx : x = g
    · subst hx
      rw [harranged.group_self]
      exact hsame _ _ _ _ _ _ _
    · by_cases hfather : (state.group g).father = some x
      · obtain ⟨fatherAfter, hrequest, hafter⟩ := harranged.member x hfather hx
        rw [hafter, requested_fields hrequest]
        exact hsame (state.group x) (state.group x).attr (state.group x).nrCpusPerTopo
          (state.group x).stride (state.group x).total _ _
      · rw [harranged.other x hx hfather]
  refine ⟨?_, ?_, harranged.threadsArray_eq, harranged.groupsArray_eq⟩
  · ext1
    · exact hfield WaycaScGroup.threads fun _ _ _ _ _ _ _ => rfl
    · exact hfield WaycaScGroup.nrThreads fun _ _ _ _ _ _ _ => rfl
    · exact congrArg (fun thread t => (thread t).siblings) harranged.thread_eq
    · exact congrArg (fun thread t => (thread t).group) harranged.thread_eq
  · ext1
    · exact hfield WaycaScGroup.groups fun _ _ _ _ _ _ _ => rfl
    · exact hfield WaycaScGroup.nrGroups fun _ _ _ _ _ _ _ => rfl
    · exact hfield WaycaScGroup.siblings fun _ _ _ _ _ _ _ => rfl
    · exact hfield WaycaScGroup.father fun _ _ _ _ _ _ _ => rfl

/-! ## Re-arranging -/

def rearrangeChild (machine : Machine) (depth : ℕ) (state : State) (child : GroupId) :
    Option State :=
  (waycaGroupRearrangeGroup machine depth state child).map Prod.fst

def VisitsMembers (machine : Machine) (depth : ℕ) (g : GroupId) (arranged next : State) :
    Prop :=
  ((arranged.group g).nrThreads ≠ 0 ∧
      forEach (fun state t => (state.thread t).siblings) (rearrangeMember machine g)
        machine.threadsArraySize (arranged.group g).threads
        (arranged.waycaScAssert (decide ((arranged.group g).nrGroups = 0))) = some next) ∨
    ((arranged.group g).nrThreads = 0 ∧ (arranged.group g).nrGroups ≠ 0 ∧
      forEach (fun state child => (state.group child).siblings)
        (rearrangeChild machine depth) machine.groupsArraySize (arranged.group g).groups
        arranged = some next) ∨
    ((arranged.group g).nrThreads = 0 ∧ (arranged.group g).nrGroups = 0 ∧ next = arranged)

/-- The reasons for which a re-arrangement returns an error. -/
def Refused (machine : Machine) (state : State) (g : GroupId) : Prop :=
  exceedsFather state g = true ∨
    (∃ largest, maxTopoCpusInChildGroups machine state g = some largest ∧
      (state.group g).nrCpusPerTopo ≤ largest) ∨
    arrangedLevel machine (state.group g).attr = none

theorem rearrange_cases
    (hrearrange : waycaGroupRearrangeGroup machine (depth + 1) state g = some (next, ret)) :
    (ret < 0 ∧ next = state ∧ Refused machine state g) ∨ ret = 0 ∧ exceedsFather state g = false ∧
        (∃ largest, maxTopoCpusInChildGroups machine state g = some largest ∧
          largest < (state.group g).nrCpusPerTopo) ∧
        ∃ attr level total arranged, Arranged machine state g attr level total arranged ∧
          VisitsMembers machine depth g arranged next := by
  unfold waycaGroupRearrangeGroup at hrearrange
  split at hrearrange
  next hexceeds =>
    cases hrearrange
    exact .inl ⟨by decide, rfl, .inl hexceeds⟩
  next hexceeds =>
    obtain ⟨largest, hlargest, hrest⟩ := Option.bind_eq_some_iff.mp hrearrange
    split at hrest
    next hlevel =>
      cases hrest
      exact .inl ⟨by decide, rfl, .inr (.inl ⟨largest, hlargest, hlevel⟩)⟩
    next hlevel =>
      obtain ⟨⟨middle, code⟩, harrange, hlater⟩ := Option.bind_eq_some_iff.mp hrest
      rcases waycaGroupArrange_cases harrange with
        ⟨rfl, rfl, hnone⟩ | ⟨rfl, attr, level, total, harranged⟩
      · cases hlater
        exact .inl ⟨by decide, rfl, .inr (.inr hnone)⟩
      · right
        simp only [ne_eq, not_true_eq_false, if_false] at hlater
        set arranged := middle.setGroup g
          { middle.group g with used := cpuZero, rollOverCnts := 0 } with harrangedDef
        have hvisit : ret = 0 ∧ VisitsMembers machine depth g arranged next := by
          split at hlater
          next hthreads =>
            obtain ⟨final, hloop, hfinal⟩ := Option.bind_eq_some_iff.mp hlater
            cases hfinal
            exact ⟨rfl, .inl ⟨hthreads, hloop⟩⟩
          next hthreads =>
            have hnone := not_not.mp hthreads
            split at hlater
            next hgroups =>
              obtain ⟨final, hloop, hfinal⟩ := Option.bind_eq_some_iff.mp hlater
              cases hfinal
              rw [decide_eq_true hnone, State.waycaScAssert_true] at hloop
              exact ⟨rfl, .inr (.inl ⟨hnone, hgroups, hloop⟩)⟩
            next hgroups =>
              have hpair := Prod.mk.inj (Option.some.inj hlater)
              exact ⟨hpair.2.symm, .inr (.inr ⟨hnone, not_not.mp hgroups, hpair.1.symm⟩)⟩
        exact ⟨hvisit.1, by simpa using hexceeds, ⟨largest, hlargest, by omega⟩, attr, level,
          total, arranged, harranged, hvisit.2⟩

theorem sameLinks_rearrange
    (hrearrange : waycaGroupRearrangeGroup machine depth state g = some (next, ret)) :
    SameLinks state next := by
  induction depth generalizing state next g ret with
  | zero => simp [waycaGroupRearrangeGroup] at hrearrange
  | succ depth ih =>
      rcases rearrange_cases hrearrange with
        ⟨-, rfl, -⟩ | ⟨-, -, -, attr, level, total, arranged, harranged, hvisit⟩
      · exact .refl _
      · refine harranged.sameLinks.trans ?_
        rcases hvisit with ⟨-, hloop⟩ | ⟨-, -, hloop⟩ | ⟨-, -, rfl⟩
        · refine forEach_keeps ?_ (sameLinks_assert arranged _) hloop
          intro before t after hbefore hbody
          exact hbefore.trans (sameLinks_rearrangeMember hbody)
        · refine forEach_keeps ?_ (.refl arranged) hloop
          intro before child after hbefore hbody
          obtain ⟨⟨result, code⟩, hchild, rfl⟩ := Option.map_eq_some_iff.mp hbody
          exact hbefore.trans (ih hchild)
        · exact .refl _

theorem sameLinks_rearrangeChild {child : GroupId}
    (hchild : rearrangeChild machine depth state child = some next) : SameLinks state next := by
  obtain ⟨⟨result, code⟩, hrearrange, rfl⟩ := Option.map_eq_some_iff.mp hchild
  exact sameLinks_rearrange hrearrange

/-! ## The members as lists -/

section Members

variable {machine : Machine} {state : State} {g : GroupId}

section

variable (hmembership : Membership machine state) (hlive : LiveGroup machine state g)

include hmembership hlive

theorem Membership.threadMembers :
    ∃ members, ThreadMembers machine state g members ∧
      Linked (fun t => (state.thread t).siblings) (state.group g).threads members ∧
      members.length ≤ machine.threadsArraySize ∧
      (members.length : ℤ) = (state.group g).nrThreads := by
  obtain ⟨members, hlinked, hlength, hcount, hmem⟩ :=
    hmembership.threads.cells (thread_capacity machine state) hlive
  exact ⟨members, ⟨hlinked.nodup, hmem⟩, hlinked, hlength, hcount⟩

theorem Membership.groupMembers :
    ∃ members, GroupMembers machine state g members ∧
      Linked (fun m => (state.group m).siblings) (state.group g).groups members ∧
      members.length ≤ machine.groupsArraySize ∧
      (members.length : ℤ) = (state.group g).nrGroups := by
  obtain ⟨members, hlinked, hlength, hcount, hmem⟩ :=
    hmembership.groups.cells (group_capacity machine state) hlive
  exact ⟨members, ⟨hlinked.nodup, hmem⟩, hlinked, hlength, hcount⟩

theorem maxTopoCpusInChildGroups_spec :
    ∃ largest, maxTopoCpusInChildGroups machine state g = some largest ∧
      ∀ bound, largest < bound ↔ 0 < bound ∧
        ∀ m, LiveGroup machine state m → (state.group m).father = some g →
          (state.group m).nrCpusPerTopo < bound := by
  obtain ⟨members, hmembers, hlinked, hlength, hcount⟩ := hmembership.groupMembers hlive
  have hfold : ∀ (list : List GroupId) (start bound : ℕ),
      ∃ largest, list.foldlM (fun maxTopoCpus child =>
          some (max maxTopoCpus (state.group child).nrCpusPerTopo)) start = some largest ∧
        (largest < bound ↔ start < bound ∧ ∀ m ∈ list, (state.group m).nrCpusPerTopo < bound) := by
    intro list
    induction list with
    | nil => exact fun start bound => ⟨start, rfl, by simp⟩
    | cons m rest ih =>
        intro start bound
        obtain ⟨largest, hrun, hiff⟩ := ih (max start (state.group m).nrCpusPerTopo) bound
        refine ⟨largest, by simpa using hrun, ?_⟩
        rw [hiff, max_lt_iff, List.forall_mem_cons, and_assoc]
  have hresult : maxTopoCpusInChildGroups machine state g = members.foldlM (fun maxTopoCpus child =>
        some (max maxTopoCpus (state.group child).nrCpusPerTopo)) 0 := by
    unfold maxTopoCpusInChildGroups
    split
    next hzero =>
      have hempty : members = [] := List.length_eq_zero_iff.mp (by omega)
      rw [hempty]
      rfl
    next =>
      refine forEach_eq_foldlM ?_ rfl hlinked hlength
      exact fun _ _ _ hbefore _ => hbefore
  obtain ⟨largest, hlargest, -⟩ := hfold members 0 0
  refine ⟨largest, hresult.trans hlargest, ?_⟩
  intro bound
  obtain ⟨same, hsame, hiff⟩ := hfold members 0 bound
  rw [hlargest, Option.some.injEq] at hsame
  rw [hsame, hiff]
  simp only [hmembers.mem_iff, and_imp]

end

end Members

/-- A re-arrangement that was not refused: the old level fitted between the
members and the father, the group was arranged, and every member was visited
once. -/
structure Rearranged (machine : Machine) (depth : ℕ) (state : State) (g : GroupId)
    (attr : Attr) (level : ℕ) (total : CpuSet) (arranged next : State) : Prop where
  level_pos : 0 < (state.group g).nrCpusPerTopo
  below_father : ∀ father, (state.group g).father = some father →
    (state.group g).nrCpusPerTopo < (state.group father).nrCpusPerTopo
  above_members : ∀ m, LiveGroup machine state m → (state.group m).father = some g →
    (state.group m).nrCpusPerTopo < (state.group g).nrCpusPerTopo
  arrange : Arranged machine state g attr level total arranged
  visit : ((state.group g).nrGroups = 0 ∧ ∃ members, ThreadMembers machine state g members ∧
      members.foldlM (rearrangeMember machine g) arranged = some next) ∨
    ((state.group g).nrThreads = 0 ∧ ∃ members, GroupMembers machine state g members ∧
      members.foldlM (rearrangeChild machine depth) arranged = some next)

theorem Rearranged.sameLinks {state arranged next : State}
    {attr : Attr} {level : ℕ} {total : CpuSet}
    (hdone : Rearranged machine depth state g attr level total arranged next) :
    SameLinks state next := by
  rcases hdone.visit with ⟨-, members, -, hloop⟩ | ⟨-, members, -, hloop⟩
  · refine foldlM_keeps (SameLinks state) ?_ hdone.arrange.sameLinks hloop
    exact fun _ _ _ _ hbefore hbody => hbefore.trans (sameLinks_rearrangeMember hbody)
  · refine foldlM_keeps (SameLinks state) ?_ hdone.arrange.sameLinks hloop
    exact fun _ _ _ _ hbefore hbody => hbefore.trans (sameLinks_rearrangeChild hbody)

theorem VisitsMembers.fold {state arranged next : State}
    (hvisit : VisitsMembers machine depth g arranged next) (hmembership : Membership machine state)
    (hlive : LiveGroup machine state g) (hsame : SameLinks state arranged) :
    ((state.group g).nrGroups = 0 ∧ ∃ members, ThreadMembers machine state g members ∧
        members.foldlM (rearrangeMember machine g) arranged = some next) ∨
      ((state.group g).nrThreads = 0 ∧ ∃ members, GroupMembers machine state g members ∧
        members.foldlM (rearrangeChild machine depth) arranged = some next) := by
  have harranged := hsame.membership hmembership
  have hliveArranged := hsame.liveGroup.mpr hlive
  rw [← hsame.nrThreads, ← hsame.nrGroups]
  obtain ⟨threads, hthreads, hlinkedThreads, hlengthThreads, hcountThreads⟩ :=
    harranged.threadMembers hliveArranged
  obtain ⟨groups, hgroups, hlinkedGroups, hlengthGroups, hcountGroups⟩ :=
    harranged.groupMembers hliveArranged
  have hthreadsState : ThreadMembers machine state g threads := by
    refine ⟨hthreads.nodup, ?_⟩
    intro t
    rw [hthreads.mem_iff, hsame.liveThread, hsame.thread_group]
  have hgroupsState : GroupMembers machine state g groups := by
    refine ⟨hgroups.nodup, ?_⟩
    intro m
    rw [hgroups.mem_iff, hsame.liveGroup, hsame.father]
  rcases hvisit with ⟨hsome, hloop⟩ | ⟨hnone, hsome, hloop⟩ | ⟨hnone, hempty, rfl⟩
  · have hnoGroups := (harranged.exclusive g hliveArranged).resolve_left hsome
    rw [decide_eq_true hnoGroups, State.waycaScAssert_true] at hloop
    refine .inl ⟨hnoGroups, threads, hthreadsState, ?_⟩
    rw [← hloop]
    symm
    refine forEach_eq_foldlM ?_ rfl hlinkedThreads hlengthThreads
    intro before t after hbefore hbody
    rw [(sameLinks_rearrangeMember hbody).thread_siblings]
    exact hbefore
  · refine .inr ⟨hnone, groups, hgroupsState, ?_⟩
    rw [← hloop]
    symm
    refine forEach_eq_foldlM ?_ rfl hlinkedGroups hlengthGroups
    intro before child after hbefore hbody
    rw [(sameLinks_rearrangeChild hbody).group_siblings]
    exact hbefore
  · have hnil : threads = [] := List.length_eq_zero_iff.mp (by omega)
    exact .inl ⟨hempty, threads, hthreadsState, by rw [hnil]; rfl⟩

theorem rearrange_spec (hmembership : Membership machine state) (hlive : LiveGroup machine state g)
    (hrearrange : waycaGroupRearrangeGroup machine (depth + 1) state g = some (next, ret)) :
    (ret < 0 ∧ next = state) ∨ ret = 0 ∧ ∃ attr level total arranged,
      Rearranged machine depth state g attr level total arranged next := by
  rcases rearrange_cases hrearrange with ⟨hneg, hsame, -⟩ |
    ⟨hret, hexceeds, ⟨largest, hlargest, hlevel⟩, attr, level, total, arranged, harranged, hvisit⟩
  · exact .inl ⟨hneg, hsame⟩
  · obtain ⟨same, hsame, hbound⟩ := maxTopoCpusInChildGroups_spec hmembership hlive
    rw [hlargest, Option.some.injEq] at hsame
    rw [hsame, hbound] at hlevel
    refine .inr ⟨hret, attr, level, total, arranged, hlevel.1, ?_, hlevel.2, harranged,
      hvisit.fold hmembership hlive harranged.sameLinks⟩
    intro father hfather
    simpa [exceedsFather, hfather] using hexceeds

/-- An invariant of arranging a group and of moving a thread is one of the whole walk. -/
theorem rearrange_keeps (Inv : State → Prop)
    (harrange : ∀ state g attr level total arranged, Membership machine state →
      LiveGroup machine state g → (state.group g).father ≠ some g → Inv state →
      Arranged machine state g attr level total arranged → Inv arranged)
    (hmember : ∀ state g t next, LiveThread machine state t →
      (state.thread t).group = some g → Inv state →
      rearrangeMember machine g state t = some next → Inv next)
    {depth : ℕ} {ret : ℤ}
    (hmembership : Membership machine state) (hlive : LiveGroup machine state g)
    (hinv : Inv state)
    (hrearrange : waycaGroupRearrangeGroup machine depth state g = some (next, ret)) :
    Inv next := by
  induction depth generalizing state next g ret with
  | zero => simp [waycaGroupRearrangeGroup] at hrearrange
  | succ depth ih =>
      rcases rearrange_spec hmembership hlive hrearrange with
        ⟨-, rfl⟩ | ⟨-, attr, level, total, arranged, hdone⟩
      · exact hinv
      · have hsame := hdone.arrange.sameLinks
        have hstart : SameLinks state arranged ∧ Inv arranged :=
          ⟨hsame, harrange state g attr level total arranged hmembership hlive
            (fun hself => (hdone.below_father g hself).false) hinv hdone.arrange⟩
        rcases hdone.visit with ⟨-, members, hmembers, hloop⟩ | ⟨-, members, hmembers, hloop⟩
        · refine (foldlM_keeps (fun s => SameLinks state s ∧ Inv s) ?_ hstart hloop).2
          intro before t after hmem ⟨hlinks, hbefore⟩ hbody
          obtain ⟨hthread, hgroup⟩ := (hmembers.mem_iff t).mp hmem
          refine ⟨hlinks.trans (sameLinks_rearrangeMember hbody), ?_⟩
          exact hmember before g t after (hlinks.liveThread.mpr hthread)
            ((hlinks.thread_group t).trans hgroup) hbefore hbody
        · refine (foldlM_keeps (fun s => SameLinks state s ∧ Inv s) ?_ hstart hloop).2
          intro before child after hmem ⟨hlinks, hbefore⟩ hbody
          obtain ⟨hchild, -⟩ := (hmembers.mem_iff child).mp hmem
          obtain ⟨⟨result, code⟩, hrun, rfl⟩ := Option.map_eq_some_iff.mp hbody
          refine ⟨hlinks.trans (sameLinks_rearrange hrun), ?_⟩
          exact ih (hlinks.membership hmembership) (hlinks.liveGroup.mpr hchild) hbefore hrun

end WaycaScheduler
