import WaycaScheduler.CallEffects

/-!
# The membership invariant

Every call keeps `Membership`, so in every reachable state the two kinds of
member lists agree with the counters and the back pointers.  A group call
that fails leaves the whole state as it was, also where the code changes the
state first and undoes the change.
-/

namespace WaycaScheduler

open IntrusiveList OwnedLists Transition Function

variable {links : Links GroupId ThreadId} {t : ThreadId} {g father : GroupId} {assigned : Assigned}
  {middle : State} {startRoutine : Bool} {affinity : CpuSet}
variable {call : Call}

variable {machine : Machine} {state next : State}

theorem membership_start (machine : Machine) : Membership machine State.start := by
  have hthread : ∀ t, ¬ LiveThread machine State.start t := by
    intro t hlive
    exact absurd (liveThread_iff.mp hlive).2 (by simp [State.start])
  have hgroup : ∀ g, ¬ LiveGroup machine State.start g := by
    intro g hlive
    exact absurd (liveGroup_iff.mp hlive).2 (by simp [State.start])
  refine ⟨⟨?_, ?_, ?_⟩, ⟨?_, ?_, ?_⟩, ?_⟩
  · exact fun g hlive => absurd hlive (hgroup g)
  · exact fun t hlive => absurd hlive (hthread t)
  · exact fun t g hlive => absurd hlive (hthread t)
  · exact fun g hlive => absurd hlive (hgroup g)
  · exact fun g hlive => absurd hlive (hgroup g)
  · exact fun m g hlive => absurd hlive (hgroup m)
  · exact fun g hlive => absurd hlive (hgroup g)

/-! ## Moving members -/

section

variable (hmembership : Membership machine state)

include hmembership

theorem Membership.setThreadLinks {links : Links GroupId ThreadId}
    (hlinks : WellLinked (LiveThread machine state) (LiveGroup machine state) links)
    (hexclusive : ∀ g, LiveGroup machine state g →
      links.count g = 0 ∨ (state.group g).nrGroups = 0) :
    Membership machine (state.setThreadLinks links) :=
  ⟨hlinks, hmembership.groups, hexclusive⟩

theorem Membership.setGroupLinks {links : Links GroupId GroupId}
    (hlinks : WellLinked (LiveGroup machine state) (LiveGroup machine state) links)
    (hexclusive : ∀ g, LiveGroup machine state g →
      (state.group g).nrThreads = 0 ∨ links.count g = 0) :
    Membership machine (state.setGroupLinks links) :=
  ⟨hmembership.threads, hlinks, hexclusive⟩

theorem Membership.no_groups_of_thread (hthread : LiveThread machine state t)
    (hmember : (state.thread t).group = some g) :
    (state.group g).nrGroups = 0 := by
  have hgroup := hmembership.threads.owner_live t g hthread hmember
  refine (hmembership.exclusive g hgroup).resolve_left ?_
  intro hzero
  exact (hmembership.threads.count_eq_zero_iff hgroup).mp hzero t hthread hmember

theorem Membership.no_threads_of_group {m : GroupId} (hlive : LiveGroup machine state m)
    (hmember : (state.group m).father = some g) :
    (state.group g).nrThreads = 0 := by
  have hgroup := hmembership.groups.owner_live m g hlive hmember
  refine (hmembership.exclusive g hgroup).resolve_right ?_
  intro hzero
  exact (hmembership.groups.count_eq_zero_iff hgroup).mp hzero m hlive hmember

end

theorem ThreadAttached.sameLinks
    {t : ThreadId} {g : GroupId} {links : Links GroupId ThreadId} {assigned : Assigned}
    (hattached : ThreadAttached machine state t g links assigned next) :
    SameLinks (state.setThreadLinks links) next := by
  have hassign : assignThread ((state.addLoad machine (-1) t).setThreadLinks links) g t =
      some (((((state.addLoad machine (-1) t).setThreadLinks links).setGroup g
        assigned.group).setThread t assigned.thread).waycaScAssert assigned.held) := by
    unfold assignThread
    exact Option.map_eq_some_iff.mpr ⟨assigned, hattached.assign, rfl⟩
  have hload : SameLinks (state.setThreadLinks links)
      ((state.addLoad machine (-1) t).setThreadLinks links) := ⟨rfl, rfl, rfl, rfl⟩
  rw [hattached.next_eq]
  exact (hload.trans (sameLinks_assignThread hassign)).trans (sameLinks_addLoad machine _ 1 t)

theorem ThreadAttached.membership (hattached : ThreadAttached machine state t g links assigned next)
    (hmembership : Membership machine state) : Membership machine next := by
  refine hattached.sameLinks.membership (hmembership.setThreadLinks hattached.wellLinked ?_)
  intro x hlive
  by_cases hx : x = g
  · rw [hx]
    exact .inr hattached.no_groups
  · rw [hattached.count_eq, update_of_ne hx]
    exact hmembership.exclusive x hlive

theorem ThreadDetached.sameLinks (hdetached : ThreadDetached machine state t g links next) :
    SameLinks (state.setThreadLinks links) next := by
  have hrelease := sameLinks_releaseThread state g (state.thread t)
  rw [hdetached.next_eq]
  exact ⟨rfl, hrelease.groupLinks, rfl, rfl⟩

theorem ThreadDetached.membership (hdetached : ThreadDetached machine state t g links next)
    (hmembership : Membership machine state) : Membership machine next := by
  refine hdetached.sameLinks.membership (hmembership.setThreadLinks hdetached.wellLinked ?_)
  intro x hlive
  by_cases hx : x = g
  · rw [hx]
    exact .inr (hmembership.no_groups_of_thread hdetached.live_thread hdetached.member)
  · rw [hdetached.count_eq, update_of_ne hx]
    exact hmembership.exclusive x hlive

theorem GroupAttached.linked_membership {links : Links GroupId GroupId}
    (hattached : GroupAttached machine state g father links next)
    (hmembership : Membership machine state) :
    Membership machine (state.setGroupLinks links) := by
  refine hmembership.setGroupLinks hattached.wellLinked ?_
  intro x hlive
  by_cases hx : x = father
  · rw [hx]
    exact .inl hattached.no_threads
  · rw [hattached.count_eq, update_of_ne hx]
    exact hmembership.exclusive x hlive

theorem GroupAttached.membership {links : Links GroupId GroupId}
    (hattached : GroupAttached machine state g father links next)
    (hmembership : Membership machine state) : Membership machine next :=
  (sameLinks_rearrange hattached.rearrange).membership (hattached.linked_membership hmembership)

theorem GroupDetached.sameLinks {links : Links GroupId GroupId}
    (hdetached : GroupDetached machine state g father links next) :
    SameLinks (state.setGroupLinks links) next := by
  have hrelease := sameLinks_releaseGroup state father (state.group g)
  rw [hdetached.next_eq]
  exact ⟨hrelease.threadLinks, rfl, rfl, rfl⟩

theorem GroupDetached.membership {links : Links GroupId GroupId}
    (hdetached : GroupDetached machine state g father links next)
    (hmembership : Membership machine state) : Membership machine next := by
  refine hdetached.sameLinks.membership (hmembership.setGroupLinks hdetached.wellLinked ?_)
  intro x hlive
  by_cases hx : x = father
  · rw [hx]
    exact .inl (hmembership.no_threads_of_group hdetached.live_group hdetached.member)
  · rw [hdetached.count_eq, update_of_ne hx]
    exact hmembership.exclusive x hlive

/-! ## The threads of a group as a set -/

def liveThreads (machine : Machine) (state : State) : Finset ThreadId :=
  (Finset.range machine.threadsArraySize).filter fun t => LiveThread machine state t

theorem mem_liveThreads : t ∈ liveThreads machine state ↔ LiveThread machine state t := by
  rw [liveThreads, Finset.mem_filter, Finset.mem_range]
  exact ⟨fun h => h.2, fun h => ⟨(liveThread_iff.mp h).1, h⟩⟩

def threadsOf (machine : Machine) (state : State) (g : GroupId) : Finset ThreadId :=
  (liveThreads machine state).filter fun t => (state.thread t).group = some g

theorem mem_threadsOf :
    t ∈ threadsOf machine state g ↔
      LiveThread machine state t ∧ (state.thread t).group = some g := by
  rw [threadsOf, Finset.mem_filter, mem_liveThreads]

theorem Membership.card_threadsOf (hmembership : Membership machine state)
    (hlive : LiveGroup machine state g) :
    ((threadsOf machine state g).card : ℤ) = (state.group g).nrThreads := by
  obtain ⟨members, hmembers, -, -, hlength⟩ := hmembership.threadMembers hlive
  have hsame : threadsOf machine state g = members.toFinset := by
    ext t
    rw [mem_threadsOf, List.mem_toFinset, hmembers.mem_iff]
  rw [hsame, List.toFinset_card_of_nodup hmembers.nodup, hlength]

theorem ThreadAttached.not_mem_threadsOf {x : GroupId}
    (hattached : ThreadAttached machine state t g links assigned next) :
    t ∉ threadsOf machine state x := by
  intro hmem
  have hgroup := (mem_threadsOf.mp hmem).2
  rw [hattached.free] at hgroup
  cases hgroup

theorem ThreadAttached.threadsOf_eq
    (hattached : ThreadAttached machine state t g links assigned next) (x : GroupId) :
    threadsOf machine next x =
      if x = g then insert t (threadsOf machine state g) else threadsOf machine state x := by
  have hmem : ∀ y, y ∈ threadsOf machine next x ↔ LiveThread machine state y ∧
        update state.threadLinks.owner t (some g) y = some x := by
    intro y
    rw [mem_threadsOf, hattached.sameLinks.liveThread, hattached.sameLinks.thread_group,
      ← hattached.owner_eq]
    rfl
  ext y
  rw [hmem]
  by_cases hy : y = t
  · subst hy
    rw [update_self, Option.some.injEq]
    split
    next heq => simp [heq, hattached.live_thread]
    next hne =>
      constructor
      · exact fun h => absurd h.2.symm hne
      · exact fun h => absurd h hattached.not_mem_threadsOf
  · rw [update_of_ne hy]
    split
    next heq =>
      subst heq
      rw [Finset.mem_insert, mem_threadsOf]
      exact ⟨fun h => .inr h, fun h => h.resolve_left hy⟩
    next => rw [mem_threadsOf]; rfl

theorem ThreadDetached.threadsOf_eq (hdetached : ThreadDetached machine state t g links next)
    (x : GroupId) :
    threadsOf machine next x = (threadsOf machine state x).erase t := by
  ext y
  rw [mem_threadsOf, Finset.mem_erase, mem_threadsOf, hdetached.sameLinks.liveThread,
    hdetached.sameLinks.thread_group]
  change LiveThread machine state y ∧ links.owner y = some x ↔ _
  rw [hdetached.owner_eq]
  by_cases hy : y = t
  · simp [hy]
  · rw [update_of_ne hy]
    exact ⟨fun h => ⟨hy, h⟩, fun h => h.2⟩

/-! ## Objects that come and go -/

theorem GroupCreated.live_iff (hcreated : GroupCreated machine state g next) (x : GroupId) :
    LiveGroup machine next x ↔ LiveGroup machine state x ∨ x = g := by
  rw [liveGroup_iff, liveGroup_iff, hcreated.next_eq]
  by_cases hx : x = g
  · simp [hx, hcreated.slot]
  · simp [hx]

theorem GroupCreated.not_live (hcreated : GroupCreated machine state g next) :
    ¬ LiveGroup machine state g := by
  intro hlive
  have hslot := (liveGroup_iff.mp hlive).2
  rw [hcreated.dead] at hslot
  cases hslot

theorem GroupCreated.membership (hcreated : GroupCreated machine state g next)
    (hmembership : Membership machine state) : Membership machine next := by
  have hlive := hcreated.live_iff
  have hdead := hcreated.not_live
  have hthreads : LiveThread machine next = LiveThread machine state := by
    rw [hcreated.next_eq]
    rfl
  have hupdate : ∀ {α : Type} (field : WaycaScGroup → α), (fun x => field (next.group x)) =
        update (fun x => field (state.group x)) g (field (freshGroup machine)) := by
    intro α field
    funext x
    rw [hcreated.next_eq]
    by_cases hx : x = g
    · simp [hx]
    · simp [update_of_ne hx]
  refine ⟨?_, ?_, ?_⟩
  · rw [hthreads]
    refine hmembership.threads.add_owner hdead hlive (hupdate WaycaScGroup.threads)
      (hupdate WaycaScGroup.nrThreads) ?_ ?_
    · rw [hcreated.next_eq]
      rfl
    · rw [hcreated.next_eq]
      rfl
  · have howner : WellLinked (LiveGroup machine state) (LiveGroup machine next)
        { state.groupLinks with
          first := update state.groupLinks.first g none
          count := update state.groupLinks.count g 0 } :=
      hmembership.groups.add_owner hdead hlive rfl rfl rfl rfl
    exact howner.add_cell hdead hlive (hupdate WaycaScGroup.groups)
      (hupdate WaycaScGroup.nrGroups) (hupdate WaycaScGroup.siblings)
      (hupdate WaycaScGroup.father)
  · intro x hx
    rcases (hlive x).mp hx with hold | rfl
    · have hne : x ≠ g := fun h => hdead (h ▸ hold)
      rw [hcreated.next_eq]
      simpa [update_of_ne hne] using hmembership.exclusive x hold
    · left
      rw [hcreated.next_eq]
      simp [freshGroup, WaycaScGroup.zeroed]

section

variable (hdestroyed : GroupDestroyed machine state g middle next)

include hdestroyed

theorem GroupDestroyed.middle_membership (hmembership : Membership machine state) :
    Membership machine middle := by
  rcases hdestroyed.leave with ⟨-, rfl⟩ | ⟨father, links, hdetached⟩
  · exact hmembership
  · exact hdetached.membership hmembership

theorem GroupDestroyed.alone :
    LiveGroup machine middle g ∧ (middle.group g).father = none ∧
      (middle.group g).nrThreads = 0 ∧ (middle.group g).nrGroups = 0 := by
  rcases hdestroyed.leave with ⟨hfather, rfl⟩ | ⟨father, links, hdetached⟩
  · exact ⟨hdestroyed.live_group, hfather, hdestroyed.no_threads, hdestroyed.no_groups⟩
  · have hsame := hdetached.sameLinks
    refine ⟨hsame.liveGroup.mpr hdestroyed.live_group, ?_, ?_, ?_⟩
    · rw [hsame.father]
      change links.owner g = none
      rw [hdetached.owner_eq, update_self]
    · rw [hsame.nrThreads]
      exact hdestroyed.no_threads
    · rw [hsame.nrGroups]
      change links.count g = 0
      rw [hdetached.count_eq, update_of_ne hdetached.ne]
      exact hdestroyed.no_groups

theorem GroupDestroyed.live_iff (x : GroupId) :
    LiveGroup machine next x ↔ LiveGroup machine middle x ∧ x ≠ g := by
  rw [liveGroup_iff, liveGroup_iff, hdestroyed.next_eq]
  by_cases hx : x = g
  · simp [hx]
  · simp [hx]

theorem GroupDestroyed.membership (hmembership : Membership machine state) :
    Membership machine next := by
  have hmiddle := hdestroyed.middle_membership hmembership
  obtain ⟨hlive, hfather, hthreads, hgroups⟩ := hdestroyed.alone
  have hiff := hdestroyed.live_iff
  have hlinks : next.threadLinks = middle.threadLinks ∧ next.groupLinks = middle.groupLinks ∧
      LiveThread machine next = LiveThread machine middle ∧ next.group = middle.group := by
    rw [hdestroyed.next_eq]
    exact ⟨rfl, rfl, rfl, rfl⟩
  refine ⟨?_, ?_, ?_⟩
  · rw [hlinks.1, hlinks.2.2.1]
    exact hmiddle.threads.drop_owner hlive hthreads hiff
  · rw [hlinks.2.1]
    exact (hmiddle.groups.drop_owner hlive hgroups hiff).drop_cell hfather hiff
  · intro x hx
    rw [hlinks.2.2.2]
    exact hmiddle.exclusive x ((hiff x).mp hx).1

end

theorem threadLinks_update {thread : WaycaThread} (hsiblings : thread.siblings = none)
    (hgroup : thread.group = none) (hthread : next.thread = update state.thread t thread)
    (hgroups : next.group = state.group) :
    next.threadLinks.first = state.threadLinks.first ∧
      next.threadLinks.count = state.threadLinks.count ∧
      next.threadLinks.siblings = update state.threadLinks.siblings t none ∧
      next.threadLinks.owner = update state.threadLinks.owner t none := by
  refine ⟨?_, ?_, ?_, ?_⟩
  · exact congrArg (fun group g => (group g).threads) hgroups
  · exact congrArg (fun group g => (group g).nrThreads) hgroups
  · funext x
    change (next.thread x).siblings = _
    rw [hthread]
    by_cases hx : x = t
    · simp [hx, hsiblings]
    · rw [update_of_ne hx, update_of_ne hx]
      rfl
  · funext x
    change (next.thread x).group = _
    rw [hthread]
    by_cases hx : x = t
    · simp [hx, hgroup]
    · rw [update_of_ne hx, update_of_ne hx]
      rfl

theorem not_liveThread (hdead : state.threadsArray t = false) :
    ¬ LiveThread machine state t := by
  intro hlive
  have hslot := (liveThread_iff.mp hlive).2
  rw [hdead] at hslot
  cases hslot

theorem ThreadNotCreated.membership
    (hnot : ThreadNotCreated state next) (hmembership : Membership machine state) :
    Membership machine next := by
  rcases hnot with rfl | ⟨t, thread, hslot, hsiblings, hgroup, rfl⟩
  · exact hmembership
  · have hdead : ¬ LiveThread machine state t := not_liveThread hslot
    set after : State := { state with thread := update state.thread t thread }
    have hthread : after.thread = update state.thread t thread := rfl
    have hgroups : after.group = state.group := rfl
    obtain ⟨hfirst, hcount, hnext, howner⟩ := threadLinks_update hsiblings hgroup hthread hgroups
    have hadded : WellLinked (fun x => LiveThread machine state x ∨ x = t)
        (LiveGroup machine state) after.threadLinks :=
      hmembership.threads.add_cell hdead (fun _ => Iff.rfl) hfirst hcount hnext howner
    have hfree : after.threadLinks.owner t = none := by
      rw [howner, update_self]
    refine ⟨hadded.drop_cell hfree ?_, hmembership.groups, hmembership.exclusive⟩
    intro x
    constructor
    · exact fun hx => ⟨.inl hx, fun h => hdead (h ▸ hx)⟩
    · rintro ⟨hx | hx, hne⟩
      · exact hx
      · exact absurd hx hne

theorem ThreadCreated.live_iff (hcreated : ThreadCreated machine state t startRoutine affinity next)
    (x : ThreadId) :
    LiveThread machine next x ↔ LiveThread machine state x ∨ x = t := by
  rw [liveThread_iff, liveThread_iff, hcreated.next_eq]
  by_cases hx : x = t
  · simp [hx, hcreated.slot]
  · simp [hx]

theorem ThreadCreated.membership
    (hcreated : ThreadCreated machine state t startRoutine affinity next)
    (hmembership : Membership machine state) : Membership machine next := by
  have hfields : next.thread = update state.thread t
        { WaycaThread.zeroed with
          startRoutine := startRoutine
          curSet := affinity
          allowedSet := affinity } ∧
      next.group = state.group ∧ next.groupLinks = state.groupLinks ∧
      LiveGroup machine next = LiveGroup machine state := by
    rw [hcreated.next_eq]
    exact ⟨rfl, rfl, rfl, rfl⟩
  obtain ⟨hfirst, hcount, hnext, howner⟩ := threadLinks_update rfl rfl hfields.1 hfields.2.1
  refine ⟨?_, ?_, ?_⟩
  · rw [hfields.2.2.2]
    exact hmembership.threads.add_cell (not_liveThread hcreated.dead) hcreated.live_iff
      hfirst hcount hnext howner
  · rw [hfields.2.2.1, hfields.2.2.2]
    exact hmembership.groups
  · rw [hfields.2.1, hfields.2.2.2]
    exact hmembership.exclusive

theorem LeftGroup.membership (hleft : LeftGroup machine state t middle)
    (hmembership : Membership machine state) : Membership machine middle := by
  rcases hleft with ⟨-, rfl⟩ | ⟨g, links, hdetached⟩
  · exact hmembership
  · exact hdetached.membership hmembership

theorem LeftGroup.group_eq (hleft : LeftGroup machine state t middle) :
    (middle.thread t).group = none := by
  rcases hleft with ⟨hnone, rfl⟩ | ⟨g, links, hdetached⟩
  · exact hnone
  · rw [hdetached.sameLinks.thread_group]
    change links.owner t = none
    rw [hdetached.owner_eq, update_self]

theorem freed_membership (times : ℤ) (hfree : (middle.thread t).group = none)
    (hmembership : Membership machine middle) :
    Membership machine (middle.freed machine times t) := by
  refine ⟨hmembership.threads.drop_cell hfree ?_, hmembership.groups, hmembership.exclusive⟩
  intro x
  rw [liveThread_iff, liveThread_iff]
  by_cases hx : x = t
  · simp [State.freed, hx]
  · simp [State.freed, hx]

/-! ## Calls that touch no member -/

/-- No thread has joined or left a group, and the placements are as before. -/
structure MembersKept (machine : Machine) (state next : State) : Prop where
  group : ∀ g, LiveGroup machine next g →
    LiveGroup machine state g ∧ next.group g = state.group g
  member_iff : ∀ t g, LiveThread machine next t ∧ (next.thread t).group = some g ↔
    LiveThread machine state t ∧ (state.thread t).group = some g
  placement : ∀ t, LiveThread machine state t →
    (next.thread t).curSet = (state.thread t).curSet ∧
      (next.thread t).allowedSet = (state.thread t).allowedSet
  asserts : next.asserts = state.asserts

theorem MembersKept.threadsOf_eq (hkept : MembersKept machine state next) (g : GroupId) :
    threadsOf machine next g = threadsOf machine state g := by
  ext t
  rw [mem_threadsOf, mem_threadsOf]
  exact hkept.member_iff t g

theorem MembersKept.refl (machine : Machine) (state : State) :
    MembersKept machine state state :=
  ⟨fun _ hlive => ⟨hlive, rfl⟩, fun _ _ => .rfl, fun _ _ => ⟨rfl, rfl⟩, rfl⟩

theorem ThreadNotCreated.membersKept (hnot : ThreadNotCreated state next) :
    MembersKept machine state next := by
  rcases hnot with rfl | ⟨t, thread, hslot, -, -, rfl⟩
  · exact .refl machine _
  · have hother : ∀ x, LiveThread machine state x → x ≠ t := by
      rintro x hlive rfl
      exact not_liveThread hslot hlive
    refine ⟨fun _ hlive => ⟨hlive, rfl⟩, ?_, ?_, rfl⟩
    · intro x g
      refine and_congr_right fun hlive => ?_
      simp [update_of_ne (hother x hlive)]
    · intro x hlive
      simp [update_of_ne (hother x hlive)]

theorem ThreadCreated.membersKept
    (hcreated : ThreadCreated machine state t startRoutine affinity next) :
    MembersKept machine state next := by
  have hthread : next.thread = update state.thread t
      { WaycaThread.zeroed with
        startRoutine := startRoutine
        curSet := affinity
        allowedSet := affinity } := by
    rw [hcreated.next_eq]
    rfl
  have hother : ∀ x, LiveThread machine state x → x ≠ t := by
    rintro x hlive rfl
    exact not_liveThread hcreated.dead hlive
  refine ⟨?_, ?_, ?_, ?_⟩
  · intro g hlive
    rw [hcreated.next_eq] at hlive ⊢
    exact ⟨hlive, rfl⟩
  · intro x g
    rw [hcreated.live_iff, hthread]
    by_cases hx : x = t
    · subst hx
      rw [update_self]
      constructor
      · exact fun h => absurd h.2 (by simp [WaycaThread.zeroed])
      · exact fun h => absurd rfl (hother x h.1)
    · simp [hx]
  · intro x hlive
    rw [hthread, update_of_ne (hother x hlive)]
    exact ⟨rfl, rfl⟩
  · rw [hcreated.next_eq]
    rfl

theorem membersKept_freed (times : ℤ) (hfree : (middle.thread t).group = none) :
    MembersKept machine middle (middle.freed machine times t) := by
  refine ⟨fun _ hlive => ⟨hlive, rfl⟩, ?_, fun _ _ => ⟨rfl, rfl⟩, rfl⟩
  intro x g
  change LiveThread machine (middle.freed machine times t) x ∧ (middle.thread x).group = some g ↔ _
  refine and_congr_left fun hmember => ?_
  have hx : x ≠ t := by
    rintro rfl
    rw [hfree] at hmember
    cases hmember
  rw [liveThread_iff, liveThread_iff]
  simp [State.freed, hx]

theorem membersKept_setThreadAttr
    (machine : Machine) (state : State) (t : ThreadId) (wanted : Attr) (sign : ℤ) :
    MembersKept machine state
      (State.addLoad machine (state.setThread t { state.thread t with attr := wanted })
        sign t) := by
  have hfield : ∀ {α : Type} (field : WaycaThread → α) (x : ThreadId),
      field { state.thread t with attr := wanted } = field (state.thread t) →
      field ((state.setThread t { state.thread t with attr := wanted }).thread x) =
        field (state.thread x) := by
    intro α field x hsame
    by_cases hx : x = t
    · simp [hx, hsame]
    · simp [update_of_ne hx]
  refine ⟨fun _ hlive => ⟨hlive, rfl⟩, ?_, ?_, rfl⟩
  · intro x g
    refine and_congr_right fun _ => ?_
    exact iff_of_eq (congrArg (· = some g) (hfield WaycaThread.group x rfl))
  · intro x _
    exact ⟨hfield WaycaThread.curSet x rfl, hfield WaycaThread.allowedSet x rfl⟩

theorem GroupDestroyed.membersKept (hdestroyed : GroupDestroyed machine state g middle next) :
    MembersKept machine middle next := by
  refine ⟨?_, ?_, ?_, ?_⟩
  · intro x hlive
    refine ⟨((hdestroyed.live_iff x).mp hlive).1, ?_⟩
    rw [hdestroyed.next_eq]
  all_goals rw [hdestroyed.next_eq]
  · exact fun _ _ => .rfl
  · exact fun _ _ => ⟨rfl, rfl⟩

/-- What a call that returns has done.  Most calls leave the groups alone and
the members where they are; a thread that is freed leaves its group before. -/
inductive Effect (machine : Machine) (state : State) : Call → State → Prop where
  | kept {call : Call} {next : State} (hkept : MembersKept machine state next)
      (hgroup : next.group = state.group) (hslots : next.groupsArray = state.groupsArray)
      (hnext : Membership machine next) : Effect machine state call next
  | freed {call : Call} (t : ThreadId) (middle : State) (times : ℤ)
      (hleft : LeftGroup machine state t middle) :
      Effect machine state call (middle.freed machine times t)
  | created {group malloc : Bool} (g : GroupId) {next : State}
      (hcreated : GroupCreated machine state g next) :
      Effect machine state (.groupCreate group malloc) next
  | destroyed {g : GroupId} (middle : State) {next : State}
      (hdestroyed : GroupDestroyed machine state g middle next) :
      Effect machine state (.groupDestroy g) next
  | attrSet (g : GroupId) (wanted : Attr) {next : State} (hlive : LiveGroup machine state g)
      (hrearrange : waycaGroupRearrangeGroup machine rearrangeDepth (state.withAttr g wanted) g =
        some (next, 0)) :
      Effect machine state (.groupSetAttr g (some wanted)) next
  | attached {t : ThreadId} {g : GroupId} (links : Links GroupId ThreadId)
      (assigned : Assigned) {next : State}
      (hattached : ThreadAttached machine state t g links assigned next) :
      Effect machine state (.threadAttachGroup t g) next
  | detached {t : ThreadId} {g : GroupId} (links : Links GroupId ThreadId) {next : State}
      (hdetached : ThreadDetached machine state t g links next) :
      Effect machine state (.threadDetachGroup t g) next
  | groupAttached {g father : GroupId} (links : Links GroupId GroupId) {next : State}
      (hattached : GroupAttached machine state g father links next) :
      Effect machine state (.groupAttachGroup g father) next
  | groupDetached {g father : GroupId} (links : Links GroupId GroupId) {next : State}
      (hdetached : GroupDetached machine state g father links next) :
      Effect machine state (.groupDetachGroup g father) next

theorem Effect.same (hmembership : Membership machine state) :
    Effect machine state call state :=
  .kept (.refl machine state) rfl rfl hmembership

theorem ThreadNotCreated.effect (hnot : ThreadNotCreated state next)
    (hmembership : Membership machine state) : Effect machine state call next := by
  have hnext := hnot.membership hmembership
  have hkept : MembersKept machine state next := hnot.membersKept
  rcases hnot with rfl | ⟨_, _, _, _, _, rfl⟩ <;> exact .kept hkept rfl rfl hnext

theorem ThreadCreated.effect (hcreated : ThreadCreated machine state t startRoutine affinity next)
    (hmembership : Membership machine state) : Effect machine state call next := by
  refine .kept hcreated.membersKept ?_ ?_ (hcreated.membership hmembership) <;>
    rw [hcreated.next_eq] <;> rfl

/-- A call is one of the effects described for it. -/
theorem step_effect {ret : ℤ} (hmembership : Membership machine state)
    (hstep : step machine state call = some (next, ret)) :
    Effect machine state call next := by
  cases call with
  | threadCreate wthread startRoutine env =>
      rcases createThread_cases hstep with hnot | ⟨t, hcreated⟩
      · exact hnot.effect hmembership
      · exact hcreated.effect hmembership
  | threadJoin t pthreadJoin =>
      rcases joinThread_cases hmembership hstep with rfl | ⟨middle, -, hleft, rfl⟩
      · exact .same hmembership
      · exact .freed t middle 1 hleft
  | pidAttachThread wthread pid env =>
      rcases pidAttach_cases hstep with hnot | ⟨t, affinity, hcreated⟩
      · exact hnot.effect hmembership
      · exact hcreated.effect hmembership
  | pidDetachThread t =>
      rcases pidDetach_cases hmembership hstep with rfl | ⟨middle, -, hleft, rfl⟩
      · exact .same hmembership
      · exact .freed t middle 2 hleft
  | threadSetAttr t attr setaffinity =>
      rcases setThreadAttr_cases hstep with rfl | ⟨wanted, sign, rfl⟩
      · exact .same hmembership
      · refine .kept (membersKept_setThreadAttr machine state t wanted sign) rfl rfl
          (SameLinks.membership ?_ hmembership)
        refine .trans ?_ (sameLinks_addLoad machine _ sign t)
        exact sameLinks_setThread state t rfl rfl
  | groupCreate group malloc =>
      rcases createGroup_cases hstep with ⟨-, rfl⟩ | ⟨-, g, hcreated⟩
      · exact .same hmembership
      · exact .created g hcreated
  | groupDestroy g =>
      rcases destroyGroup_cases hmembership hstep with ⟨-, rfl⟩ | ⟨-, middle, hdestroyed⟩
      · exact .same hmembership
      · exact .destroyed middle hdestroyed
  | groupSetAttr g attr =>
      rcases setAttr_cases hstep with ⟨-, rfl⟩ | ⟨-, wanted, rfl, hlive, hrearrange⟩
      · exact .same hmembership
      · exact .attrSet g wanted hlive hrearrange
  | threadAttachGroup t g =>
      rcases attachThread_cases hmembership hstep with
        ⟨-, rfl⟩ | ⟨-, links, assigned, hattached⟩
      · exact .same hmembership
      · exact .attached links assigned hattached
  | threadDetachGroup t g =>
      rcases detachThread_cases hmembership hstep with ⟨-, rfl, -⟩ | ⟨-, links, hdetached⟩
      · exact .same hmembership
      · exact .detached links hdetached
  | groupAttachGroup g father =>
      rcases attachGroup_cases hmembership hstep with ⟨-, rfl⟩ | ⟨-, links, hattached⟩
      · exact .same hmembership
      · exact .groupAttached links hattached
  | groupDetachGroup g father =>
      rcases detachGroup_cases hmembership hstep with ⟨-, rfl, -⟩ | ⟨-, links, hdetached⟩
      · exact .same hmembership
      · exact .groupDetached links hdetached

/-- The member lists are consistent after a call that finds them so. -/
theorem step_membership {ret : ℤ} (hmembership : Membership machine state)
    (hstep : step machine state call = some (next, ret)) : Membership machine next := by
  cases step_effect hmembership hstep with
  | kept _ _ _ hnext => exact hnext
  | freed t middle times hleft =>
      exact freed_membership times hleft.group_eq (hleft.membership hmembership)
  | created g hcreated => exact hcreated.membership hmembership
  | destroyed middle hdestroyed => exact hdestroyed.membership hmembership
  | attrSet g wanted hlive hrearrange =>
      exact ((sameLinks_withAttr state g wanted).trans
        (sameLinks_rearrange hrearrange)).membership hmembership
  | attached links assigned hattached => exact hattached.membership hmembership
  | detached links hdetached => exact hdetached.membership hmembership
  | groupAttached links hattached => exact hattached.membership hmembership
  | groupDetached links hdetached => exact hdetached.membership hmembership

theorem membership_of_reaches
    {Allowed : State → Call → Prop} (hreach : Reaches machine Allowed state) :
    Membership machine state :=
  hreach.keeps (Membership machine) (membership_start machine)
    fun _ _ _ _ hmembership _ hstep => step_membership hmembership hstep

/-- In every reachable state the lists that start at the two member pointers of
a live group are finite, without repetition and as long as the counters say,
and they hold exactly the live objects that point back to the group. -/
theorem member_lists_agree (hreach : Reachable machine state) :
    ∃ threadsOf : GroupId → List ThreadId, ∃ groupsOf : GroupId → List GroupId,
      (∀ g, LiveGroup machine state g →
        Linked (fun t => (state.thread t).siblings) (state.group g).threads (threadsOf g) ∧
          (threadsOf g).Nodup ∧ ((threadsOf g).length : ℤ) = (state.group g).nrThreads ∧
          ∀ t, t ∈ threadsOf g ↔
            LiveThread machine state t ∧ (state.thread t).group = some g) ∧
      (∀ g, LiveGroup machine state g →
        Linked (fun m => (state.group m).siblings) (state.group g).groups (groupsOf g) ∧
          (groupsOf g).Nodup ∧ ((groupsOf g).length : ℤ) = (state.group g).nrGroups ∧
          ∀ m, m ∈ groupsOf g ↔
            LiveGroup machine state m ∧ (state.group m).father = some g) ∧
      (∀ g, LiveGroup machine state g →
        (state.group g).nrThreads = 0 ∨ (state.group g).nrGroups = 0) ∧
      (∀ t, LiveThread machine state t →
        (∀ g, LiveGroup machine state g → t ∉ threadsOf g) →
          (state.thread t).siblings = none) ∧
      ∀ m, LiveGroup machine state m →
        (∀ g, LiveGroup machine state g → m ∉ groupsOf g) →
          (state.group m).siblings = none := by
  have hmembership := membership_of_reaches hreach
  choose! threadsOf hthreads using
    fun g (hlive : LiveGroup machine state g) => hmembership.threadMembers hlive
  choose! groupsOf hgroups using
    fun g (hlive : LiveGroup machine state g) => hmembership.groupMembers hlive
  refine ⟨threadsOf, groupsOf, ?_, ?_, hmembership.exclusive, ?_, ?_⟩
  · intro g hlive
    obtain ⟨hmembers, hlinked, -, hlength⟩ := hthreads g hlive
    exact ⟨hlinked, hmembers.nodup, hlength, hmembers.mem_iff⟩
  · intro g hlive
    obtain ⟨hmembers, hlinked, -, hlength⟩ := hgroups g hlive
    exact ⟨hlinked, hmembers.nodup, hlength, hmembers.mem_iff⟩
  · intro t hlive hout
    refine hmembership.threads.free t hlive ?_
    cases howner : state.threadLinks.owner t with
    | none => rfl
    | some g =>
        have hgroup := hmembership.threads.owner_live t g hlive howner
        exact absurd (((hthreads g hgroup).1.mem_iff t).mpr ⟨hlive, howner⟩) (hout g hgroup)
  · intro m hlive hout
    refine hmembership.groups.free m hlive ?_
    cases howner : state.groupLinks.owner m with
    | none => rfl
    | some g =>
        have hgroup := hmembership.groups.owner_live m g hlive howner
        exact absurd (((hgroups g hgroup).1.mem_iff m).mpr ⟨hlive, howner⟩) (hout g hgroup)

set_option maxRecDepth 100000 in
theorem member_lists_agree_two_threads :
    ∃ state, Reachable smallMachine state ∧ (state.group 0).nrThreads = 2 ∧
      ∃ threads : List ThreadId,
        Linked (fun t => (state.thread t).siblings) (state.group 0).threads threads ∧
          threads.length = 2 := by
  have hrun : ∃ state ∈ runCalls (step smallMachine) (fun _ _ => True) State.start
      [.groupCreate true true, createOnSmall, createOnSmall, .threadAttachGroup 0 0,
        .threadAttachGroup 1 0],
      LiveGroup smallMachine state 0 ∧ (state.group 0).nrThreads = 2 := by
    decide +kernel
  obtain ⟨state, hreach, hlive, hcount⟩ := exists_reachable_of_runCalls hrun
  obtain ⟨threadsOf, -, hlists, -⟩ := member_lists_agree hreach
  obtain ⟨hlinked, -, hlength, -⟩ := hlists 0 hlive
  exact ⟨state, hreach, hcount, threadsOf 0, hlinked, by omega⟩

/-! ## Calls that fail -/

/-- The calls that move members between groups, change an attribute or destroy
a group. -/
def Call.changesGroups : Call → Bool
  | .groupDestroy _ => true
  | .groupSetAttr _ _ => true
  | .threadAttachGroup _ _ => true
  | .threadDetachGroup _ _ => true
  | .groupAttachGroup _ _ => true
  | .groupDetachGroup _ _ => true
  | _ => false

theorem failed_call_changes_nothing {call : Call} {ret : ℤ} (hreach : Reachable machine state)
    (hcall : call.changesGroups = true) (hstep : step machine state call = some (next, ret))
    (hfailed : ret < 0) : next = state := by
  have hmembership := membership_of_reaches hreach
  have hnotZero : ret ≠ 0 := hfailed.ne
  cases call with
  | groupDestroy g =>
      rcases destroyGroup_cases hmembership hstep with ⟨-, hsame⟩ | ⟨hzero, -⟩
      · exact hsame
      · exact absurd hzero hnotZero
  | groupSetAttr g attr =>
      rcases setAttr_cases hstep with ⟨-, hsame⟩ | ⟨hzero, -⟩
      · exact hsame
      · exact absurd hzero hnotZero
  | threadAttachGroup t g =>
      rcases attachThread_cases hmembership hstep with ⟨-, hsame⟩ | ⟨hzero, -⟩
      · exact hsame
      · exact absurd hzero hnotZero
  | threadDetachGroup t g =>
      rcases detachThread_cases hmembership hstep with ⟨-, hsame, -⟩ | ⟨hzero, -⟩
      · exact hsame
      · exact absurd hzero hnotZero
  | groupAttachGroup g father =>
      rcases attachGroup_cases hmembership hstep with ⟨-, hsame⟩ | ⟨hzero, -⟩
      · exact hsame
      · exact absurd hzero hnotZero
  | groupDetachGroup g father =>
      rcases detachGroup_cases hmembership hstep with ⟨-, hsame, -⟩ | ⟨hzero, -⟩
      · exact hsame
      · exact absurd hzero hnotZero
  | threadCreate | threadJoin | pidAttachThread | pidDetachThread | threadSetAttr |
    groupCreate => simp [Call.changesGroups] at hcall

/-- Two new groups have the same level, so one is linked below the other and
then unlinked again. -/
theorem failed_call_changes_nothing_same_level :
    ∃ state next, Reachable smallMachine state ∧
      step smallMachine state (.groupAttachGroup 1 0) = some (next, -ERANGE) ∧
      next = state := by
  have hrun : ∃ state ∈ runCalls (step smallMachine) (fun _ _ => True) State.start
      [.groupCreate true true, .groupCreate true true],
      ∃ outcome ∈ step smallMachine state (.groupAttachGroup 1 0), outcome.2 = -ERANGE := by
    decide +kernel
  obtain ⟨state, hreach, ⟨next, ret⟩, hstep, rfl⟩ := exists_reachable_of_runCalls hrun
  exact ⟨state, next, hreach, hstep, failed_call_changes_nothing hreach rfl hstep (by decide)⟩

end WaycaScheduler
