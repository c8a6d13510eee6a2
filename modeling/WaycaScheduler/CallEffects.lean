import WaycaScheduler.Rearrangement

/-!
# What each call does

For every call of the thread and group interface, made in a state with
consistent membership, the states it can return in.  A call that succeeds is
described by the links it writes and by the assignment, release or
re-arrangement it performs, so that an invariant is proved from these
descriptions.
-/

namespace WaycaScheduler

open IntrusiveList OwnedLists Function

variable {ret : ℤ} {group : WaycaScGroup} {father : GroupId} {attr : Option Attr}
variable {t : ThreadId} {g : GroupId}

variable {machine : Machine} {state next : State}

/-! ## Attaching a thread -/

/-- The thread became a member of the group and was assigned its CPUs. -/
structure ThreadAttached (machine : Machine) (state : State) (t : ThreadId) (g : GroupId)
    (links : Links GroupId ThreadId) (assigned : Assigned) (next : State) : Prop where
  live_thread : LiveThread machine state t
  live_group : LiveGroup machine state g
  free : (state.thread t).group = none
  no_groups : (state.group g).nrGroups = 0
  wellLinked : WellLinked (LiveThread machine state) (LiveGroup machine state) links
  owner_eq : links.owner = Function.update state.threadLinks.owner t (some g)
  count_eq : links.count =
    Function.update state.threadLinks.count g (state.threadLinks.count g + 1)
  assign : waycaGroupAssignThreadResource (state.addLoad machine (-1) t).loads
    { state.group g with threads := links.first g, nrThreads := links.count g }
    { state.thread t with siblings := links.siblings t, group := links.owner t } =
      some assigned
  next_eq : next =
    (((((state.addLoad machine (-1) t).setThreadLinks links).setGroup g
      assigned.group).setThread t assigned.thread).waycaScAssert assigned.held).addLoad
        machine 1 t

section AttachedFields

variable {t : ThreadId} {g : GroupId} {links : Links GroupId ThreadId} {assigned : Assigned}

section

variable (hattached : ThreadAttached machine state t g links assigned next)

include hattached

theorem ThreadAttached.thread_self : next.thread t = assigned.thread := by
  rw [hattached.next_eq]
  simp

theorem ThreadAttached.thread_other {x : ThreadId} (hx : x ≠ t) :
    next.thread x =
      { state.thread x with siblings := links.siblings x, group := links.owner x } := by
  rw [hattached.next_eq]
  simp [update_of_ne hx, State.setThreadLinks]

theorem ThreadAttached.group_self : next.group g = assigned.group := by
  rw [hattached.next_eq]
  simp

theorem ThreadAttached.group_other {x : GroupId} (hx : x ≠ g) :
    next.group x = { state.group x with threads := links.first x, nrThreads := links.count x } := by
  rw [hattached.next_eq]
  simp [update_of_ne hx, State.setThreadLinks]

theorem ThreadAttached.loads_eq (c : ℕ) :
    next.loads c = state.loads c - threadLoad machine (state.thread t).curSet c +
      threadLoad machine (next.thread t).curSet c := by
  rw [hattached.thread_self, hattached.next_eq]
  simp only [State.addLoad, State.waycaScAssert_loads, State.setThread_loads,
    State.setGroup_loads, State.setThreadLinks_loads, State.waycaScAssert_thread,
    State.setThread_thread, update_self]
  ring

end

end AttachedFields

theorem addLoad_cancel (machine : Machine) (state : State) (t : ThreadId) :
    (state.addLoad machine (-1) t).addLoad machine 1 t = state := by
  unfold State.addLoad
  simp

section

variable (hmembership : Membership machine state)
variable {t : ThreadId} {g : GroupId}

include hmembership

theorem waycaGroupAddThread_cases
    (hthread : LiveThread machine state t) (hfree : (state.thread t).group = none)
    (hadd : waycaGroupAddThread machine state g t = some (next, ret)) :
    (ret < 0 ∧ next = state) ∨ ret = 0 ∧ (state.group g).nrGroups = 0 ∧
        ∃ links, state.threadLinks.insert machine.threadsArraySize g t = some links ∧
          assignThread (state.setThreadLinks links) g t = some next := by
  unfold waycaGroupAddThread at hadd
  obtain ⟨inGroup, -, hrest⟩ := Option.bind_eq_some_iff.mp hadd
  split at hrest
  next =>
    cases hrest
    exact .inl ⟨by decide, rfl⟩
  next =>
    split at hrest
    next =>
      cases hrest
      exact .inl ⟨by decide, rfl⟩
    next hgroups =>
      have halone : (state.thread t).siblings = none := hmembership.threads.free t hthread hfree
      rw [decide_eq_true halone, State.waycaScAssert_true] at hrest
      obtain ⟨links, hinsert, hlater⟩ := Option.bind_eq_some_iff.mp hrest
      obtain ⟨final, hassign, hfinal⟩ := Option.bind_eq_some_iff.mp hlater
      cases hfinal
      exact .inr ⟨rfl, not_not.mp hgroups, links, hinsert, hassign⟩

theorem attachThread_effect
    (hcall : waycaScThreadAttachGroup machine state t g = some (next, ret)) :
    (ret < 0 ∧ next = state) ∨ ret = 0 ∧ ∃ links assigned,
        state.threadLinks.insert machine.threadsArraySize g t = some links ∧
          ThreadAttached machine state t g links assigned next := by
  unfold waycaScThreadAttachGroup at hcall
  split at hcall
  next =>
    cases hcall
    exact .inl ⟨by decide, rfl⟩
  next hvalid =>
    simp only [Bool.or_eq_true, Bool.not_eq_true', not_or, Bool.not_eq_false] at hvalid
    obtain ⟨hthread, hgroup⟩ := hvalid
    split at hcall
    next =>
      cases hcall
      exact .inl ⟨by decide, rfl⟩
    next howner =>
      have hfree := not_not.mp howner
      simp only [waycaThreadUpdateLoad_eq, waycaGroupRearrangeThread, Option.bind_eq_bind,
        Option.bind_some, Bool.false_eq_true, if_false, if_true] at hcall
      obtain ⟨⟨middle, code⟩, hadd, hrest⟩ := Option.bind_eq_some_iff.mp hcall
      have hsame := sameLinks_addLoad machine state (-1) t
      rcases waycaGroupAddThread_cases (hsame.membership hmembership)
          (hsame.liveThread.mpr hthread) hfree hadd with
        ⟨hneg, rfl⟩ | ⟨rfl, hgroups, links, hinsert, hassign⟩
      · rw [if_pos hneg.ne] at hrest
        cases hrest
        exact .inl ⟨hneg, addLoad_cancel machine state t⟩
      · cases hrest
        obtain ⟨assigned, hassigned, rfl⟩ := assignThread_cases hassign
        obtain ⟨after, hafter, hwell, howner, hcount⟩ :=
          hmembership.threads.insert (thread_capacity machine state) hgroup hthread hfree
        rw [State.addLoad_threadLinks, hafter, Option.some.injEq] at hinsert
        subst hinsert
        exact .inr ⟨rfl, after, assigned, hafter, hthread, hgroup, hfree, hgroups, hwell, howner,
          hcount, hassigned, rfl⟩

theorem attachThread_cases (hcall : waycaScThreadAttachGroup machine state t g = some (next, ret)) :
    (ret < 0 ∧ next = state) ∨
      ret = 0 ∧ ∃ links assigned, ThreadAttached machine state t g links assigned next := by
  rcases attachThread_effect hmembership hcall with
    hrefused | ⟨hzero, links, assigned, -, hattached⟩
  · exact .inl hrefused
  · exact .inr ⟨hzero, links, assigned, hattached⟩

theorem attachThread_accepted (hthread : LiveThread machine state t)
    (hgroup : LiveGroup machine state g) (hfree : (state.thread t).group = none)
    (hgroups : (state.group g).nrGroups = 0)
    (hassign : ∀ first count thread, ∃ assigned, waycaGroupAssignThreadResource
      (state.addLoad machine (-1) t).loads
      { state.group g with threads := first, nrThreads := count } thread = some assigned) :
    ∃ next links assigned, waycaScThreadAttachGroup machine state t g = some (next, 0) ∧
      ThreadAttached machine state t g links assigned next := by
  have halone : (state.thread t).siblings = none := hmembership.threads.free t hthread hfree
  obtain ⟨found, hsearch, hfound⟩ :=
    hmembership.threads.search_eq (thread_capacity machine state) hgroup hthread
  have hnotFound : found = false := by
    rw [← Bool.not_eq_true, hfound]
    change (state.thread t).group ≠ some g
    rw [hfree]
    exact nofun
  obtain ⟨links, hinsert, hwell, howner, hcount⟩ :=
    hmembership.threads.insert (thread_capacity machine state) hgroup hthread hfree
  obtain ⟨assigned, hassigned⟩ := hassign (links.first g) (links.count g)
    { state.thread t with siblings := links.siblings t, group := links.owner t }
  have hadd : waycaGroupAddThread machine (state.addLoad machine (-1) t) g t =
      some (((((state.addLoad machine (-1) t).setThreadLinks links).setGroup g
        assigned.group).setThread t assigned.thread).waycaScAssert assigned.held, 0) := by
    unfold waycaGroupAddThread isThreadInGroup
    simp only [State.addLoad_threadLinks, State.addLoad_group, State.addLoad_thread, hsearch,
      hnotFound, Option.bind_eq_bind, Option.bind_some, Bool.false_eq_true, if_false, hgroups,
      ne_eq, not_true_eq_false, halone, decide_true, State.waycaScAssert_true, hinsert]
    unfold assignThread
    change ((waycaGroupAssignThreadResource (state.addLoad machine (-1) t).loads
      { state.group g with threads := links.first g, nrThreads := links.count g }
      { state.thread t with siblings := links.siblings t, group := links.owner t }).map
        _).bind _ = _
    rw [hassigned]
    rfl
  refine ⟨_, links, assigned, ?_,
    ⟨hthread, hgroup, hfree, hgroups, hwell, howner, hcount, hassigned, rfl⟩⟩
  unfold LiveThread at hthread
  unfold LiveGroup at hgroup
  unfold waycaScThreadAttachGroup
  simp only [hthread, hgroup, Bool.not_true, Bool.or_self, Bool.false_eq_true, if_false, hfree,
    ne_eq, not_true_eq_false, waycaThreadUpdateLoad_eq, Option.bind_eq_bind, Option.bind_some,
    hadd, waycaGroupRearrangeThread, if_true]

end

/-! ## Detaching a thread -/

/-- The thread left the group, which took back its CPUs. -/
structure ThreadDetached (machine : Machine) (state : State) (t : ThreadId) (g : GroupId)
    (links : Links GroupId ThreadId) (next : State) : Prop where
  live_thread : LiveThread machine state t
  live_group : LiveGroup machine state g
  member : (state.thread t).group = some g
  wellLinked : WellLinked (LiveThread machine state) (LiveGroup machine state) links
  owner_eq : links.owner = Function.update state.threadLinks.owner t none
  count_eq : links.count =
    Function.update state.threadLinks.count g (state.threadLinks.count g - 1)
  next_eq : next =
    ((state.waycaScAssert (decide (cpuCount (state.group g).used = 0 →
      0 < (state.group g).rollOverCnts))).setGroup g
        (releaseThread (state.group g) (state.thread t))).setThreadLinks links

section DetachedFields

variable {t : ThreadId} {g : GroupId} {links : Links GroupId ThreadId}

section

variable (hdetached : ThreadDetached machine state t g links next)

include hdetached

theorem ThreadDetached.thread_eq (x : ThreadId) :
    next.thread x =
      { state.thread x with siblings := links.siblings x, group := links.owner x } := by
  rw [hdetached.next_eq]
  rfl

theorem ThreadDetached.group_self :
    next.group g = { releaseThread (state.group g) (state.thread t) with
        threads := links.first g
        nrThreads := links.count g } := by
  rw [hdetached.next_eq]
  simp [State.setThreadLinks]

theorem ThreadDetached.group_other {x : GroupId} (hx : x ≠ g) :
    next.group x = { state.group x with threads := links.first x, nrThreads := links.count x } := by
  rw [hdetached.next_eq]
  simp [update_of_ne hx, State.setThreadLinks]

end

end DetachedFields

theorem releaseThread_eq (group : WaycaScGroup) (thread : WaycaThread) :
    releaseThread group thread = { group with
        used := (releaseThread group thread).used
        rollOverCnts := (releaseThread group thread).rollOverCnts } := rfl

theorem reopenRound_used_subset (hsubset : group.used.cpus ⊆ group.total.cpus) :
    (reopenRound group).used.cpus ⊆ group.total.cpus := by
  unfold reopenRound
  dsimp only
  split
  next =>
    rw [cpuOr_cpus]
    exact Finset.union_subset hsubset Finset.Subset.rfl
  next => exact hsubset

theorem cpuXor_subset {first second : CpuSet} {cells : Finset ℕ} (hfirst : first.cpus ⊆ cells)
    (hsecond : second.cpus ⊆ cells) : (cpuXor first second).cpus ⊆ cells :=
  Finset.union_subset (Finset.sdiff_subset.trans hsecond) (Finset.sdiff_subset.trans hfirst)

theorem releaseThread_used_subset {thread : WaycaThread}
    (hsubset : group.used.cpus ⊆ group.total.cpus)
    (hallowed : thread.allowedSet.cpus ⊆ group.total.cpus) :
    (releaseThread group thread).used.cpus ⊆ group.total.cpus := by
  have hopen := reopenRound_used_subset hsubset
  unfold releaseThread
  dsimp only
  split
  next =>
    rw [cpuClr_cpus]
    exact (Finset.erase_subset _ _).trans hopen
  next => exact cpuXor_subset hopen hallowed

theorem releaseGroup_used_subset {father : WaycaScGroup}
    (hsubset : father.used.cpus ⊆ father.total.cpus)
    (hmember : group.total.cpus ⊆ father.total.cpus) :
    (releaseGroup father group).used.cpus ⊆ father.total.cpus :=
  cpuXor_subset (reopenRound_used_subset hsubset) hmember

theorem sameLinks_releaseThread (state : State) (g : GroupId) (thread : WaycaThread) :
    SameLinks state (state.setGroup g (releaseThread (state.group g) thread)) := by
  rw [releaseThread_eq]
  exact sameLinks_setGroup state g rfl rfl rfl rfl rfl rfl

theorem detachThread_accepted (hmembership : Membership machine state)
    (hthread : LiveThread machine state t) (hgroup : LiveGroup machine state g)
    (hmember : (state.thread t).group = some g) :
    ∃ next links, waycaScThreadDetachGroup machine state t g = some (next, 0) ∧
      state.threadLinks.remove machine.threadsArraySize g t = some links ∧
      ThreadDetached machine state t g links next := by
  obtain ⟨found, hsearch, hfound⟩ :=
    hmembership.threads.search_eq (thread_capacity machine state) hgroup hthread
  have htrue : found = true := hfound.mpr hmember
  obtain ⟨links, hremove, hwell, howner, hcount⟩ :=
    hmembership.threads.remove (thread_capacity machine state) hthread hmember
  have hlinks := (sameLinks_releaseThread (state.waycaScAssert
    (decide (cpuCount (state.group g).used = 0 → 0 < (state.group g).rollOverCnts))) g
      (state.thread t)).threadLinks
  refine ⟨_, links, ?_, hremove, ⟨hthread, hgroup, hmember, hwell, howner, hcount, rfl⟩⟩
  unfold LiveThread at hthread
  unfold LiveGroup at hgroup
  unfold waycaScThreadDetachGroup waycaGroupDeleteThread isThreadInGroup
  simp only [hthread, hgroup, Bool.not_true, Bool.or_self, Bool.false_eq_true, if_false,
    hsearch, htrue, Option.bind_eq_bind, Option.bind_some, State.waycaScAssert_thread]
  rw [State.waycaScAssert_group] at hlinks
  rw [hlinks]
  change (state.threadLinks.remove machine.threadsArraySize g t).bind _ = _
  rw [hremove]
  rfl

theorem detachThread_cases (hmembership : Membership machine state)
    (hcall : waycaScThreadDetachGroup machine state t g = some (next, ret)) :
    (ret < 0 ∧ next = state ∧ ¬ (LiveThread machine state t ∧ LiveGroup machine state g ∧
          (state.thread t).group = some g)) ∨
      ret = 0 ∧ ∃ links, ThreadDetached machine state t g links next := by
  by_cases hmember : LiveThread machine state t ∧ LiveGroup machine state g ∧
      (state.thread t).group = some g
  · obtain ⟨hthread, hgroup, hmember⟩ := hmember
    obtain ⟨after, links, hdone, -, hdetached⟩ :=
      detachThread_accepted hmembership hthread hgroup hmember
    cases hdone.symm.trans hcall
    exact .inr ⟨rfl, links, hdetached⟩
  · unfold waycaScThreadDetachGroup at hcall
    split at hcall
    next =>
      cases hcall
      exact .inl ⟨by decide, rfl, hmember⟩
    next hvalid =>
      simp only [Bool.or_eq_true, Bool.not_eq_true', not_or, Bool.not_eq_false] at hvalid
      obtain ⟨found, hsearch, hfound⟩ :=
        hmembership.threads.search_eq (thread_capacity machine state) hvalid.2 hvalid.1
      have hmissing := mt hfound.mp fun hin => hmember ⟨hvalid.1, hvalid.2, hin⟩
      unfold waycaGroupDeleteThread isThreadInGroup at hcall
      rw [hsearch, Bool.eq_false_iff.mpr hmissing] at hcall
      cases hcall
      exact .inl ⟨by decide, rfl, hmember⟩

/-! ## Attaching a group -/

/-- The group became a member of its father and was re-arranged. -/
structure GroupAttached (machine : Machine) (state : State) (g father : GroupId)
    (links : Links GroupId GroupId) (next : State) : Prop where
  live_group : LiveGroup machine state g
  live_father : LiveGroup machine state father
  ne : g ≠ father
  free : (state.group g).father = none
  no_threads : (state.group father).nrThreads = 0
  wellLinked : WellLinked (LiveGroup machine state) (LiveGroup machine state) links
  owner_eq : links.owner = Function.update state.groupLinks.owner g (some father)
  count_eq : links.count =
    Function.update state.groupLinks.count father (state.groupLinks.count father + 1)
  rearrange : waycaGroupRearrangeGroup machine rearrangeDepth (state.setGroupLinks links) g =
    some (next, 0)

/-- A re-arrangement that is refused changes nothing. -/
theorem rearrange_result {depth : ℕ}
    (hrearrange : waycaGroupRearrangeGroup machine depth state g = some (next, ret)) :
    ret = 0 ∨ ret < 0 ∧ next = state := by
  cases depth with
  | zero => simp [waycaGroupRearrangeGroup] at hrearrange
  | succ depth =>
      rcases rearrange_cases hrearrange with ⟨hneg, hsame, -⟩ | ⟨hzero, -⟩
      · exact .inr ⟨hneg, hsame⟩
      · exact .inl hzero

theorem attachGroup_effect (hmembership : Membership machine state)
    (hcall : waycaScGroupAttachGroup machine state g father = some (next, ret)) :
    (ret < 0 ∧ next = state) ∨ ret = 0 ∧ ∃ links,
        state.groupLinks.insert machine.groupsArraySize father g = some links ∧
          GroupAttached machine state g father links next := by
  unfold waycaScGroupAttachGroup at hcall
  split at hcall
  next =>
    cases hcall
    exact .inl ⟨by decide, rfl⟩
  next hvalid =>
    simp only [Bool.or_eq_true, Bool.not_eq_true', not_or, Bool.not_eq_false] at hvalid
    obtain ⟨hgroup, hfather⟩ := hvalid
    split at hcall
    next =>
      cases hcall
      exact .inl ⟨by decide, rfl⟩
    next howner =>
      have hfree := not_not.mp howner
      split at hcall
      next => cases hcall
      next hne =>
        unfold waycaGroupAddGroup at hcall
        obtain ⟨inFather, -, hrest⟩ := Option.bind_eq_some_iff.mp hcall
        split at hrest
        next =>
          cases hrest
          exact .inl ⟨by decide, rfl⟩
        next =>
          split at hrest
          next =>
            cases hrest
            exact .inl ⟨by decide, rfl⟩
          next hthreads =>
            have halone : (state.group g).siblings = none := hmembership.groups.free g hgroup hfree
            rw [decide_eq_true halone, State.waycaScAssert_true] at hrest
            obtain ⟨links, hinsert, hlater⟩ := Option.bind_eq_some_iff.mp hrest
            obtain ⟨⟨middle, code⟩, hrearrange, hlast⟩ := Option.bind_eq_some_iff.mp hlater
            rcases rearrange_result hrearrange with rfl | ⟨hneg, rfl⟩
            · cases hlast
              obtain ⟨after, hafter, hwell, howner, hcount⟩ :=
                hmembership.groups.insert (group_capacity machine state) hfather hgroup hfree
              rw [hafter, Option.some.injEq] at hinsert
              subst hinsert
              exact .inr ⟨rfl, after, hafter, hgroup, hfather, hne, hfree,
                not_not.mp hthreads, hwell, howner, hcount, hrearrange⟩
            · have hundo := hmembership.groups.remove_insert (group_capacity machine state)
                hfather hgroup hfree hinsert
              simp only [hneg, if_true, State.groupLinks_setGroupLinks, hundo,
                Option.bind_eq_bind, Option.bind_some, State.setGroupLinks_setGroupLinks,
                State.setGroupLinks_groupLinks] at hlast
              cases hlast
              exact .inl ⟨hneg, rfl⟩

theorem attachGroup_cases (hmembership : Membership machine state)
    (hcall : waycaScGroupAttachGroup machine state g father = some (next, ret)) :
    (ret < 0 ∧ next = state) ∨
      ret = 0 ∧ ∃ links, GroupAttached machine state g father links next := by
  rcases attachGroup_effect hmembership hcall with hrefused | ⟨hzero, links, -, hattached⟩
  · exact .inl hrefused
  · exact .inr ⟨hzero, links, hattached⟩

/-! ## Detaching a group -/

/-- The group left its father, which took back its CPUs. -/
structure GroupDetached (machine : Machine) (state : State) (g father : GroupId)
    (links : Links GroupId GroupId) (next : State) : Prop where
  live_group : LiveGroup machine state g
  live_father : LiveGroup machine state father
  ne : g ≠ father
  member : (state.group g).father = some father
  wellLinked : WellLinked (LiveGroup machine state) (LiveGroup machine state) links
  owner_eq : links.owner = Function.update state.groupLinks.owner g none
  count_eq : links.count =
    Function.update state.groupLinks.count father (state.groupLinks.count father - 1)
  next_eq : next =
    ((state.waycaScAssert (decide (cpuCount (state.group father).used = 0 →
      0 < (state.group father).rollOverCnts))).setGroup father
        (releaseGroup (state.group father) (state.group g))).setGroupLinks links

theorem releaseGroup_eq (father group : WaycaScGroup) :
    releaseGroup father group = { father with
        used := (releaseGroup father group).used
        rollOverCnts := (releaseGroup father group).rollOverCnts } := rfl

theorem sameLinks_releaseGroup (state : State) (father : GroupId) (group : WaycaScGroup) :
    SameLinks state (state.setGroup father (releaseGroup (state.group father) group)) := by
  rw [releaseGroup_eq]
  exact sameLinks_setGroup state father rfl rfl rfl rfl rfl rfl

theorem detachGroup_accepted (hmembership : Membership machine state)
    (hgroup : LiveGroup machine state g) (hfather : LiveGroup machine state father)
    (hne : g ≠ father) (hmember : (state.group g).father = some father) :
    ∃ next links, waycaScGroupDetachGroup machine state g father = some (next, 0) ∧
      state.groupLinks.remove machine.groupsArraySize father g = some links ∧
      GroupDetached machine state g father links next := by
  obtain ⟨found, hsearch, hfound⟩ :=
    hmembership.groups.search_eq (group_capacity machine state) hfather hgroup
  have htrue : found = true := hfound.mpr hmember
  obtain ⟨links, hremove, hwell, howner, hcount⟩ :=
    hmembership.groups.remove (group_capacity machine state) hgroup hmember
  have hlinks := (sameLinks_releaseGroup (state.waycaScAssert
    (decide (cpuCount (state.group father).used = 0 →
      0 < (state.group father).rollOverCnts))) father (state.group g)).groupLinks
  refine ⟨_, links, ?_, hremove, ⟨hgroup, hfather, hne, hmember, hwell, howner, hcount, rfl⟩⟩
  unfold LiveGroup at hgroup hfather
  unfold waycaScGroupDetachGroup waycaGroupDeleteGroup isGroupInFather
  simp only [hgroup, hfather, hne, Bool.not_true, Bool.or_self, Bool.false_eq_true, if_false,
    hsearch, htrue, Option.bind_eq_bind, Option.bind_some, State.waycaScAssert_group]
  rw [State.waycaScAssert_group] at hlinks
  rw [hlinks]
  change (state.groupLinks.remove machine.groupsArraySize father g).bind _ = _
  rw [hremove]
  rfl

theorem detachGroup_cases (hmembership : Membership machine state)
    (hcall : waycaScGroupDetachGroup machine state g father = some (next, ret)) :
    (ret < 0 ∧ next = state ∧ ¬ (LiveGroup machine state g ∧ LiveGroup machine state father ∧
          (state.group g).father = some father)) ∨
      ret = 0 ∧ ∃ links, GroupDetached machine state g father links next := by
  by_cases hmember : LiveGroup machine state g ∧ LiveGroup machine state father ∧ g ≠ father ∧
      (state.group g).father = some father
  · obtain ⟨hgroup, hfather, hne, hmember⟩ := hmember
    obtain ⟨after, links, hdone, -, hdetached⟩ :=
      detachGroup_accepted hmembership hgroup hfather hne hmember
    cases hdone.symm.trans hcall
    exact .inr ⟨rfl, links, hdetached⟩
  · unfold waycaScGroupDetachGroup at hcall
    split at hcall
    next hinvalid =>
      cases hcall
      refine .inl ⟨by decide, rfl, ?_⟩
      rintro ⟨hgroup, hfather, -⟩
      unfold LiveGroup at hgroup hfather
      simp [hgroup, hfather] at hinvalid
    next hvalid =>
      simp only [Bool.or_eq_true, Bool.not_eq_true', not_or, Bool.not_eq_false] at hvalid
      split at hcall
      next => cases hcall
      next hne =>
        obtain ⟨found, hsearch, hfound⟩ :=
          hmembership.groups.search_eq (group_capacity machine state) hvalid.2 hvalid.1
        have hmissing := mt hfound.mp fun hin => hmember ⟨hvalid.1, hvalid.2, hne, hin⟩
        unfold waycaGroupDeleteGroup isGroupInFather at hcall
        rw [hsearch, Bool.eq_false_iff.mpr hmissing] at hcall
        cases hcall
        exact .inl ⟨by decide, rfl, fun hin => hmember ⟨hin.1, hin.2.1, hne, hin.2.2⟩⟩

/-! ## Setting an attribute, creating and destroying a group -/

/-- The state in which `wayca_sc_group_set_attr` re-arranges. -/
def State.withAttr (state : State) (g : GroupId) (attr : Attr) : State :=
  state.setGroup g { state.group g with attr := attr }

theorem sameLinks_withAttr (state : State) (g : GroupId) (attr : Attr) :
    SameLinks state (state.withAttr g attr) :=
  sameLinks_setGroup state g rfl rfl rfl rfl rfl rfl

theorem setAttr_cases (hcall : waycaScGroupSetAttr machine state g attr = some (next, ret)) :
    (ret < 0 ∧ next = state) ∨ ret = 0 ∧ ∃ wanted, attr = some wanted ∧ LiveGroup machine state g ∧
        waycaGroupRearrangeGroup machine rearrangeDepth (state.withAttr g wanted) g =
          some (next, 0) := by
  unfold waycaScGroupSetAttr at hcall
  split at hcall
  next =>
    cases hcall
    exact .inl ⟨by decide, rfl⟩
  next wanted =>
    split at hcall
    next =>
      cases hcall
      exact .inl ⟨by decide, rfl⟩
    next hvalid =>
      obtain ⟨⟨middle, code⟩, hrearrange, hlast⟩ := Option.bind_eq_some_iff.mp hcall
      rcases rearrange_result hrearrange with rfl | ⟨hneg, rfl⟩
      · cases hlast
        exact .inr ⟨rfl, wanted, rfl, by simpa [LiveGroup] using hvalid, hrearrange⟩
      · simp only [hneg, if_true] at hlast
        cases hlast
        refine .inl ⟨hneg, ?_⟩
        simp [State.setGroup]

def freshGroup (machine : Machine) : WaycaScGroup :=
  { WaycaScGroup.zeroed with
    attr := defaultGroupAttr
    nrCpusPerTopo := 1
    stride := 1
    total := totalCpuSet machine }

structure GroupCreated (machine : Machine) (state : State) (g : GroupId) (next : State) :
    Prop where
  slot : g < machine.groupsArraySize
  dead : state.groupsArray g = false
  next_eq : next = { state with
    groupsArray := Function.update state.groupsArray g true
    group := Function.update state.group g (freshGroup machine) }

theorem findFreeIdLocked_spec {array : ℕ → Bool} {size id : ℕ}
    (hfind : findFreeIdLocked array size = some id) : id < size ∧ array id = false := by
  have hmem := List.mem_of_find?_eq_some hfind
  have hprop := List.find?_some hfind
  exact ⟨List.mem_range.mp hmem, by simpa using hprop⟩

theorem arrangedLevel_default (machine : Machine) :
    arrangedLevel machine defaultGroupAttr = some (defaultGroupAttr, 1) := rfl

theorem waycaGroupInit_eq (machine : Machine) (state : State) (g : GroupId) :
    waycaGroupInit machine (state.setGroup g .zeroed) g =
      some (state.setGroup g (freshGroup machine), 0) := by
  unfold waycaGroupInit waycaGroupArrange waycaGroupRequestResource
  simp only [State.setGroup_group, update_self, arrangedLevel_default]
  simp only [State.setGroup, update_idem]
  rfl

theorem createGroup_cases {group malloc : Bool}
    (hcall : waycaScGroupCreate machine state group malloc = some (next, ret)) :
    (ret < 0 ∧ next = state) ∨ ret = 0 ∧ ∃ g, GroupCreated machine state g next := by
  unfold waycaScGroupCreate at hcall
  split at hcall
  next =>
    cases hcall
    exact .inl ⟨by decide, rfl⟩
  next =>
    split at hcall
    next =>
      cases hcall
      exact .inl ⟨by decide, rfl⟩
    next after g halloc =>
      obtain ⟨slot, hfind, hrest⟩ := Option.bind_eq_some_iff.mp halloc
      split at hrest
      next =>
        cases hrest
        obtain ⟨hslot, hdead⟩ := findFreeIdLocked_spec hfind
        rw [waycaGroupInit_eq] at hcall
        cases hcall
        exact .inr ⟨rfl, g, hslot, hdead, rfl⟩
      next => cases hrest

/-- The group had no members, left its father and is gone. -/
structure GroupDestroyed (machine : Machine) (state : State) (g : GroupId)
    (middle next : State) : Prop where
  live_group : LiveGroup machine state g
  no_threads : (state.group g).nrThreads = 0
  no_groups : (state.group g).nrGroups = 0
  leave : ((state.group g).father = none ∧ middle = state) ∨
    ∃ father links, GroupDetached machine state g father links middle
  next_eq : next = { middle with groupsArray := Function.update middle.groupsArray g false }

theorem destroyGroup_cases (hmembership : Membership machine state)
    (hcall : waycaScGroupDestroy machine state g = some (next, ret)) :
    (ret < 0 ∧ next = state) ∨ ret = 0 ∧ ∃ middle, GroupDestroyed machine state g middle next := by
  unfold waycaScGroupDestroy at hcall
  split at hcall
  next =>
    cases hcall
    exact .inl ⟨by decide, rfl⟩
  next hvalid =>
    have hlive : LiveGroup machine state g := by simpa [LiveGroup] using hvalid
    split at hcall
    next =>
      cases hcall
      exact .inl ⟨by decide, rfl⟩
    next hbusy =>
      obtain ⟨hthreads, hgroups⟩ := not_or.mp hbusy
      cases hfather : (state.group g).father with
      | none =>
          simp only [hfather] at hcall
          cases hcall
          exact .inr ⟨rfl, state, hlive, not_not.mp hthreads, not_not.mp hgroups,
            .inl ⟨hfather, rfl⟩, rfl⟩
      | some father =>
          simp only [hfather] at hcall
          obtain ⟨⟨middle, code⟩, hleave, hlast⟩ := Option.bind_eq_some_iff.mp hcall
          cases hlast
          have hlinked : state.groupLinks.owner g = some father := hfather
          have hliveFather := hmembership.groups.owner_live g father hlive hlinked
          rcases detachGroup_cases hmembership hleave with ⟨-, -, hnot⟩ | ⟨-, links, hdetached⟩
          · exact absurd ⟨hlive, hliveFather, hfather⟩ hnot
          · exact .inr ⟨rfl, middle, hlive, not_not.mp hthreads, not_not.mp hgroups,
              .inr ⟨father, links, hdetached⟩, rfl⟩

/-! ## Creating and joining a thread -/

structure ThreadCreated (machine : Machine) (state : State) (t : ThreadId)
    (startRoutine : Bool) (affinity : CpuSet) (next : State) : Prop where
  slot : t < machine.threadsArraySize
  dead : state.threadsArray t = false
  next_eq : next = State.addLoad machine
    { state with
      threadsArray := Function.update state.threadsArray t true
      thread := Function.update state.thread t
        { WaycaThread.zeroed with
          startRoutine := startRoutine
          curSet := affinity
          allowedSet := affinity } } 1 t

/-- A call that creates no thread leaves at most a record in a free slot. -/
def ThreadNotCreated (state next : State) : Prop :=
  next = state ∨ ∃ t thread, state.threadsArray t = false ∧ thread.siblings = none ∧
    thread.group = none ∧
    next = { state with thread := Function.update state.thread t thread }

theorem waycaThreadAlloc_cases {malloc : Bool}
    (halloc : waycaThreadAlloc machine state malloc = some (next, t)) :
    t < machine.threadsArraySize ∧ state.threadsArray t = false ∧
      next = { state with
        threadsArray := update state.threadsArray t true
        thread := update state.thread t .zeroed } := by
  obtain ⟨slot, hfind, hrest⟩ := Option.bind_eq_some_iff.mp halloc
  split at hrest
  next =>
    cases hrest
    obtain ⟨hslot, hdead⟩ := findFreeIdLocked_spec hfind
    exact ⟨hslot, hdead, rfl⟩
  next => cases hrest

theorem cpuOr_zero (set : CpuSet) : cpuOr cpuZero set = set := CpuSet.ext (by simp)

theorem addLoad_of_empty (machine : Machine) {state : State} (sign : ℤ)
    (hempty : (state.thread t).curSet = cpuZero) : state.addLoad machine sign t = state := by
  unfold State.addLoad
  simp [hempty, threadLoad]

theorem waycaThreadFree_fresh {thread : WaycaThread} (hdead : state.threadsArray t = false)
    (hempty : thread.curSet = cpuZero) :
    waycaThreadFree machine
        { state with
          threadsArray := update state.threadsArray t true
          thread := update state.thread t thread } t =
      some { state with thread := update state.thread t thread } := by
  unfold waycaThreadFree
  rw [waycaThreadUpdateLoad_eq, addLoad_of_empty machine _ (by simpa using hempty)]
  simp only [Option.map_some, update_idem]
  rw [← hdead, update_eq_self]

theorem waycaThreadStartRoutine_fresh {startRoutine : Bool} {affinity : CpuSet}
    (hslot : t < machine.threadsArraySize) (hdead : state.threadsArray t = false)
    (hstart : waycaThreadStartRoutine machine
      { state with
        threadsArray := update state.threadsArray t true
        thread := update state.thread t
          { WaycaThread.zeroed with startRoutine := startRoutine } } t affinity = some next) :
    ThreadCreated machine state t startRoutine affinity next := by
  simp only [waycaThreadStartRoutine, State.setThread, update_self,
    update_idem, cpuOr_zero, waycaThreadUpdateLoad_eq, if_true] at hstart
  exact ⟨hslot, hdead, (Option.some.inj hstart).symm⟩

theorem createThread_cases {wthread startRoutine : Bool} {env : CreateEnv}
    (hcall : waycaScThreadCreate machine state wthread startRoutine env = some (next, ret)) :
    ThreadNotCreated state next ∨ ∃ t, ThreadCreated machine state t true env.affinity next := by
  unfold waycaScThreadCreate at hcall
  split at hcall
  next =>
    cases hcall
    exact .inl (.inl rfl)
  next =>
    split at hcall
    next =>
      cases hcall
      exact .inl (.inl rfl)
    next after t halloc =>
      obtain ⟨hslot, hdead, rfl⟩ := waycaThreadAlloc_cases halloc
      simp only [State.setThread, update_self, update_idem] at hcall
      split at hcall
      next =>
        rw [waycaThreadFree_fresh hdead rfl] at hcall
        cases hcall
        exact .inl (.inr ⟨t, _, hdead, rfl, rfl, rfl⟩)
      next =>
        obtain ⟨started, hstarted, hret⟩ := Option.bind_eq_some_iff.mp hcall
        cases hret
        exact .inr ⟨t, waycaThreadStartRoutine_fresh hslot hdead hstarted⟩

theorem pidAttach_cases {wthread : Bool} {pid : ℤ} {env : AttachEnv}
    (hcall : waycaScPidAttachThread machine state wthread pid env = some (next, ret)) :
    ThreadNotCreated state next ∨
      ∃ t affinity, ThreadCreated machine state t false affinity next := by
  unfold waycaScPidAttachThread at hcall
  split at hcall
  next =>
    cases hcall
    exact .inl (.inl rfl)
  next =>
    split at hcall
    next =>
      cases hcall
      exact .inl (.inl rfl)
    next after t halloc =>
      obtain ⟨hslot, hdead, rfl⟩ := waycaThreadAlloc_cases halloc
      simp only [State.setThread, update_self, update_idem] at hcall
      split at hcall
      next =>
        rw [waycaThreadFree_fresh hdead rfl] at hcall
        cases hcall
        exact .inl (.inr ⟨t, _, hdead, rfl, rfl, rfl⟩)
      next affinity haffinity =>
        obtain ⟨started, hstarted, hret⟩ := Option.bind_eq_some_iff.mp hcall
        cases hret
        exact .inr ⟨t, affinity, waycaThreadStartRoutine_fresh hslot hdead hstarted⟩

def LeftGroup (machine : Machine) (state : State) (t : ThreadId) (middle : State) : Prop :=
  ((state.thread t).group = none ∧ middle = state) ∨
    ∃ g links, ThreadDetached machine state t g links middle

theorem leaveGroup_cases {middle : State} (hmembership : Membership machine state)
    (hlive : LiveThread machine state t)
    (hleave : leaveGroup machine state t = some middle) : LeftGroup machine state t middle := by
  unfold leaveGroup at hleave
  cases hgroup : (state.thread t).group with
  | none =>
      simp only [hgroup] at hleave
      cases hleave
      exact .inl ⟨hgroup, rfl⟩
  | some g =>
      simp only [hgroup] at hleave
      obtain ⟨⟨result, code⟩, hdetach, rfl⟩ := Option.map_eq_some_iff.mp hleave
      have hlinked : state.threadLinks.owner t = some g := hgroup
      have hliveGroup := hmembership.threads.owner_live t g hlive hlinked
      rcases detachThread_cases hmembership hdetach with ⟨-, -, hnot⟩ | ⟨-, links, hdetached⟩
      · exact absurd ⟨hlive, hliveGroup, hgroup⟩ hnot
      · exact .inr ⟨g, links, hdetached⟩

/-- The state once a thread that left its group is freed and its load is taken
off as often as the call does it. -/
def State.freed (machine : Machine) (middle : State) (times : ℤ) (t : ThreadId) : State :=
  { middle.addLoad machine (-times) t with
    threadsArray := Function.update middle.threadsArray t false }

theorem joinThread_cases {pthreadJoin : ℕ} (hmembership : Membership machine state)
    (hcall : waycaScThreadJoin machine state t pthreadJoin = some (next, ret)) :
    next = state ∨ ∃ middle, LiveThread machine state t ∧ LeftGroup machine state t middle ∧
      next = middle.freed machine 1 t := by
  unfold waycaScThreadJoin at hcall
  split at hcall
  next =>
    cases hcall
    exact .inl rfl
  next hvalid =>
    have hlive : LiveThread machine state t := by simpa [LiveThread] using hvalid
    split at hcall
    next =>
      cases hcall
      exact .inl rfl
    next =>
      obtain ⟨middle, hleave, hrest⟩ := Option.bind_eq_some_iff.mp hcall
      simp only [waycaThreadFree, waycaThreadUpdateLoad_eq, Option.map_some,
        Option.bind_eq_bind, Option.bind_some] at hrest
      cases hrest
      exact .inr ⟨middle, hlive, leaveGroup_cases hmembership hlive hleave, rfl⟩

/-- A refused detach changes nothing; an accepted one takes the load of the
process off twice, in the call itself and when the thread is freed. -/
theorem pidDetach_effect (hcall : waycaScPidDetachThread machine state t = some (next, ret)) :
    (ret < 0 ∧ next = state ∧
        ¬(LiveThread machine state t ∧ (state.thread t).startRoutine = false)) ∨
      (LiveThread machine state t ∧ (state.thread t).startRoutine = false) ∧
        ∃ middle, leaveGroup machine state t = some middle ∧
          next = middle.freed machine 2 t := by
  unfold waycaScPidDetachThread at hcall
  split at hcall
  next hinvalid =>
    cases hcall
    refine .inl ⟨by decide, rfl, fun hlive => ?_⟩
    have hvalid : isThreadIdValid machine state t = true := hlive.1
    simp [hvalid] at hinvalid
  next hvalid =>
    have hlive : LiveThread machine state t := by simpa [LiveThread] using hvalid
    split at hcall
    next hown =>
      cases hcall
      exact .inl ⟨by decide, rfl, fun hforeign => by simp [hforeign.2] at hown⟩
    next hforeign =>
      obtain ⟨middle, hleave, hrest⟩ := Option.bind_eq_some_iff.mp hcall
      simp only [waycaThreadFree, waycaThreadUpdateLoad_eq, Option.map_some,
        Option.bind_eq_bind, Option.bind_some, Bool.false_eq_true, if_false] at hrest
      cases hrest
      refine .inr ⟨⟨hlive, by simpa using hforeign⟩, middle, hleave, ?_⟩
      unfold State.freed State.addLoad
      congr 1
      funext c
      ring

theorem pidDetach_cases (hmembership : Membership machine state)
    (hcall : waycaScPidDetachThread machine state t = some (next, ret)) :
    next = state ∨ ∃ middle, LiveThread machine state t ∧ LeftGroup machine state t middle ∧
      next = middle.freed machine 2 t := by
  rcases pidDetach_effect hcall with ⟨-, hsame, -⟩ | ⟨⟨hlive, -⟩, middle, hleave, hfreed⟩
  · exact .inl hsame
  · exact .inr ⟨middle, hlive, leaveGroup_cases hmembership hlive hleave, hfreed⟩

theorem setThreadAttr_effect {setaffinity : ℤ}
    (hcall : waycaScThreadSetAttr machine state t attr setaffinity = some (next, ret)) :
    (next = state ∧ ¬(LiveThread machine state t ∧ attr ≠ none)) ∨
      (LiveThread machine state t ∧ attr ≠ none) ∧ ∃ wanted,
        next = State.addLoad machine
          (state.setThread t { state.thread t with attr := wanted })
          (if (state.thread t).group = none then 0 else 1) t := by
  unfold waycaScThreadSetAttr at hcall
  split at hcall
  next hinvalid =>
    cases hcall
    refine .inl ⟨rfl, fun hlive => ?_⟩
    have hvalid : isThreadIdValid machine state t = true := hlive.1
    simp [hvalid] at hinvalid
  next hvalid =>
    have hlive : LiveThread machine state t := by simpa [LiveThread] using hvalid
    split at hcall
    next =>
      cases hcall
      exact .inl ⟨rfl, fun hgiven => hgiven.2 rfl⟩
    next wanted =>
      refine .inr ⟨⟨hlive, Option.some_ne_none wanted⟩, wanted, ?_⟩
      simp only [waycaGroupRearrangeThread, waycaThreadUpdateLoad_eq, if_true,
        State.setThread_thread, update_self] at hcall
      split at hcall
      next hgroup =>
        rw [if_neg hgroup]
        cases hcall
        rfl
      next hgroup =>
        rw [if_pos (not_not.mp hgroup)]
        cases hcall
        simp only [State.addLoad, zero_mul, add_zero]

theorem setThreadAttr_cases {setaffinity : ℤ}
    (hcall : waycaScThreadSetAttr machine state t attr setaffinity = some (next, ret)) :
    next = state ∨ ∃ wanted sign,
      next = State.addLoad machine (state.setThread t { state.thread t with attr := wanted })
        sign t := by
  rcases setThreadAttr_effect hcall with ⟨hsame, -⟩ | ⟨-, wanted, hnext⟩
  · exact .inl hsame
  · exact .inr ⟨wanted, _, hnext⟩

end WaycaScheduler
