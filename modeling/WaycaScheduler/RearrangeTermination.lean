import WaycaScheduler.UniformMachine

/-!
# The recursion of a re-arrangement ends

`wayca_group_rearrange_group` calls itself on every member of a group, and the
fathers may form a circle.  It ends because a call that is not refused has a
level above all members of its group: from the first nested call on, the levels
fall along the nesting, and there are five of them.  `NestedCall` says which
calls one call makes, and the calls are counted by the stacks of nested calls.
-/

namespace WaycaScheduler

open IntrusiveList OwnedLists Transition Finset

variable {call inner : State × GroupId} {depth : ℕ} {g : GroupId}
variable {outcome : State × ℤ} {wanted attr : Attr}

variable {machine : Machine} {state next : State}

/-! ## The calls of a call -/

/-- The re-arrangement returns in this state, at some depth. -/
def RearrangesTo (machine : Machine) (state : State) (g : GroupId) (next : State) : Prop :=
  ∃ depth ret, waycaGroupRearrangeGroup machine depth state g = some (next, ret)

/-- The first call is not refused, and its loop over the member groups comes to
the second. -/
structure NestedCall (machine : Machine) (call inner : State × GroupId) : Prop where
  below_father : exceedsFather call.1 call.2 = false
  above_members : ∃ largest, maxTopoCpusInChildGroups machine call.1 call.2 = some largest ∧
    largest < (call.1.group call.2).nrCpusPerTopo
  loop : ∃ middle arranged, waycaGroupArrange machine call.1 call.2 = some (middle, 0) ∧
    arranged = middle.setGroup call.2
      { middle.group call.2 with used := cpuZero, rollOverCnts := 0 } ∧
    (arranged.group call.2).nrThreads = 0 ∧ (arranged.group call.2).nrGroups ≠ 0 ∧
    Visits (fun before child => (before.group child).siblings) (RearrangesTo machine)
      (arranged.group call.2).groups arranged inner.2 inner.1

/-- The calls that `wayca_sc_group_set_attr` and `wayca_sc_group_attach_group`
make. -/
inductive FirstCall (machine : Machine) (state : State) : State × GroupId → Prop
  | setAttr (g : GroupId) (attr : Attr) (hlive : LiveGroup machine state g) :
      FirstCall machine state (state.withAttr g attr, g)
  | attach (g father : GroupId) (links : Links GroupId GroupId)
      (hlive : LiveGroup machine state g) (hfather : LiveGroup machine state father)
      (hfree : (state.group g).father = none) (hthreads : (state.group father).nrThreads = 0)
      (hinsert : state.groupLinks.insert machine.groupsArraySize father g = some links) :
      FirstCall machine state (state.setGroupLinks links, g)

/-- A re-arrangement at the top: only the group itself may have a new attribute. -/
structure CallState (machine : Machine) (call : State × GroupId) : Prop where
  membership : Membership machine call.1
  live : LiveGroup machine call.1 call.2
  others : ∀ x, LiveGroup machine call.1 x → x ≠ call.2 →
    arrangedLevel machine (call.1.group x).attr = some (call.1.level x)

structure NestedState (machine : Machine) (call : State × GroupId) : Prop where
  membership : Membership machine call.1
  live : LiveGroup machine call.1 call.2
  arranged : LevelsArranged machine call.1

theorem NestedState.callState (hnested : NestedState machine call) :
    CallState machine call :=
  ⟨hnested.membership, hnested.live, fun x hx _ => hnested.arranged x hx⟩

theorem FirstCall.callState (hfirst : FirstCall machine state call)
    (hmembership : Membership machine state) (harranged : LevelsArranged machine state) :
    CallState machine call := by
  cases hfirst with
  | setAttr g attr hlive =>
      have hwith := sameLinks_withAttr state g attr
      exact ⟨hwith.membership hmembership, hwith.liveGroup.mpr hlive,
        fun x hx hne => withAttr_othersArranged harranged hx hne⟩
  | attach g father links hlive hfather hfree hthreads hinsert =>
      obtain ⟨after, hafter, hwell, -, hcount⟩ :=
        hmembership.groups.insert (group_capacity machine state) hfather hlive hfree
      rw [hinsert, Option.some.injEq] at hafter
      subst hafter
      refine ⟨hmembership.setGroupLinks hwell ?_, hlive, fun x hx _ => harranged x hx⟩
      intro x hx
      by_cases hxf : x = father
      · rw [hxf]
        exact .inl hthreads
      · rw [hcount, Function.update_of_ne hxf]
        exact hmembership.exclusive x hx

theorem NestedCall.arranged (hcall : NestedCall machine call inner)
    (hstate : CallState machine call) :
    ∃ attr level total arranged, Arranged machine call.1 call.2 attr level total arranged ∧
      MemberOf machine call.1 inner.2 call.2 ∧ SameLinks arranged inner.1 ∧
      inner.1.level = arranged.level := by
  obtain ⟨middle, arranged, harrange, hdef, -, -, hvisits⟩ := hcall.loop
  rcases waycaGroupArrange_cases harrange with ⟨hret, -⟩ | ⟨-, attr, level, total, harranged⟩
  · exact absurd hret (by decide)
  · rw [← hdef] at harranged
    have hsame := harranged.sameLinks
    have hmembership := hsame.membership hstate.membership
    have hall := harranged.levelsArranged hstate.others
    obtain ⟨members, hmembers, hlinked, -, -⟩ :=
      hmembership.groupMembers (hsame.liveGroup.mpr hstate.live)
    have hkeeps : ∀ before child after, child ∈ members →
        SameLinks arranged before ∧ before.level = arranged.level →
        RearrangesTo machine before child after →
        SameLinks arranged after ∧ after.level = arranged.level := by
      rintro before child after hchild ⟨hlinks, hlevel⟩ ⟨depth, ret, hrun⟩
      refine ⟨hlinks.trans (sameLinks_rearrange hrun), ?_⟩
      rw [rearrange_level_same (hlinks.membership hmembership)
        (hlinks.liveGroup.mpr ((hmembers.mem_iff child).mp hchild).1) ?_ hrun, hlevel]
      intro x hx
      have hxlevel := congrFun hlevel x
      rw [hxlevel, attr_eq_of_level hxlevel]
      exact hall x (hlinks.liveGroup.mp hx)
    obtain ⟨hmem, hlinks, hlevel⟩ := hvisits.keeps
      (fun s => SameLinks arranged s ∧ s.level = arranged.level)
      (fun s hs => hs.1.group_siblings) hkeeps hlinked ⟨.refl arranged, rfl⟩
    refine ⟨attr, level, total, arranged, harranged, ?_, hlinks, hlevel⟩
    exact hsame.memberOf_iff.mp ((hmembers.mem_iff inner.2).mp hmem)

theorem NestedCall.nestedState (hcall : NestedCall machine call inner)
    (hstate : CallState machine call) : NestedState machine inner := by
  obtain ⟨attr, level, total, arranged, harranged, hmember, hlinks, hlevel⟩ := hcall.arranged hstate
  have hsame := harranged.sameLinks.trans hlinks
  refine ⟨hsame.membership hstate.membership, hsame.liveGroup.mpr hmember.1, ?_⟩
  intro x hx
  have hxlevel := congrFun hlevel x
  rw [hxlevel, attr_eq_of_level hxlevel]
  exact harranged.levelsArranged hstate.others x (hlinks.liveGroup.mp hx)

theorem NestedCall.level_lt (hcall : NestedCall machine call inner)
    (hstate : NestedState machine call) :
    (inner.1.group inner.2).nrCpusPerTopo < (call.1.group call.2).nrCpusPerTopo := by
  obtain ⟨attr, level, total, arranged, harranged, hmember, -, hlevel⟩ :=
    hcall.arranged hstate.callState
  have hsame : inner.1.level = call.1.level :=
    hlevel.trans (harranged.level_same (hstate.arranged call.2 hstate.live))
  obtain ⟨largest, hlargest, hlt⟩ := hcall.above_members
  obtain ⟨same, hspec, hbound⟩ := maxTopoCpusInChildGroups_spec hstate.membership hstate.live
  rw [hlargest, Option.some.injEq] at hspec
  rw [hspec, hbound] at hlt
  rw [nrCpusPerTopo_eq_of_level (congrFun hsame inner.2)]
  exact hlt.2 inner.2 hmember.1 hmember.2

def levelValues (machine : Machine) : Finset ℕ :=
  {1, machine.cpusInTotal, machine.cpusInCcl.toNat, machine.cpusInNode.toNat,
    machine.cpusInPackage.toNat}

theorem level_mem_values {level : ℕ}
    (hlevel : arrangedLevel machine wanted = some (attr, level)) :
    level ∈ levelValues machine := by
  unfold levelValues
  rcases arrangedLevel_sizes hlevel with rfl | rfl | hsize
  · simp
  · simp
  · simp only [levelSizes, List.mem_cons, List.not_mem_nil, or_false] at hsize
    simp only [mem_insert, mem_singleton]
    omega

/-- The number of level sizes below the level of the group of a call. -/
def levelRank (machine : Machine) (call : State × GroupId) : ℕ :=
  ((levelValues machine).filter fun size =>
    size < (call.1.group call.2).nrCpusPerTopo).card

theorem NestedState.mem_values (hstate : NestedState machine call) :
    (call.1.group call.2).nrCpusPerTopo ∈ levelValues machine :=
  level_mem_values (hstate.arranged call.2 hstate.live)

theorem NestedState.rank_lt (hstate : NestedState machine call) :
    levelRank machine call < 5 := by
  have hsmaller : (levelValues machine).filter
      (fun size => size < (call.1.group call.2).nrCpusPerTopo) ⊂ levelValues machine := by
    refine filter_ssubset.mpr ⟨_, hstate.mem_values, ?_⟩
    exact lt_irrefl _
  exact (card_lt_card hsmaller).trans_le card_le_five

theorem levelRank_lt_of_lt (hstate : NestedState machine inner)
    (hlt : (inner.1.group inner.2).nrCpusPerTopo < (call.1.group call.2).nrCpusPerTopo) :
    levelRank machine inner < levelRank machine call := by
  refine card_lt_card (Finset.ssubset_iff_subset_ne.mpr ⟨?_, ?_⟩)
  · intro size hsize
    rw [mem_filter] at hsize ⊢
    exact ⟨hsize.1, hsize.2.trans hlt⟩
  · intro heq
    have hself : (inner.1.group inner.2).nrCpusPerTopo ∈ (levelValues machine).filter
        fun size => size < (inner.1.group inner.2).nrCpusPerTopo := by
      rw [heq, mem_filter]
      exact ⟨hstate.mem_values, hlt⟩
    exact lt_irrefl _ (mem_filter.mp hself).2

theorem NestedState.length_stack {call : State × GroupId} {stack : List (State × GroupId)}
    (hstate : NestedState machine call)
    (hchain : List.IsChain (NestedCall machine) (call :: stack)) :
    stack.length ≤ levelRank machine call := by
  refine length_stack_le (NestedState machine) ?_ ?_ hstate hchain
  · exact fun outer inner houter hcall => hcall.nestedState houter.callState
  · intro outer inner houter hcall
    exact levelRank_lt_of_lt (hcall.nestedState houter.callState) (hcall.level_lt houter)

theorem CallState.length_stack {stack : List (State × GroupId)} (hstate : CallState machine call)
    (hchain : List.IsChain (NestedCall machine) (call :: stack)) : stack.length ≤ 5 := by
  cases stack with
  | nil => exact Nat.zero_le _
  | cons inner rest =>
      obtain ⟨hcall, hrest⟩ := List.isChain_cons_cons.mp hchain
      have hinner := hcall.nestedState hstate
      have hlength := hinner.length_stack hrest
      have hrank := hinner.rank_lt
      rw [List.length_cons]
      omega

theorem rearrange_deeper
    (hrearrange : waycaGroupRearrangeGroup machine depth state g = some outcome) :
    waycaGroupRearrangeGroup machine (depth + 1) state g = some outcome := by
  induction depth generalizing state g outcome with
  | zero => simp [waycaGroupRearrangeGroup] at hrearrange
  | succ depth ih =>
      have hchild : ∀ before child after, rearrangeChild machine depth before child = some after →
          rearrangeChild machine (depth + 1) before child = some after := by
        intro before child after hrun
        obtain ⟨inner, hinner, rfl⟩ := Option.map_eq_some_iff.mp hrun
        exact Option.map_eq_some_iff.mpr ⟨inner, ih hinner, rfl⟩
      rw [waycaGroupRearrangeGroup] at hrearrange ⊢
      split at hrearrange
      next hexceeds => rw [if_pos hexceeds]; exact hrearrange
      next hexceeds =>
        rw [if_neg hexceeds]
        obtain ⟨largest, hlargest, hrest⟩ := Option.bind_eq_some_iff.mp hrearrange
        refine Option.bind_eq_some_iff.mpr ⟨largest, hlargest, ?_⟩
        split at hrest
        next hlevel => rw [if_pos hlevel]; exact hrest
        next hlevel =>
          rw [if_neg hlevel]
          obtain ⟨⟨middle, ret⟩, harrange, hlater⟩ := Option.bind_eq_some_iff.mp hrest
          refine Option.bind_eq_some_iff.mpr ⟨(middle, ret), harrange, ?_⟩
          dsimp only at hlater ⊢
          split at hlater
          next hret => rw [if_pos hret]; exact hlater
          next hret =>
            rw [if_neg hret]
            split at hlater
            next hthreads => rw [if_pos hthreads]; exact hlater
            next hthreads =>
              rw [if_neg hthreads]
              split at hlater
              next hgroups =>
                rw [if_pos hgroups]
                obtain ⟨final, hloop, hfinal⟩ := Option.bind_eq_some_iff.mp hlater
                exact Option.bind_eq_some_iff.mpr ⟨final, forEach_mono hchild hloop, hfinal⟩
              next hgroups => rw [if_neg hgroups]; exact hlater

theorem rearrange_deeper_le {deeper : ℕ} (hle : depth ≤ deeper)
    (hrearrange : waycaGroupRearrangeGroup machine depth state g = some outcome) :
    waycaGroupRearrangeGroup machine deeper state g = some outcome :=
  Nat.le_induction hrearrange (fun _ _ hrun => rearrange_deeper hrun) deeper hle

theorem RearrangesTo.unique {first second : State} (hfirst : RearrangesTo machine state g first)
    (hsecond : RearrangesTo machine state g second) : first = second := by
  obtain ⟨depth, ret, hrun⟩ := hfirst
  obtain ⟨other, code, hother⟩ := hsecond
  have hboth := (rearrange_deeper_le (Nat.le_max_left depth other) hrun).symm.trans
    (rearrange_deeper_le (Nat.le_max_right depth other) hother)
  exact congrArg Prod.fst (Option.some.inj hboth)

theorem CallState.finite_calls (hstate : CallState machine call) :
    {inner | NestedCall machine call inner}.Finite := by
  cases harrange : waycaGroupArrange machine call.1 call.2 with
  | none =>
      refine Set.finite_empty.subset ?_
      rintro inner hcall
      obtain ⟨middle, arranged, hnot, -⟩ := hcall.loop
      rw [harrange] at hnot
      cases hnot
  | some outcome =>
      obtain ⟨middle, ret⟩ := outcome
      rcases waycaGroupArrange_cases harrange with
        ⟨rfl, -⟩ | ⟨rfl, attr, level, total, harranged⟩
      · refine Set.finite_empty.subset ?_
        rintro inner hcall
        obtain ⟨other, arranged, hother, -⟩ := hcall.loop
        rw [harrange, Option.some.injEq, Prod.mk.injEq] at hother
        exact absurd hother.2 (by decide)
      · set arranged := middle.setGroup call.2
          { middle.group call.2 with used := cpuZero, rollOverCnts := 0 } with hdef
        have hsame := harranged.sameLinks
        have hmembership := hsame.membership hstate.membership
        obtain ⟨members, hmembers, hlinked, -, -⟩ :=
          hmembership.groupMembers (hsame.liveGroup.mpr hstate.live)
        have hkeeps : ∀ before child after, child ∈ members → SameLinks arranged before →
            RearrangesTo machine before child after → SameLinks arranged after := by
          rintro before child after - hlinks ⟨depth, ret, hrun⟩
          exact hlinks.trans (sameLinks_rearrange hrun)
        refine (finite_visits (SameLinks arranged) (fun s hs => hs.group_siblings) hkeeps
          (fun _ _ _ _ hfirst hsecond => hfirst.unique hsecond) hlinked
          (.refl arranged)).subset ?_
        intro inner hcall
        obtain ⟨other, final, hother, hfinal, -, -, hvisits⟩ := hcall.loop
        rw [harrange, Option.some.injEq, Prod.mk.injEq] at hother
        rw [← hother.1, ← hdef] at hfinal
        rw [hfinal] at hvisits
        exact hvisits

theorem CallState.finite_stacks (hstate : CallState machine call) :
    {stack | List.IsChain (NestedCall machine) (call :: stack)}.Finite := by
  have hnested : ∀ outer inner, CallState machine outer → NestedCall machine outer inner →
      CallState machine inner := fun _ _ houter hcall => (hcall.nestedState houter).callState
  refine (Transition.finite_stacks (CallState machine) hnested
    (fun _ houter => houter.finite_calls) 5 hstate).subset ?_
  exact fun stack hchain => ⟨hchain, hstate.length_stack hchain⟩

section Returns

variable {group : WaycaScGroup} (loads : ℕ → ℤ)

theorem findIdlestSet_returns (hlevel : 0 < group.nrCpusPerTopo) (cpuset : CpuSet) :
    ∃ found, findIdlestSet loads group cpuset = some found := by
  by_cases hset : cpuset.cpus.Nonempty
  · obtain ⟨c, -, hfound⟩ := findIdlestSet_touches loads rfl hlevel hset
    exact ⟨_, hfound⟩
  · rw [CpuSet.cpus_eq_empty.mp (not_nonempty_iff_eq_empty.mp hset)]
    exact ⟨_, findIdlestSet_zero loads hlevel⟩

theorem findIdlestCore_returns (cpuset : CpuSet) :
    ∃ found, findIdlestCore loads cpuset = some found := by
  by_cases hset : cpuset.cpus.Nonempty
  · obtain ⟨c, -, hfound, -⟩ := findIdlestCore_spec loads hset
    exact ⟨_, hfound⟩
  · rw [CpuSet.cpus_eq_empty.mp (not_nonempty_iff_eq_empty.mp hset)]
    exact ⟨_, findIdlestCore_zero loads⟩

theorem findIncompleteSet_returns (hlevel : 0 < group.nrCpusPerTopo) (cpuset : CpuSet) :
    ∃ found, findIncompleteSet group cpuset = some found := by
  have hlast := cpusetFindLastSet_lt group.total
  have hfirst : -1 ≤ cpusetFindFirstSet group.total := by
    by_cases hset : group.total.cpus.Nonempty
    · obtain ⟨low, -, hlow, -⟩ := cpusetFindFirstSet_spec hset
      omega
    · rw [CpuSet.cpus_eq_empty.mp (not_nonempty_iff_eq_empty.mp hset), cpusetFindFirstSet_zero]
  obtain ⟨found, hfound, -⟩ := findIncompleteSetLoop_spec group.total cpuset hlevel
    (show (cpusetFindLastSet group.total + 1 - cpusetFindFirstSet group.total).toNat <
      CPU_SETSIZE + 2 by omega)
  exact ⟨found, hfound⟩

theorem assign_returns (hlevel : 0 < group.nrCpusPerTopo) (thread : WaycaThread) :
    ∃ assigned, waycaGroupAssignThreadResource loads group thread = some assigned := by
  have hchoose : ∃ choice, chooseTargetPos loads group = some choice := by
    unfold chooseTargetPos
    rw [if_neg hlevel.ne']
    split
    next =>
      obtain ⟨anchor, hanchor⟩ := findIncompleteSet_returns hlevel (availableSet group)
      exact ⟨_, by rw [hanchor, Option.map_some]⟩
    next =>
      obtain ⟨idlest, hidlest⟩ := findIdlestSet_returns loads hlevel (availableSet group)
      obtain ⟨pos, hpos⟩ := findIdlestCore_returns loads idlest
      exact ⟨_, by rw [hidlest, Option.bind_some, hpos, Option.map_some]⟩
  obtain ⟨choice, hchoice⟩ := hchoose
  exact ⟨_, by rw [waycaGroupAssignThreadResource, hchoice, Option.map_some]⟩

theorem request_returns {father : WaycaScGroup} (hlevel : 0 < father.nrCpusPerTopo) :
    ∃ outcome, waycaGroupRequestResourceFromFather loads father = some outcome := by
  obtain ⟨granted, hgranted⟩ := findIdlestSet_returns loads hlevel (availableSet father)
  exact ⟨_, by rw [waycaGroupRequestResourceFromFather, hgranted, Option.map_some]⟩

end Returns

theorem arrange_returns (machine : Machine) (hbelow : exceedsFather state g = false) :
    ∃ outcome, waycaGroupArrange machine state g = some outcome := by
  unfold waycaGroupArrange
  split
  next => exact ⟨_, rfl⟩
  next attr level _ =>
    unfold waycaGroupRequestResource
    simp only [State.setGroup_group, Function.update_self]
    cases hfather : (state.group g).father with
    | none => exact ⟨_, rfl⟩
    | some father =>
        have hlt : (state.group g).nrCpusPerTopo < (state.group father).nrCpusPerTopo := by
          simpa [exceedsFather, hfather] using hbelow
        have hne : father ≠ g := by
          rintro rfl
          exact lt_irrefl _ hlt
        obtain ⟨⟨after, granted⟩, hgranted⟩ := request_returns state.loads
          (show 0 < (state.group father).nrCpusPerTopo by omega)
        simp only [State.waycaScAssert_loads, State.setGroup_loads, State.waycaScAssert_group,
          State.setGroup_group, Function.update_of_ne hne, hgranted]
        exact ⟨_, rfl⟩

theorem rearrangeMember_returns (machine : Machine) (hlevel : 0 < (state.group g).nrCpusPerTopo)
    (t : ThreadId) :
    ∃ after, rearrangeMember machine g state t = some after := by
  obtain ⟨assigned, hassigned⟩ :=
    assign_returns (state.addLoad machine (-1) t).loads hlevel (state.thread t)
  unfold rearrangeMember waycaGroupRearrangeThread assignThread
  simp only [waycaThreadUpdateLoad_eq, Option.bind_eq_bind, Option.bind_some,
    State.addLoad_group, State.addLoad_thread, Bool.false_eq_true, if_false]
  exact ⟨_, by rw [hassigned]; rfl⟩

theorem rearrangeMembers_return (hmembership : Membership machine state)
    (hlive : LiveGroup machine state g) (hlevel : 0 < (state.group g).nrCpusPerTopo) :
    ∃ final, forEach (fun before t => (before.thread t).siblings) (rearrangeMember machine g)
      machine.threadsArraySize (state.group g).threads state = some final := by
  obtain ⟨members, -, hlinked, hlength, -⟩ := hmembership.threadMembers hlive
  have hreturns : ∀ before t, t ∈ members → before.level = state.level →
      ∃ after, rearrangeMember machine g before t = some after ∧ after.level = state.level := by
    intro before t _ hbefore
    rw [← nrCpusPerTopo_eq_of_level (congrFun hbefore g)] at hlevel
    obtain ⟨after, hafter⟩ := rearrangeMember_returns machine hlevel t
    exact ⟨after, hafter, (rearrangeMember_level hafter).trans hbefore⟩
  obtain ⟨final, hfinal, -⟩ :=
    foldlM_returns (fun before : State => before.level = state.level) hreturns rfl
  refine ⟨final, Eq.trans (forEach_eq_foldlM ?_ rfl hlinked hlength) hfinal⟩
  intro before t after hbefore hbody
  rw [(sameLinks_rearrangeMember hbody).thread_siblings]
  exact hbefore

theorem level_pos_of_sizes {level : ℕ} (hsizes : ∀ size ∈ levelSizes machine, size ≠ 0)
    (hlevel : arrangedLevel machine wanted = some (attr, level)) : 0 < level := by
  rcases arrangedLevel_sizes hlevel with rfl | rfl | hsize
  · exact Nat.one_pos
  · exact machine.cpusInTotal_pos
  · have hne := hsizes _ hsize
    omega

theorem CallState.returns_of {depth : ℕ} {call : State × GroupId} (hstate : CallState machine call)
    (hsizes : ∀ size ∈ levelSizes machine, size ≠ 0)
    (hinner : ∀ inner, NestedCall machine call inner →
      ∃ outcome, waycaGroupRearrangeGroup machine depth inner.1 inner.2 = some outcome) :
    ∃ outcome, waycaGroupRearrangeGroup machine (depth + 1) call.1 call.2 = some outcome := by
  obtain ⟨largest, hlargest, -⟩ := maxTopoCpusInChildGroups_spec hstate.membership hstate.live
  rw [waycaGroupRearrangeGroup]
  by_cases hexceeds : exceedsFather call.1 call.2 = true
  · exact ⟨_, if_pos hexceeds⟩
  · have hbelow : exceedsFather call.1 call.2 = false := by simpa using hexceeds
    rw [if_neg hexceeds, hlargest]
    simp only [Option.bind_eq_bind, Option.bind_some]
    by_cases hlevel : (call.1.group call.2).nrCpusPerTopo ≤ largest
    · exact ⟨_, if_pos hlevel⟩
    · rw [if_neg hlevel]
      obtain ⟨⟨middle, ret⟩, harrange⟩ := arrange_returns machine hbelow
      rw [harrange, Option.bind_some]
      rcases waycaGroupArrange_cases harrange with
        ⟨rfl, -⟩ | ⟨rfl, attr, level, total, harranged⟩
      · exact ⟨_, if_pos (show (-EINVAL : ℤ) ≠ 0 by decide)⟩
      · simp only [ne_eq, not_true_eq_false, if_false]
        set arranged := middle.setGroup call.2
          { middle.group call.2 with used := cpuZero, rollOverCnts := 0 } with hdef
        have hsame := harranged.sameLinks
        have hmembership := hsame.membership hstate.membership
        have hlive := hsame.liveGroup.mpr hstate.live
        by_cases hthreads : (arranged.group call.2).nrThreads = 0
        · by_cases hgroups : (arranged.group call.2).nrGroups = 0
          · simp only [hthreads, hgroups, not_true_eq_false, if_false]
            exact ⟨_, rfl⟩
          · simp only [hthreads, hgroups, not_true_eq_false, not_false_eq_true, if_false,
              if_true, decide_true, State.waycaScAssert_true]
            obtain ⟨members, -, hlinked, hlength, -⟩ := hmembership.groupMembers hlive
            have hruns : ∀ before child after, child ∈ members → SameLinks arranged before →
                rearrangeChild machine depth before child = some after →
                SameLinks arranged after ∧ RearrangesTo machine before child after := by
              intro before child after _ hlinks hrun
              obtain ⟨⟨final, code⟩, hcode, rfl⟩ := Option.map_eq_some_iff.mp hrun
              exact ⟨hlinks.trans (sameLinks_rearrange hcode), depth, code, hcode⟩
            have hcalls : ∀ child before, Visits (fun before child => (before.group child).siblings)
                  (RearrangesTo machine) (arranged.group call.2).groups arranged child before →
                ∃ after, rearrangeChild machine depth before child = some after := by
              intro child before hvisits
              obtain ⟨outcome, houtcome⟩ := hinner (before, child)
                ⟨hbelow, ⟨largest, hlargest, by omega⟩, middle, arranged, harrange, hdef,
                  hthreads, hgroups, hvisits⟩
              exact ⟨outcome.1, Option.map_eq_some_iff.mpr ⟨outcome, houtcome, rfl⟩⟩
            obtain ⟨final, hfinal⟩ := forEach_returns (SameLinks arranged)
              (fun s hs => hs.group_siblings) hruns hlinked hlength (.refl arranged) hcalls
            exact ⟨(final, 0), Option.bind_eq_some_iff.mpr ⟨final, hfinal, rfl⟩⟩
        · have hnone := (hmembership.exclusive call.2 hlive).resolve_left hthreads
          have hlevelPos : 0 < (arranged.group call.2).nrCpusPerTopo := by
            rw [harranged.group_self]
            exact level_pos_of_sizes hsizes harranged.arrangedLevel_eq
          obtain ⟨final, hfinal⟩ := rearrangeMembers_return hmembership hlive hlevelPos
          simp only [hthreads, hnone, not_false_eq_true, if_true, decide_true,
            State.waycaScAssert_true]
          exact ⟨(final, 0), Option.bind_eq_some_iff.mpr ⟨final, hfinal, rfl⟩⟩

theorem NestedState.returns (hsizes : ∀ size ∈ levelSizes machine, size ≠ 0)
    (hstate : NestedState machine call) (hdepth : levelRank machine call < depth) :
    ∃ outcome, waycaGroupRearrangeGroup machine depth call.1 call.2 = some outcome := by
  induction depth generalizing call with
  | zero => exact absurd hdepth (Nat.not_lt_zero _)
  | succ depth ih =>
      refine hstate.callState.returns_of hsizes ?_
      intro inner hcall
      have hinner := hcall.nestedState hstate.callState
      have hrank := levelRank_lt_of_lt hinner (hcall.level_lt hstate)
      exact ih hinner (by omega)

/-- Five levels and the group itself bound the depth. -/
theorem CallState.returns (hsizes : ∀ size ∈ levelSizes machine, size ≠ 0)
    (hstate : CallState machine call) :
    ∃ outcome, waycaGroupRearrangeGroup machine rearrangeDepth call.1 call.2 = some outcome := by
  refine hstate.returns_of hsizes ?_
  intro inner hcall
  have hinner := hcall.nestedState hstate
  exact hinner.returns hsizes hinner.rank_lt

/-- In every reachable state, also when the fathers form a circle, the call of
`wayca_group_rearrange_group` that a change of an attribute or an attach makes
nests at most five further calls in one another and makes finitely many calls
in all.  When no level of the machine has the size zero it returns. -/
theorem rearrangement_terminates {call : State × GroupId} (hreach : Reachable machine state)
    (hfirst : FirstCall machine state call) :
    (∀ stack, List.IsChain (NestedCall machine) (call :: stack) → stack.length ≤ 5) ∧
      {stack | List.IsChain (NestedCall machine) (call :: stack)}.Finite ∧
      ((∀ size ∈ levelSizes machine, size ≠ 0) →
        ∃ outcome, waycaGroupRearrangeGroup machine rearrangeDepth call.1 call.2 =
          some outcome) := by
  obtain ⟨hmembership, harranged⟩ := levelsArranged_of_reaches hreach
  have hstate := hfirst.callState hmembership harranged
  exact ⟨fun stack hchain => hstate.length_stack hchain, hstate.finite_stacks,
    fun hsizes => hstate.returns hsizes⟩

/-- Three groups that are above one another in a circle, and the attribute of
one of them is changed. -/
theorem rearrangement_terminates_circle :
    ∃ state, Reachable eightCpus state ∧ MemberOf eightCpus state 0 1 ∧
      MemberOf eightCpus state 1 2 ∧ MemberOf eightCpus state 2 0 ∧
      {stack | List.IsChain (NestedCall eightCpus)
        ((state.withAttr 1 WT_GF_ALL, 1) :: stack)}.Finite ∧
      ∃ outcome, waycaGroupRearrangeGroup eightCpus rearrangeDepth
        (state.withAttr 1 WT_GF_ALL) 1 = some outcome := by
  have hrun : ∃ state ∈ runCalls (step eightCpus) (fun _ _ => True) State.start
      [.groupCreate true true, .groupCreate true true, .groupCreate true true,
        .groupSetAttr 1 (some WT_GF_CCL), .groupSetAttr 2 (some WT_GF_NUMA),
        .groupAttachGroup 0 1, .groupAttachGroup 1 2,
        .groupSetAttr 0 (some WT_GF_ALL), .groupAttachGroup 2 0],
      (LiveGroup eightCpus state 0 ∧ (state.group 0).father = some 1) ∧
        (LiveGroup eightCpus state 1 ∧ (state.group 1).father = some 2) ∧
        LiveGroup eightCpus state 2 ∧ (state.group 2).father = some 0 := by
    decide +kernel
  obtain ⟨state, hreach, hfirst, hsecond, hthird⟩ := exists_reachable_of_runCalls hrun
  obtain ⟨-, hfinite, hreturns⟩ :=
    rearrangement_terminates hreach (.setAttr 1 WT_GF_ALL hsecond.1)
  exact ⟨state, hreach, hfirst, hsecond, hthird, hfinite, hreturns (by decide)⟩

end WaycaScheduler
