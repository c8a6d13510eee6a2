import WaycaScheduler.MemberVisits

/-!
# Range containment

On a uniform machine every thread stays inside the CPUs of its group and every
member group inside those of its father, as long as no assignment is made from
a group whose CPUs are all used, and every change of an attribute fits.  An
assignment from a group with all its CPUs used binds the thread to no CPU at all.
-/

namespace WaycaScheduler

open AlignedBlocks IntrusiveList OwnedLists Transition Function

variable {assigned : Assigned} {t : ThreadId} {ret : ℤ}
variable {g : GroupId} {links : Links GroupId ThreadId}

variable {machine : Machine} {state next : State}

section Arranging

variable {wanted attr : Attr} {level : ℕ} {total : CpuSet} {arranged : State}

theorem Arranged.levels
    (harranged : Arranged machine (state.withAttr g wanted) g attr level total arranged)
    (hlevels : Levels machine state)
    (hfather : ∀ father, (state.group g).father = some father →
      level < (state.group father).nrCpusPerTopo)
    (hmembers : ∀ m, MemberOf machine state m g → (state.group m).nrCpusPerTopo < level) :
    Levels machine arranged := by
  have hsame := (sameLinks_withAttr state g wanted).trans harranged.sameLinks
  have hlevel := harranged.level_eq
  rw [update_withAttr_level] at hlevel
  exact ⟨hsame.membership hlevels.membership,
    harranged.levelsArranged fun x => withAttr_othersArranged hlevels.arranged,
    hlevels.below.update hsame hlevel hfather fun m hm hmember => hmembers m ⟨hm, hmember⟩⟩

end Arranging

/-! ## The invariant -/

/-- All members lie in the ranges of their groups. -/
structure InRange (machine : Machine) (state : State) : Prop where
  levels : Levels machine state
  own : ∀ g, LiveGroup machine state g → OwnRange (state.group g)
  threads : ∀ t g, LiveThread machine state t → (state.thread t).group = some g →
    PlacedIn (state.group g) (state.thread t)
  groups : ∀ m father, MemberOf machine state m father →
    OneBlockOf (state.group father) (state.group m)

/-- In range, the groups that are not full can hand out more. -/
def Known.all (state : State) : Known :=
  ⟨fun _ => True, fun x => (state.group x).used ≠ (state.group x).total, fun _ => True,
    fun _ => True⟩

theorem InRange.settling (hrange : InRange machine state) :
    Settling machine (fun _ => True) (.all state) state :=
  ⟨hrange.levels.membership, fun x hx _ => hrange.levels.arranged x hx,
    fun m father hm _ => hrange.levels.below m father hm.1 hm.2, fun x hx _ => hrange.own x hx,
    fun x hx hnotFull => ⟨hrange.own x hx, hnotFull⟩,
    fun m father hm _ _ => hrange.groups m father hm,
    fun t x ht hin _ _ => hrange.threads t x ht hin⟩

theorem Settling.inRange {known : Known}
    (hsettling : Settling machine (fun _ => True) known state) (howns : ∀ x, known.owns x)
    (hinside : ∀ x, known.inside x) (hplaced : ∀ t, known.placed t) : InRange machine state :=
  ⟨⟨hsettling.membership, fun x hx => hsettling.arranged x hx trivial,
    fun m father hm hin => hsettling.below m father ⟨hm, hin⟩ trivial⟩,
    fun x hx => hsettling.owns x hx (howns x),
    fun t x ht hin => hsettling.placed t x ht hin trivial (hplaced t),
    fun m father hm => hsettling.inside m father hm trivial (hinside m)⟩

theorem InRange.of_sameShape (hrange : InRange machine state) (hlevels : Levels machine next)
    (hshape : ∀ x, LiveGroup machine next x → SameShape (state.group x) (next.group x))
    (hown : ∀ x, LiveGroup machine next x → OwnRange (next.group x))
    (hmember : ∀ m father, MemberOf machine next m father → MemberOf machine state m father)
    (hplaced : ∀ t x, LiveThread machine next t → (next.thread t).group = some x →
      PlacedIn (state.group x) (next.thread t)) : InRange machine next := by
  have hmembership := hlevels.membership
  refine ⟨hlevels, hown, ?_, ?_⟩
  · intro t x hlive hin
    have hliveGroup := hmembership.threads.owner_live t x hlive hin
    exact (hplaced t x hlive hin).congr (hshape x hliveGroup)
  · intro m father hin
    have hliveFather := hmembership.groups.owner_live m father hin.1 hin.2
    exact (hrange.groups m father (hmember m father hin)).congr (hshape father hliveFather)
      (hshape m hin.1)

theorem InRange.kept (hrange : InRange machine state) (hlevels : Levels machine next)
    (hkept : MembersKept machine state next) : InRange machine next := by
  have hsame : ∀ x, LiveGroup machine next x → next.group x = state.group x :=
    fun x hx => (hkept.group x hx).2
  refine hrange.of_sameShape hlevels ?_ ?_ ?_ ?_
  · intro x hx
    rw [hsame x hx]
    exact .refl _
  · intro x hx
    rw [hsame x hx]
    exact hrange.own x (hkept.group x hx).1
  · intro m father hin
    refine ⟨(hkept.group m hin.1).1, ?_⟩
    rw [← hsame m hin.1]
    exact hin.2
  · intro t x hthread hmember
    obtain ⟨hbefore, hmemberBefore⟩ := (hkept.member_iff t x).mp ⟨hthread, hmember⟩
    obtain ⟨hcur, hallowed⟩ := hkept.placement t hbefore
    obtain ⟨hnonempty, hsubset, heq⟩ := hrange.threads t x hbefore hmemberBefore
    refine ⟨?_, ?_, ?_⟩
    · rw [hcur]
      exact hnonempty
    · rw [hcur]
      exact hsubset
    · rw [hcur, hallowed]
      exact heq

theorem InRange.created (huniform : UniformMachine machine) (hrange : InRange machine state)
    (hlevels : Levels machine next) (hcreated : GroupCreated machine state g next) :
    InRange machine next := by
  have hlive : ∀ x, LiveGroup machine next x → x ≠ g → LiveGroup machine state x :=
    fun x hx hxg => ((hcreated.live_iff x).mp hx).resolve_right hxg
  have hmembership := hrange.levels.membership
  refine ⟨hlevels, ?_, ?_, ?_⟩
  · intro x hx
    by_cases hxg : x = g
    · rw [hxg, hcreated.group_self]
      exact ⟨⟨Nat.one_pos, huniform.total_whole (arrangedLevel_default machine)⟩,
        ⟨0, huniform.zero_mem_total⟩, Finset.empty_subset _⟩
    · rw [hcreated.group_other hxg]
      exact hrange.own x (hlive x hx hxg)
  · intro t x hthread hmember
    rw [hcreated.next_eq] at hthread hmember ⊢
    have hthread : LiveThread machine state t := hthread
    have hmember : (state.thread t).group = some x := hmember
    have hxg : x ≠ g := by
      rintro rfl
      exact hcreated.not_live (hmembership.threads.owner_live t x hthread hmember)
    simp only [update_of_ne hxg]
    exact hrange.threads t x hthread hmember
  · intro m father hin
    have hm : m ≠ g := by
      rintro rfl
      have hfather := hin.2
      rw [hcreated.group_self] at hfather
      cases hfather
    have hbefore : MemberOf machine state m father := by
      refine ⟨hlive m hin.1 hm, ?_⟩
      rw [← hcreated.group_other hm]
      exact hin.2
    have hf : father ≠ g := by
      rintro rfl
      exact hcreated.not_live (hmembership.groups.owner_live m father hbefore.1 hbefore.2)
    rw [hcreated.group_other hm, hcreated.group_other hf]
    exact hrange.groups m father hbefore

theorem InRange.attach (hrange : InRange machine state) (hlevels : Levels machine next)
    (hattached : ThreadAttached machine state t g links assigned next)
    (hopen : (state.group g).used ≠ (state.group g).total) : InRange machine next := by
  have hsame := hattached.sameLinks
  set before : WaycaScGroup :=
    { state.group g with threads := links.first g, nrThreads := links.count g }
  have hshapeBefore : SameShape (state.group g) before := ⟨rfl, rfl, rfl⟩
  have hownBefore : OwnRange before :=
    (hrange.own g hattached.live_group).congr hshapeBefore
      (hrange.own g hattached.live_group).used_subset
  obtain ⟨hown, -, -, hplaced⟩ := hownBefore.assign hopen hattached.assign
  refine hrange.of_sameShape hlevels (fun x _ => hattached.sameShape x) ?_ ?_ ?_
  · intro x hlive
    by_cases hx : x = g
    · rw [hx, hattached.group_self]
      exact hown
    · have hownOther := hrange.own x (hsame.liveGroup.mp hlive)
      rw [hattached.group_other hx]
      exact hownOther.congr ⟨rfl, rfl, rfl⟩ hownOther.used_subset
  · exact fun m father hin => hsame.memberOf_iff.mp hin
  · intro y x hlive hmember
    by_cases hy : y = t
    · subst hy
      have howner : links.owner y = some x := (hsame.thread_group y).symm.trans hmember
      rw [hattached.owner_eq, update_self, Option.some.injEq] at howner
      rw [← howner, hattached.thread_self]
      exact hplaced.congr ⟨rfl, rfl, rfl⟩
    · have howner : links.owner y = some x := (hsame.thread_group y).symm.trans hmember
      rw [hattached.owner_eq, update_of_ne hy] at howner
      obtain ⟨hnonempty, hsubset, hallowed⟩ :=
        hrange.threads y x (hsame.liveThread.mp hlive) howner
      rw [hattached.thread_other hy]
      exact ⟨hnonempty, hsubset, hallowed⟩

theorem InRange.detach (hrange : InRange machine state) (hlevels : Levels machine next)
    (hdetached : ThreadDetached machine state t g links next) : InRange machine next := by
  have hsame := hdetached.sameLinks
  obtain ⟨-, hsubset, hallowed⟩ := hrange.threads t g hdetached.live_thread hdetached.member
  rw [← hallowed] at hsubset
  refine hrange.of_sameShape hlevels (fun x _ => hdetached.sameShape x) ?_ ?_ ?_
  · intro x hlive
    have hown := hrange.own x (hsame.liveGroup.mp hlive)
    by_cases hx : x = g
    · subst hx
      rw [hdetached.group_self]
      exact hown.congr ⟨rfl, rfl, rfl⟩ (releaseThread_used_subset hown.used_subset hsubset)
    · rw [hdetached.group_other hx]
      exact hown.congr ⟨rfl, rfl, rfl⟩ hown.used_subset
  · exact fun m father hin => hsame.memberOf_iff.mp hin
  · intro y x hlive hmember
    have howner : links.owner y = some x := (hsame.thread_group y).symm.trans hmember
    rw [hdetached.owner_eq] at howner
    have hy : y ≠ t := by
      rintro rfl
      rw [update_self] at howner
      cases howner
    rw [update_of_ne hy] at howner
    obtain ⟨hnonempty, hinside, hsameSet⟩ :=
      hrange.threads y x (hsame.liveThread.mp hlive) howner
    rw [hdetached.thread_eq]
    exact ⟨hnonempty, hinside, hsameSet⟩

theorem InRange.groupDetach
    {g father : GroupId} {links : Links GroupId GroupId} (hrange : InRange machine state)
    (hlevels : Levels machine next)
    (hdetached : GroupDetached machine state g father links next) : InRange machine next := by
  have hsame := hdetached.sameLinks
  have hinside := (hrange.groups g father ⟨hdetached.live_group, hdetached.member⟩).inside
  refine hrange.of_sameShape hlevels (fun x _ => hdetached.sameShape x) ?_ ?_ ?_
  · intro x hlive
    have hown := hrange.own x (hsame.liveGroup.mp hlive)
    by_cases hx : x = father
    · subst hx
      rw [hdetached.group_father]
      exact hown.congr ⟨rfl, rfl, rfl⟩ (releaseGroup_used_subset hown.used_subset hinside)
    · rw [hdetached.group_other hx]
      exact hown.congr ⟨rfl, rfl, rfl⟩ hown.used_subset
  · intro m other hin
    have hlinked := hsame.memberOf_iff.mp hin
    have howner : links.owner m = some other := hlinked.2
    rw [hdetached.owner_eq] at howner
    have hm : m ≠ g := by
      rintro rfl
      rw [update_self] at howner
      cases howner
    rw [update_of_ne hm] at howner
    exact ⟨hlinked.1, howner⟩
  · intro t x hlive hmember
    have hthread : next.thread t = state.thread t := by
      rw [hdetached.next_eq]
      rfl
    rw [hthread] at hmember ⊢
    exact hrange.threads t x (hsame.liveThread.mp hlive) hmember

theorem InRange.groupAttach
    {g father : GroupId} {links : Links GroupId GroupId} (huniform : UniformMachine machine)
    (hrange : InRange machine state)
    (hattached : GroupAttached machine state g father links next)
    (hopen : (state.group father).used ≠ (state.group father).total) :
    InRange machine next := by
  set linked := state.setGroupLinks links
  have hlinked : Settling machine (fun _ => True) { Known.all state with inside := (· ≠ g) }
      linked := by
    have hlevels := hattached.linked_levels hrange.levels
    refine ⟨hlevels.membership, fun x hx _ => hlevels.arranged x hx,
      fun m father hm _ => hlevels.below m father hm.1 hm.2, ?_, ?_, ?_, ?_⟩
    · intro x hx _
      have hown := hrange.own x hx
      exact hown.congr ⟨rfl, rfl, rfl⟩ hown.used_subset
    · intro x hx hnotFull
      have hown := hrange.own x hx
      exact ⟨hown.congr ⟨rfl, rfl, rfl⟩ hown.used_subset, hnotFull⟩
    · intro m other hin _ hm
      have howner : links.owner m = some other := hin.2
      rw [hattached.owner_eq, update_of_ne hm] at howner
      exact (hrange.groups m other ⟨hin.1, howner⟩).congr ⟨rfl, rfl, rfl⟩ ⟨rfl, rfl, rfl⟩
    · intro t x hthread hmember _ _
      exact (hrange.threads t x hthread hmember).congr ⟨rfl, rfl, rfl⟩
  have hmember : MemberOf machine linked g father := by
    refine ⟨hattached.live_group, ?_⟩
    change links.owner g = some father
    rw [hattached.owner_eq, update_self]
  have hchild : rearrangeChild machine rearrangeDepth linked g = some next := by
    unfold rearrangeChild
    rw [hattached.rearrange]
    rfl
  have hnext := settlesMember huniform (fun _ _ _ _ => trivial) rearrangeDepth linked next g father
    _ (.refl linked) hlinked hmember trivial hopen hchild
  refine hnext.inRange (fun _ => .inl trivial) (fun x => ?_) fun _ => .inl trivial
  by_cases hx : x = g
  · exact .inr (hx ▸ .refl)
  · exact .inl hx

theorem InRange.setAttr {wanted : Attr} (huniform : UniformMachine machine)
    (hrange : InRange machine state) (hlive : LiveGroup machine state g)
    (hfits : LevelFits machine state g wanted)
    (hopen : ∀ father, (state.group g).father = some father →
      (state.group father).used ≠ (state.group father).total)
    (hrearrange : waycaGroupRearrangeGroup machine rearrangeDepth (state.withAttr g wanted) g =
      some (next, 0)) : InRange machine next := by
  have hwith := sameLinks_withAttr state g wanted
  have hmembership := hrange.levels.membership
  rcases rearrange_spec (hwith.membership hmembership) (hwith.liveGroup.mpr hlive)
      hrearrange with ⟨hneg, -⟩ | ⟨-, attr, level, total, arranged, hdone⟩
  · exact absurd hneg (lt_irrefl 0)
  · have hlevel := hdone.arrange.arrangedLevel_eq
    rw [withAttr_attr] at hlevel
    obtain ⟨hbelow, habove⟩ := hfits (attr, level) hlevel
    refine (hrange.settling.rearranged huniform (settlesMember huniform (fun _ _ _ _ => trivial) _)
      (.refl state) hlive trivial hdone ?_ fun m hm =>
        habove m (liveGroup_iff.mp hm.1).1 hm.1 hm.2).inRange (fun _ => .inl trivial)
      (fun _ => .inl trivial) fun _ => .inl trivial
    intro father hf
    have hliveFather := hmembership.groups.owner_live g father hlive hf
    have hdraws : CanDraw (state.group father) := ⟨hrange.own father hliveFather, hopen father hf⟩
    have hne : father ≠ g := by
      rintro rfl
      exact (hrange.levels.below father father hlive hf).false
    exact ⟨hdone.arrange.fitsFather hf hne (hbelow father hf).le hdraws
      (hrange.levels.arranged father hliveFather), fun _ => ⟨hbelow father hf, hdraws⟩⟩

/-- Every change of an attribute fits, and nothing is drawn from a group whose
CPUs are all used. -/
def DrawsFree (machine : Machine) (state : State) : Call → Prop
  | .groupSetAttr g (some attr) => LiveGroup machine state g →
      LevelFits machine state g attr ∧ ∀ father ∈ (state.group g).father,
        (state.group father).used ≠ (state.group father).total
  | .threadAttachGroup t g => LiveThread machine state t → LiveGroup machine state g →
      (state.thread t).group = none → (state.group g).used ≠ (state.group g).total
  | .groupAttachGroup g father => LiveGroup machine state g → LiveGroup machine state father →
      (state.group g).father = none →
      (state.group father).used ≠ (state.group father).total
  | _ => True

instance (machine : Machine) (state : State) (call : Call) :
    Decidable (DrawsFree machine state call) :=
  match call with
  | .groupSetAttr _ (some _) => by dsimp only [DrawsFree]; infer_instance
  | .threadAttachGroup _ _ => by dsimp only [DrawsFree]; infer_instance
  | .groupAttachGroup _ _ => by dsimp only [DrawsFree]; infer_instance
  | .groupSetAttr _ none | .threadCreate _ _ _ | .threadJoin _ _ | .pidAttachThread _ _ _ |
    .pidDetachThread _ | .threadSetAttr _ _ _ | .groupCreate _ _ | .groupDestroy _ |
    .threadDetachGroup _ _ | .groupDetachGroup _ _ => isTrue trivial

theorem DrawsFree.fittingCall {call : Call} (hfree : DrawsFree machine state call) :
    FittingCall machine state call := by
  cases call with
  | groupSetAttr g attr =>
      cases attr with
      | none => trivial
      | some wanted => exact fun hlive => (hfree hlive).1
  | threadCreate | threadJoin | pidAttachThread | pidDetachThread | threadSetAttr |
    groupCreate | groupDestroy | threadAttachGroup | threadDetachGroup | groupAttachGroup |
    groupDetachGroup => trivial

theorem inRange_start (machine : Machine) : InRange machine State.start := by
  refine ⟨levels_start machine, ?_, ?_, ?_⟩
  · exact fun g hlive => absurd hlive (not_liveGroup_start machine g)
  · exact fun t g hlive => absurd hlive (not_liveThread rfl)
  · exact fun m father hin => absurd hin.1 (not_liveGroup_start machine m)

theorem InRange.left {middle : State} (hrange : InRange machine state)
    (hleft : LeftGroup machine state t middle) : InRange machine middle := by
  rcases hleft with ⟨-, rfl⟩ | ⟨g, links, hdetached⟩
  · exact hrange
  · exact hrange.detach (hdetached.quietLevels.levels hrange.levels
      (hdetached.membership hrange.levels.membership)) hdetached

/-- The step of the induction, for a call that draws from free blocks. -/
theorem step_inRange {call : Call} (huniform : UniformMachine machine)
    (hrange : InRange machine state) (hfree : DrawsFree machine state call)
    (hstep : step machine state call = some (next, ret)) : InRange machine next := by
  have hmembership := hrange.levels.membership
  have hlevels := step_levels hrange.levels hfree.fittingCall hstep
  cases step_effect hmembership hstep with
  | kept hkept => exact hrange.kept hlevels hkept
  | freed t middle times hleft =>
      exact (hrange.left hleft).kept hlevels (membersKept_freed times hleft.group_eq)
  | created g hcreated => exact hrange.created huniform hlevels hcreated
  | destroyed middle hdestroyed =>
      refine InRange.kept ?_ hlevels hdestroyed.membersKept
      rcases hdestroyed.leave with ⟨-, rfl⟩ | ⟨father, links, hdetached⟩
      · exact hrange
      · exact hrange.groupDetach (hdetached.quietLevels.levels hrange.levels
          (hdetached.membership hmembership)) hdetached
  | attrSet g wanted hlive hrearrange =>
      obtain ⟨hfits, hopen⟩ := hfree hlive
      exact hrange.setAttr huniform hlive hfits hopen hrearrange
  | attached links assigned hattached =>
      exact hrange.attach hlevels hattached
        (hfree hattached.live_thread hattached.live_group hattached.free)
  | detached links hdetached => exact hrange.detach hlevels hdetached
  | groupAttached links hattached =>
      exact hrange.groupAttach huniform hattached
        (hfree hattached.live_group hattached.live_father hattached.free)
  | groupDetached links hdetached => exact hrange.groupDetach hlevels hdetached

/-- On a uniform machine, in every run whose changes of attributes fit and in
which nothing is drawn from a group whose CPUs are all used, every thread of a
group has CPUs and they are the group's, and so has every member group of a
father. -/
theorem members_in_range
    (huniform : UniformMachine machine) (hreach : Reaches machine (DrawsFree machine) state) :
    (∀ t g, LiveThread machine state t → (state.thread t).group = some g →
      (state.thread t).curSet.cpus.Nonempty ∧
        (state.thread t).curSet.cpus ⊆ (state.group g).total.cpus) ∧
    ∀ m father, LiveGroup machine state m → (state.group m).father = some father →
      (state.group m).total.cpus.Nonempty ∧
        (state.group m).total.cpus ⊆ (state.group father).total.cpus := by
  have hrange : InRange machine state :=
    hreach.keeps (InRange machine) (inRange_start machine)
      fun _ _ _ _ hbefore hfree hstep => step_inRange huniform hbefore hfree hstep
  refine ⟨?_, ?_⟩
  · intro t g hlive hmember
    obtain ⟨hnonempty, hsubset, -⟩ := hrange.threads t g hlive hmember
    exact ⟨hnonempty, hsubset⟩
  · intro m father hlive hmember
    exact ⟨(hrange.own m hlive).nonempty, (hrange.groups m father ⟨hlive, hmember⟩).inside⟩

/-- A thread in a group that is a member of a group at the level of the CCL. -/
theorem members_in_range_nested :
    ∃ state, Reaches smallMachine (DrawsFree smallMachine) state ∧
      (state.thread 0).group = some 1 ∧ (state.group 1).father = some 0 ∧
      (state.thread 0).curSet.cpus.Nonempty ∧
      (state.thread 0).curSet.cpus ⊆ (state.group 1).total.cpus ∧
      (state.group 1).total.cpus ⊆ (state.group 0).total.cpus := by
  have hrun : ∃ state ∈ runCalls (step smallMachine) (DrawsFree smallMachine) State.start
      [.groupCreate true true, .groupCreate true true, createOnSmall,
        .groupSetAttr 0 (some WT_GF_CCL), .groupAttachGroup 1 0, .threadAttachGroup 0 1],
      LiveThread smallMachine state 0 ∧ (state.thread 0).group = some 1 ∧
        LiveGroup smallMachine state 1 ∧ (state.group 1).father = some 0 := by
    decide +kernel
  obtain ⟨state, hreach, hthread, hgroup, hlive, hfather⟩ := exists_reachable_of_runCalls hrun
  obtain ⟨hthreads, hgroups⟩ := members_in_range smallMachine_uniform hreach
  obtain ⟨hnonempty, hsubset⟩ := hthreads 0 1 hthread hgroup
  exact ⟨state, hreach, hgroup, hfather, hnonempty, hsubset, (hgroups 1 0 hlive hfather).2⟩

def twoCpus : Machine where
  cpusInTotal := 2
  cpusInCcl := 2
  cpusInNode := 2
  cpusInPackage := 2
  threadsArraySize := 4
  groupsArraySize := 1
  cpusInTotal_pos := by decide

/-- Three threads on two CPUs, and the one on the second CPU leaves: both CPUs
are used, and the next thread is bound to no CPU. -/
theorem full_group_binds_to_nothing :
    UniformMachine twoCpus ∧
      ∃ state, Reaches twoCpus (fun _ call => call.singleLevel = true) state ∧
        LiveThread twoCpus state 3 ∧ (state.thread 3).group = some 0 ∧
        (state.thread 3).curSet = cpuZero := by
  have huniform : UniformMachine twoCpus := ⟨by decide, by decide, by decide⟩
  have hrun : ∃ state ∈ runCalls (step twoCpus) (fun _ call => call.singleLevel = true) State.start
      [.groupCreate true true, .threadCreate true true ⟨true, 0, totalCpuSet twoCpus⟩,
        .threadCreate true true ⟨true, 0, totalCpuSet twoCpus⟩,
        .threadCreate true true ⟨true, 0, totalCpuSet twoCpus⟩,
        .threadCreate true true ⟨true, 0, totalCpuSet twoCpus⟩,
        .threadAttachGroup 0 0, .threadAttachGroup 1 0, .threadAttachGroup 2 0,
        .threadDetachGroup 1 0, .threadAttachGroup 3 0],
      LiveThread twoCpus state 3 ∧ (state.thread 3).group = some 0 ∧
        (state.thread 3).curSet = cpuZero := by
    decide +kernel
  exact ⟨huniform, exists_reachable_of_runCalls hrun⟩

end WaycaScheduler
