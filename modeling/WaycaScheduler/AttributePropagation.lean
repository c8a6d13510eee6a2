import WaycaScheduler.RangeContainment

/-!
# A change of an attribute reaches all members

`wayca_sc_group_set_attr` re-arranges the group and, from there, every direct
and indirect member.  When the new level fits and the levels below the group
are in order, no call on a member is refused.  Nothing has to be known of the
books before, since the father of the group hands out one of its topology sets in
every reachable state, and everything below the group is made anew.

The results of the calls on the members are not looked at, so a member whose
call fails keeps the CPUs it had, and the change is reported as a success.
-/

namespace WaycaScheduler

open AlignedBlocks IntrusiveList OwnedLists Transition

variable {machine : Machine} {state next : State}

theorem levels_fall {g x : GroupId}
    (hlevels : ∀ m father, MemberOf machine state m father → Under machine state father g →
      (state.group m).nrCpusPerTopo < (state.group father).nrCpusPerTopo)
    (hunder : Under machine state x g) :
    (state.group x).nrCpusPerTopo ≤ (state.group g).nrCpusPerTopo := by
  induction hunder using Relation.ReflTransGen.head_induction_on with
  | refl => exact le_refl _
  | head hmember habove ih => exact (hlevels _ _ hmember habove).le.trans ih

theorem withAttr_nrCpusPerTopo (state : State) (g x : GroupId) (attr : Attr) :
    ((state.withAttr g attr).group x).nrCpusPerTopo = (state.group x).nrCpusPerTopo := by
  by_cases hx : x = g
  · simp [hx, State.withAttr]
  · rw [withAttr_group_other hx]

/-! ## The groups of every run are on the machine -/

/-- The machine is divided by the level of the group, which has CPUs of the
machine only. -/
structure OnMachine (machine : Machine) (group : WaycaScGroup) : Prop where
  level_pos : 0 < group.nrCpusPerTopo
  whole : WholeBlocks group.nrCpusPerTopo (totalCpuSet machine).cpus
  inside : group.total.cpus ⊆ (totalCpuSet machine).cpus

def GroupsOnMachine (machine : Machine) (state : State) : Prop :=
  ∀ x, LiveGroup machine state x → OnMachine machine (state.group x)

section OnMachine

variable {g : GroupId}

theorem OnMachine.congr {group after : WaycaScGroup} (hgroup : OnMachine machine group)
    (hshape : SameShape group after) : OnMachine machine after := by
  constructor
  · rw [hshape.level_eq]
    exact hgroup.level_pos
  · rw [hshape.level_eq]
    exact hgroup.whole
  · rw [hshape.total_eq]
    exact hgroup.inside

theorem OnMachine.request {loads : ℕ → ℤ} {father after : WaycaScGroup} {granted : CpuSet}
    (huniform : UniformMachine machine) (hfather : OnMachine machine father)
    (hrequest : waycaGroupRequestResourceFromFather loads father = some (after, granted)) :
    granted.cpus ⊆ (totalCpuSet machine).cpus ∧
      (1 < father.nrCpusPerTopo → ∃ index, granted.cpus = block father.nrCpusPerTopo index) := by
  have hpos := hfather.level_pos
  have hend : ∀ cpu ∈ totalCpuSet machine, cpu / father.nrCpusPerTopo * father.nrCpusPerTopo +
      father.nrCpusPerTopo ≤ CPU_SETSIZE := fun cpu => block_end_le hpos hfather.whole
  have hsize := hend 0 huniform.zero_mem_total
  rw [Nat.zero_div, Nat.zero_mul, Nat.zero_add] at hsize
  rcases request_cases hpos hsize (fun cpu hcpu => hend cpu (hfather.inside hcpu)) hrequest with
    ⟨cpu, hcpu, hgranted⟩ | hgranted
  · rw [hgranted]
    exact ⟨hfather.whole cpu (hfather.inside hcpu), fun _ => ⟨_, rfl⟩⟩
  · rw [hgranted]
    split
    next hone => exact ⟨Finset.empty_subset _, by omega⟩
    next =>
      have hfirst := hfather.whole 0 huniform.zero_mem_total
      rw [Nat.zero_div] at hfirst
      exact ⟨hfirst, fun _ => ⟨0, rfl⟩⟩

theorem Arranged.onMachine {attr : Attr} {level : ℕ} {total : CpuSet} {arranged : State}
    (huniform : UniformMachine machine) (hmembership : Membership machine state)
    (hlive : LiveGroup machine state g) (hself : (state.group g).father ≠ some g)
    (hgroups : GroupsOnMachine machine state)
    (harranged : Arranged machine state g attr level total arranged) :
    GroupsOnMachine machine arranged := by
  intro x hx
  by_cases hxg : x = g
  · subst hxg
    rw [harranged.group_self]
    refine ⟨huniform.level_pos harranged.arrangedLevel_eq,
      huniform.total_whole harranged.arrangedLevel_eq, ?_⟩
    change total.cpus ⊆ _
    cases hf : (state.group x).father with
    | none => rw [(harranged.root hf).1]
    | some father =>
        have hne : father ≠ x := fun heq => hself (heq ▸ hf)
        obtain ⟨after, hgrant, -⟩ := harranged.member father hf hne
        have hliveFather := hmembership.groups.owner_live x father hlive hf
        exact ((hgroups father hliveFather).request huniform hgrant).1
  · have hbefore := hgroups x (harranged.sameLinks.liveGroup.mp hx)
    by_cases hf : (state.group g).father = some x
    · obtain ⟨after, hgrant, hafter⟩ := harranged.member x hf hxg
      rw [hafter, requested_fields hgrant]
      exact hbefore.congr ⟨rfl, rfl, rfl⟩
    · rw [harranged.other x hxg hf]
      exact hbefore

theorem QuietLevels.onMachine (hquiet : QuietLevels machine state next)
    (hgroups : GroupsOnMachine machine state) : GroupsOnMachine machine next :=
  fun x hx => (hgroups x (hquiet.live x hx)).congr (hquiet.shape x)

theorem rearrange_onMachine {depth : ℕ} {ret : ℤ} (huniform : UniformMachine machine)
    (hmembership : Membership machine state) (hlive : LiveGroup machine state g)
    (hgroups : GroupsOnMachine machine state)
    (hrearrange : waycaGroupRearrangeGroup machine depth state g = some (next, ret)) :
    GroupsOnMachine machine next := by
  refine rearrange_keeps (GroupsOnMachine machine) ?_ ?_ hmembership hlive hgroups hrearrange
  · intro before x attr level total arranged hbefore hx hself hinv harranged
    exact harranged.onMachine huniform hbefore hx hself hinv
  · intro before x t after _ _ hinv hbody
    exact (rearrangeMember_quietLevels hbody).onMachine hinv

theorem step_onMachine {call : Call} {ret : ℤ} (huniform : UniformMachine machine)
    (hmembership : Membership machine state) (hgroups : GroupsOnMachine machine state)
    (hstep : step machine state call = some (next, ret)) : GroupsOnMachine machine next := by
  cases step_levelChange hmembership hstep with
  | quiet hquiet => exact hquiet.onMachine hgroups
  | created g hcreated =>
      intro x hx
      by_cases hxg : x = g
      · rw [hxg, hcreated.group_self]
        exact ⟨Nat.one_pos, huniform.total_whole (arrangedLevel_default machine), subset_rfl⟩
      · rw [hcreated.group_other hxg]
        exact hgroups x (((hcreated.live_iff x).mp hx).resolve_right hxg)
  | attached g father links hattached =>
      refine rearrange_onMachine huniform (hattached.linked_membership hmembership)
        hattached.live_group ?_ hattached.rearrange
      exact fun x hx => (hgroups x hx).congr ⟨rfl, rfl, rfl⟩
  | attrSet g wanted hcall hlive hrearrange =>
      have hwith := sameLinks_withAttr state g wanted
      refine rearrange_onMachine huniform (hwith.membership hmembership)
        (hwith.liveGroup.mpr hlive) ?_ hrearrange
      intro x hx
      obtain ⟨hpos, hwhole, hinside⟩ := hgroups x (hwith.liveGroup.mp hx)
      by_cases hxg : x = g
      · subst hxg
        have hself : (state.withAttr x wanted).group x = { state.group x with attr := wanted } := by
          simp [State.withAttr]
        rw [hself]
        exact ⟨hpos, hwhole, hinside⟩
      · rw [withAttr_group_other hxg]
        exact ⟨hpos, hwhole, hinside⟩

theorem onMachine_of_reachable (huniform : UniformMachine machine)
    (hreach : Reachable machine state) : GroupsOnMachine machine state := by
  have hrun := hreach.keeps (fun s => Membership machine s ∧ GroupsOnMachine machine s)
    ⟨membership_start machine, fun g hlive => absurd hlive (not_liveGroup_start machine g)⟩
    fun _ _ _ _ ⟨hmembership, hgroups⟩ _ hstep => ⟨step_membership hmembership hstep,
      step_onMachine huniform hmembership hgroups hstep⟩
  exact hrun.2

end OnMachine

/-- A member is below the level that the attribute names, which is not above the
level of the group's father.  Without members nothing is asked. -/
def MembersFit (machine : Machine) (state : State) (g : GroupId) (attr : Attr) : Prop :=
  ∀ arranged ∈ arrangedLevel machine attr, ∀ m < machine.groupsArraySize,
    LiveGroup machine state m → (state.group m).father = some g →
      (state.group m).nrCpusPerTopo < arranged.2 ∧
        ∀ father ∈ (state.group g).father, arranged.2 ≤ (state.group father).nrCpusPerTopo

instance (machine : Machine) (state : State) (g : GroupId) (attr : Attr) :
    Decidable (MembersFit machine state g attr) := by
  unfold MembersFit
  infer_instance

/-- On a uniform machine, in every reachable state: when the new level is above
those of the members and not above that of the father, and the levels of all
indirect members are below those of their fathers, a change of the attribute that
returns zero gives every direct and indirect member one topology set of its father
and places every thread of such a member inside its group. -/
theorem attribute_reaches_members
    {g : GroupId} {attr : Attr} (huniform : UniformMachine machine)
    (hreach : Reachable machine state) (hfits : MembersFit machine state g attr)
    (hbelow : ∀ m father, MemberOf machine state m father →
      Relation.TransGen (MemberOf machine state) father g →
      (state.group m).nrCpusPerTopo < (state.group father).nrCpusPerTopo)
    (hcall : waycaScGroupSetAttr machine state g (some attr) = some (next, 0)) :
    ∀ m father, MemberOf machine next m father → Under machine next father g →
      (next.group m).total.cpus ⊆ (next.group father).total.cpus ∧
      (∃ index, (next.group m).total.cpus =
        block (next.group father).nrCpusPerTopo index) ∧
      ∀ t, LiveThread machine next t → (next.thread t).group = some m →
        (next.thread t).curSet.cpus.Nonempty ∧
          (next.thread t).curSet.cpus ⊆ (next.group m).total.cpus := by
  obtain ⟨hmembership, harranged⟩ := levelsArranged_of_reaches hreach
  rcases setAttr_cases hcall with ⟨hneg, -⟩ | ⟨-, wanted, hwanted, hlive, hrearrange⟩
  · exact absurd hneg (lt_irrefl 0)
  · cases hwanted
    have hwith := sameLinks_withAttr state g attr
    rcases rearrange_spec (hwith.membership hmembership) (hwith.liveGroup.mpr hlive)
        hrearrange with ⟨hneg, -⟩ | ⟨-, newAttr, level, total, arranged, hdone⟩
    · exact absurd hneg (lt_irrefl 0)
    · have hfinal : SameLinks state next := hwith.trans hdone.sameLinks
      intro m father hm hpath
      have hmBefore := hfinal.memberOf_iff.mp hm
      have hmembers : ∀ x y, MemberOf machine next x y → MemberOf machine state x y :=
        fun x y h => hfinal.memberOf_iff.mp h
      have hpathBefore : Under machine state father g :=
        Relation.ReflTransGen.mono hmembers father g hpath
      have hmUnder : Under machine state m g := .head hmBefore hpathBefore
      obtain ⟨child, hchild⟩ : ∃ child, MemberOf machine state child g := by
        rcases Relation.ReflTransGen.cases_tail hpathBefore with rfl | ⟨child, -, hchild⟩
        · exact ⟨m, hmBefore⟩
        · exact ⟨child, hchild⟩
      have hlevel := hdone.arrange.arrangedLevel_eq
      rw [withAttr_attr] at hlevel
      have hfit : ∀ x, MemberOf machine state x g → (state.group x).nrCpusPerTopo < level ∧
          ∀ father ∈ (state.group g).father, level ≤ (state.group father).nrCpusPerTopo :=
        fun x hx => hfits (newAttr, level) hlevel x (liveGroup_iff.mp hx.1).1 hx.1 hx.2
      have hfirst : ∀ x, MemberOf machine state x g →
          (state.group x).nrCpusPerTopo < (state.group g).nrCpusPerTopo := by
        intro x hx
        have hlt := hdone.above_members x (hwith.liveGroup.mpr hx.1) ((hwith.father x).trans hx.2)
        rwa [withAttr_nrCpusPerTopo, withAttr_nrCpusPerTopo] at hlt
      have hlevels : ∀ x y, MemberOf machine state x y → Under machine state y g →
          (state.group x).nrCpusPerTopo < (state.group y).nrCpusPerTopo := by
        intro x y hx hunder
        rcases Relation.reflTransGen_iff_eq_or_transGen.mp hunder with rfl | hpath
        · exact hfirst x hx
        · exact hbelow x y hx hpath
      have hstart : Settling machine (fun x => Under machine state x g)
          ⟨fun _ => False, fun _ => False, fun _ => False, fun _ => False⟩ state :=
        ⟨hmembership, fun x hx _ => harranged x hx, hlevels, fun _ _ h => h.elim,
          fun _ _ h => h.elim, fun _ _ _ _ h => h.elim, fun _ _ _ _ _ h => h.elim⟩
      have hsettled := hstart.rearranged huniform
        (settlesMember huniform (fun m father hm htree => .head hm htree) _) (.refl state)
        hlive .refl hdone ?_ fun x hx => (hfit x hx).1
      · obtain ⟨hinside, hblock⟩ := hsettled.inside m father hm hpathBefore (.inr hmUnder)
        refine ⟨hinside, hblock, ?_⟩
        intro t ht hin
        have hplaced := hsettled.placed t m ht hin hmUnder
          (.inr ⟨m, (hfinal.thread_group t).symm.trans hin, hmUnder⟩)
        exact ⟨hplaced.nonempty, hplaced.subset⟩
      · intro above hf
        have hlt := hdone.below_father above ((hwith.father g).trans hf)
        rw [withAttr_nrCpusPerTopo, withAttr_nrCpusPerTopo] at hlt
        have hne : above ≠ g := by
          rintro rfl
          exact hlt.false
        have hliveAbove := hmembership.groups.owner_live g above hlive hf
        have hchildPos := huniform.level_pos (harranged child hchild.1)
        obtain ⟨hchildBelow, hle⟩ := hfit child hchild
        have hmany : 1 < (state.group above).nrCpusPerTopo := by
          have := hle above hf
          omega
        have hdrawn := (onMachine_of_reachable huniform hreach above hliveAbove).request huniform
          (hdone.arrange.granted hf hne)
        refine ⟨⟨hne, hle above hf, harranged above hliveAbove, hdrawn.2 hmany⟩, ?_⟩
        -- the levels fall towards the members, so the father is not below the group
        rintro (hunder | hknown)
        · exact absurd (levels_fall hlevels hunder) (by omega)
        · exact hknown.elim

/-- Three groups below one another with a thread in the lowest, and the
attribute of the one in the middle is changed. -/
theorem attribute_reaches_members_chain :
    ∃ state next, Reachable eightCpus state ∧
      waycaScGroupSetAttr eightCpus state 1 (some (WT_GF_CCL ||| WT_GF_COMPACT)) =
        some (next, 0) ∧
      (next.group 1).father = some 0 ∧ MemberOf eightCpus next 2 1 ∧
      (next.thread 0).group = some 2 ∧
      (∃ index, (next.group 2).total.cpus = block (next.group 1).nrCpusPerTopo index) ∧
      (next.thread 0).curSet.cpus ⊆ (next.group 2).total.cpus := by
  have huniform : UniformMachine eightCpus := ⟨by decide, by decide, by decide⟩
  have hrun : ∃ state ∈ runCalls (step eightCpus) (fun _ _ => True) State.start
      [.groupCreate true true, .groupCreate true true, .groupCreate true true,
        .threadCreate true true ⟨true, 0, totalCpuSet eightCpus⟩,
        .groupSetAttr 0 (some WT_GF_NUMA), .groupSetAttr 1 (some WT_GF_CCL),
        .groupAttachGroup 1 0, .groupAttachGroup 2 1, .threadAttachGroup 0 2],
      MembersFit eightCpus state 1 (WT_GF_CCL ||| WT_GF_COMPACT) ∧
      (∀ m < eightCpus.groupsArraySize, ∀ father ∈ (state.group m).father,
        (state.group m).nrCpusPerTopo < (state.group father).nrCpusPerTopo) ∧
      ∃ outcome ∈ waycaScGroupSetAttr eightCpus state 1 (some (WT_GF_CCL ||| WT_GF_COMPACT)),
        outcome.2 = 0 ∧ (outcome.1.group 1).father = some 0 ∧
        (LiveGroup eightCpus outcome.1 2 ∧ (outcome.1.group 2).father = some 1) ∧
        LiveThread eightCpus outcome.1 0 ∧ (outcome.1.thread 0).group = some 2 := by
    decide +kernel
  obtain ⟨state, hreach, hfits, hlevels, ⟨next, ret⟩, hcall, rfl, hfirst, hmember, hthread, hin⟩ :=
    exists_reachable_of_runCalls hrun
  have hbelow : ∀ m father, MemberOf eightCpus state m father →
      Relation.TransGen (MemberOf eightCpus state) father 1 →
      (state.group m).nrCpusPerTopo < (state.group father).nrCpusPerTopo :=
    fun m father hm _ => hlevels m (liveGroup_iff.mp hm.1).1 father hm.2
  obtain ⟨-, hblock, hplaced⟩ := attribute_reaches_members huniform hreach hfits hbelow
    hcall 2 1 hmember .refl
  exact ⟨state, next, hreach, hcall, hfirst, hmember, hin, hblock, (hplaced 0 hthread hin).2⟩

/-- A group at the level of the NUMA node with a member at the level of the CCL
is set to single CPUs.  The call on the member is refused, the change returns
zero, and the member holds four CPUs where its father hands out single ones. -/
theorem refused_member_keeps_range :
    ∃ state next, Reachable eightCpus state ∧
      waycaScGroupSetAttr eightCpus state 0 (some WT_GF_CPU) = some (next, 0) ∧
      MemberOf eightCpus next 1 0 ∧ (next.group 0).nrCpusPerTopo = 1 ∧
      (next.group 1).total.cpus.card = 4 := by
  have hrun : ∃ state ∈ runCalls (step eightCpus) (fun _ _ => True) State.start
      [.groupCreate true true, .groupCreate true true, .groupSetAttr 0 (some WT_GF_NUMA),
        .groupSetAttr 1 (some WT_GF_CCL), .groupAttachGroup 1 0],
      ∃ outcome ∈ waycaScGroupSetAttr eightCpus state 0 (some WT_GF_CPU), outcome.2 = 0 ∧
        (LiveGroup eightCpus outcome.1 1 ∧ (outcome.1.group 1).father = some 0) ∧
        (outcome.1.group 0).nrCpusPerTopo = 1 ∧ (outcome.1.group 1).total.cpus.card = 4 := by
    decide +kernel
  obtain ⟨state, hreach, ⟨next, ret⟩, hcall, rfl, hmember, hlevel, hcard⟩ :=
    exists_reachable_of_runCalls hrun
  exact ⟨state, next, hreach, hcall, hmember, hlevel, hcard⟩

end WaycaScheduler
