import WaycaScheduler.MembershipInvariant
import Mathlib.Logic.Relation

/-!
# Levels of groups and their fathers

`wayca_group_rearrange_group` compares the level of a group with the level of
its father and of its members before it recomputes the level from the
attribute, so a change of the attribute is judged by the old level.  When every
change fits between the members and the father, each member group stays below
its father.
-/

namespace WaycaScheduler

open IntrusiveList OwnedLists Transition Function

variable {machine : Machine} {state next : State}
variable {g : GroupId}

def State.level (state : State) (g : GroupId) : Attr × ℕ :=
  ((state.group g).attr, (state.group g).nrCpusPerTopo)

/-- Every group has the level its attribute asks for. -/
def LevelsArranged (machine : Machine) (state : State) : Prop :=
  ∀ g, LiveGroup machine state g →
    arrangedLevel machine (state.group g).attr = some (state.level g)

/-- Every member of a group is at a smaller level than the group. -/
def MembersBelow (machine : Machine) (state : State) : Prop :=
  ∀ m father, LiveGroup machine state m → (state.group m).father = some father →
    (state.group m).nrCpusPerTopo < (state.group father).nrCpusPerTopo

variable {attr : Attr} {total : CpuSet} {arranged middle : State} {t : ThreadId}
  {ret : ℤ} {links : Links GroupId GroupId} {father : GroupId} {call : Call}

theorem not_liveGroup_start (machine : Machine) (g : GroupId) :
    ¬ LiveGroup machine State.start g := by
  intro hlive
  exact absurd (liveGroup_iff.mp hlive).2 (by simp [State.start])

theorem nrCpusPerTopo_eq_of_level {x : GroupId} (hlevel : next.level x = state.level x) :
    (next.group x).nrCpusPerTopo = (state.group x).nrCpusPerTopo :=
  congrArg Prod.snd hlevel

theorem attr_eq_of_level {x : GroupId} (hlevel : next.level x = state.level x) :
    (next.group x).attr = (state.group x).attr :=
  congrArg Prod.fst hlevel

/-! ## Levels during a re-arrangement -/

theorem Arranged.level_eq {level : ℕ}
    (harranged : Arranged machine state g attr level total arranged) :
    arranged.level = update state.level g (attr, level) := by
  funext x
  by_cases hx : x = g
  · subst hx
    simp [State.level, harranged.group_self]
  · rw [update_of_ne hx]
    by_cases hfather : (state.group g).father = some x
    · obtain ⟨fatherAfter, hrequest, hafter⟩ := harranged.member x hfather hx
      unfold State.level
      rw [hafter, requested_fields hrequest]
    · unfold State.level
      rw [harranged.other x hx hfather]

theorem Arranged.level_same {level : ℕ}
    (harranged : Arranged machine state g attr level total arranged)
    (hg : arrangedLevel machine (state.group g).attr = some (state.level g)) :
    arranged.level = state.level := by
  have hpair := harranged.arrangedLevel_eq
  rw [hg, Option.some.injEq] at hpair
  rw [harranged.level_eq, ← hpair, update_eq_self]

theorem level_eq_of_sameShape (hshape : ∀ x, SameShape (state.group x) (next.group x)) :
    next.level = state.level :=
  funext fun x => Prod.ext (hshape x).attr_eq (hshape x).level_eq

theorem rearrangeMember_sameShape (hmember : rearrangeMember machine g state t = some next)
    (x : GroupId) : SameShape (state.group x) (next.group x) := by
  by_cases hx : x = g
  · subst hx
    obtain ⟨assigned, hassigned, rfl⟩ := rearrangeMember_cases hmember
    obtain ⟨hgroup, -⟩ := assigned_fields hassigned
    simp only [State.addLoad_group, State.waycaScAssert_group, State.setThread_group,
      State.setGroup_group, update_self]
    rw [hgroup]
    exact ⟨rfl, rfl, rfl⟩
  · rw [rearrangeMember_group_other hmember hx]
    exact .refl _

theorem rearrangeMember_level (hmember : rearrangeMember machine g state t = some next) :
    next.level = state.level :=
  level_eq_of_sameShape (rearrangeMember_sameShape hmember)

theorem rearrange_level_same {depth : ℕ} (hmembership : Membership machine state)
    (hlive : LiveGroup machine state g) (harranged : LevelsArranged machine state)
    (hrearrange : waycaGroupRearrangeGroup machine depth state g = some (next, ret)) :
    next.level = state.level := by
  have hkept : next.level = state.level ∧ ∀ x, LiveGroup machine next x →
      LiveGroup machine state x := by
    refine rearrange_keeps (fun s => s.level = state.level ∧
      ∀ x, LiveGroup machine s x → LiveGroup machine state x) ?_ ?_ hmembership hlive
        ⟨rfl, fun _ h => h⟩ hrearrange
    · intro before x attr level total after _ hx _ ⟨hbefore, hstill⟩ hafter
      have hsame := congrFun hbefore x
      refine ⟨?_, fun y hy => hstill y (hafter.sameLinks.liveGroup.mp hy)⟩
      rw [hafter.level_same ?_, hbefore]
      rw [hsame, attr_eq_of_level hsame]
      exact harranged x (hstill x hx)
    · intro before x t after _ _ ⟨hbefore, hstill⟩ hmember
      refine ⟨(rearrangeMember_level hmember).trans hbefore, ?_⟩
      exact fun y hy => hstill y ((sameLinks_rearrangeMember hmember).liveGroup.mp hy)
  exact hkept.1

theorem and_mask_of_replaced {mask level : Attr} (hlevel : level &&& mask = level) :
    ((attr &&& ~~~mask) ||| level) &&& mask = level := by
  ext i hi
  have hbit := congrArg (fun bits => bits[i]) hlevel
  simp only [BitVec.getElem_and, BitVec.getElem_or, BitVec.getElem_not] at hbit ⊢
  cases hattr : attr[i] <;> cases hmask : mask[i] <;> simp_all

theorem arrangedLevel_idem {wanted : Attr} {level : ℕ}
    (hlevel : arrangedLevel machine wanted = some (attr, level)) :
    arrangedLevel machine attr = some (attr, level) := by
  obtain ⟨cpus, hcpus, hpair⟩ := Option.map_eq_some_iff.mp hlevel
  split at hpair
  next =>
    obtain ⟨rfl, rfl⟩ := Prod.mk.inj hpair
    have hmask : ((wanted &&& ~~~topoMask) ||| WT_GF_CPU) &&& topoMask = WT_GF_CPU :=
      and_mask_of_replaced (by decide)
    simp [arrangedLevel, topoCpus, hmask]
  next hnonneg =>
    obtain ⟨rfl, rfl⟩ := Prod.mk.inj hpair
    simp [arrangedLevel, hcpus, hnonneg]

theorem Arranged.levelsArranged {attr : Attr} {level : ℕ} {total : CpuSet} {arranged : State}
    (harranged : Arranged machine state g attr level total arranged)
    (hothers : ∀ x, LiveGroup machine state x → x ≠ g →
      arrangedLevel machine (state.group x).attr = some (state.level x)) :
    LevelsArranged machine arranged := by
  intro x hx
  by_cases hxg : x = g
  · subst hxg
    have hself : arranged.level x = (attr, level) := by
      rw [harranged.level_eq, update_self]
    have hattr : (arranged.group x).attr = attr := congrArg Prod.fst hself
    rw [hself, hattr]
    exact arrangedLevel_idem harranged.arrangedLevel_eq
  · have hother : arranged.level x = state.level x := by
      rw [harranged.level_eq, update_of_ne hxg]
    rw [hother, attr_eq_of_level hother]
    exact hothers x (harranged.sameLinks.liveGroup.mp hx) hxg

/-- A re-arrangement sets the level of its group from the attribute and leaves
the other levels alone. -/
theorem rearrange_level {depth : ℕ} (hmembership : Membership machine state)
    (hlive : LiveGroup machine state g)
    (harranged : ∀ x, LiveGroup machine state x → x ≠ g →
      arrangedLevel machine (state.group x).attr = some (state.level x))
    (hrearrange : waycaGroupRearrangeGroup machine depth state g = some (next, 0)) :
    ∃ attr level, arrangedLevel machine (state.group g).attr = some (attr, level) ∧
      next.level = update state.level g (attr, level) := by
  cases depth with
  | zero => simp [waycaGroupRearrangeGroup] at hrearrange
  | succ depth =>
      rcases rearrange_spec hmembership hlive hrearrange with
        ⟨hneg, -⟩ | ⟨-, attr, level, total, arranged, hdone⟩
      · omega
      · have harrange := hdone.arrange
        have hsame := harrange.sameLinks
        refine ⟨attr, level, harrange.arrangedLevel_eq, ?_⟩
        rw [← harrange.level_eq]
        have hall := harrange.levelsArranged harranged
        rcases hdone.visit with ⟨-, members, -, hloop⟩ | ⟨-, members, hmembers, hloop⟩
        · refine foldlM_keeps (fun s => s.level = arranged.level) ?_ rfl hloop
          intro before t after _ hbefore hbody
          exact (rearrangeMember_level hbody).trans hbefore
        · refine (foldlM_keeps (fun s => SameLinks arranged s ∧ s.level = arranged.level) ?_
            ⟨.refl arranged, rfl⟩ hloop).2
          intro before child after hmem hkept hbody
          obtain ⟨hlinks, hbefore⟩ := hkept
          obtain ⟨⟨result, code⟩, hrun, rfl⟩ := Option.map_eq_some_iff.mp hbody
          have hchild := ((hsame.groupMembers hmembers).mem_iff child).mp hmem
          refine ⟨hlinks.trans (sameLinks_rearrange hrun), ?_⟩
          rw [rearrange_level_same (hlinks.membership (hsame.membership hmembership))
            (hlinks.liveGroup.mpr hchild.1) ?_ hrun, hbefore]
          intro x hx
          have hxlevel := congrFun hbefore x
          rw [hxlevel, attr_eq_of_level hxlevel]
          exact hall x (hlinks.liveGroup.mp hx)

theorem ThreadAttached.sameShape {links : Links GroupId ThreadId} {assigned : Assigned}
    (hattached : ThreadAttached machine state t g links assigned next) (x : GroupId) :
    SameShape (state.group x) (next.group x) := by
  by_cases hx : x = g
  · rw [hx, hattached.group_self, (assigned_fields hattached.assign).1]
    exact ⟨rfl, rfl, rfl⟩
  · rw [hattached.group_other hx]
    exact ⟨rfl, rfl, rfl⟩

theorem ThreadDetached.sameShape {links : Links GroupId ThreadId}
    (hdetached : ThreadDetached machine state t g links next) (x : GroupId) :
    SameShape (state.group x) (next.group x) := by
  by_cases hx : x = g
  · rw [hx, hdetached.group_self]
    exact ⟨rfl, rfl, rfl⟩
  · rw [hdetached.group_other hx]
    exact ⟨rfl, rfl, rfl⟩

section GroupDetachedFields

variable (hdetached : GroupDetached machine state g father links next)

include hdetached

theorem GroupDetached.group_father :
    next.group father = { releaseGroup (state.group father) (state.group g) with
        groups := links.first father
        nrGroups := links.count father
        siblings := links.siblings father
        father := links.owner father } := by
  rw [hdetached.next_eq]
  simp [State.setGroupLinks]

theorem GroupDetached.group_other {x : GroupId} (hx : x ≠ father) :
    next.group x = { state.group x with
        groups := links.first x
        nrGroups := links.count x
        siblings := links.siblings x
        father := links.owner x } := by
  rw [hdetached.next_eq]
  simp [update_of_ne hx, State.setGroupLinks]

theorem GroupDetached.sameShape (x : GroupId) :
    SameShape (state.group x) (next.group x) := by
  by_cases hx : x = father
  · rw [hx, hdetached.group_father]
    exact ⟨rfl, rfl, rfl⟩
  · rw [hdetached.group_other hx]
    exact ⟨rfl, rfl, rfl⟩

end GroupDetachedFields

theorem GroupAttached.level (hattached : GroupAttached machine state g father links next)
    (hmembership : Membership machine state) (harranged : LevelsArranged machine state) :
    next.level = state.level := by
  have hlive : LiveGroup machine (state.setGroupLinks links) g := hattached.live_group
  have hlinked : LevelsArranged machine (state.setGroupLinks links) := harranged
  have hsame : next.level = (state.setGroupLinks links).level :=
    rearrange_level_same (hattached.linked_membership hmembership) hlive hlinked
      hattached.rearrange
  exact hsame

structure QuietLevels (machine : Machine) (state next : State) : Prop where
  shape : ∀ x, SameShape (state.group x) (next.group x)
  live : ∀ g, LiveGroup machine next g → LiveGroup machine state g
  father : ∀ m father, (next.group m).father = some father →
    (state.group m).father = some father

theorem QuietLevels.refl (machine : Machine) (state : State) :
    QuietLevels machine state state :=
  ⟨fun _ => .refl _, fun _ h => h, fun _ _ h => h⟩

theorem QuietLevels.trans (hfirst : QuietLevels machine state middle)
    (hsecond : QuietLevels machine middle next) : QuietLevels machine state next :=
  ⟨fun x => (hfirst.shape x).trans (hsecond.shape x), fun g h => hfirst.live g (hsecond.live g h),
    fun m father h => hfirst.father m father (hsecond.father m father h)⟩

theorem quietLevels_of_group_eq
    (hgroup : next.group = state.group) (hslots : next.groupsArray = state.groupsArray) :
    QuietLevels machine state next := by
  refine ⟨?_, ?_, ?_⟩
  · intro x
    rw [hgroup]
    exact .refl _
  · intro g hlive
    rwa [liveGroup_iff, hslots, ← liveGroup_iff] at hlive
  · intro m father hmember
    rwa [hgroup] at hmember

theorem ThreadAttached.quietLevels {links : Links GroupId ThreadId}
    {assigned : Assigned} (hattached : ThreadAttached machine state t g links assigned next) :
    QuietLevels machine state next := by
  refine ⟨hattached.sameShape, fun x => hattached.sameLinks.liveGroup.mp, ?_⟩
  intro m father hmember
  rwa [hattached.sameLinks.father] at hmember

theorem ThreadDetached.quietLevels {links : Links GroupId ThreadId}
    (hdetached : ThreadDetached machine state t g links next) :
    QuietLevels machine state next := by
  refine ⟨hdetached.sameShape, fun x => hdetached.sameLinks.liveGroup.mp, ?_⟩
  intro m father hmember
  rwa [hdetached.sameLinks.father] at hmember

theorem GroupDetached.quietLevels (hdetached : GroupDetached machine state g father links next) :
    QuietLevels machine state next := by
  refine ⟨hdetached.sameShape, fun x => hdetached.sameLinks.liveGroup.mp, ?_⟩
  intro m other hmember
  rw [hdetached.sameLinks.father] at hmember
  change links.owner m = some other at hmember
  rw [hdetached.owner_eq] at hmember
  by_cases hm : m = g
  · rw [hm, update_self] at hmember
    cases hmember
  · rwa [update_of_ne hm] at hmember

theorem GroupDestroyed.quietLevels (hdestroyed : GroupDestroyed machine state g middle next) :
    QuietLevels machine state next := by
  have hmiddle : QuietLevels machine state middle := by
    rcases hdestroyed.leave with ⟨-, rfl⟩ | ⟨father, links, hdetached⟩
    · exact .refl machine middle
    · exact hdetached.quietLevels
  refine hmiddle.trans ⟨?_, fun x hx => ((hdestroyed.live_iff x).mp hx).1, ?_⟩
  · rw [hdestroyed.next_eq]
    exact fun _ => .refl _
  · intro m father hmember
    rwa [hdestroyed.next_eq] at hmember

theorem rearrangeMember_quietLevels (hmember : rearrangeMember machine g state t = some next) :
    QuietLevels machine state next := by
  have hsame := sameLinks_rearrangeMember hmember
  refine ⟨rearrangeMember_sameShape hmember, fun x => hsame.liveGroup.mp, ?_⟩
  intro m father hin
  rwa [hsame.father] at hin

theorem LeftGroup.quietLevels (hleft : LeftGroup machine state t middle) :
    QuietLevels machine state middle := by
  rcases hleft with ⟨-, rfl⟩ | ⟨g, links, hdetached⟩
  · exact .refl machine middle
  · exact hdetached.quietLevels

/-- A call keeps the shapes of the groups, or creates a group, or arranges one
anew. -/
inductive LevelChange (machine : Machine) (state : State) (call : Call) (next : State) : Prop
  | quiet (hquiet : QuietLevels machine state next)
  | created (g : GroupId) (hcreated : GroupCreated machine state g next)
  | attached (g father : GroupId) (links : Links GroupId GroupId)
      (hattached : GroupAttached machine state g father links next)
  | attrSet (g : GroupId) (wanted : Attr) (hcall : call = .groupSetAttr g (some wanted))
      (hlive : LiveGroup machine state g)
      (hrearrange : waycaGroupRearrangeGroup machine rearrangeDepth (state.withAttr g wanted) g =
        some (next, 0))

section WithAttr

variable {g x : GroupId} {wanted : Attr}

theorem withAttr_attr (state : State) (g : GroupId) (attr : Attr) :
    ((state.withAttr g attr).group g).attr = attr := by
  simp [State.withAttr]

theorem withAttr_group_other (hx : x ≠ g) : (state.withAttr g wanted).group x = state.group x := by
  simp [State.withAttr, update_of_ne hx]

theorem withAttr_level_other (hx : x ≠ g) : (state.withAttr g wanted).level x = state.level x := by
  unfold State.level
  rw [withAttr_group_other hx]

theorem update_withAttr_level (pair : Attr × ℕ) :
    update (state.withAttr g wanted).level g pair = update state.level g pair := by
  funext x
  by_cases hx : x = g
  · simp [hx]
  · rw [update_of_ne hx, update_of_ne hx, withAttr_level_other hx]

theorem withAttr_othersArranged (harranged : LevelsArranged machine state)
    (hlive : LiveGroup machine (state.withAttr g wanted) x) (hx : x ≠ g) :
    arrangedLevel machine ((state.withAttr g wanted).group x).attr =
      some ((state.withAttr g wanted).level x) := by
  rw [withAttr_level_other hx, withAttr_group_other hx]
  exact harranged x ((sameLinks_withAttr state g wanted).liveGroup.mp hlive)

end WithAttr

/-- What a call can do to the levels, for all invariants about them. -/
theorem step_levelChange {call : Call} {ret : ℤ} (hmembership : Membership machine state)
    (hstep : step machine state call = some (next, ret)) :
    LevelChange machine state call next := by
  cases step_effect hmembership hstep with
  | kept _ hgroup hslots _ => exact .quiet (quietLevels_of_group_eq hgroup hslots)
  | freed t middle times hleft =>
      exact .quiet (hleft.quietLevels.trans (quietLevels_of_group_eq rfl rfl))
  | created g hcreated => exact .created g hcreated
  | destroyed middle hdestroyed => exact .quiet hdestroyed.quietLevels
  | attrSet g wanted hlive hrearrange => exact .attrSet g wanted rfl hlive hrearrange
  | attached links assigned hattached => exact .quiet hattached.quietLevels
  | detached links hdetached => exact .quiet hdetached.quietLevels
  | groupAttached links hattached => exact .attached _ _ links hattached
  | groupDetached links hdetached => exact .quiet hdetached.quietLevels

theorem attrSet_level {wanted : Attr} (hmembership : Membership machine state)
    (harranged : LevelsArranged machine state) (hlive : LiveGroup machine state g)
    (hrearrange : waycaGroupRearrangeGroup machine rearrangeDepth (state.withAttr g wanted) g =
      some (next, 0)) :
    ∃ attr level, arrangedLevel machine wanted = some (attr, level) ∧
      next.level = update state.level g (attr, level) ∧ SameLinks state next := by
  have hwith := sameLinks_withAttr state g wanted
  obtain ⟨attr, level, hlevel, hafter⟩ := rearrange_level (hwith.membership hmembership)
    (hwith.liveGroup.mpr hlive) (fun x => withAttr_othersArranged harranged) hrearrange
  rw [withAttr_attr] at hlevel
  rw [update_withAttr_level] at hafter
  exact ⟨attr, level, hlevel, hafter, hwith.trans (sameLinks_rearrange hrearrange)⟩

theorem GroupCreated.group_self (hcreated : GroupCreated machine state g next) :
    next.group g = freshGroup machine := by
  rw [hcreated.next_eq]
  simp

theorem GroupCreated.group_other
    {g x : GroupId} (hcreated : GroupCreated machine state g next) (hx : x ≠ g) :
    next.group x = state.group x := by
  rw [hcreated.next_eq]
  simp [update_of_ne hx]

theorem QuietLevels.levelsArranged
    (hquiet : QuietLevels machine state next) (harranged : LevelsArranged machine state) :
    LevelsArranged machine next := by
  intro x hx
  have hlevel := congrFun (level_eq_of_sameShape hquiet.shape) x
  rw [hlevel, attr_eq_of_level hlevel]
  exact harranged x (hquiet.live x hx)

theorem LevelChange.levelsArranged (hchange : LevelChange machine state call next)
    (hmembership : Membership machine state) (harranged : LevelsArranged machine state) :
    LevelsArranged machine next := by
  have hkeep : ∀ x, next.level x = state.level x → LiveGroup machine state x →
      arrangedLevel machine (next.group x).attr = some (next.level x) := by
    intro x hlevel hlive
    rw [hlevel, attr_eq_of_level hlevel]
    exact harranged x hlive
  intro x hx
  cases hchange with
  | quiet hquiet => exact hquiet.levelsArranged harranged x hx
  | created g hcreated =>
      by_cases hxg : x = g
      · rw [hxg, State.level, hcreated.group_self]
        exact arrangedLevel_default machine
      · rw [State.level, hcreated.group_other hxg]
        exact harranged x (((hcreated.live_iff x).mp hx).resolve_right hxg)
  | attached g father links hattached =>
      exact hkeep x (congrFun (hattached.level hmembership harranged) x)
        ((sameLinks_rearrange hattached.rearrange).liveGroup.mp hx)
  | attrSet g wanted hcall hlive hrearrange =>
      obtain ⟨attr, level, hwanted, hlevel, hsame⟩ :=
        attrSet_level hmembership harranged hlive hrearrange
      by_cases hxg : x = g
      · subst hxg
        have hself : next.level x = (attr, level) := by rw [hlevel, update_self]
        have hattr : (next.group x).attr = attr := congrArg Prod.fst hself
        rw [hself, hattr]
        exact arrangedLevel_idem hwanted
      · refine hkeep x ?_ (hsame.liveGroup.mp hx)
        rw [hlevel, update_of_ne hxg]

theorem levelsArranged_of_reaches
    {Allowed : State → Call → Prop} (hreach : Reaches machine Allowed state) :
    Membership machine state ∧ LevelsArranged machine state := by
  refine hreach.keeps (fun s => Membership machine s ∧ LevelsArranged machine s)
    ⟨membership_start machine, fun g hlive => absurd hlive (not_liveGroup_start machine g)⟩ ?_
  intro before call after ret ⟨hmembership, harranged⟩ _ hstep
  exact ⟨step_membership hmembership hstep,
    (step_levelChange hmembership hstep).levelsArranged hmembership harranged⟩

/-! ## Changes of an attribute that fit -/

/-- The level lies between those of the members and of the father. -/
def LevelFits (machine : Machine) (state : State) (g : GroupId) (attr : Attr) : Prop :=
  ∀ arranged ∈ arrangedLevel machine attr,
    (∀ father ∈ (state.group g).father,
      arranged.2 < (state.group father).nrCpusPerTopo) ∧
    ∀ m < machine.groupsArraySize, LiveGroup machine state m →
      (state.group m).father = some g → (state.group m).nrCpusPerTopo < arranged.2

def FittingCall (machine : Machine) (state : State) : Call → Prop
  | .groupSetAttr g (some attr) => LiveGroup machine state g → LevelFits machine state g attr
  | _ => True

instance (machine : Machine) (state : State) (g : GroupId) (attr : Attr) :
    Decidable (LevelFits machine state g attr) := by
  unfold LevelFits
  infer_instance

instance (machine : Machine) (state : State) (call : Call) :
    Decidable (FittingCall machine state call) := by
  unfold FittingCall
  split <;> infer_instance

theorem GroupAttached.linked_below (hattached : GroupAttached machine state g father links next)
    (hmembership : Membership machine state) (hbelow : MembersBelow machine state) :
    MembersBelow machine (state.setGroupLinks links) := by
  intro m other hm hmember
  by_cases hmg : m = g
  · subst hmg
    rcases rearrange_spec (hattached.linked_membership hmembership) hattached.live_group
        hattached.rearrange with ⟨hneg, -⟩ | ⟨-, attr, level, total, arranged, hdone⟩
    · omega
    · exact hdone.below_father other hmember
  · change links.owner m = some other at hmember
    rw [hattached.owner_eq, update_of_ne hmg] at hmember
    exact hbelow m other hm hmember

theorem MembersBelow.congr (hbelow : MembersBelow machine state) (hsame : SameLinks state next)
    (hlevel : next.level = state.level) : MembersBelow machine next := by
  intro m father hm hmember
  rw [nrCpusPerTopo_eq_of_level (congrFun hlevel m),
    nrCpusPerTopo_eq_of_level (congrFun hlevel father)]
  rw [hsame.father] at hmember
  exact hbelow m father (hsame.liveGroup.mp hm) hmember

theorem GroupAttached.membersBelow (hattached : GroupAttached machine state g father links next)
    (hmembership : Membership machine state) (harranged : LevelsArranged machine state)
    (hbelow : MembersBelow machine state) : MembersBelow machine next :=
  (hattached.linked_below hmembership hbelow).congr (sameLinks_rearrange hattached.rearrange)
    (hattached.level hmembership harranged)

theorem MembersBelow.update {attr : Attr} {level : ℕ} (hbelow : MembersBelow machine state)
    (hsame : SameLinks state next)
    (hlevel : next.level = update state.level g (attr, level))
    (hunder : ∀ father, (state.group g).father = some father →
      level < (state.group father).nrCpusPerTopo)
    (habove : ∀ m, LiveGroup machine state m → (state.group m).father = some g →
      (state.group m).nrCpusPerTopo < level) : MembersBelow machine next := by
  have hself : (next.group g).nrCpusPerTopo = level :=
    congrArg Prod.snd (by rw [hlevel, update_self] : next.level g = (attr, level))
  have hother : ∀ x, x ≠ g → (next.group x).nrCpusPerTopo = (state.group x).nrCpusPerTopo := by
    intro x hx
    exact nrCpusPerTopo_eq_of_level (by rw [hlevel, update_of_ne hx])
  intro m father hm hmember
  rw [hsame.liveGroup] at hm
  rw [hsame.father] at hmember
  have hold := hbelow m father hm hmember
  by_cases hmg : m = g
  · subst hmg
    have hne : father ≠ m := by
      rintro rfl
      exact hold.false
    rw [hself, hother father hne]
    exact hunder father hmember
  · rw [hother m hmg]
    by_cases hfg : father = g
    · subst hfg
      rw [hself]
      exact habove m hm hmember
    · rw [hother father hfg]
      exact hold

theorem QuietLevels.membersBelow
    (hquiet : QuietLevels machine state next) (hbelow : MembersBelow machine state) :
    MembersBelow machine next := by
  intro m father hm hmember
  rw [(hquiet.shape m).level_eq, (hquiet.shape father).level_eq]
  exact hbelow m father (hquiet.live m hm) (hquiet.father m father hmember)

theorem LevelChange.membersBelow (hchange : LevelChange machine state call next)
    (hmembership : Membership machine state) (harranged : LevelsArranged machine state)
    (hbelow : MembersBelow machine state) (hfits : FittingCall machine state call) :
    MembersBelow machine next := by
  intro m father hm hmember
  cases hchange with
  | quiet hquiet => exact hquiet.membersBelow hbelow m father hm hmember
  | created g hcreated =>
      by_cases hmg : m = g
      · rw [hmg, hcreated.group_self] at hmember
        cases hmember
      · rw [hcreated.group_other hmg] at hmember ⊢
        have hlive := ((hcreated.live_iff m).mp hm).resolve_right hmg
        have hfather := hmembership.groups.owner_live m father hlive hmember
        have hne : father ≠ g := fun h => hcreated.not_live (h ▸ hfather)
        rw [hcreated.group_other hne]
        exact hbelow m father hlive hmember
  | attached g other links hattached =>
      exact hattached.membersBelow hmembership harranged hbelow m father hm hmember
  | attrSet g wanted hcall hlive hrearrange =>
      subst hcall
      obtain ⟨attr, level, hwanted, hlevel, hsame⟩ :=
        attrSet_level hmembership harranged hlive hrearrange
      obtain ⟨hunder, habove⟩ := hfits hlive (attr, level) hwanted
      refine hbelow.update hsame hlevel hunder ?_ m father hm hmember
      exact fun x hx => habove x (liveGroup_iff.mp hx).1 hx

structure Levels (machine : Machine) (state : State) : Prop where
  membership : Membership machine state
  arranged : LevelsArranged machine state
  below : MembersBelow machine state

theorem Levels.congr (hlevels : Levels machine state) (hsame : SameLinks state next)
    (hlevel : next.level = state.level) : Levels machine next := by
  refine ⟨hsame.membership hlevels.membership, ?_, hlevels.below.congr hsame hlevel⟩
  intro g hlive
  have hg := congrFun hlevel g
  rw [hg, attr_eq_of_level hg]
  exact hlevels.arranged g (hsame.liveGroup.mp hlive)

theorem QuietLevels.levels
    (hquiet : QuietLevels machine state next) (hlevels : Levels machine state)
    (hmembership : Membership machine next) : Levels machine next :=
  ⟨hmembership, hquiet.levelsArranged hlevels.arranged, hquiet.membersBelow hlevels.below⟩

theorem GroupAttached.linked_levels
    (hattached : GroupAttached machine state g father links next) (hlevels : Levels machine state) :
    Levels machine (state.setGroupLinks links) :=
  ⟨hattached.linked_membership hlevels.membership, hlevels.arranged,
    hattached.linked_below hlevels.membership hlevels.below⟩

/-- A call that fits keeps members below their fathers. -/
theorem step_levels (hlevels : Levels machine state) (hfits : FittingCall machine state call)
    (hstep : step machine state call = some (next, ret)) : Levels machine next := by
  obtain ⟨hmembership, harranged, hbelow⟩ := hlevels
  have hchange := step_levelChange hmembership hstep
  exact ⟨step_membership hmembership hstep, hchange.levelsArranged hmembership harranged,
    hchange.membersBelow hmembership harranged hbelow hfits⟩

theorem levels_start (machine : Machine) : Levels machine State.start :=
  ⟨membership_start machine, fun g hlive => absurd hlive (not_liveGroup_start machine g),
    fun m _ hlive => absurd hlive (not_liveGroup_start machine m)⟩

theorem levels_of_reaches
    (hreach : Reaches machine (FittingCall machine) state) : Levels machine state :=
  hreach.keeps (Levels machine) (levels_start machine)
    fun _ _ _ _ hlevels hfits hstep => step_levels hlevels hfits hstep

/-! ## The order, and the runs that break it -/

def MemberOf (machine : Machine) (state : State) (m father : GroupId) : Prop :=
  LiveGroup machine state m ∧ (state.group m).father = some father

theorem SameLinks.memberOf_iff (hsame : SameLinks state next) {m : GroupId} :
    MemberOf machine next m father ↔ MemberOf machine state m father := by
  unfold MemberOf
  rw [hsame.liveGroup, hsame.father]

theorem Levels.lt_of_transGen (hlevels : Levels machine state) {m ancestor : GroupId}
    (hpath : Relation.TransGen (MemberOf machine state) m ancestor) :
    (state.group m).nrCpusPerTopo < (state.group ancestor).nrCpusPerTopo := by
  induction hpath with
  | single hmember => exact hlevels.below _ _ hmember.1 hmember.2
  | tail _ hmember ih => exact ih.trans (hlevels.below _ _ hmember.1 hmember.2)

/-- In a run whose changes of attributes all fit, every member group is below
its father and no group is its own direct or indirect father. -/
theorem members_below_fathers
    (hreach : Reaches machine (FittingCall machine) state) :
    (∀ m father, LiveGroup machine state m → (state.group m).father = some father →
      (state.group m).nrCpusPerTopo < (state.group father).nrCpusPerTopo) ∧
    ∀ g, ¬ Relation.TransGen (MemberOf machine state) g g := by
  have hlevels := levels_of_reaches hreach
  exact ⟨hlevels.below, fun g hcycle => (hlevels.lt_of_transGen hcycle).false⟩

def eightCpus : Machine where
  cpusInTotal := 8
  cpusInCcl := 2
  cpusInNode := 4
  cpusInPackage := 8
  threadsArraySize := 4
  groupsArraySize := 4
  cpusInTotal_pos := by decide

theorem members_below_fathers_chain :
    ∃ state, Reaches eightCpus (FittingCall eightCpus) state ∧
      (state.group 0).father = some 1 ∧ (state.group 1).father = some 2 ∧
      (state.group 0).nrCpusPerTopo < (state.group 1).nrCpusPerTopo ∧
      (state.group 1).nrCpusPerTopo < (state.group 2).nrCpusPerTopo := by
  have hrun : ∃ state ∈ runCalls (step eightCpus) (FittingCall eightCpus) State.start
      [.groupCreate true true, .groupCreate true true, .groupCreate true true,
        .groupSetAttr 1 (some WT_GF_CCL), .groupSetAttr 2 (some WT_GF_ALL),
        .groupAttachGroup 0 1, .groupAttachGroup 1 2, .groupSetAttr 1 (some WT_GF_NUMA)],
      LiveGroup eightCpus state 0 ∧ LiveGroup eightCpus state 1 ∧
        (state.group 0).father = some 1 ∧ (state.group 1).father = some 2 := by
    decide +kernel
  obtain ⟨state, hreach, hzero, hone, hfirst, hsecond⟩ := exists_reachable_of_runCalls hrun
  have hbelow := (members_below_fathers hreach).1
  exact ⟨state, hreach, hfirst, hsecond, hbelow 0 1 hzero hfirst, hbelow 1 2 hone hsecond⟩

def Call.onGroupsOnly : Call → Bool
  | .groupCreate _ _ => true
  | .groupSetAttr _ _ => true
  | .groupAttachGroup _ _ => true
  | .groupDetachGroup _ _ => true
  | _ => false

/-- A member is raised above its father, and its grandfather is then attached
below it: the three groups are above one another in a circle. -/
theorem raised_member_closes_circle :
    ∃ state, Reaches eightCpus (fun _ call => call.onGroupsOnly = true) state ∧
      MemberOf eightCpus state 0 1 ∧ MemberOf eightCpus state 1 2 ∧
      MemberOf eightCpus state 2 0 ∧
      (state.group 1).nrCpusPerTopo < (state.group 0).nrCpusPerTopo := by
  have hrun : ∃ state ∈ runCalls (step eightCpus) (fun _ call => call.onGroupsOnly = true)
      State.start
      [.groupCreate true true, .groupCreate true true, .groupCreate true true,
        .groupSetAttr 1 (some WT_GF_CCL), .groupSetAttr 2 (some WT_GF_NUMA),
        .groupAttachGroup 0 1, .groupAttachGroup 1 2,
        .groupSetAttr 0 (some WT_GF_ALL), .groupAttachGroup 2 0],
      (LiveGroup eightCpus state 0 ∧ (state.group 0).father = some 1) ∧
        (LiveGroup eightCpus state 1 ∧ (state.group 1).father = some 2) ∧
        (LiveGroup eightCpus state 2 ∧ (state.group 2).father = some 0) ∧
        (state.group 1).nrCpusPerTopo < (state.group 0).nrCpusPerTopo := by
    decide +kernel
  exact exists_reachable_of_runCalls hrun

end WaycaScheduler
