import WaycaScheduler.BalancedPlacement
import WaycaScheduler.LevelOrder

/-!
# The books of a father group

A re-arrangement touches the group, the groups below it, and the books of its
father.  While groups are only attached to a father, its books give the number
of member groups on each CPU.  `wayca_sc_group_set_attr` on a member asks the
father for a block as an attach does, but the block the member had is not given
back.
-/

namespace WaycaScheduler

open AlignedBlocks IntrusiveList OwnedLists RoundRobin Transition Finset

variable {machine : Machine} {state next : State}

/-! ## What a re-arrangement leaves alone -/

def ClosedBelow (machine : Machine) (state : State) (Below : GroupId → Prop) : Prop :=
  ∀ m father, MemberOf machine state m father → Below father → Below m

section Outside

variable {Below : GroupId → Prop} {depth : ℕ} {g x : GroupId} {attr : Attr} {level : ℕ}
  {total : CpuSet} {arranged : State}

theorem ClosedBelow.congr (hclosed : ClosedBelow machine state Below)
    (hsame : SameLinks state next) : ClosedBelow machine next Below :=
  fun m father hmember => hclosed m father (hsame.memberOf_iff.mp hmember)

/-- The re-arrangement of the members leaves what that of one member leaves. -/
theorem Rearranged.outside_of
    (hdone : Rearranged machine depth state g attr level total arranged next)
    (hclosed : ClosedBelow machine state Below) (hmembership : Membership machine state)
    (hg : Below g) (hx : ¬ Below x)
    (hchild : ∀ {before after : State} {m : GroupId} {ret : ℤ}, ClosedBelow machine before Below →
      Membership machine before → LiveGroup machine before m → Below m →
      (before.group m).father ≠ some x →
      waycaGroupRearrangeGroup machine depth before m = some (after, ret) →
      after.group x = before.group x) :
    next.group x = arranged.group x := by
  have hne : x ≠ g := fun h => hx (h ▸ hg)
  rcases hdone.visit with ⟨-, members, -, hloop⟩ | ⟨-, members, hmembers, hloop⟩
  · refine foldlM_keeps (fun s => s.group x = arranged.group x) ?_ rfl hloop
    intro before t after _ hbefore hbody
    rw [rearrangeMember_group_other hbody hne, hbefore]
  · refine (foldlM_keeps (fun s => SameLinks state s ∧ s.group x = arranged.group x) ?_
      ⟨hdone.arrange.sameLinks, rfl⟩ hloop).2
    intro before child after hmem ⟨hlinks, hbefore⟩ hbody
    refine ⟨hlinks.trans (sameLinks_rearrangeChild hbody), ?_⟩
    have hmember := (hmembers.mem_iff child).mp hmem
    obtain ⟨⟨result, code⟩, hrun, rfl⟩ := Option.map_eq_some_iff.mp hbody
    have hfather : (before.group child).father ≠ some x := by
      rw [hlinks.father, hmember.2]
      exact fun h => hne (Option.some.inj h).symm
    exact (hchild (hclosed.congr hlinks) (hlinks.membership hmembership)
      (hlinks.liveGroup.mpr hmember.1) (hclosed child g hmember hg) hfather hrun).trans hbefore

/-- A re-arrangement leaves the groups that are not below the group. -/
theorem rearrange_outside {ret : ℤ} (hclosed : ClosedBelow machine state Below)
    (hmembership : Membership machine state) (hlive : LiveGroup machine state g)
    (hg : Below g) (hx : ¬ Below x) (hfather : (state.group g).father ≠ some x)
    (hrearrange : waycaGroupRearrangeGroup machine depth state g = some (next, ret)) :
    next.group x = state.group x := by
  induction depth generalizing state next g ret with
  | zero => simp [waycaGroupRearrangeGroup] at hrearrange
  | succ depth ih =>
      rcases rearrange_spec hmembership hlive hrearrange with
        ⟨-, rfl⟩ | ⟨-, attr, level, total, arranged, hdone⟩
      · rfl
      · have hne : x ≠ g := fun h => hx (h ▸ hg)
        rw [← hdone.arrange.other x hne hfather]
        exact hdone.outside_of hclosed hmembership hg hx ih

theorem Rearranged.outside (hdone : Rearranged machine depth state g attr level total arranged next)
    (hclosed : ClosedBelow machine state Below) (hmembership : Membership machine state)
    (hg : Below g) (hx : ¬ Below x) : next.group x = arranged.group x :=
  hdone.outside_of hclosed hmembership hg hx fun hclosed hmembership hlive hm hfather hrun =>
    rearrange_outside hclosed hmembership hlive hm hx hfather hrun

theorem closedBelow_descendants (machine : Machine) (state : State) (g : GroupId) :
    ClosedBelow machine state fun x => Relation.TransGen (MemberOf machine state) x g :=
  fun _ _ hmember hbelow => .head hmember hbelow

theorem Rearranged.total_self
    (hdone : Rearranged machine depth state g attr level total arranged next)
    (hmembership : Membership machine state)
    (hacyclic : ¬ Relation.TransGen (MemberOf machine state) g g) :
    (next.group g).total = total := by
  have hstart : (arranged.group g).total = total := by rw [hdone.arrange.group_self]
  rcases hdone.visit with ⟨-, members, -, hloop⟩ | ⟨-, members, hmembers, hloop⟩
  · refine foldlM_keeps (fun s => (s.group g).total = total) ?_ hstart hloop
    intro before t after _ hbefore hbody
    obtain ⟨assigned, hassigned, rfl⟩ := rearrangeMember_cases hbody
    obtain ⟨hgroup, -⟩ := assigned_fields hassigned
    simp only [State.addLoad_group, State.waycaScAssert_group, State.setThread_group,
      State.setGroup_group, Function.update_self]
    rw [hgroup]
    exact hbefore
  · refine (foldlM_keeps (fun s => SameLinks state s ∧ (s.group g).total = total) ?_
      ⟨hdone.arrange.sameLinks, hstart⟩ hloop).2
    intro before child after hmem ⟨hlinks, hbefore⟩ hbody
    refine ⟨hlinks.trans (sameLinks_rearrangeChild hbody), ?_⟩
    have hmember := (hmembers.mem_iff child).mp hmem
    have hne : g ≠ child := by
      rintro rfl
      exact hacyclic (.single hmember)
    have hfather : (before.group child).father = some g := (hlinks.father child).trans hmember.2
    have hbelow : ClosedBelow machine before fun x =>
        Relation.TransGen (MemberOf machine state) x g :=
      (closedBelow_descendants machine state g).congr hlinks
    obtain ⟨⟨result, code⟩, hrun, rfl⟩ := Option.map_eq_some_iff.mp hbody
    cases depth with
    | zero => simp [waycaGroupRearrangeGroup] at hrun
    | succ depth =>
        rcases rearrange_spec (hlinks.membership hmembership)
            (hlinks.liveGroup.mpr hmember.1) hrun with
          ⟨-, rfl⟩ | ⟨-, childAttr, childLevel, granted, middle, hchild⟩
        · exact hbefore
        · obtain ⟨fatherAfter, hrequest, hafter⟩ := hchild.arrange.member g hfather hne
          rw [hchild.outside hbelow (hlinks.membership hmembership) (.single hmember) hacyclic,
            hafter, requested_fields hrequest]
          exact hbefore

end Outside

/-! ## The members of a father -/

def groupsOf (machine : Machine) (state : State) (father : GroupId) : Finset GroupId :=
  (range machine.groupsArraySize).filter fun m =>
    LiveGroup machine state m ∧ (state.group m).father = some father

theorem mem_groupsOf {m father : GroupId} :
    m ∈ groupsOf machine state father ↔ MemberOf machine state m father := by
  rw [groupsOf, mem_filter, mem_range]
  exact ⟨fun h => h.2, fun h => ⟨(liveGroup_iff.mp h.1).1, h⟩⟩

section Attached

variable {g father : GroupId} {links : Links GroupId GroupId}

section

variable (hattached : GroupAttached machine state g father links next)

include hattached

theorem GroupAttached.not_mem_groupsOf :
    g ∉ groupsOf machine state father := by
  intro hmem
  have hmember := (mem_groupsOf.mp hmem).2
  rw [hattached.free] at hmember
  cases hmember

theorem GroupAttached.memberOf_iff (m : GroupId) :
    MemberOf machine (state.setGroupLinks links) m father ↔
      m = g ∨ MemberOf machine state m father := by
  change LiveGroup machine state m ∧ links.owner m = some father ↔ _
  rw [hattached.owner_eq]
  by_cases hm : m = g
  · simp [hm, hattached.live_group]
  · rw [Function.update_of_ne hm]
    exact ⟨.inr, fun h => h.resolve_left hm⟩

theorem GroupAttached.groupsOf_eq :
    groupsOf machine next father = insert g (groupsOf machine state father) := by
  ext m
  rw [mem_groupsOf, (sameLinks_rearrange hattached.rearrange).memberOf_iff,
    hattached.memberOf_iff, mem_insert, mem_groupsOf]

/-- An attach is one request to the father: the new member has the block that
was handed out, and the other members keep theirs. -/
theorem GroupAttached.request (hlevels : Levels machine state) :
    ∃ fatherAfter granted, waycaGroupRequestResourceFromFather state.loads
          ((state.setGroupLinks links).group father) = some (fatherAfter, granted) ∧
        next.group father = fatherAfter ∧ (next.group g).total = granted ∧
        ∀ m ∈ groupsOf machine state father, (next.group m).total = (state.group m).total := by
  have hlinked := hattached.linked_levels hlevels
  set linked := state.setGroupLinks links with hlinkedDef
  have hmember : MemberOf machine linked g father := (hattached.memberOf_iff g).mpr (.inl rfl)
  have hmembership := hlinked.membership
  rcases rearrange_spec hmembership hmember.1 hattached.rearrange with
    ⟨hneg, -⟩ | ⟨-, attr, level, total, arranged, hdone⟩
  · exact absurd hneg (lt_irrefl 0)
  · have hbelow := hlinked.below g father hmember.1 hmember.2
    have hclosed : ClosedBelow machine linked fun x =>
        Relation.ReflTransGen (MemberOf machine linked) x g :=
      fun _ _ hm hpath => .head hm hpath
    have hout : ¬ Relation.ReflTransGen (MemberOf machine linked) father g := by
      intro hpath
      rcases Relation.reflTransGen_iff_eq_or_transGen.mp hpath with heq | hpath
      · exact hattached.ne heq
      · have hlt := hlinked.lt_of_transGen hpath
        omega
    obtain ⟨fatherAfter, hrequest, hafter⟩ :=
      hdone.arrange.member father hmember.2 hattached.ne.symm
    refine ⟨fatherAfter, total, hrequest, ?_, ?_, ?_⟩
    · rw [hdone.outside hclosed hmembership .refl hout, hafter]
    · refine hdone.total_self hmembership ?_
      exact fun hcycle => (hlinked.lt_of_transGen hcycle).false
    · intro m hm
      have hmg : m ≠ g := fun h => hattached.not_mem_groupsOf (h ▸ hm)
      have hmemberOther : MemberOf machine linked m father :=
        (hattached.memberOf_iff m).mpr (.inr (mem_groupsOf.mp hm))
      have houtMember : ¬ Relation.ReflTransGen (MemberOf machine linked) m g := by
        intro hpath
        rcases Relation.ReflTransGen.cases_head hpath with heq | ⟨above, hfirst, hrest⟩
        · exact hmg heq
        · have hsame := hfirst.2.symm.trans hmemberOther.2
          exact hout (Option.some.inj hsame ▸ hrest)
      have hnotFather : (linked.group g).father ≠ some m := by
        intro h
        have hsame := Option.some.inj (hmember.2.symm.trans h)
        have hlt := hlinked.below m father hmemberOther.1 hmemberOther.2
        rw [hsame] at hlt
        exact hlt.false
      rw [rearrange_outside hclosed hmembership hmember.1 .refl houtMember hnotFather
        hattached.rearrange]
      rfl

end

end Attached

/-- The members of the father that lie on one of its entities. -/
def membersOn (machine : Machine) (state : State) (father : GroupId) (index : ℕ) : ℕ :=
  ((groupsOf machine state father).filter fun m =>
    grantedIndex (state.group father).nrCpusPerTopo (state.group m).total = index).card

/-- The entities that the father has handed out are those its members lie on. -/
structure FatherBooks (machine : Machine) (father : GroupId) (state : State) : Prop where
  levels : Levels machine state
  live : LiveGroup machine state father
  shaped : Shaped (state.group father)
  whole : WholeBlocks (state.group father).nrCpusPerTopo (state.group father).used.cpus
  books : Books
    (blockIndices (state.group father).nrCpusPerTopo (state.group father).total.cpus)
    (blockPool (state.group father)) (membersOn machine state father)
  granted : ∀ m ∈ groupsOf machine state father,
    (state.group m).total.cpus = block (state.group father).nrCpusPerTopo
      (grantedIndex (state.group father).nrCpusPerTopo (state.group m).total)

theorem FatherBooks.attach {g father : GroupId} {links : Links GroupId GroupId}
    (hbooks : FatherBooks machine father state) (hlevelsNext : Levels machine next)
    (hattached : GroupAttached machine state g father links next) :
    FatherBooks machine father next := by
  have hsame := sameLinks_rearrange hattached.rearrange
  obtain ⟨fatherAfter, granted, hrequest, hfather, hgranted, hothers⟩ :=
    hattached.request hbooks.levels
  set before := (state.setGroupLinks links).group father with hbeforeDef
  have hshaped : Shaped before := ⟨hbooks.shaped.level_pos, hbooks.shaped.whole⟩
  obtain ⟨after, total, hserved, ⟨hshape, hwhole⟩, hblock, hindex, hfree, hpool⟩ :=
    requestStep_spec hshaped (.refl before) hbooks.whole hbooks.books.used_subset
      hbooks.books.used_ne state.loads
  have hpair : (fatherAfter, granted) = (after, total) :=
    Option.some.inj (hrequest.symm.trans hserved)
  obtain ⟨rfl, rfl⟩ := Prod.mk.inj hpair
  have hgroups := hattached.groupsOf_eq
  refine ⟨hlevelsNext, hsame.liveGroup.mpr hattached.live_father, ?_, ?_, ?_, ?_⟩
  · rw [hfather]
    exact hshape.shaped hshaped
  · rw [hfather]
    exact hwhole
  · rw [hfather, hshape.level_eq, hshape.total_eq, hpool]
    refine hbooks.books.take hindex hfree ?_
    intro index _
    unfold membersOn
    rw [hfather, hshape.level_eq, hgroups, filter_insert, hgranted]
    have hrest : (groupsOf machine state father).filter (fun m =>
          grantedIndex before.nrCpusPerTopo (next.group m).total = index) =
        (groupsOf machine state father).filter fun m =>
          grantedIndex (state.group father).nrCpusPerTopo (state.group m).total = index := by
      refine filter_congr fun m hm => ?_
      rw [hothers m hm]
      exact Iff.rfl
    rw [hrest]
    split
    next heq =>
      rw [if_pos heq.symm, card_insert_of_notMem]
      exact fun hmem => hattached.not_mem_groupsOf (mem_of_mem_filter g hmem)
    next hne => rw [if_neg (Ne.symm hne), add_zero]
  · intro m hm
    rw [hfather, hshape.level_eq]
    rw [hgroups, mem_insert] at hm
    rcases hm with rfl | hm
    · rw [hgranted]
      exact hblock
    · rw [hothers m hm]
      exact hbooks.granted m hm

/-- Groups are attached to the father, and an attribute that is set on one of
its members names no level, so that the call is refused. -/
def BooksMembersOnce (machine : Machine) (father : GroupId) (state : State) : Call → Prop
  | .groupAttachGroup _ other => other = father
  | .groupSetAttr m attr => (state.group m).father = some father ∧
      attr.bind (arrangedLevel machine) = none
  | _ => False

instance (machine : Machine) (father : GroupId) (state : State) (call : Call) :
    Decidable (BooksMembersOnce machine father state call) := by
  unfold BooksMembersOnce
  split <;> infer_instance

theorem setAttr_refused
    {g : GroupId} {attr : Option Attr} {ret : ℤ} (hmembership : Membership machine state)
    (hnone : attr.bind (arrangedLevel machine) = none)
    (hcall : waycaScGroupSetAttr machine state g attr = some (next, ret)) : next = state := by
  rcases setAttr_cases hcall with ⟨-, rfl⟩ | ⟨-, wanted, rfl, hlive, hrearrange⟩
  · rfl
  · have hwith := sameLinks_withAttr state g wanted
    rcases rearrange_spec (hwith.membership hmembership) (hwith.liveGroup.mpr hlive)
        hrearrange with ⟨hneg, -⟩ | ⟨-, attr, level, total, arranged, hdone⟩
    · exact absurd hneg (lt_irrefl 0)
    · have hlevel := hdone.arrange.arrangedLevel_eq
      have hattr : ((state.withAttr g wanted).group g).attr = wanted := by
        simp [State.withAttr]
      rw [Option.bind_some, ← hattr, hlevel] at hnone
      cases hnone

/-- The step of the induction, for a call that books a member once. -/
theorem step_fatherBooks
    {father : GroupId} {call : Call} {ret : ℤ} (hbooks : FatherBooks machine father state)
    (hallowed : BooksMembersOnce machine father state call)
    (hstep : step machine state call = some (next, ret)) :
    FatherBooks machine father next := by
  have hmembership := hbooks.levels.membership
  cases call with
  | groupAttachGroup g other =>
      obtain rfl : other = father := hallowed
      have hfits : FittingCall machine state (.groupAttachGroup g other) := trivial
      have hlevels := step_levels hbooks.levels hfits hstep
      rcases attachGroup_cases hmembership hstep with ⟨-, rfl⟩ | ⟨-, links, hattached⟩
      · exact hbooks
      · exact hbooks.attach hlevels hattached
  | groupSetAttr m attr =>
      rw [setAttr_refused hmembership hallowed.2 hstep]
      exact hbooks
  | threadCreate | threadJoin | pidAttachThread | pidDetachThread | threadSetAttr |
    groupCreate | groupDestroy | threadAttachGroup | threadDetachGroup | groupDetachGroup =>
      exact absurd hallowed id

/-- A group without members whose books are empty. -/
structure FreshFather (machine : Machine) (father : GroupId) (state : State) : Prop where
  live : LiveGroup machine state father
  no_groups : (state.group father).nrGroups = 0
  level_pos : 0 < (state.group father).nrCpusPerTopo
  whole : WholeBlocks (state.group father).nrCpusPerTopo (state.group father).total.cpus
  total_nonempty : (state.group father).total.cpus.Nonempty
  used_eq : (state.group father).used = cpuZero
  rounds_eq : (state.group father).rollOverCnts = 0

theorem FreshFather.books {father : GroupId} (hfresh : FreshFather machine father state)
    (hlevels : Levels machine state) : FatherBooks machine father state := by
  have hnone : groupsOf machine state father = ∅ := by
    refine eq_empty_of_forall_notMem fun m hm => ?_
    obtain ⟨members, hmembers, -, -, hlength⟩ := hlevels.membership.groupMembers hfresh.live
    have hempty : members = [] := List.length_eq_zero_iff.mp (by have := hfresh.no_groups; omega)
    have hin := (hmembers.mem_iff m).mpr (mem_groupsOf.mp hm)
    rw [hempty] at hin
    cases hin
  refine ⟨hlevels, hfresh.live, ⟨hfresh.level_pos, hfresh.whole⟩, ?_, ?_, ?_⟩
  · rw [hfresh.used_eq]
    exact wholeBlocks_empty
  · rw [blockPool_start hfresh.used_eq hfresh.rounds_eq]
    refine (books_start (hfresh.total_nonempty.image _)).congr ?_
    intro index _
    unfold membersOn
    rw [hnone]
    rfl
  · intro m hm
    rw [hnone] at hm
    cases hm

/-- From a father without members on, in every run of attach calls into it and
of refused changes of its members' attributes, the counted rounds and the use
of a CPU give the number of member groups whose total has that CPU. -/
theorem father_books_count_members
    {start : State} {father : GroupId} (hreach : Reaches machine (FittingCall machine) start)
    (hfresh : FreshFather machine father start)
    (hrun : ReachableVia (step machine) (BooksMembersOnce machine father) start state) :
    ∀ c ∈ (state.group father).total,
      (state.group father).rollOverCnts +
          (if c ∈ (state.group father).used then 1 else 0) =
        ((groupsOf machine state father).filter fun m => c ∈ (state.group m).total).card := by
  have hbooks : FatherBooks machine father state := by
    refine hrun.keeps (FatherBooks machine father)
      (hfresh.books (levels_of_reaches hreach)) ?_
    intro before call after ret hbefore hallowed hstep
    exact step_fatherBooks hbefore hallowed hstep
  have hlevel := hbooks.shaped.level_pos
  intro c hc
  have hcount := hbooks.books.takers_eq (c / (state.group father).nrCpusPerTopo)
    ((hbooks.shaped.whole.mem_iff_blockIndices hlevel).mp hc)
  have hused : c ∈ (state.group father).used ↔
      c / (state.group father).nrCpusPerTopo ∈ (blockPool (state.group father)).used :=
    hbooks.whole.mem_iff_blockIndices hlevel
  have hmembers : (groupsOf machine state father).filter (fun m =>
        c ∈ (state.group m).total) =
      (groupsOf machine state father).filter fun m =>
        grantedIndex (state.group father).nrCpusPerTopo (state.group m).total =
          c / (state.group father).nrCpusPerTopo := by
    refine Finset.filter_congr fun m hm => ?_
    rw [← CpuSet.mem_cpus, hbooks.granted m hm, mem_block_iff_div hlevel]
    exact eq_comm
  rw [hmembers]
  simp only [hused]
  exact hcount.symm

instance (machine : Machine) (father : GroupId) (state : State) :
    Decidable (FreshFather machine father state) :=
  decidable_of_iff
    (LiveGroup machine state father ∧ (state.group father).nrGroups = 0 ∧
      0 < (state.group father).nrCpusPerTopo ∧
      WholeBlocks (state.group father).nrCpusPerTopo (state.group father).total.cpus ∧
      (state.group father).total.cpus.Nonempty ∧ (state.group father).used = cpuZero ∧
      (state.group father).rollOverCnts = 0)
    ⟨fun ⟨hlive, hnone, hlevel, hwhole, htotal, hused, hrounds⟩ =>
      ⟨hlive, hnone, hlevel, hwhole, htotal, hused, hrounds⟩,
      fun h => ⟨h.live, h.no_groups, h.level_pos, h.whole, h.total_nonempty, h.used_eq,
        h.rounds_eq⟩⟩

/-- Three groups join a father of two CCLs, so that the third one opens the
second round. -/
theorem father_books_count_members_three :
    ∃ start state, Reaches smallMachine (FittingCall smallMachine) start ∧
      FreshFather smallMachine 0 start ∧
      ReachableVia (step smallMachine) (BooksMembersOnce smallMachine 0) start state ∧
      (state.group 0).nrGroups = 3 ∧ 1 ∈ (state.group 0).total ∧
      (state.group 0).rollOverCnts + (if 1 ∈ (state.group 0).used then 1 else 0) =
        ((groupsOf smallMachine state 0).filter fun m => 1 ∈ (state.group m).total).card := by
  have hrun : ∃ start ∈ runCalls (step smallMachine) (FittingCall smallMachine) State.start
      [.groupCreate true true, .groupCreate true true, .groupCreate true true,
        .groupCreate true true, .groupSetAttr 0 (some WT_GF_CCL)],
      FreshFather smallMachine 0 start ∧
      ∃ state ∈ runCalls (step smallMachine) (BooksMembersOnce smallMachine 0) start
        [.groupAttachGroup 1 0, .groupSetAttr 1 none, .groupAttachGroup 2 0,
          .groupAttachGroup 3 0],
        (state.group 0).nrGroups = 3 ∧ 1 ∈ (state.group 0).total := by
    decide +kernel
  obtain ⟨start, hreach, hfresh, hmoves⟩ := exists_reachable_of_runCalls hrun
  obtain ⟨state, hvia, hcount, hmem⟩ := exists_reachable_of_runCalls hmoves
  exact ⟨start, state, hreach, hfresh, hvia, hcount, hmem,
    father_books_count_members hreach hfresh hvia 1 hmem⟩

/-- The calls that attach groups to the father or set the attribute of one of
its members. -/
def ChangesMembers (father : GroupId) (state : State) : Call → Prop
  | .groupAttachGroup _ other => other = father
  | .groupSetAttr m _ => (state.group m).father = some father
  | _ => False

instance (father : GroupId) (state : State) (call : Call) :
    Decidable (ChangesMembers father state call) := by
  unfold ChangesMembers
  split <;> infer_instance

/-- One member whose attribute is set to what it is: it moves to the second
CCL, and the first one stays in the books. -/
theorem set_attr_keeps_old_block :
    ∃ start state, Reaches smallMachine (FittingCall smallMachine) start ∧
      FreshFather smallMachine 0 start ∧
      ReachableVia (step smallMachine) (ChangesMembers 0) start state ∧
      0 ∈ (state.group 0).total ∧
      (state.group 0).rollOverCnts + (if 0 ∈ (state.group 0).used then 1 else 0) = 1 ∧
      ((groupsOf smallMachine state 0).filter fun m => 0 ∈ (state.group m).total).card = 0 := by
  have hrun : ∃ start ∈ runCalls (step smallMachine) (FittingCall smallMachine) State.start
      [.groupCreate true true, .groupCreate true true, .groupSetAttr 0 (some WT_GF_CCL)],
      FreshFather smallMachine 0 start ∧
      ∃ state ∈ runCalls (step smallMachine) (ChangesMembers 0) start
        [.groupAttachGroup 1 0, .groupSetAttr 1 (some defaultGroupAttr)],
        0 ∈ (state.group 0).total ∧
        (state.group 0).rollOverCnts + (if 0 ∈ (state.group 0).used then 1 else 0) = 1 ∧
        ((groupsOf smallMachine state 0).filter fun m => 0 ∈ (state.group m).total).card = 0 := by
    decide +kernel
  obtain ⟨start, hreach, hfresh, hmoves⟩ := exists_reachable_of_runCalls hrun
  obtain ⟨state, hvia, hstate⟩ := exists_reachable_of_runCalls hmoves
  exact ⟨start, state, hreach, hfresh, hvia, hstate⟩

end WaycaScheduler
