import WaycaScheduler.BalancedPlacement
import WaycaScheduler.UniformMachine

/-!
# Members that are visited

When a group is arranged anew its members are visited one after another, and each
draws from the group again.  Until then they may lie outside, so the invariant
says for which groups and threads something is known already.  A visit extends
what is known to everything below the member.
-/

namespace WaycaScheduler

open AlignedBlocks IntrusiveList OwnedLists Transition Function

variable {machine : Machine} {state next : State} {assigned : Assigned} {g : GroupId}
  {t : ThreadId}

/-! ## Drawing from a group -/

structure OwnRange (group : WaycaScGroup) : Prop where
  shaped : Shaped group
  nonempty : group.total.cpus.Nonempty
  used_subset : group.used.cpus ⊆ group.total.cpus

structure PlacedIn (group : WaycaScGroup) (thread : WaycaThread) : Prop where
  nonempty : thread.curSet.cpus.Nonempty
  subset : thread.curSet.cpus ⊆ group.total.cpus
  allowed_eq : thread.allowedSet = thread.curSet

section OneGroup

variable {group other : WaycaScGroup} {thread : WaycaThread} {loads : ℕ → ℤ}

theorem OwnRange.congr (hown : OwnRange group) (hshape : SameShape group other)
    (hsubset : other.used.cpus ⊆ group.total.cpus) : OwnRange other := by
  refine ⟨hshape.shaped hown.shaped, ?_, ?_⟩
  · rw [hshape.total_eq]
    exact hown.nonempty
  · rw [hshape.total_eq]
    exact hsubset

theorem PlacedIn.congr (hplaced : PlacedIn group thread) (hshape : SameShape group other) :
    PlacedIn other thread := by
  refine ⟨hplaced.nonempty, ?_, hplaced.allowed_eq⟩
  rw [hshape.total_eq]
  exact hplaced.subset

theorem OwnRange.assign (hown : OwnRange group) (hopen : group.used ≠ group.total)
    (hassign : waycaGroupAssignThreadResource loads group thread = some assigned) :
    OwnRange assigned.group ∧ assigned.group.used ≠ assigned.group.total ∧
      SameShape group assigned.group ∧ PlacedIn group assigned.thread := by
  have hshaped := hown.shaped
  have hnotFull := assigned_used_ne hown.nonempty hassign
  obtain ⟨cpu, used, cpus, result, hresult, hto, hchoice⟩ :=
    assign_spec loads hshaped thread (available_nonempty hown.used_subset hopen)
  rw [hassign, Option.some.injEq] at hresult
  subst hresult
  have hbooked : used.cpus ⊆ group.total.cpus := by
    rw [hto.used_eq]
    exact bookedCpus_subset hshaped hchoice.mem_total hown.used_subset
  have hshape : SameShape group assigned.group := by
    rw [hto.group_eq]
    exact (SameShape.refl group).rollOver used
  refine ⟨hown.congr hshape ?_, hnotFull, hshape, ?_⟩
  · rw [hto.group_eq]
    exact rollOver_used_subset group used hbooked
  · rw [hto.thread_eq]
    refine ⟨?_, ?_, rfl⟩
    · change cpus.cpus.Nonempty
      rw [hto.cpus_eq]
      exact threadCpus_nonempty hshaped cpu
    · change cpus.cpus ⊆ group.total.cpus
      rw [hto.cpus_eq]
      exact threadCpus_subset hshaped hchoice.mem_total

theorem OwnRange.request {after : WaycaScGroup} {granted : CpuSet} (hown : OwnRange group)
    (hopen : group.used ≠ group.total)
    (hrequest : waycaGroupRequestResourceFromFather loads group = some (after, granted)) :
    OwnRange after ∧ after.used ≠ after.total ∧ SameShape group after ∧
      granted.cpus ⊆ group.total.cpus ∧
      ∃ index, granted.cpus = block group.nrCpusPerTopo index := by
  obtain ⟨cpu, hfree, used, block, hresult, hblock, hused⟩ :=
    request_spec loads hown.shaped (available_nonempty hown.used_subset hopen)
  rw [hrequest, Option.some.injEq, Prod.mk.injEq] at hresult
  obtain ⟨rfl, rfl⟩ := hresult
  have hinside := hown.shaped.block_subset (mem_availableSet.mp hfree).1
  have hshape := (SameShape.refl group).rollOver used
  refine ⟨hown.congr hshape ?_, rollOver_used_ne group used hown.nonempty, hshape, ?_, _, hblock⟩
  · refine rollOver_used_subset group used ?_
    rw [hused]
    exact Finset.union_subset hown.used_subset hinside
  · rw [hblock]
    exact hinside

end OneGroup

/-- The group can hand out one more block. -/
structure CanDraw (group : WaycaScGroup) : Prop where
  own : OwnRange group
  notFull : group.used ≠ group.total

structure Moved (state : State) (g : GroupId) (t : ThreadId) (next : State) : Prop where
  sameLinks : SameLinks state next
  level : next.level = state.level
  draws : CanDraw (next.group g)
  shape : ∀ x, SameShape (state.group x) (next.group x)
  other : ∀ x, x ≠ g → next.group x = state.group x
  placed : PlacedIn (state.group g) (next.thread t)
  thread_other : ∀ x, x ≠ t → next.thread x = state.thread x

theorem CanDraw.move (hdraws : CanDraw (state.group g))
    (hbody : rearrangeMember machine g state t = some next) : Moved state g t next := by
  have hother : ∀ x, x ≠ g → next.group x = state.group x :=
    fun x hx => rearrangeMember_group_other hbody hx
  obtain ⟨assigned, hassign, hnext⟩ := rearrangeMember_cases hbody
  obtain ⟨hown, hnotFull, -, hplaced⟩ := hdraws.own.assign hdraws.notFull hassign
  have hgroup : next.group g = assigned.group := by
    rw [hnext]
    simp
  rw [← hgroup] at hown hnotFull
  refine ⟨sameLinks_rearrangeMember hbody, rearrangeMember_level hbody, ⟨hown, hnotFull⟩,
    rearrangeMember_sameShape hbody, hother, ?_, ?_⟩
  · rw [hnext]
    simpa using hplaced
  · intro x hx
    rw [hnext]
    simp [update_of_ne hx]

/-! ## Arranging a group -/

/-- The range of the member is one block of the father. -/
structure OneBlockOf (father member : WaycaScGroup) : Prop where
  inside : member.total.cpus ⊆ father.total.cpus
  block_eq : ∃ index, member.total.cpus = block father.nrCpusPerTopo index

theorem OneBlockOf.congr
    {father member fatherAfter memberAfter : WaycaScGroup} (hblock : OneBlockOf father member)
    (hfather : SameShape father fatherAfter) (hmember : SameShape member memberAfter) :
    OneBlockOf fatherAfter memberAfter := by
  obtain ⟨hinside, index, hindex⟩ := hblock
  refine ⟨?_, index, ?_⟩
  · rw [hmember.total_eq, hfather.total_eq]
    exact hinside
  · rw [hmember.total_eq, hfather.level_eq]
    exact hindex

section Arranging

variable {wanted attr : Attr} {level : ℕ} {total : CpuSet} {arranged : State}

/-- What a group has drawn: all CPUs, or one topology set of a father that can
still hand out another if it could before. -/
structure Drawn (state : State) (g : GroupId) (arranged : State) : Prop where
  self : CanDraw (arranged.group g)
  father : ∀ father, (state.group g).father = some father → CanDraw (state.group father) →
    CanDraw (arranged.group father) ∧ OneBlockOf (arranged.group father) (arranged.group g)
  shape : ∀ x, x ≠ g → SameShape (state.group x) (arranged.group x)
  other : ∀ x, x ≠ g → (state.group g).father ≠ some x → arranged.group x = state.group x

theorem Arranged.granted {father : GroupId}
    (harranged : Arranged machine (state.withAttr g wanted) g attr level total arranged)
    (hf : (state.group g).father = some father) (hne : father ≠ g) :
    waycaGroupRequestResourceFromFather state.loads (state.group father) =
      some (arranged.group father, total) := by
  obtain ⟨after, hgrant, rfl⟩ :=
    harranged.member father (((sameLinks_withAttr state g wanted).father g).trans hf) hne
  rwa [withAttr_group_other hne] at hgrant

/-- The group that is arranged fits its father, and draws one of its topology
sets. -/
structure FitsFather (machine : Machine) (state : State) (g : GroupId) (level : ℕ)
    (total : CpuSet) (father : GroupId) : Prop where
  ne : father ≠ g
  level_le : level ≤ (state.group father).nrCpusPerTopo
  arranged : arrangedLevel machine (state.group father).attr = some (state.level father)
  block_eq : ∃ index, total.cpus = block (state.group father).nrCpusPerTopo index

theorem Arranged.fitsFather {father : GroupId}
    (harranged : Arranged machine (state.withAttr g wanted) g attr level total arranged)
    (hf : (state.group g).father = some father) (hne : father ≠ g)
    (hle : level ≤ (state.group father).nrCpusPerTopo) (hdraws : CanDraw (state.group father))
    (hfather : arrangedLevel machine (state.group father).attr = some (state.level father)) :
    FitsFather machine state g level total father := by
  obtain ⟨-, -, -, -, hblock⟩ := hdraws.own.request hdraws.notFull (harranged.granted hf hne)
  exact ⟨hne, hle, hfather, hblock⟩

theorem Arranged.drawn (huniform : UniformMachine machine)
    (harranged : Arranged machine (state.withAttr g wanted) g attr level total arranged)
    (hfather : ∀ father, (state.group g).father = some father →
      FitsFather machine state g level total father) :
    Drawn state g arranged := by
  have hwith := sameLinks_withAttr state g wanted
  have hlevelPos := huniform.level_pos harranged.arrangedLevel_eq
  have hother : ∀ x, x ≠ g → (state.group g).father ≠ some x →
      arranged.group x = state.group x := by
    intro x hx hnot
    rw [← hwith.father] at hnot
    rw [harranged.other x hx hnot, withAttr_group_other hx]
  have hrange : WholeBlocks level total.cpus ∧ total.cpus.Nonempty := by
    cases hf : (state.group g).father with
    | none =>
        rw [(harranged.root ((hwith.father g).trans hf)).1]
        exact ⟨huniform.total_whole harranged.arrangedLevel_eq, 0, huniform.zero_mem_total⟩
    | some father =>
        obtain ⟨-, hle, hfatherLevel, index, hblock⟩ := hfather father hf
        have hfatherPos := huniform.level_pos hfatherLevel
        have hdvd : level ∣ (state.group father).nrCpusPerTopo := by
          rcases hle.lt_or_eq with hlt | heq
          · exact huniform.level_dvd_of_lt harranged.arrangedLevel_eq hfatherLevel hlt
          · exact heq.dvd
        rw [hblock]
        exact ⟨(wholeBlocks_block hfatherPos).of_dvd hlevelPos hfatherPos hdvd,
          block_nonempty hfatherPos index⟩
  refine ⟨?_, ?_, ?_, hother⟩
  · rw [harranged.group_self]
    refine ⟨⟨⟨hlevelPos, hrange.1⟩, hrange.2, Finset.empty_subset _⟩, ?_⟩
    change cpuZero ≠ total
    rintro rfl
    exact Finset.not_nonempty_empty hrange.2
  · intro father hf hdraws
    obtain ⟨hown, hnotFull, hshape, hinside, hblock⟩ :=
      hdraws.own.request hdraws.notFull (harranged.granted hf (hfather father hf).ne)
    refine ⟨⟨hown, hnotFull⟩, ?_⟩
    rw [harranged.group_self]
    refine ⟨?_, ?_⟩
    · rw [hshape.total_eq]
      exact hinside
    · rw [hshape.level_eq]
      exact hblock
  · intro x hx
    by_cases hf : (state.group g).father = some x
    · rw [requested_fields (harranged.granted hf hx)]
      exact ⟨rfl, rfl, rfl⟩
    · rw [hother x hx hf]
      exact .refl _

end Arranging

theorem rearranged_of_between {depth : ℕ} {ret : ℤ} (hmembership : Membership machine state)
    (hlive : LiveGroup machine state g) (hpos : 0 < (state.group g).nrCpusPerTopo)
    (hlevel : arrangedLevel machine (state.group g).attr ≠ none)
    (hfather : ∀ father, (state.group g).father = some father →
      (state.group g).nrCpusPerTopo < (state.group father).nrCpusPerTopo)
    (hmembers : ∀ m, MemberOf machine state m g →
      (state.group m).nrCpusPerTopo < (state.group g).nrCpusPerTopo)
    (hrearrange : waycaGroupRearrangeGroup machine (depth + 1) state g = some (next, ret)) :
    ∃ attr level total arranged,
      Rearranged machine depth state g attr level total arranged next := by
  have haccepted : ¬ Refused machine state g := by
    rintro (hexceeds | ⟨largest, hlargest, hle⟩ | hnone)
    · cases hf : (state.group g).father with
      | none => simp [exceedsFather, hf] at hexceeds
      | some father =>
          have hbelow := hfather father hf
          simp only [exceedsFather, hf, decide_eq_true_eq] at hexceeds
          omega
    · obtain ⟨same, hsame, hbound⟩ := maxTopoCpusInChildGroups_spec hmembership hlive
      rw [hlargest, Option.some.injEq] at hsame
      subst hsame
      have hlt := (hbound (state.group g).nrCpusPerTopo).mpr
        ⟨hpos, fun m hm hmember => hmembers m ⟨hm, hmember⟩⟩
      omega
    · exact hlevel hnone
  rcases rearrange_cases hrearrange with ⟨-, -, hrefused⟩ | ⟨rfl, -⟩
  · exact absurd hrefused haccepted
  · rcases rearrange_spec hmembership hlive hrearrange with ⟨hneg, -⟩ | ⟨-, hdone⟩
    · exact absurd hneg (lt_irrefl 0)
    · exact hdone

theorem withAttr_self (state : State) (g : GroupId) :
    state.withAttr g (state.group g).attr = state := by
  simp [State.withAttr, State.setGroup]

/-! ## What is known while members are visited -/

/-- The groups of which the own CPUs are known, those that can hand out more,
those that lie in one topology set of their father, and the threads that lie in
their group. -/
structure Known where
  owns : GroupId → Prop
  draws : GroupId → Prop
  inside : GroupId → Prop
  placed : ThreadId → Prop

namespace Known

def extend (known : Known) (groups : GroupId → Prop) (threads : ThreadId → Prop) : Known :=
  ⟨fun x => known.owns x ∨ groups x, fun x => known.draws x ∨ groups x,
    fun x => known.inside x ∨ groups x, fun t => known.placed t ∨ threads t⟩

theorem extend_extend (known : Known) (groups more : GroupId → Prop)
    (threads others : ThreadId → Prop) :
    (known.extend groups threads).extend more others =
      known.extend (fun x => groups x ∨ more x) fun t => threads t ∨ others t := by
  simp only [extend, or_assoc]

/-- A group that is arranged can hand out everything, and its members are open. -/
def arrange (known : Known) (state : State) (g : GroupId) : Known :=
  ⟨fun x => known.owns x ∨ x = g, fun x => known.draws x ∨ x = g,
    fun x => (known.inside x ∨ x = g) ∧ (state.group x).father ≠ some g,
    fun t => known.placed t ∧ (state.thread t).group ≠ some g⟩

end Known

/-- The levels are in order in the tree, and what is known is so. -/
structure Settling (machine : Machine) (Tree : GroupId → Prop) (known : Known) (state : State) :
    Prop where
  membership : Membership machine state
  arranged : ∀ x, LiveGroup machine state x → Tree x →
    arrangedLevel machine (state.group x).attr = some (state.level x)
  below : ∀ m father, MemberOf machine state m father → Tree father →
    (state.group m).nrCpusPerTopo < (state.group father).nrCpusPerTopo
  owns : ∀ x, LiveGroup machine state x → known.owns x → OwnRange (state.group x)
  draws : ∀ x, LiveGroup machine state x → known.draws x → CanDraw (state.group x)
  inside : ∀ m father, MemberOf machine state m father → Tree father → known.inside m →
    OneBlockOf (state.group father) (state.group m)
  placed : ∀ t x, LiveThread machine state t → (state.thread t).group = some x → Tree x →
    known.placed t → PlacedIn (state.group x) (state.thread t)

namespace Settling

variable {Tree : GroupId → Prop} {known fewer : Known}

theorem mono (hsettling : Settling machine Tree known state)
    (howns : ∀ x, LiveGroup machine state x → fewer.owns x → known.owns x)
    (hdraws : ∀ x, LiveGroup machine state x → fewer.draws x → known.draws x)
    (hinside : ∀ x, LiveGroup machine state x → fewer.inside x → known.inside x)
    (hplaced : ∀ t, LiveThread machine state t → fewer.placed t → known.placed t) :
    Settling machine Tree fewer state :=
  ⟨hsettling.membership, hsettling.arranged, hsettling.below,
    fun x hx h => hsettling.owns x hx (howns x hx h),
    fun x hx h => hsettling.draws x hx (hdraws x hx h),
    fun m father hm hfather h => hsettling.inside m father hm hfather (hinside m hm.1 h),
    fun t x ht hin hx h => hsettling.placed t x ht hin hx (hplaced t ht h)⟩

theorem extend_mono {groups fewerGroups : GroupId → Prop} {threads fewerThreads : ThreadId → Prop}
    (hsettling : Settling machine Tree (known.extend groups threads) state)
    (hgroups : ∀ x, fewerGroups x → groups x) (hthreads : ∀ t, fewerThreads t → threads t) :
    Settling machine Tree (known.extend fewerGroups fewerThreads) state :=
  hsettling.mono (fun x _ => Or.imp_right (hgroups x)) (fun x _ => Or.imp_right (hgroups x))
    (fun x _ => Or.imp_right (hgroups x)) fun t _ => Or.imp_right (hthreads t)

theorem move (hsettling : Settling machine Tree known state) (hthread : LiveThread machine state t)
    (hmember : (state.thread t).group = some g) (hdraws : known.draws g)
    (hbody : rearrangeMember machine g state t = some next) :
    Settling machine Tree (known.extend (fun _ => False) (· = t)) next := by
  have hlive := hsettling.membership.threads.owner_live t g hthread hmember
  have hmoved := (hsettling.draws g hlive hdraws).move hbody
  have hsame := hmoved.sameLinks
  refine ⟨hsame.membership hsettling.membership, ?_, ?_, ?_, ?_, ?_, ?_⟩
  · intro x hx hin
    have hxlevel := congrFun hmoved.level x
    rw [hxlevel, attr_eq_of_level hxlevel]
    exact hsettling.arranged x (hsame.liveGroup.mp hx) hin
  · intro m father hm hin
    rw [(hmoved.shape m).level_eq, (hmoved.shape father).level_eq]
    exact hsettling.below m father (hsame.memberOf_iff.mp hm) hin
  · intro x hx hin
    by_cases hxg : x = g
    · rw [hxg]
      exact hmoved.draws.own
    · rw [hmoved.other x hxg]
      exact hsettling.owns x (hsame.liveGroup.mp hx) (hin.resolve_right id)
  · intro x hx hin
    by_cases hxg : x = g
    · rw [hxg]
      exact hmoved.draws
    · rw [hmoved.other x hxg]
      exact hsettling.draws x (hsame.liveGroup.mp hx) (hin.resolve_right id)
  · intro m father hm hin hinside
    exact (hsettling.inside m father (hsame.memberOf_iff.mp hm) hin
      (hinside.resolve_right id)).congr (hmoved.shape father) (hmoved.shape m)
  · intro y x hy hin hx hcase
    rw [hsame.liveThread] at hy
    rw [hsame.thread_group] at hin
    by_cases hyt : y = t
    · subst hyt
      rw [hmember, Option.some.injEq] at hin
      exact hin ▸ hmoved.placed.congr (hmoved.shape g)
    · rw [hmoved.thread_other y hyt]
      exact (hsettling.placed y x hy hin hx (hcase.resolve_right hyt)).congr (hmoved.shape x)

theorem moveAll {threads : List ThreadId} (hsettling : Settling machine Tree known state)
    (hthreads : ∀ t ∈ threads, LiveThread machine state t ∧ (state.thread t).group = some g)
    (hdraws : known.draws g)
    (hloop : threads.foldlM (rearrangeMember machine g) state = some next) :
    Settling machine Tree (known.extend (fun _ => False) (· ∈ threads)) next := by
  induction threads generalizing state known with
  | nil =>
      cases hloop
      exact hsettling.mono (fun _ _ h => h.resolve_right id) (fun _ _ h => h.resolve_right id)
        (fun _ _ h => h.resolve_right id) fun t _ h => h.resolve_right List.not_mem_nil
  | cons t rest ih =>
      rw [List.foldlM_cons] at hloop
      obtain ⟨middle, hmove, hlater⟩ := Option.bind_eq_some_iff.mp hloop
      obtain ⟨hlive, hmember⟩ := hthreads t List.mem_cons_self
      have hsame := sameLinks_rearrangeMember hmove
      have hrest : ∀ x ∈ rest, LiveThread machine middle x ∧ (middle.thread x).group = some g := by
        intro x hx
        rw [hsame.liveThread, hsame.thread_group]
        exact hthreads x (List.mem_cons_of_mem t hx)
      have hmoved := ih (hsettling.move hlive hmember hdraws hmove) hrest (.inl hdraws) hlater
      rw [Known.extend_extend] at hmoved
      exact hmoved.extend_mono (fun _ h => h.elim) fun x => List.mem_cons.mp

theorem arrange {wanted attr : Attr} {level : ℕ} {total : CpuSet} {arranged : State}
    (huniform : UniformMachine machine) (hsettling : Settling machine Tree known state)
    (harranged : Arranged machine (state.withAttr g wanted) g attr level total arranged)
    (hfather : ∀ father, (state.group g).father = some father →
      FitsFather machine state g level total father ∧ (Tree father ∨ known.owns father →
        level < (state.group father).nrCpusPerTopo ∧ CanDraw (state.group father)))
    (hmembers : ∀ m, MemberOf machine state m g → (state.group m).nrCpusPerTopo < level) :
    Settling machine Tree (known.arrange state g) arranged := by
  have hsame := (sameLinks_withAttr state g wanted).trans harranged.sameLinks
  have hdrawn := harranged.drawn huniform fun father hf => (hfather father hf).1
  have hlevel := harranged.level_eq
  rw [update_withAttr_level] at hlevel
  have hself : arranged.level g = (attr, level) := by rw [hlevel, Function.update_self]
  have hother : ∀ x, x ≠ g → arranged.level x = state.level x :=
    fun x hx => by rw [hlevel, Function.update_of_ne hx]
  refine ⟨hsame.membership hsettling.membership, ?_, ?_, ?_, ?_, ?_, ?_⟩
  · intro x hx hin
    by_cases hxg : x = g
    · subst hxg
      have hattr : (arranged.group x).attr = attr := congrArg Prod.fst hself
      rw [hself, hattr]
      exact arrangedLevel_idem harranged.arrangedLevel_eq
    · rw [hother x hxg, attr_eq_of_level (hother x hxg)]
      exact hsettling.arranged x (hsame.liveGroup.mp hx) hin
  · intro m father hm hin
    rw [hsame.memberOf_iff] at hm
    have hnew : (arranged.group g).nrCpusPerTopo = level := congrArg Prod.snd hself
    by_cases hmg : m = g
    · subst hmg
      obtain ⟨hfits, hdraws⟩ := hfather father hm.2
      rw [hnew, nrCpusPerTopo_eq_of_level (hother father hfits.ne)]
      exact (hdraws (.inl hin)).1
    · rw [nrCpusPerTopo_eq_of_level (hother m hmg)]
      by_cases hfg : father = g
      · subst hfg
        rw [hnew]
        exact hmembers m hm
      · rw [nrCpusPerTopo_eq_of_level (hother father hfg)]
        exact hsettling.below m father hm hin
  · intro x hx hin
    by_cases hxg : x = g
    · rw [hxg]
      exact hdrawn.self.own
    · have hbefore := hsettling.owns x (hsame.liveGroup.mp hx) (hin.resolve_right hxg)
      by_cases hf : (state.group g).father = some x
      · have hdraws := ((hfather x hf).2 (.inr (hin.resolve_right hxg))).2
        exact (hdrawn.father x hf hdraws).1.own
      · rw [hdrawn.other x hxg hf]
        exact hbefore
  · intro x hx hin
    by_cases hxg : x = g
    · rw [hxg]
      exact hdrawn.self
    · have hbefore := hsettling.draws x (hsame.liveGroup.mp hx) (hin.resolve_right hxg)
      by_cases hf : (state.group g).father = some x
      · exact (hdrawn.father x hf hbefore).1
      · rw [hdrawn.other x hxg hf]
        exact hbefore
  · intro m father hm hin hinside
    rw [hsame.memberOf_iff] at hm
    have hfg : father ≠ g := fun h => hinside.2 (h ▸ hm.2)
    by_cases hmg : m = g
    · subst hmg
      exact (hdrawn.father father hm.2 ((hfather father hm.2).2 (.inl hin)).2).2
    · exact (hsettling.inside m father hm hin (hinside.1.resolve_right hmg)).congr
        (hdrawn.shape father hfg) (hdrawn.shape m hmg)
  · intro t x hthread hmember hin hplaced
    rw [hsame.liveThread] at hthread
    rw [hsame.thread_group] at hmember
    have hxg : x ≠ g := fun h => hplaced.2 (h ▸ hmember)
    have hthreadSame : arranged.thread t = state.thread t := congrFun harranged.thread_eq t
    rw [hthreadSame]
    exact (hsettling.placed t x hthread hmember hin hplaced.1).congr (hdrawn.shape x hxg)

end Settling

/-! ## Everything below a group -/

abbrev Under (machine : Machine) (state : State) : GroupId → GroupId → Prop :=
  Relation.ReflTransGen (MemberOf machine state)

/-- The thread is in the group or in one below it. -/
def ThreadUnder (machine : Machine) (state : State) (t : ThreadId) (g : GroupId) : Prop :=
  ∃ x, (state.thread t).group = some x ∧ Under machine state x g

/-- A visit of a member of a group that can hand out more extends what is known to
everything below the member. -/
def SettlesMember (machine : Machine) (base : State) (Tree : GroupId → Prop) (depth : ℕ) :
    Prop :=
  ∀ state next child father known, SameLinks base state →
    Settling machine Tree known state → MemberOf machine base child father →
    Tree father → known.draws father → rearrangeChild machine depth state child = some next →
    Settling machine Tree
      (known.extend (Under machine base · child) (ThreadUnder machine base · child)) next

section Below

variable {base : State} {Tree : GroupId → Prop} {known : Known} {depth : ℕ}

theorem Settling.visitAll
    {children : List GroupId} (hsettles : SettlesMember machine base Tree depth)
    (hlinks : SameLinks base state) (hsettling : Settling machine Tree known state)
    (hchildren : ∀ m ∈ children, MemberOf machine base m g) (hg : Tree g) (hdraws : known.draws g)
    (hloop : children.foldlM (rearrangeChild machine depth) state = some next) :
    Settling machine Tree (known.extend (fun x => ∃ m ∈ children, Under machine base x m)
      fun t => ∃ m ∈ children, ThreadUnder machine base t m) next := by
  induction children generalizing state known with
  | nil =>
      cases hloop
      have hnone : ∀ {p : GroupId → Prop}, ¬ ∃ m ∈ [], p m := fun ⟨_, hm, _⟩ =>
        List.not_mem_nil hm
      exact hsettling.mono (fun _ _ h => h.resolve_right hnone)
        (fun _ _ h => h.resolve_right hnone) (fun _ _ h => h.resolve_right hnone)
        fun _ _ h => h.resolve_right hnone
  | cons child rest ih =>
      rw [List.foldlM_cons] at hloop
      obtain ⟨middle, hchild, hlater⟩ := Option.bind_eq_some_iff.mp hloop
      have hmiddle := hsettles state middle child g known hlinks hsettling
        (hchildren child List.mem_cons_self) hg hdraws hchild
      have hvisited := ih (hlinks.trans (sameLinks_rearrangeChild hchild)) hmiddle
        (fun m hm => hchildren m (List.mem_cons_of_mem child hm)) (.inl hdraws) hlater
      rw [Known.extend_extend] at hvisited
      exact hvisited.extend_mono (fun _ => (List.exists_mem_cons_iff _ _ _).mp)
        fun _ => (List.exists_mem_cons_iff _ _ _).mp

/-- What a visit leaves known, in terms of what was known before. -/
theorem Settling.of_arrange {groups : GroupId → Prop} {threads : ThreadId → Prop}
    (hlinks : SameLinks base state)
    (hsettling : Settling machine Tree ((known.arrange state g).extend groups threads) next)
    (hgroups : ∀ x, Under machine base x g → x = g ∨ groups x)
    (hmembers : ∀ x, LiveGroup machine next x → (base.group x).father = some g → groups x)
    (hthreads : ∀ t, LiveThread machine next t → (base.thread t).group = some g ∨
      ThreadUnder machine base t g → threads t) :
    Settling machine Tree
      (known.extend (Under machine base · g) (ThreadUnder machine base · g)) next := by
  have hbelow : ∀ {p : Prop} {x : GroupId}, p ∨ Under machine base x g →
      (p ∨ x = g) ∨ groups x := by
    rintro p x (h | hunder)
    · exact .inl (.inl h)
    · exact (hgroups x hunder).imp_left .inr
  refine hsettling.mono (fun _ _ => hbelow) (fun _ _ => hbelow) ?_ ?_
  · intro x hx h
    by_cases hin : (base.group x).father = some g
    · exact .inr (hmembers x hx hin)
    · rw [← hlinks.father] at hin
      exact (hbelow h).imp_left fun h => ⟨h, hin⟩
  · intro t ht h
    by_cases hin : (base.thread t).group = some g
    · exact .inr (hthreads t ht (.inl hin))
    · rw [← hlinks.thread_group] at hin
      exact h.imp (fun h => ⟨h, hin⟩) fun h => hthreads t ht (.inr h)

theorem Settling.rearranged {wanted attr : Attr} {level : ℕ} {total : CpuSet} {arranged : State}
    (huniform : UniformMachine machine) (hsettles : SettlesMember machine base Tree depth)
    (hlinks : SameLinks base state) (hsettling : Settling machine Tree known state)
    (hlive : LiveGroup machine base g) (hg : Tree g)
    (hdone : Rearranged machine depth (state.withAttr g wanted) g attr level total arranged next)
    (hfather : ∀ father, (state.group g).father = some father →
      FitsFather machine state g level total father ∧ (Tree father ∨ known.owns father →
        level < (state.group father).nrCpusPerTopo ∧ CanDraw (state.group father)))
    (hmembers : ∀ m, MemberOf machine state m g → (state.group m).nrCpusPerTopo < level) :
    Settling machine Tree
      (known.extend (Under machine base · g) (ThreadUnder machine base · g)) next := by
  have hwith := hlinks.trans (sameLinks_withAttr state g wanted)
  have hsame := hwith.trans hdone.arrange.sameLinks
  have hmembership : Membership machine base := hlinks.symm.membership hsettling.membership
  have harranged := hsettling.arrange huniform hdone.arrange hfather hmembers
  have hfinal : SameLinks base next := hwith.trans hdone.sameLinks
  rcases hdone.visit with ⟨hnone, members, hlist, hloop⟩ | ⟨hnone, members, hlist, hloop⟩
  · rw [hwith.nrGroups] at hnone
    have hempty : ∀ m, ¬ MemberOf machine base m g := fun m hm =>
      (hmembership.groups.count_eq_zero_iff hlive).mp hnone m hm.1 hm.2
    have honly : ∀ x, Under machine base x g → x = g := by
      intro x hunder
      rcases hunder.cases_tail with heq | ⟨m, -, hm⟩
      · exact heq.symm
      · exact absurd hm (hempty m)
    have hthreads := hsame.threadMembers (hwith.symm.threadMembers hlist)
    refine (harranged.moveAll (fun t ht => (hthreads.mem_iff t).mp ht) (.inr rfl)
      hloop).of_arrange hlinks (fun x hunder => .inl (honly x hunder)) ?_ ?_
    · exact fun x hx hin => hempty x ⟨hfinal.liveGroup.mp hx, hin⟩
    · intro t ht h
      have hin : (base.thread t).group = some g := by
        rcases h with hin | ⟨x, hx, hunder⟩
        · exact hin
        · rwa [honly x hunder] at hx
      refine (hthreads.mem_iff t).mpr ⟨hsame.liveThread.mpr (hfinal.liveThread.mp ht), ?_⟩
      rw [hsame.thread_group]
      exact hin
  · rw [hwith.nrThreads] at hnone
    have hempty : ∀ t, LiveThread machine base t → (base.thread t).group ≠ some g :=
      (hmembership.threads.count_eq_zero_iff hlive).mp hnone
    have hchildren := hwith.symm.groupMembers hlist
    have hsplit : ∀ x, Under machine base x g → x = g ∨ ∃ m ∈ members, Under machine base x m := by
      intro x hunder
      rcases hunder.cases_tail with heq | ⟨m, habove, hm⟩
      · exact .inl heq.symm
      · exact .inr ⟨m, (hchildren.mem_iff m).mpr hm, habove⟩
    refine (harranged.visitAll hsettles hsame (fun m hm => (hchildren.mem_iff m).mp hm) hg
      (.inr rfl) hloop).of_arrange hlinks hsplit ?_ ?_
    · exact fun x hx hin =>
        ⟨x, (hchildren.mem_iff x).mpr ⟨hfinal.liveGroup.mp hx, hin⟩, .refl⟩
    · intro t ht h
      have hout := hempty t (hfinal.liveThread.mp ht)
      rcases h with hin | ⟨x, hx, hunder⟩
      · exact absurd hin hout
      · rcases hsplit x hunder with rfl | ⟨m, hm, habove⟩
        · exact absurd hx hout
        · exact ⟨m, hm, x, hx, habove⟩

theorem settlesMember (huniform : UniformMachine machine)
    (hclosed : ∀ m father, MemberOf machine base m father → Tree father → Tree m)
    (depth : ℕ) : SettlesMember machine base Tree depth := by
  induction depth with
  | zero =>
      intro state next child father known _ _ _ _ _ hchild
      simp [rearrangeChild, waycaGroupRearrangeGroup] at hchild
  | succ depth ih =>
      intro state next child father known hlinks hsettling hmember htree hdone hchild
      obtain ⟨⟨result, code⟩, hrun, rfl⟩ := Option.map_eq_some_iff.mp hchild
      have hmemberState := hlinks.memberOf_iff.mpr hmember
      have htreeChild := hclosed child father hmember htree
      have hlevelEq := hsettling.arranged child hmemberState.1 htreeChild
      have hliveFather :=
        hsettling.membership.groups.owner_live child father hmemberState.1 hmemberState.2
      have hbelow := hsettling.below child father hmemberState htree
      have habove : ∀ m, MemberOf machine state m child →
          (state.group m).nrCpusPerTopo < (state.group child).nrCpusPerTopo :=
        fun m hm => hsettling.below m child hm htreeChild
      have hfathers : ∀ other, (state.group child).father = some other → other = father := by
        intro other hother
        rw [hmemberState.2, Option.some.injEq] at hother
        exact hother.symm
      obtain ⟨attr, level, total, arranged, hrearranged⟩ :=
        rearranged_of_between hsettling.membership hmemberState.1
          (huniform.level_pos hlevelEq) (hlevelEq ▸ Option.some_ne_none _)
          (fun other hother => hfathers other hother ▸ hbelow) habove hrun
      have hlevel : level = (state.group child).nrCpusPerTopo := by
        have hpair := hrearranged.arrange.arrangedLevel_eq
        rw [hlevelEq, Option.some.injEq] at hpair
        exact (congrArg Prod.snd hpair).symm
      rw [← withAttr_self state child] at hrearranged
      refine hsettling.rearranged huniform ih hlinks hmember.1 htreeChild hrearranged ?_ ?_
      · intro other hother
        obtain rfl := hfathers other hother
        have hne : other ≠ child := by
          rintro rfl
          exact hbelow.false
        have hdraws := hsettling.draws other hliveFather hdone
        rw [← hlevel] at hbelow
        exact ⟨hrearranged.arrange.fitsFather hother hne hbelow.le hdraws
          (hsettling.arranged other hliveFather htree), fun _ => ⟨hbelow, hdraws⟩⟩
      · rw [hlevel]
        exact habove

end Below

end WaycaScheduler
