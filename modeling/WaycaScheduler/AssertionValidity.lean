import WaycaScheduler.BalancedPlacement
import WaycaScheduler.UniformMachine

/-!
# The assertions of the group module

For groups that are in no other group, the counted rounds and the used CPUs
always account for the members, so a detach that reopens a round finds one.

The argument needs that a compact group starts a new topology set only when no
set is partly free.  The code decides this by the number of free CPUs alone,
which can be a multiple of the level size with several sets partly free.  A CPU
that is used is then handed out again, and the assertion fails later.
-/

namespace WaycaScheduler

open AlignedBlocks OwnedLists IntrusiveList RoundRobin Transition Finset

variable {members : ℕ} {assigned : Assigned} {g : GroupId} {t : ThreadId}
variable {other : WaycaScGroup} {loads : ℕ → ℤ}

variable {machine : Machine} {state next : State} {group : WaycaScGroup}
  {thread : WaycaThread}

/-! ## What a member is worth -/

/-- The least number of CPUs by which a member raises the books. -/
def weight (group : WaycaScGroup) : ℕ :=
  if hasFlag group.attr WT_GF_COMPACT ∨ hasFlag group.attr WT_GF_PERCPU then 1
  else group.nrCpusPerTopo

/-- The CPUs handed out, those of the complete rounds included. -/
def booked (group : WaycaScGroup) : ℤ :=
  group.rollOverCnts * group.total.cpus.card + group.used.cpus.card

/-- The books of the group cover `members` members. -/
structure Covered (group : WaycaScGroup) (members : ℕ) : Prop where
  shaped : Shaped group
  zero_mem : 0 ∈ group.total
  used_subset : group.used.cpus ⊆ group.total.cpus
  whole : ¬ hasFlag group.attr WT_GF_COMPACT → ¬ hasFlag group.attr WT_GF_PERCPU →
    WholeBlocks group.nrCpusPerTopo group.used.cpus
  enough : (weight group * members : ℕ) ≤ booked group
  enough_full : group.used = group.total → (weight group * (members + 1) : ℕ) ≤ booked group

/-- What a member gives back: CPUs of the group, no more than the member is
worth, and whole topology sets where these are handed out. -/
structure MemberShape (group : WaycaScGroup) (thread : WaycaThread) : Prop where
  subset : thread.allowedSet.cpus ⊆ group.total.cpus
  card_le : (hasFlag group.attr WT_GF_COMPACT → hasFlag group.attr WT_GF_PERCPU) →
    thread.allowedSet.cpus.card ≤ weight group
  whole : ¬ hasFlag group.attr WT_GF_COMPACT → ¬ hasFlag group.attr WT_GF_PERCPU →
    WholeBlocks group.nrCpusPerTopo thread.allowedSet.cpus

theorem Covered.total_pos (hcovered : Covered group members) :
    0 < group.total.cpus.card :=
  card_pos.mpr ⟨0, hcovered.zero_mem⟩

theorem Covered.weight_pos (hcovered : Covered group members) :
    0 < weight group := by
  unfold weight
  split
  next => exact Nat.one_pos
  next => exact hcovered.shaped.level_pos

theorem Covered.congr (hcovered : Covered group members)
    (hshape : SameShape group other) (hused : other.used = group.used)
    (hrounds : other.rollOverCnts = group.rollOverCnts) : Covered other members := by
  obtain ⟨htotal, hlevel, hattr⟩ := hshape
  have hweight : weight other = weight group := by
    unfold weight
    rw [hattr, hlevel]
  have hbooked : booked other = booked group := by
    unfold booked
    rw [htotal, hused, hrounds]
  refine ⟨⟨?_, ?_⟩, ?_, ?_, ?_, ?_, ?_⟩
  · rw [hlevel]
    exact hcovered.shaped.level_pos
  · rw [hlevel, htotal]
    exact hcovered.shaped.whole
  · rw [htotal]
    exact hcovered.zero_mem
  · rw [hused, htotal]
    exact hcovered.used_subset
  · rw [hattr, hlevel, hused]
    exact hcovered.whole
  · rw [hweight, hbooked]
    exact hcovered.enough
  · rw [hweight, hbooked, hused, htotal]
    exact hcovered.enough_full

theorem MemberShape.congr {otherThread : WaycaThread}
    (hmember : MemberShape group thread) (hshape : SameShape group other)
    (hallowed : otherThread.allowedSet = thread.allowedSet) :
    MemberShape other otherThread := by
  obtain ⟨htotal, hlevel, hattr⟩ := hshape
  have hweight : weight other = weight group := by
    unfold weight
    rw [hattr, hlevel]
  refine ⟨?_, ?_, ?_⟩
  · rw [hallowed, htotal]
    exact hmember.subset
  · rw [hallowed, hattr, hweight]
    exact hmember.card_le
  · rw [hallowed, hattr, hlevel]
    exact hmember.whole

theorem memberShape_of_empty (hallowed : thread.allowedSet = cpuZero) :
    MemberShape group thread := by
  refine ⟨?_, fun _ => ?_, fun _ _ => ?_⟩
  all_goals rw [hallowed]
  · exact empty_subset _
  · exact Nat.zero_le _
  · exact wholeBlocks_empty

theorem memberShape_of_threadCpus {cpu : ℕ} (hshaped : Shaped group) (hmem : cpu ∈ group.total)
    (hallowed : thread.allowedSet.cpus = threadCpus group cpu) : MemberShape group thread := by
  refine ⟨?_, ?_, ?_⟩
  · rw [hallowed]
    exact threadCpus_subset hshaped hmem
  · intro hflags
    rw [hallowed, threadCpus, weight]
    by_cases hpercpu : hasFlag group.attr WT_GF_PERCPU
    · rw [if_pos hpercpu, if_pos (.inr hpercpu), card_singleton]
    · rw [if_neg hpercpu, if_neg (not_or.mpr ⟨mt hflags hpercpu, hpercpu⟩), block_card]
  · intro _ hpercpu
    rw [hallowed, threadCpus, if_neg hpercpu]
    exact wholeBlocks_block hshaped.level_pos

/-! ## Assigning a member -/

theorem booked_rollOver (group : WaycaScGroup) (used : CpuSet) :
    booked (rollOver group used) = group.rollOverCnts * group.total.cpus.card + used.cpus.card := by
  unfold booked rollOver
  dsimp only
  split
  next hfull =>
    rw [hfull]
    change _ + ((∅ : Finset ℕ).card : ℤ) = _
    rw [card_empty]
    push_cast
    ring
  next => rfl

theorem weight_le_booked {cpu : ℕ} (hchoice : Choice group cpu) (hshaped : Shaped group)
    (hwhole : ¬ hasFlag group.attr WT_GF_COMPACT → ¬ hasFlag group.attr WT_GF_PERCPU →
      WholeBlocks group.nrCpusPerTopo group.used.cpus)
    (hfree : hasFlag group.attr WT_GF_COMPACT → cpu ∈ availableSet group) :
    group.used.cpus.card + weight group ≤ (bookedCpus group cpu).card := by
  have hlevel := hshaped.level_pos
  obtain ⟨d, hd, hindex⟩ := hchoice.touches
  have hout : d ∉ group.used.cpus := (mem_availableSet.mp hd).2
  have hblock : d ∈ block group.nrCpusPerTopo (cpu / group.nrCpusPerTopo) :=
    (mem_block_iff_div hlevel).mpr hindex
  unfold weight bookedCpus
  by_cases hcompact : hasFlag group.attr WT_GF_COMPACT
  · have hcpu : cpu ∉ group.used.cpus := (mem_availableSet.mp (hfree hcompact)).2
    rw [if_pos (.inl hcompact), if_pos hcompact, card_insert_of_notMem hcpu]
  · rw [if_neg hcompact]
    by_cases hpercpu : hasFlag group.attr WT_GF_PERCPU
    · rw [if_pos (.inr hpercpu), ← card_insert_of_notMem hout]
      refine card_le_card (insert_subset ?_ subset_union_left)
      exact mem_union_right _ hblock
    · have hdisjoint : Disjoint group.used.cpus
          (block group.nrCpusPerTopo (cpu / group.nrCpusPerTopo)) := by
        rw [disjoint_left]
        intro c hused hc
        have hsame := ((mem_block_iff_div hlevel).mp hc).trans hindex.symm
        exact hout ((hwhole hcompact hpercpu).mem_of_div_eq hlevel hused hsame.symm)
      rw [if_neg (not_or.mpr ⟨hcompact, hpercpu⟩), card_union_of_disjoint hdisjoint, block_card]

/-- An assignment keeps the books sufficient.  A compact group must not begin a
topology set while another one is partly free. -/
theorem Covered.assign {members : ℕ} {assigned : Assigned} (hcovered : Covered group members)
    (hbegun : hasFlag group.attr WT_GF_COMPACT →
      group.nrCpusPerTopo ∣ (availableSet group).cpus.card →
      WholeBlocks group.nrCpusPerTopo (availableSet group).cpus)
    (hassign : waycaGroupAssignThreadResource loads group thread = some assigned) :
    assigned.held = true ∧ Covered assigned.group (members + 1) ∧
      SameShape group assigned.group ∧ MemberShape group assigned.thread := by
  have hshaped := hcovered.shaped
  have hnonempty : group.total.cpus.Nonempty := ⟨0, hcovered.zero_mem⟩
  have hcover : ∀ used : CpuSet, used.cpus ⊆ group.total.cpus →
      (¬ hasFlag group.attr WT_GF_COMPACT → ¬ hasFlag group.attr WT_GF_PERCPU →
        WholeBlocks group.nrCpusPerTopo used.cpus) →
      (weight group * (members + 1) : ℕ) ≤
        group.rollOverCnts * group.total.cpus.card + used.cpus.card →
      Covered (rollOver group used) (members + 1) := by
    intro used hsubset hwhole henough
    refine ⟨rollOver_shaped hshaped used, hcovered.zero_mem,
      rollOver_used_subset group used hsubset, ?_, ?_, ?_⟩
    · intro hcompact hpercpu
      unfold rollOver
      dsimp only
      split
      next => exact wholeBlocks_empty
      next => exact hwhole hcompact hpercpu
    · rw [booked_rollOver]
      exact henough
    · intro hfull
      exact absurd hfull (rollOver_used_ne group used hnonempty)
  by_cases hfull : group.used = group.total
  · obtain ⟨target, cpus, hresult, hcpus⟩ :=
      assign_exhausted loads hshaped hcovered.zero_mem hfull thread
    rw [hassign, Option.some.injEq] at hresult
    subst hresult
    refine ⟨rfl, hcover group.total subset_rfl (fun _ _ => hshaped.whole) ?_,
      (SameShape.refl group).rollOver _, ?_⟩
    · have henough := hcovered.enough_full hfull
      unfold booked at henough
      rwa [hfull] at henough
    · rcases hcpus with rfl | ⟨cpu, hmem, hcpus⟩
      · exact memberShape_of_empty rfl
      · exact memberShape_of_threadCpus hshaped hmem hcpus
  · obtain ⟨cpu, used, cpus, result, hresult, hto, hchoice⟩ :=
      assign_spec loads hshaped thread (available_nonempty hcovered.used_subset hfull)
    rw [hassign, Option.some.injEq] at hresult
    subst hresult
    have hfree : hasFlag group.attr WT_GF_COMPACT → cpu ∈ availableSet group := by
      intro hcompact
      by_cases hdvd : group.nrCpusPerTopo ∣ (availableSet group).cpus.card
      · exact hchoice.free_of_whole (hbegun hcompact hdvd)
      · exact (hchoice.free_of_incomplete hcompact hdvd).1
    have hweight := weight_le_booked hchoice hshaped hcovered.whole hfree
    refine ⟨hto.held, ?_, ?_, ?_⟩
    · rw [hto.group_eq]
      refine hcover used ?_ ?_ ?_
      · rw [hto.used_eq]
        exact bookedCpus_subset hshaped hchoice.mem_total hcovered.used_subset
      · intro hcompact hpercpu
        rw [hto.used_eq, bookedCpus, if_neg hcompact]
        exact (hcovered.whole hcompact hpercpu).union (wholeBlocks_block hshaped.level_pos)
      · have henough := hcovered.enough
        unfold booked at henough
        rw [hto.used_eq]
        push_cast at henough ⊢
        have hcast : (group.used.cpus.card : ℤ) + weight group ≤
            (bookedCpus group cpu).card := by exact_mod_cast hweight
        linarith
    · rw [hto.group_eq]
      exact (SameShape.refl group).rollOver _
    · refine memberShape_of_threadCpus hshaped hchoice.mem_total ?_
      rw [hto.thread_eq]
      exact hto.cpus_eq

/-! ## Releasing a member -/

theorem booked_reopenRound (group : WaycaScGroup) :
    booked (reopenRound group) = booked group := by
  unfold booked reopenRound
  dsimp only
  split
  next hempty =>
    have hnone : group.used.cpus = ∅ := card_eq_zero.mp hempty
    rw [cpuOr_cpus, hnone, empty_union, card_empty]
    push_cast
    ring
  next => rfl

theorem reopenRound_whole
    (hshaped : Shaped group) (hwhole : WholeBlocks group.nrCpusPerTopo group.used.cpus) :
    WholeBlocks group.nrCpusPerTopo (reopenRound group).used.cpus := by
  unfold reopenRound
  dsimp only
  split
  next =>
    rw [cpuOr_cpus]
    exact hwhole.union hshaped.whole
  next => exact hwhole

theorem releaseThread_card (hmember : MemberShape group thread) :
    (reopenRound group).used.cpus.card ≤
      (releaseThread group thread).used.cpus.card + weight group := by
  unfold releaseThread
  dsimp only
  split
  next hflags =>
    have hcompact := (Bool.and_eq_true_iff.mp hflags).1
    rw [cpuClr_cpus, weight, if_pos (.inl hcompact)]
    have hcard := pred_card_le_card_erase (s := (reopenRound group).used.cpus)
      (a := thread.targetPos)
    omega
  next hflags =>
    have hallowed := hmember.card_le fun hcompact => by
      by_contra hpercpu
      exact hflags (Bool.and_eq_true_iff.mpr ⟨hcompact, by simpa using hpercpu⟩)
    have hcover : (reopenRound group).used.cpus ⊆
        (cpuXor (reopenRound group).used thread.allowedSet).cpus ∪ thread.allowedSet.cpus := by
      intro c hc
      by_cases hin : c ∈ thread.allowedSet.cpus
      · exact mem_union_right _ hin
      · exact mem_union_left _ (mem_union_right _ (mem_sdiff.mpr ⟨hc, hin⟩))
    have hcard := (card_le_card hcover).trans (card_union_le _ _)
    omega

theorem releaseThread_whole (hshaped : Shaped group) (hmember : MemberShape group thread)
    (hcompact : ¬ hasFlag group.attr WT_GF_COMPACT)
    (hpercpu : ¬ hasFlag group.attr WT_GF_PERCPU)
    (hwhole : WholeBlocks group.nrCpusPerTopo group.used.cpus) :
    WholeBlocks group.nrCpusPerTopo (releaseThread group thread).used.cpus := by
  have hlevel := hshaped.level_pos
  have hopen := reopenRound_whole hshaped hwhole
  have hallowed := hmember.whole hcompact hpercpu
  unfold releaseThread
  dsimp only
  split
  next hflags => exact absurd (Bool.and_eq_true_iff.mp hflags).1 hcompact
  next => exact (hallowed.sdiff hlevel hopen).union (hopen.sdiff hlevel hallowed)

theorem Covered.release (hcovered : Covered group (members + 1))
    (hmember : MemberShape group thread) :
    (cpuCount group.used = 0 → 0 < group.rollOverCnts) ∧
      Covered (releaseThread group thread) members := by
  have hshaped := hcovered.shaped
  have hsubset := hcovered.used_subset
  have henough := hcovered.enough
  have hweight := hcovered.weight_pos
  have hreleased := releaseThread_used_subset hsubset hmember.subset
  have hcard := releaseThread_card hmember
  have hopenSubset := card_le_card (reopenRound_used_subset hsubset)
  have hbooked : booked (releaseThread group thread) + (reopenRound group).used.cpus.card =
      booked group + (releaseThread group thread).used.cpus.card := by
    rw [← booked_reopenRound group]
    unfold booked
    change (reopenRound group).rollOverCnts * (group.total.cpus.card : ℤ) + _ + _ =
      (reopenRound group).rollOverCnts * (group.total.cpus.card : ℤ) + _ + _
    ring
  refine ⟨?_, ⟨hshaped.level_pos, hshaped.whole⟩, hcovered.zero_mem, hreleased, ?_, ?_, ?_⟩
  · intro hempty
    have hnone : group.used.cpus.card = 0 := hempty
    unfold booked at henough
    rw [hnone] at henough
    by_contra hnot
    have hneg : group.rollOverCnts * (group.total.cpus.card : ℤ) ≤ 0 :=
      mul_nonpos_of_nonpos_of_nonneg (by omega) (by positivity)
    have hpos : 0 < weight group * (members + 1) := Nat.mul_pos hweight (Nat.succ_pos _)
    omega
  · intro hcompact hpercpu
    exact releaseThread_whole hshaped hmember hcompact hpercpu (hcovered.whole hcompact hpercpu)
  · change (weight group * members : ℕ) ≤ booked (releaseThread group thread)
    rw [Nat.mul_succ] at henough
    omega
  · intro hfull
    have htotal : (releaseThread group thread).used.cpus.card = group.total.cpus.card := by
      rw [hfull]
      rfl
    change (weight group * (members + 1) : ℕ) ≤ booked (releaseThread group thread)
    omega

theorem Covered.rounds_nonneg (hcovered : Covered group members) :
    0 ≤ group.rollOverCnts := by
  by_contra hneg
  have htotal := hcovered.total_pos
  have hused := card_le_card hcovered.used_subset
  have hrounds : group.rollOverCnts * (group.total.cpus.card : ℤ) ≤
      -1 * (group.total.cpus.card : ℤ) :=
    mul_le_mul_of_nonneg_right (by omega) (by positivity)
  have henough := hcovered.enough
  unfold booked at henough
  have hcard : group.used.cpus.card = group.total.cpus.card := by omega
  have hfull : group.used = group.total :=
    CpuSet.ext (eq_of_subset_of_card_le hcovered.used_subset hcard.ge)
  have hmore := hcovered.enough_full hfull
  unfold booked at hmore
  have hpos : 0 < weight group * (members + 1) := Nat.mul_pos hcovered.weight_pos (Nat.succ_pos _)
  omega

/-! ## Re-arranging a group -/

/-- The books of a group that threads join and never leave. -/
structure FilledInOrder (group : WaycaScGroup) (members : ℕ) : Prop where
  covered : Covered group members
  used_ne : group.used ≠ group.total
  onePartlyUsed : hasFlag group.attr WT_GF_COMPACT → OnePartlyUsed group

theorem FilledInOrder.assign (hfilled : FilledInOrder group members)
    (hassign : waycaGroupAssignThreadResource loads group thread = some assigned) :
    assigned.held = true ∧ FilledInOrder assigned.group (members + 1) ∧
      SameShape group assigned.group ∧ MemberShape group assigned.thread := by
  have hcovered := hfilled.covered
  have hshaped := hcovered.shaped
  have hsubset := hcovered.used_subset
  obtain ⟨hheld, hafter, hshape, hmember⟩ := hcovered.assign
    (fun hcompact => available_whole_of_dvd hshaped hsubset (hfilled.onePartlyUsed hcompact))
    hassign
  refine ⟨hheld, ⟨hafter, assigned_used_ne ⟨0, hcovered.zero_mem⟩ hassign, ?_⟩, hshape, hmember⟩
  intro hcompact
  rw [hshape.attr_eq] at hcompact
  obtain ⟨after, placed, hstep, ⟨-, hone⟩, -⟩ :=
    assignStep_compact hshaped (SameShape.refl group) hcompact (hfilled.onePartlyUsed hcompact)
      hsubset (fun h => hfilled.used_ne (CpuSet.ext h)) (loads, thread)
  rw [assignStep, hassign, Option.map_some, Option.some.injEq, Prod.mk.injEq] at hstep
  rw [hstep.1]
  exact hone

theorem rearrangeMembers_filled {threads : List ThreadId} (hnodup : threads.Nodup)
    (hfilled : FilledInOrder (state.group g) members)
    (hloop : threads.foldlM (rearrangeMember machine g) state = some next) :
    FilledInOrder (next.group g) (members + threads.length) ∧
      SameShape (state.group g) (next.group g) ∧ next.asserts = state.asserts ∧
      (∀ t ∈ threads, MemberShape (next.group g) (next.thread t)) ∧
      (∀ t, t ∉ threads → next.thread t = state.thread t) ∧
      ∀ x, x ≠ g → next.group x = state.group x := by
  induction threads generalizing state members with
  | nil =>
      cases hloop
      exact ⟨hfilled, .refl _, rfl, by simp, fun _ _ => rfl, fun _ _ => rfl⟩
  | cons t rest ih =>
      obtain ⟨hnotin, hrest⟩ := List.nodup_cons.mp hnodup
      rw [List.foldlM_cons] at hloop
      obtain ⟨middle, hmove, hlater⟩ := Option.bind_eq_some_iff.mp hloop
      obtain ⟨assigned, hassign, hmiddle⟩ := rearrangeMember_cases hmove
      obtain ⟨hheld, hfilledMiddle, hshape, hmember⟩ := hfilled.assign hassign
      have hgroup : middle.group g = assigned.group := by
        rw [hmiddle]
        simp
      have hthread : middle.thread t = assigned.thread := by
        rw [hmiddle]
        simp
      rw [← hgroup] at hfilledMiddle hshape
      obtain ⟨hlast, hshapeLast, hasserts, hmembers, hothers, hgroups⟩ :=
        ih hrest hfilledMiddle hlater
      refine ⟨?_, hshape.trans hshapeLast, ?_, ?_, ?_, ?_⟩
      · rwa [List.length_cons, Nat.add_comm rest.length, ← Nat.add_assoc]
      · rw [hasserts, hmiddle, hheld]
        simp
      · intro x hx
        rcases List.mem_cons.mp hx with rfl | hx
        · refine hmember.congr (hshape.trans hshapeLast) ?_
          rw [hothers x hnotin, hthread]
        · exact hmembers x hx
      · intro x hx
        rw [List.mem_cons, not_or] at hx
        rw [hothers x hx.2, hmiddle]
        simp [Function.update_of_ne hx.1]
      · intro x hx
        rw [hgroups x hx, hmiddle]
        simp [Function.update_of_ne hx]

/-- No assertion has failed, and the books of every group account for its
members. -/
structure AssertionsHold (machine : Machine) (state : State) : Prop where
  membership : Membership machine state
  asserts : state.asserts = true
  root : ∀ g, LiveGroup machine state g → (state.group g).father = none
  covered : ∀ g, LiveGroup machine state g →
    Covered (state.group g) (threadsOf machine state g).card
  members : ∀ t g, LiveThread machine state t → (state.thread t).group = some g →
    MemberShape (state.group g) (state.thread t)

namespace AssertionsHold

variable {links : Links GroupId ThreadId}

theorem kept (hholds : AssertionsHold machine state) (hkept : MembersKept machine state next)
    (hmembership : Membership machine next) : AssertionsHold machine next := by
  refine ⟨hmembership, hkept.asserts.trans hholds.asserts, ?_, ?_, ?_⟩
  · intro g hlive
    obtain ⟨hbefore, hgroup⟩ := hkept.group g hlive
    rw [hgroup]
    exact hholds.root g hbefore
  · intro g hlive
    obtain ⟨hbefore, hgroup⟩ := hkept.group g hlive
    rw [hgroup, hkept.threadsOf_eq]
    exact hholds.covered g hbefore
  · intro t g hlive hmember
    obtain ⟨hbefore, hbeforeMember⟩ := (hkept.member_iff t g).mp ⟨hlive, hmember⟩
    obtain ⟨-, hgroup⟩ := hkept.group g (hmembership.threads.owner_live t g hlive hmember)
    rw [hgroup]
    exact (hholds.members t g hbefore hbeforeMember).congr (.refl _) (hkept.placement t hbefore).2

theorem created (huniform : UniformMachine machine) (hholds : AssertionsHold machine state)
    (hcreated : GroupCreated machine state g next) : AssertionsHold machine next := by
  have hmembership := hcreated.membership hholds.membership
  have hthreads : ∀ x, threadsOf machine next x = threadsOf machine state x := by
    intro x
    rw [hcreated.next_eq]
    rfl
  refine ⟨hmembership, ?_, ?_, ?_, ?_⟩
  · rw [hcreated.next_eq]
    exact hholds.asserts
  · intro x hlive
    by_cases hx : x = g
    · rw [hx, hcreated.group_self]
      rfl
    · rw [hcreated.group_other hx]
      exact hholds.root x (((hcreated.live_iff x).mp hlive).resolve_right hx)
  · intro x hlive
    rw [hthreads]
    by_cases hx : x = g
    · have hnone : threadsOf machine state g = ∅ := by
        refine eq_empty_of_forall_notMem fun t ht => ?_
        obtain ⟨hthread, hmember⟩ := mem_threadsOf.mp ht
        exact hcreated.not_live (hholds.membership.threads.owner_live t g hthread hmember)
      have hpos := card_pos.mpr ⟨0, huniform.zero_mem_total⟩
      rw [hx, hnone, hcreated.group_self, card_empty]
      refine ⟨⟨Nat.one_pos, huniform.total_whole (arrangedLevel_default machine)⟩,
        huniform.zero_mem_total, empty_subset _, fun _ _ => wholeBlocks_empty, ?_, ?_⟩
      · simp [booked, freshGroup, WaycaScGroup.zeroed, cpuZero]
      · intro hfull
        have hempty : (freshGroup machine).total.cpus = ∅ := by
          rw [← hfull]
          rfl
        exact absurd (card_eq_zero.mpr hempty) hpos.ne'
    · rw [hcreated.group_other hx]
      exact hholds.covered x (((hcreated.live_iff x).mp hlive).resolve_right hx)
  · intro t x hlive hmember
    rw [hcreated.next_eq] at hlive hmember ⊢
    have hlive : LiveThread machine state t := hlive
    have hmember : (state.thread t).group = some x := hmember
    have hx : x ≠ g := by
      rintro rfl
      exact hcreated.not_live (hholds.membership.threads.owner_live t x hlive hmember)
    simp only [Function.update_of_ne hx]
    exact hholds.members t x hlive hmember

theorem attach {t : ThreadId} {g : GroupId} {assigned : Assigned}
    (hholds : AssertionsHold machine state)
    (hattached : ThreadAttached machine state t g links assigned next)
    (hbegun : hasFlag (state.group g).attr WT_GF_COMPACT →
      (state.group g).nrCpusPerTopo ∣ (availableSet (state.group g)).cpus.card →
      WholeBlocks (state.group g).nrCpusPerTopo (availableSet (state.group g)).cpus) :
    AssertionsHold machine next := by
  have hmembership := hattached.membership hholds.membership
  have hsame := hattached.sameLinks
  set before : WaycaScGroup :=
    { state.group g with threads := links.first g, nrThreads := links.count g } with hbefore
  have hshapeBefore : SameShape (state.group g) before := ⟨rfl, rfl, rfl⟩
  have hcovered : Covered before (threadsOf machine state g).card :=
    (hholds.covered g hattached.live_group).congr hshapeBefore rfl rfl
  obtain ⟨hheld, hcoveredAfter, hshape, hmember⟩ := hcovered.assign hbegun hattached.assign
  have hthreads := hattached.threadsOf_eq
  refine ⟨hmembership, ?_, ?_, ?_, ?_⟩
  · rw [hattached.next_eq, hheld]
    simpa using hholds.asserts
  · intro x hlive
    rw [hsame.father]
    exact hholds.root x (hsame.liveGroup.mp hlive)
  · intro x hlive
    rw [hthreads]
    by_cases hx : x = g
    · rw [hx, if_pos rfl, card_insert_of_notMem hattached.not_mem_threadsOf, hattached.group_self]
      exact hcoveredAfter
    · rw [if_neg hx, hattached.group_other hx]
      exact (hholds.covered x (hsame.liveGroup.mp hlive)).congr ⟨rfl, rfl, rfl⟩ rfl rfl
  · intro y x hlive hin
    have hlist : y ∈ threadsOf machine next x := mem_threadsOf.mpr ⟨hlive, hin⟩
    rw [hthreads] at hlist
    by_cases hx : x = g
    · subst hx
      rw [if_pos rfl, mem_insert] at hlist
      rw [hattached.group_self]
      by_cases hy : y = t
      · rw [hy, hattached.thread_self]
        exact hmember.congr hshape rfl
      · obtain ⟨hliveBefore, hmemberBefore⟩ := mem_threadsOf.mp (hlist.resolve_left hy)
        rw [hattached.thread_other hy]
        exact (hholds.members y x hliveBefore hmemberBefore).congr (hshapeBefore.trans hshape) rfl
    · rw [if_neg hx] at hlist
      obtain ⟨hliveBefore, hmemberBefore⟩ := mem_threadsOf.mp hlist
      have hy : y ≠ t := by
        rintro rfl
        exact hattached.not_mem_threadsOf hlist
      rw [hattached.group_other hx, hattached.thread_other hy]
      exact (hholds.members y x hliveBefore hmemberBefore).congr ⟨rfl, rfl, rfl⟩ rfl

theorem detach (hholds : AssertionsHold machine state)
    (hdetached : ThreadDetached machine state t g links next) :
    AssertionsHold machine next := by
  have hmembership := hdetached.membership hholds.membership
  have hsame := hdetached.sameLinks
  have hthreads := hdetached.threadsOf_eq
  have hold : t ∈ threadsOf machine state g :=
    mem_threadsOf.mpr ⟨hdetached.live_thread, hdetached.member⟩
  have hcovered := hholds.covered g hdetached.live_group
  rw [← card_erase_add_one hold] at hcovered
  obtain ⟨hrounds, hreleased⟩ :=
    hcovered.release (hholds.members t g hdetached.live_thread hdetached.member)
  refine ⟨hmembership, ?_, ?_, ?_, ?_⟩
  · rw [hdetached.next_eq, decide_eq_true hrounds, State.waycaScAssert_true]
    exact hholds.asserts
  · intro x hlive
    rw [hsame.father]
    exact hholds.root x (hsame.liveGroup.mp hlive)
  · intro x hlive
    rw [hthreads]
    by_cases hx : x = g
    · rw [hx, hdetached.group_self]
      exact hreleased.congr ⟨rfl, rfl, rfl⟩ rfl rfl
    · have hout : t ∉ threadsOf machine state x := by
        intro hin
        have hmember := (mem_threadsOf.mp hin).2
        rw [hdetached.member, Option.some.injEq] at hmember
        exact hx hmember.symm
      rw [erase_eq_of_notMem hout, hdetached.group_other hx]
      exact (hholds.covered x (hsame.liveGroup.mp hlive)).congr ⟨rfl, rfl, rfl⟩ rfl rfl
  · intro y x hlive hin
    have hlist : y ∈ threadsOf machine next x := mem_threadsOf.mpr ⟨hlive, hin⟩
    rw [hthreads] at hlist
    obtain ⟨hliveBefore, hmemberBefore⟩ := mem_threadsOf.mp (mem_of_mem_erase hlist)
    have hmember := hholds.members y x hliveBefore hmemberBefore
    rw [hdetached.thread_eq]
    by_cases hx : x = g
    · subst hx
      rw [hdetached.group_self]
      exact hmember.congr ⟨rfl, rfl, rfl⟩ rfl
    · rw [hdetached.group_other hx]
      exact hmember.congr ⟨rfl, rfl, rfl⟩ rfl

theorem setAttr {g : GroupId} {wanted : Attr} (huniform : UniformMachine machine)
    (hholds : AssertionsHold machine state) (hlive : LiveGroup machine state g)
    (hrearrange : waycaGroupRearrangeGroup machine rearrangeDepth (state.withAttr g wanted) g =
      some (next, 0)) : AssertionsHold machine next := by
  have hwith := sameLinks_withAttr state g wanted
  have hmembershipWith := hwith.membership hholds.membership
  have hliveWith := hwith.liveGroup.mpr hlive
  have hsame := hwith.trans (sameLinks_rearrange hrearrange)
  have hmembership := hsame.membership hholds.membership
  have hrootWith : ((state.withAttr g wanted).group g).father = none :=
    (hwith.father g).trans (hholds.root g hlive)
  obtain ⟨attr, level, total, arranged, hdone⟩ :
      ∃ attr level total arranged, Rearranged machine 5 (state.withAttr g wanted) g attr level
        total arranged next := by
    rcases rearrange_spec hmembershipWith hliveWith hrearrange with ⟨hneg, -⟩ | ⟨-, hdone⟩
    · exact absurd hneg (lt_irrefl 0)
    · exact hdone
  have harranged := hdone.arrange
  obtain ⟨htotal, hassertsArranged⟩ := harranged.root hrootWith
  have hotherArranged : ∀ x, x ≠ g → arranged.group x = state.group x := by
    intro x hx
    rw [harranged.other x hx (by rw [hrootWith]; exact nofun)]
    simp [State.withAttr, Function.update_of_ne hx]
  have hthreadArranged : arranged.thread = state.thread := harranged.thread_eq
  have hfilled : FilledInOrder (arranged.group g) 0 := by
    have hzero := huniform.zero_mem_total
    have hempty : cpuZero ≠ total := by
      rintro rfl
      rw [← htotal] at hzero
      exact not_mem_cpuZero hzero
    rw [harranged.group_self]
    refine ⟨⟨⟨huniform.level_pos harranged.arrangedLevel_eq, ?_⟩, ?_, empty_subset _,
      fun _ _ => wholeBlocks_empty, ?_, fun hfull => absurd hfull hempty⟩, hempty, ?_⟩
    · change WholeBlocks level total.cpus
      rw [htotal]
      exact huniform.total_whole harranged.arrangedLevel_eq
    · change 0 ∈ total
      rw [htotal]
      exact hzero
    · simp [booked]
    · intro _ first second hfirst
      exact absurd hfirst not_partly_empty
  have hfinish : ∀ threads : List ThreadId,
      ThreadMembers machine (state.withAttr g wanted) g threads →
      threads.foldlM (rearrangeMember machine g) arranged = some next →
      AssertionsHold machine next := by
    intro threads hthreads hloop
    obtain ⟨hlast, -, hasserts, hmembers, hothers, hgroups⟩ :=
      rearrangeMembers_filled hthreads.nodup hfilled hloop
    have hthreadsOf : ∀ x, threadsOf machine next x = threadsOf machine state x := by
      intro x
      ext t
      rw [mem_threadsOf, mem_threadsOf, hsame.liveThread, hsame.thread_group]
    have hlist : ∀ t, t ∈ threads ↔ t ∈ threadsOf machine state g := by
      intro t
      rw [hthreads.mem_iff, mem_threadsOf, hwith.liveThread, hwith.thread_group]
    refine ⟨hmembership, ?_, ?_, ?_, ?_⟩
    · rw [hasserts, hassertsArranged]
      exact hholds.asserts
    · intro x hx
      rw [hsame.father]
      exact hholds.root x (hsame.liveGroup.mp hx)
    · intro x hx
      rw [hthreadsOf]
      by_cases hxg : x = g
      · have hcard : (threadsOf machine state g).card = threads.length := by
          rw [← List.toFinset_card_of_nodup hthreads.nodup]
          congr 1
          ext t
          rw [List.mem_toFinset, hlist]
        rw [hxg, hcard]
        simpa using hlast.covered
      · rw [hgroups x hxg, hotherArranged x hxg]
        exact hholds.covered x (hsame.liveGroup.mp hx)
    · intro t x hliveThread hmember
      rw [hsame.liveThread] at hliveThread
      rw [hsame.thread_group] at hmember
      by_cases hxg : x = g
      · subst hxg
        exact hmembers t ((hlist t).mpr (mem_threadsOf.mpr ⟨hliveThread, hmember⟩))
      · have hout : t ∉ threads := by
          intro hin
          have howner := (mem_threadsOf.mp ((hlist t).mp hin)).2
          rw [hmember, Option.some.injEq] at howner
          exact hxg howner
        rw [hothers t hout, hthreadArranged, hgroups x hxg, hotherArranged x hxg]
        exact hholds.members t x hliveThread hmember
  rcases hdone.visit with ⟨-, threads, hthreads, hloop⟩ | ⟨hnone, groups, hgroups, hloop⟩
  · exact hfinish threads hthreads hloop
  · have hnoGroups : groups = [] := by
      refine List.eq_nil_iff_forall_not_mem.mpr fun m hm => ?_
      obtain ⟨hliveMember, hfather⟩ := (hgroups.mem_iff m).mp hm
      rw [hwith.liveGroup] at hliveMember
      rw [hwith.father, hholds.root m hliveMember] at hfather
      cases hfather
    obtain ⟨threads, hthreads, -, -, hlength⟩ := hmembershipWith.threadMembers hliveWith
    have hnoThreads : threads = [] := List.length_eq_zero_iff.mp (by omega)
    subst hnoGroups
    subst hnoThreads
    exact hfinish [] hthreads hloop

end AssertionsHold

/-- No group joins another, and a thread joins a compact group only when a
number of free CPUs that is a multiple of the level size means that no topology
set is partly free. -/
def FillsBegunSets (machine : Machine) (state : State) : Call → Prop
  | .groupAttachGroup _ _ => False
  | .threadAttachGroup t g =>
      LiveThread machine state t → LiveGroup machine state g →
        (state.thread t).group = none → hasFlag (state.group g).attr WT_GF_COMPACT →
        (state.group g).nrCpusPerTopo ∣ (availableSet (state.group g)).cpus.card →
        WholeBlocks (state.group g).nrCpusPerTopo (availableSet (state.group g)).cpus
  | _ => True

instance (machine : Machine) (state : State) (call : Call) :
    Decidable (FillsBegunSets machine state call) :=
  match call with
  | .groupAttachGroup _ _ => isFalse id
  | .threadAttachGroup _ _ => by dsimp only [FillsBegunSets]; infer_instance
  | .threadCreate _ _ _ | .threadJoin _ _ | .pidAttachThread _ _ _ | .pidDetachThread _ |
    .threadSetAttr _ _ _ | .groupCreate _ _ | .groupDestroy _ | .groupSetAttr _ _ |
    .threadDetachGroup _ _ | .groupDetachGroup _ _ => isTrue trivial

theorem assertionsHold_start (machine : Machine) : AssertionsHold machine State.start := by
  refine ⟨membership_start machine, rfl, ?_, ?_, ?_⟩
  · exact fun g hlive => absurd hlive (not_liveGroup_start machine g)
  · exact fun g hlive => absurd hlive (not_liveGroup_start machine g)
  · intro t g hlive
    exact absurd hlive (not_liveThread rfl)

theorem AssertionsHold.left {middle : State} (hholds : AssertionsHold machine state)
    (hleft : LeftGroup machine state t middle) : AssertionsHold machine middle := by
  rcases hleft with ⟨-, rfl⟩ | ⟨g, links, hdetached⟩
  · exact hholds
  · exact hholds.detach hdetached

theorem AssertionsHold.not_groupDetached {father : GroupId} {links : Links GroupId GroupId}
    (hholds : AssertionsHold machine state) :
    ¬GroupDetached machine state g father links next := by
  intro hdetached
  have hroot := hholds.root g hdetached.live_group
  rw [hdetached.member] at hroot
  cases hroot

/-- The step: a call that fills begun sets first keeps the books covered. -/
theorem step_assertionsHold {call : Call} {ret : ℤ} (huniform : UniformMachine machine)
    (hholds : AssertionsHold machine state) (hfills : FillsBegunSets machine state call)
    (hstep : step machine state call = some (next, ret)) : AssertionsHold machine next := by
  have hmembership := hholds.membership
  have hnext := step_membership hmembership hstep
  cases step_effect hmembership hstep with
  | kept hkept => exact hholds.kept hkept hnext
  | freed t middle times hleft =>
      exact (hholds.left hleft).kept (membersKept_freed times hleft.group_eq) hnext
  | created g hcreated => exact hholds.created huniform hcreated
  | destroyed middle hdestroyed =>
      rcases hdestroyed.leave with ⟨-, rfl⟩ | ⟨father, links, hdetached⟩
      · exact hholds.kept hdestroyed.membersKept hnext
      · exact absurd hdetached hholds.not_groupDetached
  | attrSet g wanted hlive hrearrange => exact hholds.setAttr huniform hlive hrearrange
  | attached links assigned hattached =>
      exact hholds.attach hattached
        (hfills hattached.live_thread hattached.live_group hattached.free)
  | detached links hdetached => exact hholds.detach hdetached
  | groupAttached => exact absurd hfills id
  | groupDetached links hdetached => exact absurd hdetached hholds.not_groupDetached

/-- On a uniform machine, in every run in which no group joins another and no
compact group begins a topology set while another is partly free, no assertion
of the library fails, no count of rounds is negative, and a group with members
that uses no CPU has counted a round. -/
theorem assertions_hold_at_single_level (huniform : UniformMachine machine)
    (hreach : Reaches machine (FillsBegunSets machine) state) :
    state.asserts = true ∧ ∀ g, LiveGroup machine state g →
      0 ≤ (state.group g).rollOverCnts ∧
        ((state.group g).nrThreads ≠ 0 → (state.group g).used = cpuZero →
          0 < (state.group g).rollOverCnts) := by
  have hholds : AssertionsHold machine state :=
    hreach.keeps (AssertionsHold machine) (assertionsHold_start machine)
      fun _ _ _ _ hbefore hfills hstep => step_assertionsHold huniform hbefore hfills hstep
  refine ⟨hholds.asserts, ?_⟩
  intro g hlive
  have hcovered := hholds.covered g hlive
  refine ⟨hcovered.rounds_nonneg, ?_⟩
  intro hthreads hempty
  have hcount := hholds.membership.card_threadsOf hlive
  obtain ⟨t, ht⟩ : (threadsOf machine state g).Nonempty := by
    rw [← card_pos]
    omega
  obtain ⟨hthread, hmember⟩ := mem_threadsOf.mp ht
  rw [← card_erase_add_one ht] at hcovered
  refine (hcovered.release (hholds.members t g hthread hmember)).1 ?_
  rw [hempty]
  rfl

/-- Five threads in a compact group at the level of the CCL; one leaves and
another one joins. -/
theorem assertions_hold_at_single_level_rejoin :
    ∃ state, Reaches smallMachine (FillsBegunSets smallMachine) state ∧
      (state.group 0).nrThreads = 4 ∧ (state.group 0).used = cpuZero ∧
      state.asserts = true ∧ 0 < (state.group 0).rollOverCnts := by
  have hrun : ∃ state ∈ runCalls (step smallMachine) (FillsBegunSets smallMachine) State.start
      [.groupCreate true true,
        .groupSetAttr 0 (some (WT_GF_CCL ||| WT_GF_COMPACT ||| WT_GF_PERCPU)),
        createOnSmall, createOnSmall, createOnSmall, createOnSmall, createOnSmall,
        .threadAttachGroup 0 0, .threadAttachGroup 1 0, .threadAttachGroup 2 0,
        .threadDetachGroup 2 0, .threadAttachGroup 3 0, .threadAttachGroup 4 0],
      LiveGroup smallMachine state 0 ∧ (state.group 0).nrThreads = 4 ∧
        (state.group 0).used = cpuZero := by
    decide +kernel
  obtain ⟨state, hreach, hlive, hthreads, hempty⟩ := exists_reachable_of_runCalls hrun
  obtain ⟨hasserts, hgroups⟩ := assertions_hold_at_single_level smallMachine_uniform hreach
  refine ⟨state, hreach, hthreads, hempty, hasserts, (hgroups 0 hlive).2 ?_ hempty⟩
  rw [hthreads]
  decide

/-- Two CCLs of two CPUs are full and one CPU of each becomes free.  Two free
CPUs are a multiple of the level size, so the next thread is put on a CPU that
is used, and when all threads have left a round is taken back that was never
counted. -/
theorem begun_set_fails_assertion :
    ∃ state, Reaches smallMachine (fun _ call => call.singleLevel = true) state ∧
      LiveGroup smallMachine state 0 ∧ state.asserts = false ∧
      (state.group 0).rollOverCnts = -1 := by
  have hrun : ∃ state ∈ runCalls (step smallMachine) (fun _ call => call.singleLevel = true)
      State.start
      [.groupCreate true true,
        .groupSetAttr 0 (some (WT_GF_CCL ||| WT_GF_COMPACT ||| WT_GF_PERCPU)),
        createOnSmall, createOnSmall, createOnSmall, createOnSmall, createOnSmall,
        .threadAttachGroup 0 0, .threadAttachGroup 1 0, .threadAttachGroup 2 0,
        .threadAttachGroup 3 0, .threadDetachGroup 1 0, .threadDetachGroup 3 0,
        .threadAttachGroup 4 0, .threadDetachGroup 0 0, .threadDetachGroup 2 0,
        .threadDetachGroup 4 0],
      LiveGroup smallMachine state 0 ∧ state.asserts = false ∧
        (state.group 0).rollOverCnts = -1 := by
    decide +kernel
  exact exists_reachable_of_runCalls hrun

end WaycaScheduler
