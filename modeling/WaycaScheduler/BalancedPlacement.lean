import WaycaScheduler.PlacementChoice
import WaycaScheduler.Library.RoundRobin

/-!
# Balanced placement

Members are assigned to a fresh group one after another while the loads take
any values.  With `WT_GF_COMPACT` the CPUs of the group are the cells of a
round robin pool, otherwise its topology sets are; blocks handed to member
groups are always topology sets.  In each case the round never repeats a cell,
so every cell is taken by the floor or the ceiling of the average.
-/

namespace WaycaScheduler

open AlignedBlocks RoundRobin Finset

variable {used : CpuSet} {cpu index : ℕ} {start : WaycaScGroup}
variable {group : WaycaScGroup}

/-! ## The books of a group as a pool -/

/-- The CPUs of the group as a pool that is handed out in rounds. -/
def cpuPool (group : WaycaScGroup) : Pool ℕ :=
  ⟨group.used.cpus, group.rollOverCnts⟩

/-- The topology entities of the group as such a pool. -/
def blockPool (group : WaycaScGroup) : Pool ℕ :=
  ⟨blockIndices group.nrCpusPerTopo group.used.cpus, group.rollOverCnts⟩

theorem cpuPool_rollOver (hused : used.cpus = insert cpu group.used.cpus) :
    cpuPool (rollOver group used) = (cpuPool group).take group.total.cpus cpu := by
  have hiff : used = group.total ↔ insert cpu group.used.cpus = group.total.cpus := by
    rw [← hused]
    exact CpuSet.ext_iff
  unfold cpuPool rollOver Pool.take
  by_cases hfull : used = group.total
  · simp [hfull, hiff.mp hfull]
  · simp [hfull, mt hiff.mpr hfull, hused]

theorem blockPool_rollOver (hshaped : Shaped group)
    (hwhole : WholeBlocks group.nrCpusPerTopo group.used.cpus)
    (hused : used.cpus = group.used.cpus ∪ block group.nrCpusPerTopo index) :
    blockPool (rollOver group used) =
      (blockPool group).take (blockIndices group.nrCpusPerTopo group.total.cpus) index := by
  have hlevel := hshaped.level_pos
  have hafter : blockIndices group.nrCpusPerTopo used.cpus =
      insert index (blockIndices group.nrCpusPerTopo group.used.cpus) := by
    rw [hused, blockIndices_union, blockIndices_block hlevel, union_comm, ← insert_eq]
  have hwholeAfter : WholeBlocks group.nrCpusPerTopo used.cpus := by
    rw [hused]
    exact hwhole.union (wholeBlocks_block hlevel)
  have hiff : used = group.total ↔ insert index (blockIndices group.nrCpusPerTopo group.used.cpus) =
        blockIndices group.nrCpusPerTopo group.total.cpus := by
    rw [CpuSet.ext_iff, hwholeAfter.eq_iff_blockIndices_eq hlevel hshaped.whole, hafter]
  unfold blockPool rollOver Pool.take
  by_cases hfull : used = group.total
  · simp [hfull, hiff.mp hfull]
  · simp [hfull, mt hiff.mpr hfull, hafter]

def assignStep (group : WaycaScGroup) (request : (ℕ → ℤ) × WaycaThread) :
    Option (WaycaScGroup × WaycaThread) :=
  (waycaGroupAssignThreadResource request.1 group request.2).map fun assigned =>
    (assigned.group, assigned.thread)

def requestStep (father : WaycaScGroup) (loads : ℕ → ℤ) : Option (WaycaScGroup × CpuSet) :=
  waycaGroupRequestResourceFromFather loads father

theorem SameShape.shaped (hsame : SameShape start group)
    (hshaped : Shaped start) : Shaped group := by
  refine ⟨?_, ?_⟩
  · rw [hsame.level_eq]
    exact hshaped.level_pos
  · rw [hsame.level_eq, hsame.total_eq]
    exact hshaped.whole

theorem SameShape.rollOver (hsame : SameShape start group) (used : CpuSet) :
    SameShape start (rollOver group used) :=
  ⟨hsame.total_eq, hsame.level_eq, hsame.attr_eq⟩

/-- At most one entity has both used and unused CPUs. -/
def OnePartlyUsed (group : WaycaScGroup) : Prop :=
  ∀ first second, Partly group.nrCpusPerTopo group.used.cpus first →
    Partly group.nrCpusPerTopo group.used.cpus second → first = second

theorem available_partly_iff (hshaped : Shaped group)
    (hsubset : group.used.cpus ⊆ group.total.cpus) (index : ℕ) :
    Partly group.nrCpusPerTopo (availableSet group).cpus index ↔
      Partly group.nrCpusPerTopo group.used.cpus index := by
  rw [availableSet_cpus]
  by_cases hblock : block group.nrCpusPerTopo index ⊆ group.total.cpus
  · exact partly_sdiff hblock
  · have hnone : ∀ d ∈ block group.nrCpusPerTopo index, d ∉ group.total.cpus := by
      intro d hd hin
      refine hblock ?_
      rw [← (mem_block_iff_div hshaped.level_pos).mp hd]
      exact hshaped.whole d hin
    constructor
    · rintro ⟨⟨d, hd⟩, -⟩
      rw [mem_inter, mem_sdiff] at hd
      exact absurd hd.2.1 (hnone d hd.1)
    · rintro ⟨⟨d, hd⟩, -⟩
      rw [mem_inter] at hd
      exact absurd (hsubset hd.2) (hnone d hd.1)

theorem available_whole_of_dvd (hshaped : Shaped group)
    (hsubset : group.used.cpus ⊆ group.total.cpus) (hone : OnePartlyUsed group)
    (hdvd : group.nrCpusPerTopo ∣ (availableSet group).cpus.card) :
    WholeBlocks group.nrCpusPerTopo (availableSet group).cpus := by
  refine wholeBlocks_of_dvd_card hshaped.level_pos ?_ hdvd
  intro first second hfirst hsecond
  exact hone first second ((available_partly_iff hshaped hsubset first).mp hfirst)
    ((available_partly_iff hshaped hsubset second).mp hsecond)

/-- A compact group fills the topology set it has begun before it begins
another, so the target is free and at most one set stays partly used. -/
theorem Choice.compact_free (hchoice : Choice group cpu)
    (hshaped : Shaped group) (hcompact : hasFlag group.attr WT_GF_COMPACT)
    (hsubset : group.used.cpus ⊆ group.total.cpus) (hone : OnePartlyUsed group) :
    cpu ∈ availableSet group ∧ ∀ index, Partly group.nrCpusPerTopo group.used.cpus index →
        index = cpu / group.nrCpusPerTopo := by
  have hlevel := hshaped.level_pos
  have hswap := available_partly_iff hshaped hsubset
  by_cases hdvd : group.nrCpusPerTopo ∣ (availableSet group).cpus.card
  · have hwhole := available_whole_of_dvd hshaped hsubset hone hdvd
    refine ⟨hchoice.free_of_whole hwhole, ?_⟩
    intro index hindex
    obtain ⟨⟨d, hd⟩, hnot⟩ := (hswap index).mpr hindex
    rw [mem_inter] at hd
    have hsame := (mem_block_iff_div hlevel).mp hd.1
    rw [← hsame] at hnot
    exact absurd (hwhole d hd.2) hnot
  · obtain ⟨hfree, hpartial⟩ := hchoice.free_of_incomplete hcompact hdvd
    refine ⟨hfree, ?_⟩
    intro index hindex
    refine hone index _ hindex ((hswap _).mp ⟨⟨cpu, ?_⟩, hpartial⟩)
    exact mem_inter.mpr ⟨mem_own_block hlevel, hfree⟩

theorem rollOver_onePartlyUsed (hlevel : 0 < group.nrCpusPerTopo)
    (hused : used.cpus = insert cpu group.used.cpus)
    (hone : ∀ index, Partly group.nrCpusPerTopo group.used.cpus index →
      index = cpu / group.nrCpusPerTopo) : OnePartlyUsed (rollOver group used) := by
  have hindex : ∀ index, Partly group.nrCpusPerTopo (rollOver group used).used.cpus index →
        index = cpu / group.nrCpusPerTopo := by
    intro index hpartly
    unfold rollOver at hpartly
    dsimp only at hpartly
    split at hpartly
    next => exact absurd hpartly not_partly_empty
    next =>
      by_contra hne
      rw [hused, partly_insert_of_ne hlevel hne] at hpartly
      exact hne (hone index hpartly)
  intro first second hfirst hsecond
  exact (hindex first hfirst).trans (hindex second hsecond).symm

theorem assignStep_compact (hshaped : Shaped start)
    (hsame : SameShape start group) (hcompact : hasFlag start.attr WT_GF_COMPACT)
    (hone : OnePartlyUsed group) (hsubset : group.used.cpus ⊆ start.total.cpus)
    (hne : group.used.cpus ≠ start.total.cpus) (request : (ℕ → ℤ) × WaycaThread) :
    ∃ after thread, assignStep group request = some (after, thread) ∧
      (SameShape start after ∧ OnePartlyUsed after) ∧ thread.targetPos ∈ start.total.cpus ∧
      thread.targetPos ∉ group.used.cpus ∧
      cpuPool after = (cpuPool group).take start.total.cpus thread.targetPos := by
  have hshapedGroup := hsame.shaped hshaped
  rw [← hsame.total_eq] at hsubset hne ⊢
  have havailable := available_nonempty hsubset (fun h => hne (by rw [h]))
  obtain ⟨cpu, used, cpus, result, hassign, hto, hchoice⟩ :=
    assign_spec request.1 hshapedGroup request.2 havailable
  have hflag : hasFlag group.attr WT_GF_COMPACT := by
    rw [hsame.attr_eq]
    exact hcompact
  obtain ⟨hfree, hindex⟩ := hchoice.compact_free hshapedGroup hflag hsubset hone
  have hbooked : used.cpus = insert cpu group.used.cpus := by
    rw [hto.used_eq, bookedCpus, if_pos hflag]
  have htarget : result.thread.targetPos = cpu := by rw [hto.thread_eq]
  refine ⟨result.group, result.thread, ?_, ⟨?_, ?_⟩, ?_, ?_, ?_⟩
  · simp [assignStep, hassign]
  · rw [hto.group_eq]
    exact hsame.rollOver used
  · rw [hto.group_eq]
    exact rollOver_onePartlyUsed hshapedGroup.level_pos hbooked hindex
  · rw [htarget]
    exact hchoice.mem_total
  · rw [htarget]
    exact (mem_availableSet.mp hfree).2
  · rw [hto.group_eq, htarget]
    exact cpuPool_rollOver hbooked

theorem available_whole (hshaped : Shaped group)
    (hwhole : WholeBlocks group.nrCpusPerTopo group.used.cpus) :
    WholeBlocks group.nrCpusPerTopo (availableSet group).cpus := by
  rw [availableSet_cpus]
  exact hshaped.whole.sdiff hshaped.level_pos hwhole

theorem rollOver_whole (hlevel : 0 < group.nrCpusPerTopo)
    (hwhole : WholeBlocks group.nrCpusPerTopo group.used.cpus)
    (hused : used.cpus = group.used.cpus ∪ block group.nrCpusPerTopo index) :
    WholeBlocks (rollOver group used).nrCpusPerTopo (rollOver group used).used.cpus := by
  unfold rollOver
  dsimp only
  split
  next => exact wholeBlocks_empty
  next =>
    rw [hused]
    exact hwhole.union (wholeBlocks_block hlevel)

theorem available_of_blockPool (hshaped : Shaped group)
    (hwhole : WholeBlocks group.nrCpusPerTopo group.used.cpus)
    (hsubset : (blockPool group).used ⊆ blockIndices group.nrCpusPerTopo group.total.cpus)
    (hne : (blockPool group).used ≠ blockIndices group.nrCpusPerTopo group.total.cpus) :
    (availableSet group).cpus.Nonempty := by
  have hlevel := hshaped.level_pos
  have hin : group.used.cpus ⊆ group.total.cpus := by
    intro c hc
    rw [hshaped.whole.mem_iff_blockIndices hlevel]
    exact hsubset ((hwhole.mem_iff_blockIndices hlevel).mp hc)
  refine available_nonempty hin ?_
  intro hfull
  refine hne ?_
  change blockIndices _ group.used.cpus = _
  rw [hfull]

def grantedIndex (level : ℕ) (granted : CpuSet) : ℕ :=
  granted.cpus.sup id / level

theorem grantedIndex_of_block {level : ℕ} {granted : CpuSet} (hlevel : 0 < level)
    (hgranted : granted.cpus = block level index) : grantedIndex level granted = index := by
  obtain ⟨last, hlast, hsup⟩ := exists_mem_eq_sup (block level index) (block_nonempty hlevel _) id
  unfold grantedIndex
  rw [hgranted, hsup]
  exact (mem_block_iff_div hlevel).mp hlast

section Blocks

variable (hshaped : Shaped start) (hsame : SameShape start group)
  (hwhole : WholeBlocks group.nrCpusPerTopo group.used.cpus)

include hshaped hsame hwhole

theorem take_block (hfree : cpu ∈ availableSet group) (hused : used.cpus =
      group.used.cpus ∪ block group.nrCpusPerTopo (cpu / group.nrCpusPerTopo)) :
    (SameShape start (rollOver group used) ∧
      WholeBlocks (rollOver group used).nrCpusPerTopo (rollOver group used).used.cpus) ∧
      cpu / start.nrCpusPerTopo ∈ blockIndices start.nrCpusPerTopo start.total.cpus ∧
      cpu / start.nrCpusPerTopo ∉ (blockPool group).used ∧
      blockPool (rollOver group used) = (blockPool group).take
        (blockIndices start.nrCpusPerTopo start.total.cpus) (cpu / start.nrCpusPerTopo) := by
  have hshapedGroup := hsame.shaped hshaped
  have hlevel := hshapedGroup.level_pos
  rw [← hsame.total_eq, ← hsame.level_eq]
  refine ⟨⟨hsame.rollOver used, rollOver_whole hlevel hwhole hused⟩, ?_, ?_,
    blockPool_rollOver hshapedGroup hwhole hused⟩
  · exact mem_blockIndices.mpr ⟨cpu, (mem_availableSet.mp hfree).1, rfl⟩
  · intro hin
    exact (mem_availableSet.mp hfree).2 ((hwhole.mem_iff_blockIndices hlevel).mpr hin)

variable (hsubset : (blockPool group).used ⊆ blockIndices start.nrCpusPerTopo start.total.cpus)
  (hne : (blockPool group).used ≠ blockIndices start.nrCpusPerTopo start.total.cpus)

include hsubset hne

theorem assignStep_scattered (hcompact : ¬ hasFlag start.attr WT_GF_COMPACT)
    (request : (ℕ → ℤ) × WaycaThread) :
    ∃ after thread, assignStep group request = some (after, thread) ∧
      (SameShape start after ∧ WholeBlocks after.nrCpusPerTopo after.used.cpus) ∧
      (thread.targetPos ∈ thread.curSet ∧ thread.curSet.cpus ⊆
        block start.nrCpusPerTopo (thread.targetPos / start.nrCpusPerTopo)) ∧
      thread.targetPos / start.nrCpusPerTopo ∈ blockIndices start.nrCpusPerTopo start.total.cpus ∧
      thread.targetPos / start.nrCpusPerTopo ∉ (blockPool group).used ∧
      blockPool after = (blockPool group).take (blockIndices start.nrCpusPerTopo start.total.cpus)
        (thread.targetPos / start.nrCpusPerTopo) := by
  have hshapedGroup := hsame.shaped hshaped
  rw [← hsame.total_eq, ← hsame.level_eq] at hsubset hne
  have havailable := available_of_blockPool hshapedGroup hwhole hsubset hne
  obtain ⟨cpu, used, cpus, result, hassign, hto, hchoice⟩ :=
    assign_spec request.1 hshapedGroup request.2 havailable
  have hflag : ¬ hasFlag group.attr WT_GF_COMPACT := by
    rw [hsame.attr_eq]
    exact hcompact
  have hbooked : used.cpus = group.used.cpus ∪
      block group.nrCpusPerTopo (cpu / group.nrCpusPerTopo) := by
    rw [hto.used_eq, bookedCpus, if_neg hflag]
  obtain ⟨hkept, htaken⟩ := take_block hshaped hsame hwhole
    (hchoice.free_of_whole (available_whole hshapedGroup hwhole)) hbooked
  have htarget : result.thread.targetPos = cpu := by rw [hto.thread_eq]
  have hown : cpu ∈ block start.nrCpusPerTopo (cpu / start.nrCpusPerTopo) :=
    mem_own_block hshaped.level_pos
  have hcur : result.thread.curSet.cpus = threadCpus group cpu := by
    rw [hto.thread_eq]
    exact hto.cpus_eq
  refine ⟨result.group, result.thread, by simp [assignStep, hassign], ?_⟩
  rw [hto.group_eq, ← CpuSet.mem_cpus, hcur, htarget, threadCpus, hsame.level_eq]
  refine ⟨hkept, ?_, htaken⟩
  split
  next => exact ⟨mem_singleton_self cpu, singleton_subset_iff.mpr hown⟩
  next => exact ⟨hown, Subset.refl _⟩

theorem requestStep_spec (loads : ℕ → ℤ) :
    ∃ after granted, requestStep group loads = some (after, granted) ∧
      (SameShape start after ∧ WholeBlocks after.nrCpusPerTopo after.used.cpus) ∧
      granted.cpus = block start.nrCpusPerTopo (grantedIndex start.nrCpusPerTopo granted) ∧
      grantedIndex start.nrCpusPerTopo granted ∈ blockIndices start.nrCpusPerTopo start.total.cpus ∧
      grantedIndex start.nrCpusPerTopo granted ∉ (blockPool group).used ∧
      blockPool after = (blockPool group).take (blockIndices start.nrCpusPerTopo start.total.cpus)
        (grantedIndex start.nrCpusPerTopo granted) := by
  have hshapedGroup := hsame.shaped hshaped
  rw [← hsame.total_eq, ← hsame.level_eq] at hsubset hne
  obtain ⟨cpu, hfree, used, granted, hrequest, hgranted, hbooked⟩ :=
    request_spec loads hshapedGroup (available_of_blockPool hshapedGroup hwhole hsubset hne)
  obtain ⟨hkept, htaken⟩ := take_block hshaped hsame hwhole hfree hbooked
  rw [hsame.level_eq] at hgranted
  refine ⟨rollOver group used, granted, hrequest, hkept, ?_⟩
  rw [grantedIndex_of_block hshaped.level_pos hgranted]
  exact ⟨hgranted, htaken⟩

end Blocks

/-! ## Runs of any length -/

section Runs

variable {group : WaycaScGroup} {indices : Finset ℕ}

theorem card_of_blocks (hlevel : 0 < group.nrCpusPerTopo)
    (htotal : group.total.cpus = indices.biUnion (block group.nrCpusPerTopo)) :
    group.total.cpus.card = indices.card * group.nrCpusPerTopo := by
  have hwhole : WholeBlocks group.nrCpusPerTopo group.total.cpus := by
    rw [htotal]
    exact wholeBlocks_biUnion hlevel
  rw [hwhole.card_eq hlevel, htotal, blockIndices_biUnion hlevel]

theorem compact_threads_balanced (hshaped : Shaped group) (hnonempty : group.total.cpus.Nonempty)
    (hused : group.used = cpuZero) (hrounds : group.rollOverCnts = 0)
    (hcompact : hasFlag group.attr WT_GF_COMPACT)
    (requests : List ((ℕ → ℤ) × WaycaThread)) :
    ∃ final placed, serve assignStep group requests = some (final, placed) ∧
      placed.length = requests.length ∧ OnePartlyUsed final ∧
      final.nrCpusPerTopo = group.nrCpusPerTopo ∧
      final.rollOverCnts = requests.length / group.total.cpus.card ∧
      ∀ cpu ∈ group.total.cpus, placed.countP (fun thread => thread.targetPos = cpu) =
            requests.length / group.total.cpus.card ∨
          placed.countP (fun thread => thread.targetPos = cpu) =
            (requests.length + group.total.cpus.card - 1) / group.total.cpus.card := by
  have hstart : cpuPool group = ⟨∅, 0⟩ := by
    unfold cpuPool
    rw [hused, hrounds]
    rfl
  have hnone : OnePartlyUsed group := by
    intro first second hfirst
    rw [hused] at hfirst
    exact absurd hfirst not_partly_empty
  have hstep : ∀ before (request : (ℕ → ℤ) × WaycaThread),
      SameShape group before ∧ OnePartlyUsed before →
      (cpuPool before).used ⊆ group.total.cpus → (cpuPool before).used ≠ group.total.cpus →
      ∃ after thread, assignStep before request = some (after, thread) ∧
        (SameShape group after ∧ OnePartlyUsed after) ∧ True ∧
        thread.targetPos ∈ group.total.cpus ∧ thread.targetPos ∉ (cpuPool before).used ∧
        cpuPool after = (cpuPool before).take group.total.cpus thread.targetPos := by
    intro before request ⟨hsame, hone⟩ hsubset hne
    obtain ⟨after, thread, hserved, hkept, hmem, hfree, hpool⟩ :=
      assignStep_compact hshaped hsame hcompact hone hsubset hne request
    exact ⟨after, thread, hserved, hkept, trivial, hmem, hfree, hpool⟩
  obtain ⟨final, placed, hrun, hlength, ⟨hsame, hone⟩, -, hfinal, hcount⟩ :=
    serve_balanced _ _ cpuPool WaycaThread.targetPos hstep requests ⟨.refl group, hnone⟩
      hnonempty hstart
  exact ⟨final, placed, hrun, hlength, hone, hsame.level_eq, hfinal, hcount⟩

theorem blockPool_start (hused : group.used = cpuZero) (hrounds : group.rollOverCnts = 0) :
    blockPool group = ⟨∅, 0⟩ := by
  unfold blockPool
  rw [hused, hrounds]
  rfl

/-- Answers that stand for a topology set each, which is free until it is taken,
are spread evenly over the sets. -/
theorem blocks_balanced {Request Answer : Type}
    {step : WaycaScGroup → Request → Option (WaycaScGroup × Answer)}
    {Good : Answer → Prop} {indexOf : Answer → ℕ} {In : ℕ → Answer → Prop}
    [∀ index, DecidablePred (In index)] (hnonempty : group.total.cpus.Nonempty)
    (hused : group.used = cpuZero) (hrounds : group.rollOverCnts = 0)
    (hindices : blockIndices group.nrCpusPerTopo group.total.cpus = indices)
    (hstep : ∀ before request,
      SameShape group before ∧ WholeBlocks before.nrCpusPerTopo before.used.cpus →
      (blockPool before).used ⊆ blockIndices group.nrCpusPerTopo group.total.cpus →
      (blockPool before).used ≠ blockIndices group.nrCpusPerTopo group.total.cpus →
      ∃ after answer, step before request = some (after, answer) ∧
        (SameShape group after ∧ WholeBlocks after.nrCpusPerTopo after.used.cpus) ∧ Good answer ∧
        indexOf answer ∈ blockIndices group.nrCpusPerTopo group.total.cpus ∧
        indexOf answer ∉ (blockPool before).used ∧ blockPool after = (blockPool before).take
          (blockIndices group.nrCpusPerTopo group.total.cpus) (indexOf answer))
    (hin : ∀ answer index, Good answer → (In index answer ↔ indexOf answer = index))
    (requests : List Request) :
    ∃ final answers, serve step group requests = some (final, answers) ∧
      answers.length = requests.length ∧ final.rollOverCnts = requests.length / indices.card ∧
      ∀ index ∈ indices, answers.countP (In index) = requests.length / indices.card ∨
        answers.countP (In index) = (requests.length + indices.card - 1) / indices.card := by
  have hwhole : WholeBlocks group.nrCpusPerTopo group.used.cpus := by
    rw [hused]
    exact wholeBlocks_empty
  obtain ⟨final, answers, hrun, hlength, -, hgood, hfinal, hcount⟩ :=
    serve_balanced _ Good blockPool indexOf hstep requests ⟨.refl group, hwhole⟩
      (hnonempty.image _) (blockPool_start hused hrounds)
  rw [hindices] at hfinal hcount
  refine ⟨final, answers, hrun, hlength, hfinal, ?_⟩
  intro index hindex
  have hsame : answers.countP (In index) = answers.countP (indexOf · = index) := by
    refine List.countP_congr fun answer hanswer => ?_
    simp only [decide_eq_true_eq]
    exact hin answer index (hgood answer hanswer)
  rw [hsame]
  exact hcount index hindex

/-- A fresh group whose CPUs are `k` topology sets of `s` CPUs shares them out
evenly, for any number of members and whatever the loads are at each step:
compact threads over the CPUs with at most one set begun, scattered threads
over the sets, and member groups over the sets. -/
theorem placement_balanced
    (hlevel : 0 < group.nrCpusPerTopo) (hindices : indices.Nonempty)
    (htotal : group.total.cpus = indices.biUnion (block group.nrCpusPerTopo))
    (hused : group.used = cpuZero) (hrounds : group.rollOverCnts = 0) :
    (hasFlag group.attr WT_GF_COMPACT →
      ∀ requests : List ((ℕ → ℤ) × WaycaThread), ∃ final placed,
        serve assignStep group requests = some (final, placed) ∧
          placed.length = requests.length ∧
          final.rollOverCnts = requests.length / (indices.card * group.nrCpusPerTopo) ∧
          (∀ first second, Partly group.nrCpusPerTopo final.used.cpus first →
            Partly group.nrCpusPerTopo final.used.cpus second → first = second) ∧
          ∀ cpu ∈ group.total,
            placed.countP (fun thread => thread.targetPos = cpu) =
                requests.length / (indices.card * group.nrCpusPerTopo) ∨
              placed.countP (fun thread => thread.targetPos = cpu) =
                (requests.length + indices.card * group.nrCpusPerTopo - 1) /
                  (indices.card * group.nrCpusPerTopo)) ∧
    (¬ hasFlag group.attr WT_GF_COMPACT →
      ∀ requests : List ((ℕ → ℤ) × WaycaThread), ∃ final placed,
        serve assignStep group requests = some (final, placed) ∧
          placed.length = requests.length ∧
          final.rollOverCnts = requests.length / indices.card ∧
          ∀ index ∈ indices,
            placed.countP (fun thread =>
                thread.curSet.cpus ⊆ block group.nrCpusPerTopo index) =
                requests.length / indices.card ∨
              placed.countP (fun thread =>
                thread.curSet.cpus ⊆ block group.nrCpusPerTopo index) =
                (requests.length + indices.card - 1) / indices.card) ∧
    ∀ requests : List (ℕ → ℤ), ∃ final granted,
      serve requestStep group requests = some (final, granted) ∧
        granted.length = requests.length ∧
        final.rollOverCnts = requests.length / indices.card ∧
        ∀ index ∈ indices,
          granted.countP (fun total => total.cpus = block group.nrCpusPerTopo index) =
              requests.length / indices.card ∨
            granted.countP (fun total => total.cpus = block group.nrCpusPerTopo index) =
              (requests.length + indices.card - 1) / indices.card := by
  have hshaped : Shaped group := ⟨hlevel, htotal ▸ wholeBlocks_biUnion hlevel⟩
  have hcard := card_of_blocks hlevel htotal
  have hblocks : blockIndices group.nrCpusPerTopo group.total.cpus = indices := by
    rw [htotal, blockIndices_biUnion hlevel]
  have hnonempty : group.total.cpus.Nonempty := by
    rw [← card_pos, hcard]
    exact Nat.mul_pos (card_pos.mpr hindices) hlevel
  refine ⟨?_, ?_, ?_⟩
  · intro hcompact requests
    obtain ⟨final, placed, hrun, hlength, hone, hlevelFinal, hfinal, hcount⟩ :=
      compact_threads_balanced hshaped hnonempty hused hrounds hcompact requests
    unfold OnePartlyUsed at hone
    rw [hlevelFinal] at hone
    rw [hcard] at hfinal hcount
    exact ⟨final, placed, hrun, hlength, by exact_mod_cast hfinal, hone, hcount⟩
  · intro hcompact
    refine blocks_balanced hnonempty hused hrounds hblocks (fun before request hinv hsubset hne =>
      assignStep_scattered hshaped hinv.1 hinv.2 hsubset hne hcompact request) ?_
    rintro thread index ⟨hmem, hinside⟩
    exact ⟨fun hsubset => (mem_block_iff_div hlevel).mp (hsubset hmem), fun hdiv => hdiv ▸ hinside⟩
  · refine blocks_balanced hnonempty hused hrounds hblocks (fun before loads hinv hsubset hne =>
      requestStep_spec hshaped hinv.1 hinv.2 hsubset hne loads) ?_
    intro total index hblock
    exact ⟨fun htotal => grantedIndex_of_block hlevel htotal, fun heq => heq ▸ hblock⟩

/-- Three compact threads on two CCLs of two CPUs each. -/
theorem placement_balanced_two_blocks :
    ∃ group : WaycaScGroup, group.nrCpusPerTopo = 2 ∧ cpuCount group.total = 4 ∧
      ∃ final placed,
        serve assignStep group (List.replicate 3 (fun _ => 0, WaycaThread.zeroed)) =
            some (final, placed) ∧
          ∀ cpu ∈ group.total, placed.countP (fun thread => thread.targetPos = cpu) = 0 ∨
            placed.countP (fun thread => thread.targetPos = cpu) = 1 := by
  let group : WaycaScGroup :=
    { WaycaScGroup.zeroed with
      nrCpusPerTopo := 2
      total := cpuSetRange 0 4 cpuZero
      attr := WT_GF_CCL ||| WT_GF_COMPACT }
  have hlevel : 0 < group.nrCpusPerTopo := by decide
  have hindices : ({0, 1} : Finset ℕ).Nonempty := ⟨0, by decide⟩
  have htotal : group.total.cpus =
      ({0, 1} : Finset ℕ).biUnion (block group.nrCpusPerTopo) := by decide
  obtain ⟨hthreads, -⟩ := placement_balanced hlevel hindices htotal rfl rfl
  obtain ⟨final, placed, hrun, -, -, -, hcount⟩ :=
    hthreads (by decide) (List.replicate 3 (fun _ => 0, WaycaThread.zeroed))
  have hcard : ({0, 1} : Finset ℕ).card * group.nrCpusPerTopo = 4 := by decide
  rw [hcard, List.length_replicate] at hcount
  exact ⟨group, rfl, by decide, final, placed, hrun, hcount⟩

end Runs

end WaycaScheduler
