import WaycaScheduler.BalancedPlacement
import WaycaScheduler.LevelOrder

/-!
# The books of the default policy

A group with the default attribute hands out single CPUs.  While every thread
that is detached belongs to the round that is open, or none is open, the counted
rounds and the used CPUs give the number of threads on each CPU.  Detaching a
thread of an earlier round flips the bit of a CPU that is not used.
-/

namespace WaycaScheduler

open AlignedBlocks OwnedLists RoundRobin Transition Finset

variable {g : GroupId} {t : ThreadId}
variable {links : Links GroupId ThreadId} {group : WaycaScGroup}

variable {machine : Machine} {state next : State}

def stepWithLoads (machine : Machine) (state : State) (action : (ℕ → ℤ) × Call) :
    Option (State × ℤ) :=
  step machine { state with loads := action.1 } action.2

def threadsOn (machine : Machine) (state : State) (g : GroupId) (cpu : ℕ) : ℕ :=
  ((threadsOf machine state g).filter fun t => (state.thread t).targetPos = cpu).card

/-- The books of a default group count the threads on each CPU. -/
structure DefaultBooks (machine : Machine) (g : GroupId) (state : State) : Prop where
  membership : Membership machine state
  live : LiveGroup machine state g
  attr_eq : (state.group g).attr = defaultGroupAttr
  level_eq : (state.group g).nrCpusPerTopo = 1
  books : Books (state.group g).total.cpus (cpuPool (state.group g))
    (threadsOn machine state g)
  placed : ∀ t ∈ threadsOf machine state g,
    (state.thread t).targetPos ∈ (state.group g).total.cpus ∧
      (state.thread t).allowedSet.cpus = {(state.thread t).targetPos}

theorem DefaultBooks.withLoads (hbooks : DefaultBooks machine g state) (loads : ℕ → ℤ) :
    DefaultBooks machine g { state with loads := loads } :=
  ⟨⟨hbooks.membership.threads, hbooks.membership.groups, hbooks.membership.exclusive⟩,
    hbooks.live, hbooks.attr_eq, hbooks.level_eq, hbooks.books, hbooks.placed⟩

theorem shaped_of_level_one (hlevel : group.nrCpusPerTopo = 1) :
    Shaped group := by
  refine ⟨by omega, ?_⟩
  rw [hlevel]
  intro cpu hcpu other hother
  rw [mem_block] at hother
  have hsame : other = cpu := by omega
  rwa [hsame]

theorem default_compact : hasFlag defaultGroupAttr WT_GF_COMPACT = true := by decide

theorem default_percpu : hasFlag defaultGroupAttr WT_GF_PERCPU = true := by decide

theorem threadsOn_of_insert (hnew : t ∉ threadsOf machine state g)
    (hinsert : threadsOf machine next g = insert t (threadsOf machine state g))
    (hother : ∀ x, x ≠ t → (next.thread x).targetPos = (state.thread x).targetPos) (cpu : ℕ) :
    threadsOn machine next g cpu =
      threadsOn machine state g cpu + if cpu = (next.thread t).targetPos then 1 else 0 := by
  have hrest : (threadsOf machine state g).filter (fun x => (next.thread x).targetPos = cpu) =
      (threadsOf machine state g).filter fun x => (state.thread x).targetPos = cpu := by
    refine filter_congr fun x hx => ?_
    rw [hother x fun h => hnew (h ▸ hx)]
  unfold threadsOn
  rw [hinsert, filter_insert, hrest]
  split
  next heq =>
    rw [if_pos heq.symm, card_insert_of_notMem]
    exact fun hmem => hnew (mem_of_mem_filter t hmem)
  next hne => rw [if_neg (Ne.symm hne), add_zero]

theorem threadsOn_of_erase (hold : t ∈ threadsOf machine state g)
    (herase : threadsOf machine next g = (threadsOf machine state g).erase t)
    (hsame : ∀ x, (next.thread x).targetPos = (state.thread x).targetPos) (cpu : ℕ) :
    threadsOn machine state g cpu =
      threadsOn machine next g cpu + if cpu = (state.thread t).targetPos then 1 else 0 := by
  have hrest : (threadsOf machine next g).filter (fun x => (next.thread x).targetPos = cpu) =
      ((threadsOf machine state g).filter
        fun x => (state.thread x).targetPos = cpu).erase t := by
    rw [herase, filter_erase]
    congr 1
    exact filter_congr fun x _ => by rw [hsame]
  unfold threadsOn
  rw [hrest]
  by_cases heq : (state.thread t).targetPos = cpu
  · rw [if_pos heq.symm, card_erase_add_one]
    exact mem_filter.mpr ⟨hold, heq⟩
  · rw [if_neg (Ne.symm heq), erase_eq_of_notMem]
    · rfl
    · exact fun hmem => heq (mem_filter.mp hmem).2

/-! ## Attaching and detaching -/

theorem DefaultBooks.attach {x : GroupId} {assigned : Assigned}
    (hbooks : DefaultBooks machine g state)
    (hattached : ThreadAttached machine state t x links assigned next) :
    DefaultBooks machine g next := by
  have hmembership := hattached.membership hbooks.membership
  have hlive := hattached.sameLinks.liveGroup.mpr hbooks.live
  have hthreads := hattached.threadsOf_eq g
  have hother : ∀ y, y ≠ t → (next.thread y).targetPos = (state.thread y).targetPos ∧
      (next.thread y).allowedSet = (state.thread y).allowedSet := by
    intro y hy
    rw [hattached.thread_other hy]
    exact ⟨rfl, rfl⟩
  by_cases hx : g = x
  · subst hx
    rw [if_pos rfl] at hthreads
    set before : WaycaScGroup :=
      { state.group g with threads := links.first g, nrThreads := links.count g }
    have hshaped : Shaped before := shaped_of_level_one hbooks.level_eq
    have hattr : before.attr = defaultGroupAttr := hbooks.attr_eq
    have hne : before.used ≠ before.total := fun h => hbooks.books.used_ne (by
      change before.used.cpus = _
      rw [h])
    obtain ⟨cpu, used, cpus, result, hassign, hto, hchoice⟩ :=
      assign_spec (state.addLoad machine (-1) t).loads hshaped
        { state.thread t with siblings := links.siblings t, group := links.owner t }
        (available_nonempty hbooks.books.used_subset hne)
    have hresult : assigned = result := Option.some.inj (hattached.assign.symm.trans hassign)
    have hgroup : next.group g = rollOver before used := by
      rw [hattached.group_self, hresult, hto.group_eq]
    have hthread : next.thread t = result.thread := by rw [hattached.thread_self, hresult]
    have htarget : (next.thread t).targetPos = cpu := by rw [hthread, hto.thread_eq]
    have hallowed : (next.thread t).allowedSet.cpus = {cpu} := by
      rw [hthread, hto.thread_eq]
      change cpus.cpus = {cpu}
      rw [hto.cpus_eq, threadCpus, hattr, if_pos default_percpu]
    have hfree : cpu ∈ availableSet before := by
      refine hchoice.free_of_whole ?_
      have hlevelOne : before.nrCpusPerTopo = 1 := hbooks.level_eq
      intro c hc other hotherMem
      rw [hlevelOne, mem_block] at hotherMem
      have hsame : other = c := by omega
      rwa [hsame]
    have hbooked : used.cpus = insert cpu before.used.cpus := by
      rw [hto.used_eq, bookedCpus, hattr, if_pos default_compact]
    refine ⟨hmembership, hlive, ?_, ?_, ?_, ?_⟩
    · rw [hgroup]
      exact hattr
    · rw [hgroup]
      exact hbooks.level_eq
    · rw [hgroup, cpuPool_rollOver hbooked]
      refine hbooks.books.take hchoice.mem_total (mem_availableSet.mp hfree).2 ?_
      intro c _
      rw [threadsOn_of_insert hattached.not_mem_threadsOf hthreads
        (fun y hy => (hother y hy).1) c, htarget]
    · intro y hy
      rw [hgroup]
      by_cases hyt : y = t
      · subst hyt
        rw [htarget]
        exact ⟨hchoice.mem_total, hallowed⟩
      · rw [hthreads, mem_insert] at hy
        rw [(hother y hyt).1, (hother y hyt).2]
        exact hbooks.placed y (hy.resolve_left hyt)
  · rw [if_neg hx] at hthreads
    have hgroup := hattached.group_other hx
    have hmoved : ∀ y ∈ threadsOf machine state g, y ≠ t :=
      fun y hy h => hattached.not_mem_threadsOf (h ▸ hy)
    refine ⟨hmembership, hlive, ?_, ?_, ?_, ?_⟩
    · rw [hgroup]
      exact hbooks.attr_eq
    · rw [hgroup]
      exact hbooks.level_eq
    · rw [hgroup]
      refine hbooks.books.congr ?_
      intro c _
      unfold threadsOn
      rw [hthreads]
      congr 1
      exact filter_congr fun y hy => by rw [(hother y (hmoved y hy)).1]
    · intro y hy
      rw [hthreads] at hy
      rw [hgroup, (hother y (hmoved y hy)).1, (hother y (hmoved y hy)).2]
      exact hbooks.placed y hy

theorem cpuPool_releaseThread {thread : WaycaThread} (hattr : group.attr = defaultGroupAttr)
    (hallowed : thread.allowedSet.cpus = {thread.targetPos})
    (htarget : thread.targetPos ∈ group.total.cpus)
    (hcurrent : group.used.cpus = ∅ ∨ thread.targetPos ∈ group.used.cpus) :
    cpuPool (releaseThread group thread) =
      (cpuPool group).release group.total.cpus thread.targetPos := by
  have hflags : (hasFlag group.attr WT_GF_COMPACT && !hasFlag group.attr WT_GF_PERCPU) = false := by
    rw [hattr]
    decide
  have hempty : cpuCount group.used = 0 ↔ group.used.cpus = ∅ := card_eq_zero
  have hxor : ∀ set : CpuSet, thread.targetPos ∈ set.cpus →
      (cpuXor set thread.allowedSet).cpus = set.cpus.erase thread.targetPos := by
    intro set hmem
    ext c
    rw [CpuSet.mem_cpus, mem_cpuXor, mem_erase]
    change (c ∈ thread.allowedSet.cpus ∧ c ∉ set.cpus ∨
      c ∈ set.cpus ∧ c ∉ thread.allowedSet.cpus) ↔ _
    rw [hallowed, mem_singleton]
    constructor
    · rintro (⟨rfl, hout⟩ | ⟨hin, hne⟩)
      · exact absurd hmem hout
      · exact ⟨hne, hin⟩
    · exact fun ⟨hne, hin⟩ => .inr ⟨hin, hne⟩
  unfold cpuPool releaseThread reopenRound Pool.release
  dsimp only
  rw [hflags]
  by_cases hnone : group.used.cpus = ∅
  · have hfull : (cpuOr group.used group.total).cpus = group.total.cpus := by
      rw [cpuOr_cpus, hnone, empty_union]
    simp only [Bool.false_eq_true, if_false, hempty.mpr hnone, hnone, if_true]
    rw [hxor _ (by rw [hfull]; exact htarget), hfull]
  · simp only [Bool.false_eq_true, if_false, mt hempty.mp hnone, hnone]
    rw [hxor _ (hcurrent.resolve_left hnone)]

/-- The target of the thread is booked in this round, or the round has just begun. -/
def InOpenRound (state : State) (g : GroupId) (t : ThreadId) : Prop :=
  (state.group g).used = cpuZero ∨ (state.thread t).targetPos ∈ (state.group g).used

instance (state : State) (g : GroupId) (t : ThreadId) :
    Decidable (InOpenRound state g t) := by
  unfold InOpenRound
  infer_instance

theorem DefaultBooks.detach {x : GroupId}
    (hbooks : DefaultBooks machine g state)
    (hdetached : ThreadDetached machine state t x links next)
    (hopen : x = g → InOpenRound state g t) : DefaultBooks machine g next := by
  have hmembership := hdetached.membership hbooks.membership
  have hlive := hdetached.sameLinks.liveGroup.mpr hbooks.live
  have hthreads := hdetached.threadsOf_eq g
  have hsame : ∀ y, (next.thread y).targetPos = (state.thread y).targetPos ∧
      (next.thread y).allowedSet = (state.thread y).allowedSet := by
    intro y
    rw [hdetached.thread_eq y]
    exact ⟨rfl, rfl⟩
  have hplaced : ∀ y ∈ threadsOf machine next g,
      (next.thread y).targetPos ∈ (state.group g).total.cpus ∧
        (next.thread y).allowedSet.cpus = {(next.thread y).targetPos} := by
    intro y hy
    rw [hthreads] at hy
    rw [(hsame y).1, (hsame y).2]
    exact hbooks.placed y (mem_of_mem_erase hy)
  by_cases hx : g = x
  · subst hx
    have hold : t ∈ threadsOf machine state g :=
      mem_threadsOf.mpr ⟨hdetached.live_thread, hdetached.member⟩
    obtain ⟨htarget, hallowed⟩ := hbooks.placed t hold
    have hcurrent : (state.group g).used.cpus = ∅ ∨
        (state.thread t).targetPos ∈ (state.group g).used.cpus := by
      rcases hopen rfl with hzero | hmem
      · exact .inl (by rw [hzero]; rfl)
      · exact .inr hmem
    have hpool := cpuPool_releaseThread hbooks.attr_eq hallowed htarget hcurrent
    have hgroup := hdetached.group_self
    refine ⟨hmembership, hlive, ?_, ?_, ?_, ?_⟩
    · rw [hgroup]
      exact hbooks.attr_eq
    · rw [hgroup]
      exact hbooks.level_eq
    · rw [hgroup]
      change Books (state.group g).total.cpus
        (cpuPool (releaseThread (state.group g) (state.thread t))) _
      rw [hpool]
      refine hbooks.books.release htarget hcurrent ?_
      intro c _
      exact threadsOn_of_erase hold hthreads (fun y => (hsame y).1) c
    · rw [hgroup]
      exact hplaced
  · have hgroup := hdetached.group_other hx
    have hout : t ∉ threadsOf machine state g := by
      intro hmem
      have hmember := (mem_threadsOf.mp hmem).2
      rw [hdetached.member, Option.some.injEq] at hmember
      exact hx hmember.symm
    refine ⟨hmembership, hlive, ?_, ?_, ?_, ?_⟩
    · rw [hgroup]
      exact hbooks.attr_eq
    · rw [hgroup]
      exact hbooks.level_eq
    · rw [hgroup]
      refine hbooks.books.congr ?_
      intro c _
      unfold threadsOn
      rw [hthreads, erase_eq_of_notMem hout]
      congr 1
      exact filter_congr fun y _ => by rw [(hsame y).1]
    · rw [hgroup]
      exact hplaced

/-- Threads are attached and detached, and a thread that leaves the group is in
its open round, or none is open. -/
def KeepsRounds (g : GroupId) (state : State) : Call → Prop
  | .threadAttachGroup _ _ => True
  | .threadDetachGroup t x =>
      x = g → (state.thread t).group = some g → InOpenRound state g t
  | _ => False

instance (g : GroupId) (state : State) (call : Call) :
    Decidable (KeepsRounds g state call) := by
  unfold KeepsRounds
  split <;> infer_instance

/-- The step of the induction, for a call that keeps the rounds. -/
theorem step_defaultBooks {call : Call} {ret : ℤ} (hbooks : DefaultBooks machine g state)
    (hkeeps : KeepsRounds g state call) (hstep : step machine state call = some (next, ret)) :
    DefaultBooks machine g next := by
  cases call with
  | threadAttachGroup t x =>
      rcases attachThread_cases hbooks.membership hstep with
        ⟨-, rfl⟩ | ⟨-, links, assigned, hattached⟩
      · exact hbooks
      · exact hbooks.attach hattached
  | threadDetachGroup t x =>
      rcases detachThread_cases hbooks.membership hstep with
        ⟨-, rfl, -⟩ | ⟨-, links, hdetached⟩
      · exact hbooks
      · refine hbooks.detach hdetached ?_
        intro hx
        exact hkeeps hx (hx ▸ hdetached.member)
  | threadCreate | threadJoin | pidAttachThread | pidDetachThread | threadSetAttr |
    groupCreate | groupDestroy | groupSetAttr | groupAttachGroup | groupDetachGroup =>
      exact absurd hkeeps id

structure FreshDefault (machine : Machine) (g : GroupId) (state : State) : Prop where
  live : LiveGroup machine state g
  attr_eq : (state.group g).attr = defaultGroupAttr
  no_threads : (state.group g).nrThreads = 0
  used_eq : (state.group g).used = cpuZero
  rounds_eq : (state.group g).rollOverCnts = 0
  total_nonempty : (state.group g).total.cpus.Nonempty

theorem FreshDefault.books (hfresh : FreshDefault machine g state)
    (hreach : Reachable machine state) :
    DefaultBooks machine g state := by
  obtain ⟨hmembership, harranged⟩ := levelsArranged_of_reaches hreach
  have hlevel : (state.group g).nrCpusPerTopo = 1 := by
    have hpair := harranged g hfresh.live
    rw [hfresh.attr_eq, arrangedLevel_default, Option.some.injEq] at hpair
    exact (congrArg Prod.snd hpair).symm
  have hnone : threadsOf machine state g = ∅ := by
    have hcard := hmembership.card_threadsOf hfresh.live
    rw [hfresh.no_threads] at hcard
    exact card_eq_zero.mp (by exact_mod_cast hcard)
  refine ⟨hmembership, hfresh.live, hfresh.attr_eq, hlevel, ?_, ?_⟩
  · have hpool : cpuPool (state.group g) = ⟨∅, 0⟩ := by
      unfold cpuPool
      rw [hfresh.used_eq, hfresh.rounds_eq]
      rfl
    rw [hpool]
    refine (books_start hfresh.total_nonempty).congr ?_
    intro c _
    unfold threadsOn
    rw [hnone]
    rfl
  · intro t ht
    rw [hnone] at ht
    cases ht

/-- From an empty group with the default attribute on, in every run of attach
and detach calls in which each thread that leaves is in the open round or none
is open, and for any loads before each call, the counted rounds and the use of
a CPU give the number of member threads with that target. -/
theorem default_rounds_count_threads
    {start : State} {g : GroupId} (hreach : Reachable machine start)
    (hfresh : FreshDefault machine g start)
    (hrun : ReachableVia (stepWithLoads machine) (fun before action =>
      KeepsRounds g before action.2) start state) :
    ∀ c ∈ (state.group g).total,
      (state.group g).rollOverCnts + (if c ∈ (state.group g).used then 1 else 0) =
        ((threadsOf machine state g).filter fun t =>
          (state.thread t).targetPos = c).card := by
  have hbooks : DefaultBooks machine g state := by
    refine hrun.keeps (DefaultBooks machine g) (hfresh.books hreach) ?_
    intro before action after ret hbefore hkeeps hstep
    exact step_defaultBooks (hbefore.withLoads action.1) hkeeps hstep
  intro c hc
  exact (hbooks.books.takers_eq c hc).symm

instance (machine : Machine) (g : GroupId) (state : State) :
    Decidable (FreshDefault machine g state) :=
  decidable_of_iff
    (LiveGroup machine state g ∧ (state.group g).attr = defaultGroupAttr ∧
      (state.group g).nrThreads = 0 ∧ (state.group g).used = cpuZero ∧
      (state.group g).rollOverCnts = 0 ∧ (state.group g).total.cpus.Nonempty)
    ⟨fun ⟨hlive, hattr, hnone, hused, hrounds, htotal⟩ =>
      ⟨hlive, hattr, hnone, hused, hrounds, htotal⟩,
      fun h => ⟨h.live, h.attr_eq, h.no_threads, h.used_eq, h.rounds_eq, h.total_nonempty⟩⟩

/-- A thread of the open round leaves and another one joins. -/
theorem default_rounds_count_threads_rejoin :
    ∃ start state, Reachable smallMachine start ∧ FreshDefault smallMachine 0 start ∧
      ReachableVia (stepWithLoads smallMachine) (fun before action =>
        KeepsRounds 0 before action.2) start state ∧
      (state.group 0).nrThreads = 2 ∧ 1 ∈ (state.group 0).total ∧
      (state.group 0).rollOverCnts + (if 1 ∈ (state.group 0).used then 1 else 0) =
        ((threadsOf smallMachine state 0).filter fun t =>
          (state.thread t).targetPos = 1).card := by
  have hrun : ∃ start ∈ runCalls (step smallMachine) (fun _ _ => True) State.start
      [.groupCreate true true, createOnSmall, createOnSmall, createOnSmall],
      FreshDefault smallMachine 0 start ∧
      ∃ state ∈ runCalls (stepWithLoads smallMachine)
        (fun before action => KeepsRounds 0 before action.2) start
        [(fun _ => 0, .threadAttachGroup 0 0), (fun _ => 0, .threadAttachGroup 1 0),
          (fun _ => 7, .threadDetachGroup 1 0), (fun _ => 0, .threadAttachGroup 2 0)],
        (state.group 0).nrThreads = 2 ∧ 1 ∈ (state.group 0).total := by
    decide +kernel
  obtain ⟨start, hreach, hfresh, hmoves⟩ := exists_reachable_of_runCalls hrun
  obtain ⟨state, hvia, hcount, hmem⟩ := exists_reachable_of_runCalls hmoves
  exact ⟨start, state, hreach, hfresh, hvia, hcount, hmem,
    default_rounds_count_threads hreach hfresh hvia 1 hmem⟩

def Call.movesThread : Call → Bool
  | .threadAttachGroup _ _ => true
  | .threadDetachGroup _ _ => true
  | _ => false

/-- Five threads on four CPUs: the second thread leaves while the second round
has only reached the first CPU, and its CPU counts two threads where there is
none. -/
theorem earlier_round_member_spoils_rounds :
    ∃ start state, Reachable smallMachine start ∧ FreshDefault smallMachine 0 start ∧
      ReachableVia (step smallMachine) (fun _ call => call.movesThread = true) start state ∧
      1 ∈ (state.group 0).total ∧
      (state.group 0).rollOverCnts + (if 1 ∈ (state.group 0).used then 1 else 0) = 2 ∧
      ((threadsOf smallMachine state 0).filter fun t =>
        (state.thread t).targetPos = 1).card = 0 := by
  have hrun : ∃ start ∈ runCalls (step smallMachine) (fun _ _ => True) State.start
      [.groupCreate true true, createOnSmall, createOnSmall, createOnSmall, createOnSmall,
        createOnSmall],
      FreshDefault smallMachine 0 start ∧
      ∃ state ∈ runCalls (step smallMachine) (fun _ call => call.movesThread = true) start
        [.threadAttachGroup 0 0, .threadAttachGroup 1 0, .threadAttachGroup 2 0,
          .threadAttachGroup 3 0, .threadAttachGroup 4 0, .threadDetachGroup 1 0],
        1 ∈ (state.group 0).total ∧
        (state.group 0).rollOverCnts + (if 1 ∈ (state.group 0).used then 1 else 0) = 2 ∧
        ((threadsOf smallMachine state 0).filter fun t =>
          (state.thread t).targetPos = 1).card = 0 := by
    decide +kernel
  obtain ⟨start, hreach, hfresh, hmoves⟩ := exists_reachable_of_runCalls hrun
  obtain ⟨state, hvia, hstate⟩ := exists_reachable_of_runCalls hmoves
  exact ⟨start, state, hreach, hfresh, hvia, hstate⟩

end WaycaScheduler
