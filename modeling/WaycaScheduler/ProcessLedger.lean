import WaycaScheduler.LoadLedger

/-!
# The load ledger of attached processes

Detaching a process takes its load off in the call itself and again in
`wayca_thread_free`, and setting an attribute of a thread that is in a group
adds its load once more through `wayca_group_rearrange_thread`.  The ledger
survives these two calls exactly when they are refused or the thread is bound
to no CPU.
-/

namespace WaycaScheduler

open OwnedLists Transition Finset

variable {t : ThreadId} {ret : ℤ}
variable {env : AttachEnv} {curSet : CpuSet} {wthread : Bool}

variable {machine : Machine} {state next : State}

/-! ## Loads of one thread -/

theorem threadLoad_pos {c : ℕ} (hmem : c ∈ curSet) :
    0 < threadLoad machine curSet c := by
  have hcount : 0 < cpuCount curSet := card_pos.mpr ⟨c, hmem⟩
  have htotal := machine.cpusInTotal_pos
  unfold threadLoad divRoundUp
  rw [if_pos hmem]
  exact_mod_cast Nat.div_pos (by omega) hcount

theorem threadLoad_eq_zero_iff (machine : Machine) :
    (∀ c, threadLoad machine curSet c = 0) ↔ curSet = cpuZero := by
  constructor
  · intro hzero
    apply CpuSet.ext_mem
    intro c
    have hout : c ∉ curSet := fun hmem => (threadLoad_pos hmem).ne' (hzero c)
    simp [hout]
  · rintro rfl c
    exact threadLoad_of_not_mem not_mem_cpuZero

theorem Ledger.iff_loads_eq (hledger : Ledger machine state)
    (hlive : ∀ t, LiveThread machine next t ↔ LiveThread machine state t)
    (hcur : ∀ t, LiveThread machine state t → (next.thread t).curSet = (state.thread t).curSet) :
    Ledger machine next ↔ ∀ c, next.loads c = state.loads c := by
  constructor
  · intro hnext
    have hback : Ledger machine { state with loads := next.loads } := by
      apply hnext.congr
      · intro t
        exact (hlive t).symm
      · intro t ht
        exact (hcur t ((hlive t).mp ht)).symm
      · rfl
    intro c
    exact (hback c).trans (hledger c).symm
  · intro hloads
    exact hledger.congr hlive hcur (funext hloads)

theorem detachThread_quiet {g : GroupId}
    (hcall : waycaScThreadDetachGroup machine state t g = some (next, ret)) :
    next.loads = state.loads ∧ next.threadsArray = state.threadsArray ∧
      ∀ x, (next.thread x).curSet = (state.thread x).curSet := by
  unfold waycaScThreadDetachGroup at hcall
  split at hcall
  next =>
    cases hcall
    exact ⟨rfl, rfl, fun _ => rfl⟩
  next =>
    obtain ⟨inGroup, -, hrest⟩ := Option.bind_eq_some_iff.mp hcall
    split at hrest
    next =>
      cases hrest
      exact ⟨rfl, rfl, fun _ => rfl⟩
    next =>
      obtain ⟨links, -, hlater⟩ := Option.bind_eq_some_iff.mp hrest
      cases hlater
      exact ⟨rfl, rfl, fun _ => rfl⟩

theorem leaveGroup_quiet {middle : State} (hleave : leaveGroup machine state t = some middle) :
    middle.loads = state.loads ∧ middle.threadsArray = state.threadsArray ∧
      ∀ x, (middle.thread x).curSet = (state.thread x).curSet := by
  unfold leaveGroup at hleave
  split at hleave
  next =>
    cases hleave
    exact ⟨rfl, rfl, fun _ => rfl⟩
  next =>
    obtain ⟨⟨result, code⟩, hdetach, rfl⟩ := Option.map_eq_some_iff.mp hleave
    exact detachThread_quiet hdetach

theorem attachThread_loads {g : GroupId}
    (hcall : waycaScThreadAttachGroup machine state t g = some (next, ret)) (c : ℕ) :
    next.loads c - threadLoad machine (next.thread t).curSet c =
      state.loads c - threadLoad machine (state.thread t).curSet c := by
  unfold waycaScThreadAttachGroup at hcall
  split at hcall
  next =>
    cases hcall
    rfl
  next =>
    split at hcall
    next =>
      cases hcall
      rfl
    next =>
      simp only [waycaThreadUpdateLoad_eq, waycaGroupRearrangeThread, Option.bind_eq_bind,
        Option.bind_some, Bool.false_eq_true, if_false, if_true] at hcall
      obtain ⟨⟨middle, code⟩, hadd, hrest⟩ := Option.bind_eq_some_iff.mp hcall
      have hmiddle : middle.loads = (state.addLoad machine (-1) t).loads ∧
          (code ≠ 0 → (middle.thread t).curSet = (state.thread t).curSet) := by
        unfold waycaGroupAddThread at hadd
        obtain ⟨inGroup, -, hadded⟩ := Option.bind_eq_some_iff.mp hadd
        split at hadded
        next =>
          cases hadded
          exact ⟨rfl, fun _ => rfl⟩
        next =>
          split at hadded
          next =>
            cases hadded
            exact ⟨rfl, fun _ => rfl⟩
          next =>
            obtain ⟨links, -, hassigning⟩ := Option.bind_eq_some_iff.mp hadded
            obtain ⟨final, hassign, hfinal⟩ := Option.bind_eq_some_iff.mp hassigning
            obtain ⟨assigned, -, rfl⟩ := assignThread_cases hassign
            cases hfinal
            exact ⟨rfl, fun hzero => absurd rfl hzero⟩
      dsimp only at hrest
      split at hrest
      next hfailed =>
        cases hrest
        simp only [State.addLoad, hmiddle.1, hmiddle.2 hfailed]
        ring
      next =>
        cases hrest
        simp only [State.addLoad, hmiddle.1]
        ring

theorem pidDetach_loads (hcall : waycaScPidDetachThread machine state t = some (next, 0)) (c : ℕ) :
    next.loads c = state.loads c - 2 * threadLoad machine (state.thread t).curSet c := by
  rcases pidDetach_effect hcall with ⟨hneg, -, -⟩ | ⟨-, middle, hleave, rfl⟩
  · exact absurd hneg (lt_irrefl 0)
  · obtain ⟨hloads, -, hcur⟩ := leaveGroup_quiet hleave
    simp only [State.freed, State.addLoad, hloads, hcur]
    ring

theorem pidDetach_ledger_iff (hledger : Ledger machine state)
    (hcall : waycaScPidDetachThread machine state t = some (next, ret)) :
    Ledger machine next ↔ (LiveThread machine state t →
      (state.thread t).startRoutine = false → (state.thread t).curSet = cpuZero) := by
  rcases pidDetach_effect hcall with
    ⟨-, rfl, hrefused⟩ | ⟨⟨hlive, hforeign⟩, middle, hleave, rfl⟩
  · exact iff_of_true hledger fun hlive hforeign => absurd ⟨hlive, hforeign⟩ hrefused
  · obtain ⟨hloads, harray, hcur⟩ := leaveGroup_quiet hleave
    have hliveIff : ∀ x, LiveThread machine middle x ↔ LiveThread machine state x := by
      intro x
      rw [liveThread_iff, liveThread_iff, harray]
    have hmiddle : Ledger machine middle := hledger.congr hliveIff (fun x _ => hcur x) hloads
    have hfreed := freed_ledger ((hliveIff t).mpr hlive) hmiddle
    have hdouble : Ledger machine (middle.freed machine 2 t) ↔
        ∀ c, (middle.freed machine 2 t).loads c = (middle.freed machine 1 t).loads c :=
      hfreed.iff_loads_eq (fun _ => Iff.rfl) (fun _ _ => rfl)
    rw [hdouble, ← hcur t, ← threadLoad_eq_zero_iff machine]
    simp only [hlive, hforeign, forall_const, State.freed, State.addLoad]
    apply forall_congr'
    intro c
    constructor <;> intro h <;> linarith

theorem setThreadAttr_ledger_iff {attr : Option Attr} {setaffinity : ℤ}
    (hledger : Ledger machine state)
    (hcall : waycaScThreadSetAttr machine state t attr setaffinity = some (next, ret)) :
    Ledger machine next ↔ (LiveThread machine state t → attr ≠ none →
      (state.thread t).group ≠ none → (state.thread t).curSet = cpuZero) := by
  rcases setThreadAttr_effect hcall with
    ⟨rfl, hrefused⟩ | ⟨⟨hlive, hgiven⟩, wanted, rfl⟩
  · exact iff_of_true hledger fun hlive hgiven => absurd ⟨hlive, hgiven⟩ hrefused
  · set written := state.setThread t { state.thread t with attr := wanted } with hwritten
    have hcur : ∀ x, (written.thread x).curSet = (state.thread x).curSet := by
      intro x
      by_cases hx : x = t
      · simp [hwritten, hx]
      · simp [hwritten, Function.update_of_ne hx]
    have hadded : Ledger machine (written.addLoad machine
          (if (state.thread t).group = none then 0 else 1) t) ↔
        ∀ c, (written.addLoad machine
          (if (state.thread t).group = none then 0 else 1) t).loads c = state.loads c :=
      hledger.iff_loads_eq (fun _ => Iff.rfl) (fun x _ => hcur x)
    rw [hadded, ← threadLoad_eq_zero_iff machine]
    simp only [hlive, hgiven, ne_eq, not_false_eq_true, forall_const, State.addLoad, hcur t]
    by_cases hgroup : (state.thread t).group = none
    · simp [hgroup, hwritten]
    · simp [hgroup, hwritten]

def MovesThread (t : ThreadId) (call : Call) : Prop :=
  ∃ g, call = .threadAttachGroup t g ∨ call = .threadDetachGroup t g

theorem moved_loads {start moved : State}
    (hmoved : ReachableVia (step machine) (fun _ => MovesThread t) start moved) (c : ℕ) :
    moved.loads c - threadLoad machine (moved.thread t).curSet c =
      start.loads c - threadLoad machine (start.thread t).curSet c := by
  apply hmoved.keeps (fun state =>
    state.loads c - threadLoad machine (state.thread t).curSet c =
      start.loads c - threadLoad machine (start.thread t).curSet c) rfl
  rintro before call after result hbefore ⟨g, rfl | rfl⟩ hcall
  · exact (attachThread_loads hcall c).trans hbefore
  · obtain ⟨hloads, -, hcur⟩ := detachThread_quiet hcall
    rw [hloads, hcur]
    exact hbefore

theorem pidAttach_ledger {pid : ℤ}
    (hledger : Ledger machine state)
    (hcall : waycaScPidAttachThread machine state wthread pid env = some (next, ret)) :
    Ledger machine next := by
  rcases pidAttach_cases hcall with hnot | ⟨t, affinity, hcreated⟩
  · exact hnot.ledger hledger
  · exact hcreated.ledger hledger

theorem pidAttach_loads {pid : ℤ}
    (hcall : waycaScPidAttachThread machine state wthread pid env = some (next, ret))
    (hdead : ¬LiveThread machine state t) (hlive : LiveThread machine next t) (c : ℕ) :
    next.loads c - threadLoad machine (next.thread t).curSet c = state.loads c := by
  rcases pidAttach_cases hcall with hnot | ⟨new, affinity, hcreated⟩
  · rcases hnot with rfl | ⟨slot, thread, -, -, -, rfl⟩
    · exact absurd hlive hdead
    · exact absurd hlive hdead
  · rcases (hcreated.live_iff t).mp hlive with hold | rfl
    · exact absurd hold hdead
    · rw [hcreated.next_eq]
      simp only [State.addLoad, Function.update_self]
      ring

/-- The calls on attached processes and thread attributes that count a load as
often as the ledger does: the detach and the change of an attribute in a group
must be refused or find the thread on no CPU. -/
def CountsLoadOnce (machine : Machine) (state : State) : Call → Prop
  | .pidDetachThread t => LiveThread machine state t →
      (state.thread t).startRoutine = false → (state.thread t).curSet = cpuZero
  | .threadSetAttr t attr _ => LiveThread machine state t → attr ≠ none →
      (state.thread t).group ≠ none → (state.thread t).curSet = cpuZero
  | _ => True

/-- A call that attaches or detaches a process or sets a thread attribute keeps
the ledger exactly when it counts the load once; and a process that is
attached, moved through groups and detached leaves the loads as they were
exactly when it was on no CPU in the end. -/
theorem process_calls_keep_ledger (machine : Machine) :
    (∀ (state next : State) (call : Call) (ret : ℤ), Ledger machine state →
      call.keepsLedger = false → step machine state call = some (next, ret) →
      (Ledger machine next ↔ CountsLoadOnce machine state call)) ∧
    ∀ (start attached moved final : State) (wthread : Bool) (pid ret : ℤ) (env : AttachEnv)
      (t : ThreadId),
      step machine start (.pidAttachThread wthread pid env) = some (attached, ret) →
      ¬LiveThread machine start t → LiveThread machine attached t →
      ReachableVia (step machine) (fun _ => MovesThread t) attached moved →
      step machine moved (.pidDetachThread t) = some (final, 0) →
      ((∀ c, final.loads c = start.loads c) ↔ (moved.thread t).curSet = cpuZero) := by
  constructor
  · intro state next call ret hledger hcall hstep
    cases call with
    | pidAttachThread wthread pid env =>
        exact iff_of_true (pidAttach_ledger hledger hstep) trivial
    | pidDetachThread t => exact pidDetach_ledger_iff hledger hstep
    | threadSetAttr t attr setaffinity => exact setThreadAttr_ledger_iff hledger hstep
    | threadCreate | threadJoin | groupCreate | groupDestroy | groupSetAttr |
      threadAttachGroup | threadDetachGroup | groupAttachGroup | groupDetachGroup =>
        simp [Call.keepsLedger] at hcall
  · intro start attached moved final wthread pid ret env t hattach hdead hlive hmoves hdetach
    rw [← threadLoad_eq_zero_iff machine]
    apply forall_congr'
    intro c
    have hthrough := (moved_loads hmoves c).trans (pidAttach_loads hattach hdead hlive c)
    have hend := pidDetach_loads hdetach c
    constructor <;> intro h <;> linarith

/-- A process that may run on all CPUs, in no group: its attribute is set.  A
process that may run on none: it is detached again. -/
theorem process_calls_keep_ledger_idle :
    (∃ attached named, step smallMachine State.start
          (.pidAttachThread true 1 ⟨true, .ok (totalCpuSet smallMachine)⟩) =
        some (attached, 0) ∧
      step smallMachine attached (.threadSetAttr 0 (some WT_GF_CPU) 0) = some (named, 0) ∧
      named.loads 3 = 1 ∧ Ledger smallMachine named) ∧
    ∃ attached final, step smallMachine State.start
          (.pidAttachThread true 1 ⟨true, .ok cpuZero⟩) = some (attached, 0) ∧
      step smallMachine attached (.pidDetachThread 0) = some (final, 0) ∧
      ∀ c, final.loads c = State.start.loads c := by
  obtain ⟨hledger, hround⟩ := process_calls_keep_ledger smallMachine
  constructor
  · have hrun : ∃ attached ∈ step smallMachine State.start (.pidAttachThread true 1
        ⟨true, .ok (totalCpuSet smallMachine)⟩),
        attached.2 = 0 ∧ (attached.1.thread 0).group = none ∧
        ∃ named ∈ step smallMachine attached.1 (.threadSetAttr 0 (some WT_GF_CPU) 0),
          named.2 = 0 ∧ named.1.loads 3 = 1 := by
      decide +kernel
    obtain ⟨⟨attached, ret⟩, hattach, rfl, hgroup, ⟨named, code⟩, hnamed, rfl, hload⟩ := hrun
    have hattached := (hledger _ _ _ _ (ledger_start smallMachine) rfl hattach).mpr trivial
    exact ⟨attached, named, hattach, hnamed, hload,
      (hledger _ _ _ _ hattached rfl hnamed).mpr fun _ _ hin => absurd hgroup hin⟩
  · have hrun : ∃ attached ∈ step smallMachine State.start (.pidAttachThread true 1
        ⟨true, .ok cpuZero⟩),
        attached.2 = 0 ∧ LiveThread smallMachine attached.1 0 ∧
        (attached.1.thread 0).curSet = cpuZero ∧
        ∃ final ∈ step smallMachine attached.1 (.pidDetachThread 0), final.2 = 0 := by
      decide +kernel
    obtain ⟨⟨attached, ret⟩, hattach, rfl, hlive, hempty, ⟨final, code⟩, hfinal, rfl⟩ := hrun
    exact ⟨attached, final, hattach, hfinal, (hround _ _ _ _ _ _ _ _ 0 hattach
      (not_liveThread rfl) hlive .start hfinal).mpr hempty⟩

/-- A process on four CPUs that is attached and detached leaves a load of
minus one, and setting the attribute of a thread that is alone on a CPU, in a
group, doubles the load of the CPU. -/
theorem process_load_counted_twice :
    (∃ attached final, Ledger smallMachine attached ∧
      step smallMachine attached (.pidDetachThread 0) = some (final, 0) ∧
      final.loads 0 = -1 ∧ ¬Ledger smallMachine final) ∧
    ∃ grouped named, Ledger smallMachine grouped ∧
      step smallMachine grouped (.threadSetAttr 0 (some WT_GF_CPU) 0) = some (named, 0) ∧
      grouped.loads 0 = 4 ∧ named.loads 0 = 8 ∧ ¬Ledger smallMachine named := by
  constructor
  · have hrun : ∃ attached ∈ step smallMachine State.start (.pidAttachThread true 1
        ⟨true, .ok (totalCpuSet smallMachine)⟩),
        ∃ final ∈ step smallMachine attached.1 (.pidDetachThread 0),
          final.2 = 0 ∧ final.1.loads 0 = -1 ∧ final.1.loads 0 ≠
            ∑ t ∈ liveThreads smallMachine final.1,
              threadLoad smallMachine (final.1.thread t).curSet 0 := by
      decide +kernel
    obtain ⟨⟨attached, ret⟩, hattach, ⟨final, code⟩, hfinal, rfl, hload, hsum⟩ := hrun
    have hcall : waycaScPidAttachThread smallMachine State.start true 1
        ⟨true, .ok (totalCpuSet smallMachine)⟩ = some (attached, ret) := hattach
    exact ⟨attached, final, pidAttach_ledger (ledger_start smallMachine) hcall, hfinal,
      hload, fun hledger => hsum (hledger 0)⟩
  · have hrun : ∃ grouped ∈ runCalls (step smallMachine) (fun _ call => call.keepsLedger = true)
        State.start [createOnSmall, .groupCreate true true, .threadAttachGroup 0 0],
        grouped.loads 0 = 4 ∧
        ∃ named ∈ step smallMachine grouped (.threadSetAttr 0 (some WT_GF_CPU) 0),
          named.2 = 0 ∧ named.1.loads 0 = 8 ∧ named.1.loads 0 ≠
            ∑ t ∈ liveThreads smallMachine named.1,
              threadLoad smallMachine (named.1.thread t).curSet 0 := by
      decide +kernel
    obtain ⟨grouped, hreach, hbefore, ⟨named, code⟩, hnamed, rfl, hload, hsum⟩ :=
      exists_reachable_of_runCalls hrun
    exact ⟨grouped, named, (ledger_of_reaches hreach).2, hnamed, hbefore, hload,
      fun hledger => hsum (hledger 0)⟩

end WaycaScheduler
