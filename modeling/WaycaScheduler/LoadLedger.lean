import WaycaScheduler.MembershipInvariant

/-!
# The load ledger

`wayca_cpu_loads` is updated by pairs of subtractions and additions spread
over creating, joining, attaching and re-arranging.  After every call that
returns, the entry of a CPU is the sum of the loads of the live threads that
may run on it.
-/

namespace WaycaScheduler

open OwnedLists Transition Finset

variable {t : ThreadId} {g : GroupId} {ret : ℤ} {middle : State}
variable {links : Links GroupId ThreadId} {father : GroupId}

variable {machine : Machine} {state next : State}

/-- The load of a CPU is the sum over the live threads. -/
def Ledger (machine : Machine) (state : State) : Prop :=
  ∀ c, state.loads c =
    ∑ t ∈ liveThreads machine state, threadLoad machine (state.thread t).curSet c

theorem ledger_start (machine : Machine) : Ledger machine State.start := by
  have hempty : liveThreads machine State.start = ∅ := by
    ext t
    simp [mem_liveThreads, liveThread_iff, State.start]
  intro c
  rw [hempty]
  rfl

theorem Ledger.congr (hledger : Ledger machine state)
    (hlive : ∀ t, LiveThread machine next t ↔ LiveThread machine state t)
    (hcur : ∀ t, LiveThread machine state t → (next.thread t).curSet = (state.thread t).curSet)
    (hloads : next.loads = state.loads) : Ledger machine next := by
  have hsame : liveThreads machine next = liveThreads machine state := by
    ext t
    rw [mem_liveThreads, mem_liveThreads, hlive]
  intro c
  rw [hloads, hledger c, hsame]
  refine sum_congr rfl fun t ht => ?_
  rw [hcur t (mem_liveThreads.mp ht)]

theorem Ledger.move
    {t : ThreadId} (hledger : Ledger machine state) (hthread : LiveThread machine state t)
    (hlive : ∀ x, LiveThread machine next x ↔ LiveThread machine state x)
    (hcur : ∀ x, x ≠ t → (next.thread x).curSet = (state.thread x).curSet)
    (hloads : ∀ c, next.loads c = state.loads c -
      threadLoad machine (state.thread t).curSet c +
        threadLoad machine (next.thread t).curSet c) : Ledger machine next := by
  have hsame : liveThreads machine next = liveThreads machine state := by
    ext x
    rw [mem_liveThreads, mem_liveThreads, hlive]
  have hmem := mem_liveThreads.mpr hthread
  intro c
  rw [hloads c, hledger c, hsame, ← add_sum_erase _ _ hmem, ← add_sum_erase _ _ hmem]
  have hrest : ∑ x ∈ (liveThreads machine state).erase t,
        threadLoad machine (next.thread x).curSet c =
      ∑ x ∈ (liveThreads machine state).erase t, threadLoad machine (state.thread x).curSet c := by
    refine sum_congr rfl fun x hx => ?_
    rw [hcur x (ne_of_mem_erase hx)]
  rw [hrest]
  ring

theorem ThreadAttached.ledger {assigned : Assigned}
    (hattached : ThreadAttached machine state t g links assigned next)
    (hledger : Ledger machine state) : Ledger machine next := by
  refine hledger.move hattached.live_thread
    (fun x => hattached.sameLinks.liveThread) ?_ hattached.loads_eq
  intro x hx
  rw [hattached.thread_other hx]

theorem rearrangeMember_ledger (hthread : LiveThread machine state t)
    (hledger : Ledger machine state) (hmember : rearrangeMember machine g state t = some next) :
    Ledger machine next := by
  have hsame := sameLinks_rearrangeMember hmember
  obtain ⟨assigned, -, rfl⟩ := rearrangeMember_cases hmember
  refine hledger.move hthread (fun x => hsame.liveThread) ?_ ?_
  · intro x hx
    simp [Function.update_of_ne hx]
  · intro c
    simp only [State.addLoad, State.waycaScAssert_loads, State.setThread_loads,
      State.setGroup_loads, State.waycaScAssert_thread, State.setThread_thread,
      Function.update_self]
    ring

theorem Arranged.ledger {attr : Attr} {level : ℕ} {total : CpuSet} {arranged : State}
    (harranged : Arranged machine state g attr level total arranged)
    (hledger : Ledger machine state) : Ledger machine arranged :=
  hledger.congr (fun _ => harranged.sameLinks.liveThread)
    (fun t _ => by rw [harranged.thread_eq]) harranged.loads_eq

theorem rearrange_ledger {depth : ℕ} (hmembership : Membership machine state)
    (hlive : LiveGroup machine state g) (hledger : Ledger machine state)
    (hrearrange : waycaGroupRearrangeGroup machine depth state g = some (next, ret)) :
    Ledger machine next := by
  refine rearrange_keeps (Ledger machine) ?_ ?_ hmembership hlive hledger hrearrange
  · intro before x attr level total arranged _ _ _ hbefore harranged
    exact harranged.ledger hbefore
  · intro before x t after hthread _ hbefore hmember
    exact rearrangeMember_ledger hthread hbefore hmember

theorem ThreadDetached.ledger
    (hdetached : ThreadDetached machine state t g links next) (hledger : Ledger machine state) :
    Ledger machine next := by
  refine hledger.congr (fun _ => hdetached.sameLinks.liveThread) ?_ ?_
  · intro x _
    rw [hdetached.next_eq]
    rfl
  · rw [hdetached.next_eq]
    rfl

theorem GroupAttached.ledger {links : Links GroupId GroupId}
    (hattached : GroupAttached machine state g father links next)
    (hmembership : Membership machine state) (hledger : Ledger machine state) :
    Ledger machine next := by
  have hlinked : Ledger machine (state.setGroupLinks links) :=
    hledger.congr (fun _ => Iff.rfl) (fun _ _ => rfl) rfl
  exact rearrange_ledger (hattached.linked_membership hmembership) hattached.live_group
    hlinked hattached.rearrange

theorem GroupDetached.ledger {links : Links GroupId GroupId}
    (hdetached : GroupDetached machine state g father links next) (hledger : Ledger machine state) :
    Ledger machine next := by
  refine hledger.congr (fun _ => hdetached.sameLinks.liveThread) ?_ ?_
  · intro x _
    rw [hdetached.next_eq]
    rfl
  · rw [hdetached.next_eq]
    rfl

theorem GroupDestroyed.ledger (hdestroyed : GroupDestroyed machine state g middle next)
    (hledger : Ledger machine state) : Ledger machine next := by
  have hmiddle : Ledger machine middle := by
    rcases hdestroyed.leave with ⟨-, rfl⟩ | ⟨father, links, hdetached⟩
    · exact hledger
    · exact hdetached.ledger hledger
  rw [hdestroyed.next_eq]
  exact hmiddle.congr (fun _ => Iff.rfl) (fun _ _ => rfl) rfl

theorem GroupCreated.ledger (hcreated : GroupCreated machine state g next)
    (hledger : Ledger machine state) : Ledger machine next := by
  rw [hcreated.next_eq]
  exact hledger.congr (fun _ => Iff.rfl) (fun _ _ => rfl) rfl

theorem setAttr_ledger {attr : Option Attr} (hmembership : Membership machine state)
    (hledger : Ledger machine state)
    (hcall : waycaScGroupSetAttr machine state g attr = some (next, ret)) :
    Ledger machine next := by
  rcases setAttr_cases hcall with ⟨-, rfl⟩ | ⟨-, wanted, -, hlive, hrearrange⟩
  · exact hledger
  · have hsame := sameLinks_withAttr state g wanted
    have hwritten : Ledger machine (state.withAttr g wanted) :=
      hledger.congr (fun _ => Iff.rfl) (fun _ _ => rfl) rfl
    exact rearrange_ledger (hsame.membership hmembership) (hsame.liveGroup.mpr hlive)
      hwritten hrearrange

theorem ThreadNotCreated.ledger
    (hnot : ThreadNotCreated state next) (hledger : Ledger machine state) :
    Ledger machine next := by
  rcases hnot with rfl | ⟨t, thread, hslot, -, -, rfl⟩
  · exact hledger
  · refine hledger.congr (fun _ => Iff.rfl) ?_ rfl
    intro x hlive
    have hne : x ≠ t := fun h => not_liveThread hslot (h ▸ hlive)
    simp [Function.update_of_ne hne]

theorem ThreadCreated.ledger {startRoutine : Bool} {affinity : CpuSet}
    (hcreated : ThreadCreated machine state t startRoutine affinity next)
    (hledger : Ledger machine state) : Ledger machine next := by
  have hout : t ∉ liveThreads machine state :=
    fun h => not_liveThread hcreated.dead (mem_liveThreads.mp h)
  have hinsert : liveThreads machine next = insert t (liveThreads machine state) := by
    ext x
    rw [mem_liveThreads, hcreated.live_iff, mem_insert, mem_liveThreads, or_comm]
  intro c
  rw [hinsert, sum_insert hout]
  have hrest : ∑ x ∈ liveThreads machine state, threadLoad machine (next.thread x).curSet c =
      state.loads c := by
    rw [hledger c]
    refine sum_congr rfl fun x hx => ?_
    have hne : x ≠ t := fun h => hout (h ▸ hx)
    rw [hcreated.next_eq]
    simp [Function.update_of_ne hne]
  rw [hrest, hcreated.next_eq]
  simp only [State.addLoad, Function.update_self]
  ring

theorem LeftGroup.ledger (hleft : LeftGroup machine state t middle)
    (hledger : Ledger machine state) : Ledger machine middle := by
  rcases hleft with ⟨-, rfl⟩ | ⟨g, links, hdetached⟩
  · exact hledger
  · exact hdetached.ledger hledger

theorem LeftGroup.liveThread (hleft : LeftGroup machine state t middle)
    (hlive : LiveThread machine state t) : LiveThread machine middle t := by
  rcases hleft with ⟨-, rfl⟩ | ⟨g, links, hdetached⟩
  · exact hlive
  · exact hdetached.sameLinks.liveThread.mpr hlive

theorem freed_ledger (hlive : LiveThread machine middle t) (hledger : Ledger machine middle) :
    Ledger machine (middle.freed machine 1 t) := by
  have herase : liveThreads machine (middle.freed machine 1 t) =
      (liveThreads machine middle).erase t := by
    ext x
    rw [mem_liveThreads, mem_erase, mem_liveThreads, liveThread_iff, liveThread_iff]
    by_cases hx : x = t
    · simp [State.freed, hx]
    · simp [State.freed, hx]
  intro c
  rw [herase]
  have hsplit := add_sum_erase _
    (fun x => threadLoad machine (middle.thread x).curSet c) (mem_liveThreads.mpr hlive)
  have hloads : (middle.freed machine 1 t).loads c =
      middle.loads c - threadLoad machine (middle.thread t).curSet c := by
    simp only [State.freed, State.addLoad]
    ring
  rw [hloads, hledger c, ← hsplit]
  exact add_sub_cancel_left _ _

/-- The calls whose runs keep the ledger: all but the two that attach and
detach foreign processes and the one that sets a thread attribute. -/
def Call.keepsLedger : Call → Bool
  | .pidAttachThread _ _ _ => false
  | .pidDetachThread _ => false
  | .threadSetAttr _ _ _ => false
  | _ => true

/-- The step of the induction, for the calls of `keepsLedger`. -/
theorem step_ledger {call : Call} (hmembership : Membership machine state)
    (hledger : Ledger machine state) (hcall : call.keepsLedger = true)
    (hstep : step machine state call = some (next, ret)) : Ledger machine next := by
  cases call with
  | threadCreate wthread startRoutine env =>
      rcases createThread_cases hstep with hnot | ⟨t, hcreated⟩
      · exact hnot.ledger hledger
      · exact hcreated.ledger hledger
  | threadJoin t pthreadJoin =>
      rcases joinThread_cases hmembership hstep with rfl | ⟨middle, hlive, hleft, rfl⟩
      · exact hledger
      · exact freed_ledger (hleft.liveThread hlive) (hleft.ledger hledger)
  | pidAttachThread wthread pid env => simp [Call.keepsLedger] at hcall
  | pidDetachThread t => simp [Call.keepsLedger] at hcall
  | threadSetAttr t attr setaffinity => simp [Call.keepsLedger] at hcall
  | groupCreate group malloc =>
      rcases createGroup_cases hstep with ⟨-, rfl⟩ | ⟨-, g, hcreated⟩
      · exact hledger
      · exact hcreated.ledger hledger
  | groupDestroy g =>
      rcases destroyGroup_cases hmembership hstep with ⟨-, rfl⟩ | ⟨-, middle, hdestroyed⟩
      · exact hledger
      · exact hdestroyed.ledger hledger
  | groupSetAttr g attr => exact setAttr_ledger hmembership hledger hstep
  | threadAttachGroup t g =>
      rcases attachThread_cases hmembership hstep with
        ⟨-, rfl⟩ | ⟨-, links, assigned, hattached⟩
      · exact hledger
      · exact hattached.ledger hledger
  | threadDetachGroup t g =>
      rcases detachThread_cases hmembership hstep with ⟨-, rfl, -⟩ | ⟨-, links, hdetached⟩
      · exact hledger
      · exact hdetached.ledger hledger
  | groupAttachGroup g father =>
      rcases attachGroup_cases hmembership hstep with ⟨-, rfl⟩ | ⟨-, links, hattached⟩
      · exact hledger
      · exact hattached.ledger hmembership hledger
  | groupDetachGroup g father =>
      rcases detachGroup_cases hmembership hstep with ⟨-, rfl, -⟩ | ⟨-, links, hdetached⟩
      · exact hledger
      · exact hdetached.ledger hledger

theorem ledger_of_reaches (hreach : Reaches machine (fun _ call => call.keepsLedger = true) state) :
    Membership machine state ∧ Ledger machine state := by
  apply hreach.keeps (fun state => Membership machine state ∧ Ledger machine state)
    ⟨membership_start machine, ledger_start machine⟩
  intro before call after ret hboth hcall hstep
  exact ⟨step_membership hboth.1 hstep, step_ledger hboth.1 hboth.2 hcall hstep⟩

/-- After every call of a run the load of a CPU is the sum, over the live
threads that have the CPU in their current set, of the number of CPUs divided
by the size of the set and rounded up. -/
theorem loads_eq_sum_of_live_threads
    (hreach : Reaches machine (fun _ call => call.keepsLedger = true) state) (c : ℕ) :
    state.loads c =
      ∑ t ∈ range machine.threadsArraySize with
          LiveThread machine state t ∧ c ∈ (state.thread t).curSet,
        (divRoundUp machine.cpusInTotal (cpuCount (state.thread t).curSet) : ℤ) := by
  rw [(ledger_of_reaches hreach).2 c]
  unfold liveThreads threadLoad
  rw [← Finset.filter_filter, ← Finset.sum_filter]

/-- One of two threads is moved to a single CPU. -/
theorem loads_eq_sum_of_live_threads_two :
    ∃ state, Reaches smallMachine (fun _ call => call.keepsLedger = true) state ∧
      (5 : ℤ) = ∑ t ∈ range smallMachine.threadsArraySize with
          LiveThread smallMachine state t ∧ 0 ∈ (state.thread t).curSet,
        (divRoundUp smallMachine.cpusInTotal (cpuCount (state.thread t).curSet) : ℤ) := by
  have hrun : ∃ state ∈ runCalls (step smallMachine) (fun _ call => call.keepsLedger = true)
      State.start [createOnSmall, createOnSmall, .groupCreate true true,
        .threadAttachGroup 0 0], state.loads 0 = 5 := by
    decide +kernel
  obtain ⟨state, hreach, hload⟩ := exists_reachable_of_runCalls hrun
  exact ⟨state, hreach, hload.symm.trans (loads_eq_sum_of_live_threads hreach 0)⟩

end WaycaScheduler
