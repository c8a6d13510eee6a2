import WaycaScheduler.Deployd
import Mathlib.Algebra.BigOperators.Group.Finset.Basic

/-!
# Runs of automatic deployment

Programs of low bandwidth are booked on a cluster and on its node, but only the
cluster is asked for room.  Programs of the bandwidth of a node are booked on
the node alone.  Together they can book more on a node than it has, and they do
so exactly when a program gets a cluster on a node without room for it.
-/

namespace WaycaScheduler

/-- A request for a cluster or a node next to a device of the machine. -/
structure AutoRequest (machine : DeployMachine) where
  cpuUtil : ℤ
  ioNode : ℕ
  low : Bool
  util_nonneg : 0 ≤ cpuUtil
  inRange : ioNode < machine.nodes

section Runs

variable {machine : DeployMachine}

def AutoRequest.program (request : AutoRequest machine) : AutoProgram :=
  ⟨request.cpuUtil, request.ioNode, some (if request.low then .low else .die)⟩

def runAuto : DeployLoads → List (AutoRequest machine) → Option DeployLoads
  | loads, [] => some loads
  | loads, request :: later =>
      (processAutoBind machine loads request.program).bind fun outcome =>
        runAuto outcome.loads later

/-- `wayca_sc_ccls_in_total` -/
def DeployMachine.ccls (machine : DeployMachine) : ℕ := machine.cpusInTotal / machine.cpusInCcl

def DeployMachine.nodeCcls (machine : DeployMachine) (node : ℕ) : Finset ℕ :=
  Finset.Ico (machine.firstCcl node) (machine.firstCcl node + machine.cclsInNode)

/-- No cluster and no node is booked beyond its CPUs, and a node has at least
what its clusters have. -/
structure NoOvercommit (machine : DeployMachine) (loads : DeployLoads) : Prop where
  ccl : ∀ k < machine.ccls, loads.ccl k ≤ machine.cpusInCcl
  node : ∀ m < machine.nodes, loads.node m ≤ machine.cpusInNode
  sum : ∀ m < machine.nodes, ∑ k ∈ machine.nodeCcls m, loads.ccl k ≤ loads.node m

/-- The tables are long enough for the search, and the node of the cluster that
is found has room too. -/
def RequestFits (loads : DeployLoads) (request : AutoRequest machine) : Prop :=
  if request.low then
    (∃ k, FirstIdle machine loads request.cpuUtil request.ioNode k ∧
      ((machine.firstCcl request.ioNode + k) / machine.cclsInNode < machine.nodes →
        request.cpuUtil ≤ nodeIdleCpuCores machine loads
          ((machine.firstCcl request.ioNode + k) / machine.cclsInNode))) ∨
    (NoneIdle machine loads request.cpuUtil request.ioNode ∧ request.ioNode < NR_CPUS)
  else request.ioNode < NR_CPUS

/-- Each request fits the loads that the ones before it have left. -/
def AllFit : DeployLoads → List (AutoRequest machine) → Prop
  | _, [] => True
  | loads, request :: later =>
      RequestFits loads request ∧ ∀ outcome,
        processAutoBind machine loads request.program = some outcome →
        AllFit outcome.loads later

/-! ## What a request books -/

/-- Where a request adds its load. -/
inductive RequestBooks (loads : DeployLoads) (request : AutoRequest machine) : DeployLoads → Prop
  | ccl (k : ℕ) : request.low = true →
      FirstIdle machine loads request.cpuUtil request.ioNode k →
      RequestBooks loads request
        (cclOutcome machine loads request.cpuUtil (machine.firstCcl request.ioNode + k)).loads
  | node : (request.low = true → NoneIdle machine loads request.cpuUtil request.ioNode) →
      request.ioNode < NR_CPUS →
      request.cpuUtil ≤ nodeIdleCpuCores machine loads request.ioNode →
      RequestBooks loads request (bookNode loads request.ioNode request.cpuUtil)
  | nothing : (request.low = true → NoneIdle machine loads request.cpuUtil request.ioNode) →
      request.ioNode < NR_CPUS → RequestBooks loads request loads

variable {loads loads' : DeployLoads} {request : AutoRequest machine}
  {requests : List (AutoRequest machine)}

theorem books_of_bindDie {outcome : AutoOutcome}
    (hnone : request.low = true → NoneIdle machine loads request.cpuUtil request.ioNode)
    (hcall : bindDie machine loads request.cpuUtil request.ioNode = some outcome) :
    RequestBooks loads request outcome.loads := by
  unfold bindDie at hcall
  split at hcall
  next => cases hcall
  next hin =>
    split at hcall
    next hidle =>
      cases hcall
      exact .node hnone (not_le.mp hin) hidle
    next =>
      cases hcall
      exact .nothing hnone (not_le.mp hin)

theorem processAutoBind_die (hlow : request.low = false) :
    processAutoBind machine loads request.program =
      bindDie machine loads request.cpuUtil request.ioNode := by
  unfold AutoRequest.program
  rw [hlow, processAutoBind, if_neg (by dsimp only; omega)]
  rfl

theorem books_of_call {outcome : AutoOutcome}
    (hcall : processAutoBind machine loads request.program = some outcome) :
    RequestBooks loads request outcome.loads := by
  cases hlow : request.low with
  | false =>
      rw [processAutoBind_die hlow] at hcall
      apply books_of_bindDie _ hcall
      intro htrue
      rw [hlow] at htrue
      cases htrue
  | true =>
      have hband : request.program.memBand = some .low := by
        rw [AutoRequest.program, hlow]
        rfl
      have hcases := @processAutoBind_low machine loads request.program request.ioNode rfl hband
      rcases hcases with ⟨k, hfirst, hlow'⟩ | ⟨hnone, hlow'⟩ | ⟨-, -, hlow'⟩
      · rw [hlow'] at hcall
        cases hcall
        exact .ccl k hlow hfirst
      · rw [hlow'] at hcall
        exact books_of_bindDie (fun _ => hnone) hcall
      · rw [hlow'] at hcall
        cases hcall

theorem call_of_fits (hfits : RequestFits loads request) :
    ∃ outcome, processAutoBind machine loads request.program = some outcome := by
  have hdie : request.ioNode < NR_CPUS →
      ∃ outcome, bindDie machine loads request.cpuUtil request.ioNode = some outcome := by
    intro hin
    unfold bindDie
    rw [if_neg (not_le.mpr hin)]
    split
    next => exact ⟨_, rfl⟩
    next => exact ⟨_, rfl⟩
  unfold RequestFits at hfits
  cases hlow : request.low with
  | false =>
      rw [hlow, if_neg Bool.false_ne_true] at hfits
      rw [processAutoBind_die hlow]
      exact hdie hfits
  | true =>
      rw [hlow, if_pos rfl] at hfits
      have hband : request.program.memBand = some .low := by
        rw [AutoRequest.program, hlow]
        rfl
      have hcases := @processAutoBind_low machine loads request.program request.ioNode rfl hband
      rcases hcases with ⟨k, -, hcall⟩ | ⟨hnone, hcall⟩ | ⟨hfirst, hnone, -⟩
      · exact ⟨_, hcall⟩
      · rw [hcall]
        rcases hfits with ⟨k, hfirst, -⟩ | ⟨-, hin⟩
        · exact absurd hnone hfirst.not_noneIdle
        · exact hdie hin
      · rcases hfits with ⟨k, hk, -⟩ | ⟨hagain, -⟩
        · exact absurd hk (hfirst k)
        · exact absurd hagain hnone

/-! ## The books of a node -/

theorem mem_nodeCcls {ccl m : ℕ} : ccl ∈ machine.nodeCcls m ↔ ccl / machine.cclsInNode = m := by
  have hpos : 0 < machine.cclsInNode :=
    Nat.div_pos (Nat.le_of_dvd machine.node_pos machine.ccl_dvd) machine.ccl_pos
  rw [DeployMachine.nodeCcls, Finset.mem_Ico, DeployMachine.firstCcl, ← Nat.succ_mul]
  constructor
  · rintro ⟨hlow, hhigh⟩
    exact Nat.div_eq_of_lt_le hlow hhigh
  · rintro rfl
    refine ⟨Nat.div_mul_le_self ccl _, ?_⟩
    rw [Nat.succ_mul]
    exact Nat.lt_div_mul_add hpos

theorem sum_bookCcl (ccl m : ℕ) (cpuUtil : ℤ) :
    ∑ k ∈ machine.nodeCcls m, (bookCcl loads ccl cpuUtil).ccl k =
      ∑ k ∈ machine.nodeCcls m, loads.ccl k +
        if ccl / machine.cclsInNode = m then cpuUtil else 0 := by
  simp only [bookCcl_ccl, Finset.sum_add_distrib, Finset.sum_ite_eq', mem_nodeCcls]

theorem NoOvercommit.bookNode {node : ℕ} {cpuUtil : ℤ} (hno : NoOvercommit machine loads)
    (hutil : 0 ≤ cpuUtil) (hroom : cpuUtil ≤ nodeIdleCpuCores machine loads node) :
    NoOvercommit machine (bookNode loads node cpuUtil) := by
  unfold nodeIdleCpuCores at hroom
  refine ⟨hno.ccl, ?_, ?_⟩
  · intro m hm
    have hload := hno.node m hm
    rw [bookNode_node]
    split
    next hsame =>
      subst hsame
      omega
    next => omega
  · intro m hm
    have hsum := hno.sum m hm
    rw [bookNode_ccl, bookNode_node]
    split
    next => omega
    next => omega

theorem NoOvercommit.bookCluster {ccl : ℕ} {cpuUtil : ℤ} (hno : NoOvercommit machine loads)
    (hidle : cpuUtil ≤ cclIdleCpuCores machine loads ccl)
    (hroom : ccl / machine.cclsInNode < machine.nodes →
      cpuUtil ≤ nodeIdleCpuCores machine loads (ccl / machine.cclsInNode)) :
    NoOvercommit machine (cclOutcome machine loads cpuUtil ccl).loads := by
  unfold cclIdleCpuCores at hidle
  unfold nodeIdleCpuCores at hroom
  unfold cclOutcome
  dsimp only
  refine ⟨?_, ?_, ?_⟩
  · intro k hk
    have hload := hno.ccl k hk
    rw [bookNode_ccl, bookCcl_ccl]
    split
    next hsame =>
      subst hsame
      omega
    next => omega
  · intro m hm
    have hload := hno.node m hm
    rw [bookNode_node, bookCcl_node]
    split
    next hsame =>
      have hidle := hroom (hsame ▸ hm)
      rw [← hsame] at hidle
      omega
    next => omega
  · intro m hm
    have hsum := hno.sum m hm
    rw [bookNode_ccl, sum_bookCcl, bookNode_node, bookCcl_node]
    simp only [eq_comm (b := m)]
    omega

/-- A request that fits the idle cores books no more than these. -/
theorem noOvercommit_books (hno : NoOvercommit machine loads) (hfits : RequestFits loads request)
    (hbooks : RequestBooks loads request loads') : NoOvercommit machine loads' := by
  cases hbooks with
  | ccl k hlow hfirst =>
      apply hno.bookCluster hfirst.idle
      rw [RequestFits, if_pos hlow] at hfits
      rcases hfits with ⟨j, hj, hroom⟩ | ⟨hnone, -⟩
      · rw [firstIdle_unique hfirst hj]
        exact hroom
      · exact absurd hnone hfirst.not_noneIdle
  | node hnone hin hidle => exact hno.bookNode request.util_nonneg hidle
  | nothing _ _ => exact hno

theorem books_node_le (hbooks : RequestBooks loads request loads') (m : ℕ) :
    loads.node m ≤ loads'.node m := by
  have hutil := request.util_nonneg
  cases hbooks with
  | ccl k _ _ =>
      unfold cclOutcome
      dsimp only
      rw [bookNode_node, bookCcl_node]
      split
      next => omega
      next => omega
  | node _ _ _ =>
      rw [bookNode_node]
      split
      next => omega
      next => omega
  | nothing _ _ => exact le_refl _

theorem runAuto_node_le (hrun : runAuto loads requests = some loads') (m : ℕ) :
    loads.node m ≤ loads'.node m := by
  induction requests generalizing loads with
  | nil =>
      cases hrun
      exact le_refl _
  | cons request later ih =>
      obtain ⟨outcome, hcall, hlater⟩ := Option.bind_eq_some_iff.mp hrun
      exact le_trans (books_node_le (books_of_call hcall) m) (ih hlater)

theorem fits_of_books (hbooks : RequestBooks loads request loads')
    (hnodes : ∀ m < machine.nodes, loads'.node m ≤ machine.cpusInNode) :
    RequestFits loads request := by
  unfold RequestFits
  cases hbooks with
  | ccl k hlow hfirst =>
      rw [if_pos hlow]
      refine .inl ⟨k, hfirst, ?_⟩
      intro hm
      have hload := hnodes _ hm
      unfold cclOutcome at hload
      dsimp only at hload
      rw [bookNode_node, bookCcl_node, if_pos rfl] at hload
      unfold nodeIdleCpuCores
      omega
  | node hnone hin _ =>
      split
      next hlow => exact .inr ⟨hnone hlow, hin⟩
      next => exact hin
  | nothing hnone hin =>
      split
      next hlow => exact .inr ⟨hnone hlow, hin⟩
      next => exact hin

/-- The books are kept along a run exactly if every request fits.  The induction
is on the requests. -/
theorem noOvercommit_run_iff (hno : NoOvercommit machine loads) :
    (∃ loads', runAuto loads requests = some loads' ∧ NoOvercommit machine loads') ↔
      AllFit loads requests := by
  induction requests generalizing loads with
  | nil => exact iff_of_true ⟨loads, rfl, hno⟩ trivial
  | cons request later ih =>
      rw [AllFit]
      constructor
      · rintro ⟨loads', hrun, hno'⟩
        obtain ⟨outcome, hcall, hlater⟩ := Option.bind_eq_some_iff.mp hrun
        have hbooks := books_of_call hcall
        have hfits : RequestFits loads request := by
          apply fits_of_books hbooks
          intro m hm
          exact le_trans (runAuto_node_le hlater m) (hno'.node m hm)
        refine ⟨hfits, ?_⟩
        intro outcome' hcall'
        cases hcall.symm.trans hcall'
        exact (ih (noOvercommit_books hno hfits hbooks)).mp ⟨loads', hlater, hno'⟩
      · rintro ⟨hfits, hrest⟩
        obtain ⟨outcome, hcall⟩ := call_of_fits hfits
        have hno' := noOvercommit_books hno hfits (books_of_call hcall)
        obtain ⟨loads', hlater, hfinal⟩ := (ih hno').mpr (hrest outcome hcall)
        exact ⟨loads', Option.bind_eq_some_iff.mpr ⟨outcome, hcall, hlater⟩, hfinal⟩

def noLoads : DeployLoads := ⟨fun _ => 0, fun _ => 0⟩

/-- From nothing booked, nothing is overcommitted exactly if every request
fits. -/
theorem deployment_not_overcommitted_iff (machine : DeployMachine)
    (requests : List (AutoRequest machine)) :
    (∃ loads, runAuto noLoads requests = some loads ∧ NoOvercommit machine loads) ↔
      AllFit noLoads requests := by
  apply noOvercommit_run_iff
  refine ⟨?_, ?_, ?_⟩
  · intro k _
    exact Int.natCast_nonneg _
  · intro m _
    exact Int.natCast_nonneg _
  · intro m _
    exact (Finset.sum_const_zero).le

end Runs

/-- A node of four CPUs is filled, and a program of one CPU gets a cluster of
it. -/
theorem deployment_overcommits_node :
    (@runAuto twoNodes noLoads
      [⟨4, 0, false, by decide, by decide⟩, ⟨1, 0, true, by decide, by decide⟩]).map
        (·.node 0) = some 5 ∧ twoNodes.cpusInNode = 4 := by
  decide

end WaycaScheduler
