import Mathlib.Data.Set.Finite.Lattice
import Mathlib.Tactic

/-!
# Runs of a partial step function

A call either produces a next state and a result or produces nothing, when it
hangs or crashes.  `ReachableVia` collects the states that runs reach when
every call of the run is allowed in the state it is made in, so a restriction
on the calls and a condition on the state before a call have the same form.
-/

namespace Transition

variable {State Call Result : Type*}
variable {Calls : Call → Call → Prop} {calls : List Call}

/-- The states that allowed calls lead to. -/
inductive ReachableVia (step : State → Call → Option (State × Result))
    (Allowed : State → Call → Prop) (start : State) : State → Prop
  | start : ReachableVia step Allowed start start
  | step {state next : State} {call : Call} {result : Result} :
      ReachableVia step Allowed start state → Allowed state call →
      step state call = some (next, result) → ReachableVia step Allowed start next

variable {step : State → Call → Option (State × Result)}
  {Allowed : State → Call → Prop} {start state : State}

/-- What a step keeps holds in every reachable state. -/
theorem ReachableVia.keeps (hreach : ReachableVia step Allowed start state) (Inv : State → Prop)
    (hstart : Inv start)
    (hstep : ∀ before call after result, Inv before → Allowed before call →
      step before call = some (after, result) → Inv after) :
    Inv state := by
  induction hreach with
  | start => exact hstart
  | step _ hallowed hcall ih => exact hstep _ _ _ _ ih hallowed hcall

def runCalls (step : State → Call → Option (State × Result))
    (Allowed : State → Call → Prop) [∀ state call, Decidable (Allowed state call)]
    (state : State) : List Call → Option State
  | [] => some state
  | call :: rest =>
      if Allowed state call then
        (step state call).bind fun outcome => runCalls step Allowed outcome.1 rest
      else none

theorem ReachableVia.runCalls
    [∀ state call, Decidable (Allowed state call)] {final : State}
    (hreach : ReachableVia step Allowed start state)
    (hrun : runCalls step Allowed state calls = some final) :
    ReachableVia step Allowed start final := by
  induction calls generalizing state with
  | nil =>
      simp only [Transition.runCalls, Option.some.injEq] at hrun
      exact hrun ▸ hreach
  | cons call rest ih =>
      simp only [Transition.runCalls] at hrun
      split at hrun
      next hallowed =>
        obtain ⟨outcome, hstep, hlater⟩ := Option.bind_eq_some_iff.mp hrun
        exact ih (.step hreach hallowed hstep) hlater
      next => cases hrun

theorem exists_reachable_of_runCalls
    [∀ state call, Decidable (Allowed state call)] {Check : State → Prop}
    (hrun : ∃ final ∈ runCalls step Allowed start calls, Check final) :
    ∃ final, ReachableVia step Allowed start final ∧ Check final := by
  obtain ⟨final, hfinal, hcheck⟩ := hrun
  exact ⟨final, ReachableVia.start.runCalls hfinal, hcheck⟩

def replay (step : State → Call → State × Result) (state : State) :
    List Call → State × List Result
  | [] => (state, [])
  | call :: rest =>
      let later := replay step (step state call).1 rest
      (later.1, (step state call).2 :: later.2)

/-! ## Nested calls -/

theorem finite_stacks (Good : Call → Prop)
    (hgood : ∀ outer inner, Good outer → Calls outer inner → Good inner)
    (hbranch : ∀ outer, Good outer → {inner | Calls outer inner}.Finite) (depth : ℕ)
    {call : Call} (hcall : Good call) :
    {stack : List Call | List.IsChain Calls (call :: stack) ∧ stack.length ≤ depth}.Finite := by
  induction depth generalizing call with
  | zero =>
      refine (Set.finite_singleton []).subset ?_
      rintro stack ⟨-, hlength⟩
      exact List.length_eq_zero_iff.mp (Nat.le_zero.mp hlength)
  | succ depth ih =>
      have hdeeper : (⋃ inner ∈ {inner | Calls call inner}, (inner :: ·) ''
          {stack : List Call | List.IsChain Calls (inner :: stack) ∧
            stack.length ≤ depth}).Finite :=
        (hbranch call hcall).biUnion fun inner hinner =>
          (ih (hgood call inner hcall hinner)).image _
      refine (hdeeper.insert []).subset ?_
      rintro stack ⟨hchain, hlength⟩
      cases stack with
      | nil => exact Set.mem_insert _ _
      | cons inner rest =>
          obtain ⟨hinner, hrest⟩ := List.isChain_cons_cons.mp hchain
          refine Set.mem_insert_of_mem _ (Set.mem_biUnion hinner ⟨rest, ⟨hrest, ?_⟩, rfl⟩)
          exact Nat.le_of_succ_le_succ hlength

theorem length_stack_le (Good : Call → Prop) {rank : Call → ℕ}
    (hgood : ∀ outer inner, Good outer → Calls outer inner → Good inner)
    (hfalls : ∀ outer inner, Good outer → Calls outer inner → rank inner < rank outer)
    {call : Call} {stack : List Call} (hcall : Good call)
    (hchain : List.IsChain Calls (call :: stack)) : stack.length ≤ rank call := by
  induction stack generalizing call with
  | nil => exact Nat.zero_le _
  | cons inner rest ih =>
      obtain ⟨hinner, hrest⟩ := List.isChain_cons_cons.mp hchain
      have hlength := ih (hgood call inner hcall hinner) hrest
      have hrank := hfalls call inner hcall hinner
      rw [List.length_cons]
      omega

end Transition
