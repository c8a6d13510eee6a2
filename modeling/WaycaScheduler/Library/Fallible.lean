import Mathlib.Tactic

/-!
# Computations that may fail

A computation returns a value or names its failure.  `Ensures` is a
postcondition for it: a returned value satisfies the condition, and a failure
is none of the excluded ones.  Failures that are not excluded are let through,
so the rules also serve when only one kind of failure is of interest.
-/

namespace Fallible

universe u v

variable {ε : Type v} {α β : Type u}
  {outcome : Except ε α} {next : α → Except ε β} {Excluded : ε → Prop}
  {Post Weaker : α → Prop} {Final : β → Prop}

theorem bind_eq_ok {value : β} :
    outcome >>= next = .ok value ↔ ∃ middle, outcome = .ok middle ∧ next middle = .ok value := by
  cases outcome with
  | error failure => simp [bind, Except.bind]
  | ok middle => simp [bind, Except.bind]

theorem ok_of_toOption {value : α} (hvalue : outcome.toOption = some value) :
    outcome = .ok value := by
  cases outcome with
  | error failure => cases hvalue
  | ok other => rw [Option.some.inj hvalue]

/-- The outcome meets the condition, or is a failure that is not excluded. -/
def Ensures (outcome : Except ε α) (Excluded : ε → Prop) (Post : α → Prop) : Prop :=
  match outcome with
  | .ok value => Post value
  | .error failure => ¬ Excluded failure

/-- The rule of sequence. -/
theorem Ensures.bind (hfirst : Ensures outcome Excluded Post)
    (hnext : ∀ middle, Post middle → Ensures (next middle) Excluded Final) :
    Ensures (outcome >>= next) Excluded Final := by
  cases outcome with
  | error failure => exact hfirst
  | ok middle => exact hnext middle hfirst

theorem ensures_nothing (outcome : Except ε α) :
    Ensures outcome (fun _ => False) fun _ => True := by
  cases outcome with
  | error failure => exact id
  | ok value => trivial

theorem Ensures.mono (hensures : Ensures outcome Excluded Post)
    (hweaker : ∀ value, Post value → Weaker value) : Ensures outcome Excluded Weaker := by
  cases outcome with
  | error failure => exact hensures
  | ok value => exact hweaker value hensures

theorem Ensures.permit (hensures : Ensures outcome Excluded Post)
    (hweaker : ∀ value, Post value → Weaker value) :
    Ensures outcome (fun _ => False) Weaker := by
  cases outcome with
  | error failure => exact id
  | ok value => exact hweaker value hensures

theorem Ensures.of_ok (hensures : Ensures outcome Excluded Post) {value : α}
    (hreturns : outcome = .ok value) : Post value := by
  rw [hreturns] at hensures
  exact hensures

theorem Ensures.ne_error (hensures : Ensures outcome Excluded Post) {failure : ε}
    (hexcluded : Excluded failure) : outcome ≠ .error failure := by
  intro herror
  rw [herror] at hensures
  exact hensures hexcluded

theorem Ensures.returns (hensures : Ensures outcome (fun _ => True) Post) :
    ∃ value, outcome = .ok value ∧ Post value := by
  cases outcome with
  | error failure => exact absurd trivial hensures
  | ok value => exact ⟨value, rfl, hensures⟩

end Fallible
