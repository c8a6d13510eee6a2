import Mathlib.Tactic

/-!
# Programs that return codes

A program works on a state and ends in one of three ways: with a value, with
an error code that its caller sees, or with a fault that nobody sees.
`Returns` is the first of them, and its rules take a program apart that has
returned.
-/

namespace ReturnCodes

/-- Programs with states `σ`, error codes `ε` and faults `φ`. -/
abbrev Program (σ ε φ : Type) := StateT σ (ExceptT ε (Except φ))

variable {σ ε φ α β : Type}

def outcome (program : Program σ ε φ α) (state : σ) : Except φ (Except ε (α × σ)) :=
  program state

def Returns (program : Program σ ε φ α) (state : σ) (value : α) (after : σ) : Prop :=
  outcome program state = .ok (.ok (value, after))

def failWith (code : ε) : Program σ ε φ α := fun _ => (.ok (.error code) : Except φ (Except ε _))

def call (function : σ → Except φ (α × σ)) : Program σ ε φ α :=
  fun state => (function state).map .ok

def query (function : σ → α × σ) : Program σ ε φ α :=
  fun state => (.ok (.ok (function state)) : Except φ (Except ε _))

def compute (result : Except ε α) : Program σ ε φ α :=
  fun state => (.ok (result.map (·, state)) : Except φ (Except ε _))

variable {state after : σ} {value : α}

theorem returns_bind {first : Program σ ε φ α} {rest : α → Program σ ε φ β} {result : β} :
    Returns (first >>= rest) state result after ↔ ∃ value middle, Returns first state value middle ∧
        Returns (rest value) middle result after := by
  have hbind : outcome (first >>= rest) state = (outcome first state).bind fun ended =>
      match ended with
      | .ok (value, middle) => outcome (rest value) middle
      | .error code => .ok (.error code) := by
    simp only [outcome, bind, StateT.bind, ExceptT.bind, ExceptT.mk]
    congr 1
    funext ended
    cases ended with
    | error code => rfl
    | ok pair => rfl
  unfold Returns
  rw [hbind]
  cases outcome first state with
  | error fault => simp [Except.bind]
  | ok ended =>
      cases ended with
      | error code => simp [Except.bind]
      | ok pair =>
          obtain ⟨value, middle⟩ := pair
          simp [Except.bind]

theorem returns_pure {result : α} :
    Returns (pure value : Program σ ε φ α) state result after ↔ value = result ∧ state = after := by
  change (.ok (.ok (value, state)) : Except φ (Except ε (α × σ))) = .ok (.ok (result, after)) ↔ _
  simp

theorem not_returns_failWith {code : ε} :
    ¬ Returns (failWith code : Program σ ε φ α) state value after := by
  simp [Returns, outcome, failWith]

theorem returns_call {function : σ → Except φ (α × σ)} :
    Returns (call function : Program σ ε φ α) state value after ↔
      function state = .ok (value, after) := by
  unfold Returns outcome call
  cases function state with
  | error fault => simp [Except.map]
  | ok pair => simp [Except.map]

theorem returns_query {function : σ → α × σ} :
    Returns (query function : Program σ ε φ α) state value after ↔
      function state = (value, after) := by
  simp [Returns, outcome, query]

theorem returns_compute {result : Except ε α} :
    Returns (compute result : Program σ ε φ α) state value after ↔
      result = .ok value ∧ state = after := by
  unfold Returns outcome compute
  cases result with
  | error code => simp [Except.map]
  | ok value => simp [Except.map]

/-- The guard of a call: the rest is reached when the code is none of the bad ones. -/
def guardCode (bad : Bool) (code : ε) : Program σ ε φ Unit :=
  if bad then failWith code else pure ()

theorem returns_guardCode {bad : Bool} {code : ε} {value : Unit} :
    Returns (guardCode bad code : Program σ ε φ Unit) state value after ↔
      bad = false ∧ state = after := by
  unfold guardCode
  cases bad with
  | true => simp [not_returns_failWith]
  | false => simp [returns_pure]

end ReturnCodes
