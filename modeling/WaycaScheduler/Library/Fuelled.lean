import Mathlib.Tactic

/-!
# What a computation with fuel returns

A loop that may not end is a function of its fuel that gives nothing when the
fuel runs out.  It returns a value if some fuel is enough.  The rules below say
what a step of the loop returns in terms of what follows, so that the fuel does
not appear in the proofs about a loop.
-/

namespace Fuelled

variable {α β : Type*} {run later : ℕ → Option α} {value other : α}
variable {second : β → ℕ → Option α} {first : ℕ → Option β}

def Returns (run : ℕ → Option α) (value : α) : Prop :=
  ∃ fuel, run fuel = some value

def Steady (run : ℕ → Option α) : Prop :=
  ∀ fuel value, run fuel = some value → run (fuel + 1) = some value

theorem Steady.of_le (hsteady : Steady run) {fuel more : ℕ} (hle : fuel ≤ more)
    (hrun : run fuel = some value) : run more = some value := by
  induction more, hle using Nat.le_induction with
  | base => exact hrun
  | succ more _ ih => exact hsteady more value ih

theorem Steady.unique (hsteady : Steady run) (hvalue : Returns run value)
    (hother : Returns run other) : value = other := by
  obtain ⟨fuel, hrun⟩ := hvalue
  obtain ⟨fuel', hrun'⟩ := hother
  have hfirst := hsteady.of_le (Nat.le_add_right fuel fuel') hrun
  have hsecond := hsteady.of_le (Nat.le_add_left fuel' fuel) hrun'
  rw [hfirst] at hsecond
  exact Option.some.inj hsecond

theorem returns_done (hstep : ∀ fuel, run (fuel + 1) = some value) (hzero : run 0 = none) :
    Returns run other ↔ other = value := by
  constructor
  · rintro ⟨fuel, hrun⟩
    cases fuel with
    | zero =>
        rw [hzero] at hrun
        cases hrun
    | succ fuel =>
        rw [hstep] at hrun
        exact (Option.some.inj hrun).symm
  · rintro rfl
    exact ⟨1, hstep 0⟩

theorem returns_next (hstep : ∀ fuel, run (fuel + 1) = later fuel) (hzero : run 0 = none) :
    Returns run value ↔ Returns later value := by
  constructor
  · rintro ⟨fuel, hrun⟩
    cases fuel with
    | zero =>
        rw [hzero] at hrun
        cases hrun
    | succ fuel => exact ⟨fuel, (hstep fuel).symm.trans hrun⟩
  · rintro ⟨fuel, hrun⟩
    exact ⟨fuel + 1, (hstep fuel).trans hrun⟩

theorem returns_bind (hfirst : Steady first)
    (hsecond : ∀ middle, Steady (second middle)) :
    Returns (fun fuel => (first fuel).bind fun middle => second middle fuel) value ↔
      ∃ middle, Returns first middle ∧ Returns (second middle) value := by
  constructor
  · rintro ⟨fuel, hrun⟩
    obtain ⟨middle, hmiddle, hvalue⟩ := Option.bind_eq_some_iff.mp hrun
    exact ⟨middle, ⟨fuel, hmiddle⟩, ⟨fuel, hvalue⟩⟩
  · rintro ⟨middle, ⟨fuel, hmiddle⟩, ⟨fuel', hvalue⟩⟩
    refine ⟨fuel + fuel', ?_⟩
    have hlong := hfirst.of_le (Nat.le_add_right fuel fuel') hmiddle
    have hlong' := (hsecond middle).of_le (Nat.le_add_left fuel' fuel) hvalue
    simp only [hlong, Option.bind_some, hlong']

theorem returns_some : Returns (fun _ => some value) other ↔ other = value := by
  constructor
  · rintro ⟨_, hrun⟩
    exact (Option.some.inj hrun).symm
  · rintro rfl
    exact ⟨0, rfl⟩

theorem steady_some : Steady fun _ => some value := fun _ _ hrun => hrun

theorem steady_bind (hfirst : Steady first)
    (hsecond : ∀ middle, Steady (second middle)) :
    Steady fun fuel => (first fuel).bind fun middle => second middle fuel := by
  intro fuel value hrun
  obtain ⟨middle, hmiddle, hvalue⟩ := Option.bind_eq_some_iff.mp hrun
  have hlong := hfirst fuel middle hmiddle
  have hlong' := hsecond middle fuel value hvalue
  simp only [hlong, Option.bind_some, hlong']

theorem steady_map (hsteady : Steady run) (f : α → β) :
    Steady fun fuel => (run fuel).map f := by
  intro fuel value hrun
  obtain ⟨middle, hmiddle, rfl⟩ := Option.map_eq_some_iff.mp hrun
  exact Option.map_eq_some_iff.mpr ⟨middle, hsteady fuel middle hmiddle, rfl⟩

theorem returns_map {f : α → β} {result : β} :
    Returns (fun fuel => (run fuel).map f) result ↔
      ∃ middle, Returns run middle ∧ result = f middle := by
  constructor
  · rintro ⟨fuel, hrun⟩
    obtain ⟨middle, hmiddle, rfl⟩ := Option.map_eq_some_iff.mp hrun
    exact ⟨middle, ⟨fuel, hmiddle⟩, rfl⟩
  · rintro ⟨middle, ⟨fuel, hmiddle⟩, rfl⟩
    exact ⟨fuel, Option.map_eq_some_iff.mpr ⟨middle, hmiddle, rfl⟩⟩

/-! ## Loops over a state -/

section Loops

variable {σ : Type*} {stop : σ → Option α} {next : σ → σ}

def loop (stop : σ → Option α) (next : σ → σ) : ℕ → σ → Option α
  | 0, _ => none
  | fuel + 1, state => (stop state).or (loop stop next fuel (next state))

theorem loop_steady (state : σ) : Steady fun fuel => loop stop next fuel state := by
  intro fuel
  induction fuel generalizing state with
  | zero =>
      intro value hrun
      cases hrun
  | succ fuel ih =>
      intro value hrun
      simp only [loop] at hrun ⊢
      cases hstop : stop state with
      | some result =>
          rw [hstop] at hrun
          exact hrun
      | none =>
          rw [hstop, Option.none_or] at hrun
          rw [Option.none_or]
          exact ih (next state) value hrun

theorem returns_loop {state : σ} :
    Returns (fun fuel => loop stop next fuel state) value ↔
      ∃ k, (∀ j < k, stop (next^[j] state) = none) ∧ stop (next^[k] state) = some value := by
  constructor
  · rintro ⟨fuel, hrun⟩
    induction fuel generalizing state with
    | zero => cases hrun
    | succ fuel ih =>
        simp only [loop] at hrun
        cases hstop : stop state with
        | some result =>
            rw [hstop, Option.some_or] at hrun
            exact ⟨0, fun j hj => absurd hj (Nat.not_lt_zero j), hstop.trans hrun⟩
        | none =>
            rw [hstop, Option.none_or] at hrun
            obtain ⟨k, hbefore, hfound⟩ := ih hrun
            refine ⟨k + 1, ?_, ?_⟩
            · intro j hj
              cases j with
              | zero => exact hstop
              | succ j =>
                  rw [Function.iterate_succ_apply]
                  exact hbefore j (Nat.lt_of_succ_lt_succ hj)
            · rw [Function.iterate_succ_apply]
              exact hfound
  · rintro ⟨k, hbefore, hfound⟩
    refine ⟨k + 1, ?_⟩
    induction k generalizing state with
    | zero =>
        have hstop : stop state = some value := hfound
        simp only [loop, hstop, Option.some_or]
    | succ k ih =>
        have hgo : stop state = none := hbefore 0 (Nat.succ_pos k)
        rw [Function.iterate_succ_apply] at hfound
        have hlater : loop stop next (k + 1) (next state) = some value := by
          apply ih _ hfound
          intro j hj
          have hnone := hbefore (j + 1) (Nat.succ_lt_succ hj)
          rwa [Function.iterate_succ_apply] at hnone
        change loop stop next (k + 1 + 1) state = some value
        rw [loop, hgo, Option.none_or]
        exact hlater

/-- A loop ends exactly if an iterate meets the stop. -/
theorem loop_ends_iff {state : σ} :
    (∃ value, Returns (fun fuel => loop stop next fuel state) value) ↔
      ∃ k, stop (next^[k] state) ≠ none := by
  classical
  constructor
  · rintro ⟨value, hreturns⟩
    obtain ⟨k, -, hfound⟩ := returns_loop.mp hreturns
    refine ⟨k, ?_⟩
    rw [hfound]
    exact Option.some_ne_none value
  · intro hsome
    have hfirst := Nat.find_spec hsome
    obtain ⟨value, hvalue⟩ := Option.ne_none_iff_exists'.mp hfirst
    refine ⟨value, returns_loop.mpr ⟨Nat.find hsome, ?_, hvalue⟩⟩
    intro j hj
    exact not_not.mp (Nat.find_min hsome hj)

end Loops

end Fuelled
