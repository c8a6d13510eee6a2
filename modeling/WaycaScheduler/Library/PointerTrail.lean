import Mathlib.Tactic

/-!
# Trails of pointers

Places are chosen one after another, and each place is given a pointer to the
next one.  The last place then points back to the first.  Following the pointers
from the first place visits as many different places as were chosen exactly if
no place was chosen twice.
-/

namespace PointerTrail

open Function Finset

variable {α β : Type*} [DecidableEq α]

section Record

variable (point : α → β) (memory : α → β) (places : ℕ → α)

def record : ℕ → α → β
  | 0 => memory
  | k + 1 => Function.update (record k) (places k) (point (places (k + 1)))

/-- The memory after the place `k` has been made the last one. -/
def close (k : ℕ) : α → β :=
  Function.update (record point memory places k) (places k) (point (places 0))

end Record

section Facts

variable {point : α → β} {memory : α → β} {places : ℕ → α} {p : α} {j k : ℕ}

theorem record_of_ne (hne : ∀ j < k, places j ≠ p) : record point memory places k p = memory p := by
  induction k with
  | zero => rfl
  | succ k ih =>
      rw [record, update_of_ne (hne k (Nat.lt_succ_self k)).symm]
      exact ih fun j hj => hne j (Nat.lt_succ_of_lt hj)

theorem record_chosen (hj : j < k) :
    ∃ i ≤ k, record point memory places k (places j) = point (places i) := by
  induction k with
  | zero => exact absurd hj (Nat.not_lt_zero j)
  | succ k ih =>
      by_cases hsame : places j = places k
      · refine ⟨k + 1, le_refl _, ?_⟩
        rw [record, hsame, update_self]
      · have hlt : j < k := by
          rcases Nat.lt_succ_iff_lt_or_eq.mp hj with hlt | rfl
          · exact hlt
          · exact absurd rfl hsame
        obtain ⟨i, hi, hrecord⟩ := ih hlt
        refine ⟨i, Nat.le_succ_of_le hi, ?_⟩
        rw [record, update_of_ne hsame]
        exact hrecord

theorem record_next (hdistinct : ∀ i < k, ∀ j < k, places i = places j → i = j) (hj : j < k) :
    record point memory places k (places j) = point (places (j + 1)) := by
  induction k with
  | zero => exact absurd hj (Nat.not_lt_zero j)
  | succ k ih =>
      rcases Nat.lt_succ_iff_lt_or_eq.mp hj with hlt | rfl
      · have hne : places j ≠ places k := by
          intro hsame
          have := hdistinct j hj k (Nat.lt_succ_self k) hsame
          omega
        rw [record, update_of_ne hne]
        apply ih _ hlt
        intro i hi i' hi'
        exact hdistinct i (Nat.lt_succ_of_lt hi) i' (Nat.lt_succ_of_lt hi')
      · rw [record, update_self]

theorem close_chosen (hj : j ≤ k) :
    ∃ i ≤ k, close point memory places k (places j) = point (places i) := by
  by_cases hsame : places j = places k
  · refine ⟨0, Nat.zero_le k, ?_⟩
    rw [close, hsame, update_self]
  · have hlt : j < k := by
      rcases Nat.lt_or_eq_of_le hj with hlt | rfl
      · exact hlt
      · exact absurd rfl hsame
    rw [close, update_of_ne hsame]
    exact record_chosen hlt

theorem close_of_ne (hne : ∀ j ≤ k, places j ≠ p) : close point memory places k p = memory p := by
  rw [close, update_of_ne (hne k (le_refl k)).symm]
  exact record_of_ne fun j hj => hne j (Nat.le_of_lt hj)

theorem close_next (hdistinct : ∀ i ≤ k, ∀ j ≤ k, places i = places j → i = j) (hj : j < k) :
    close point memory places k (places j) = point (places (j + 1)) := by
  have hne : places j ≠ places k := by
    intro hsame
    have := hdistinct j hj.le k (le_refl k) hsame
    omega
  rw [close, update_of_ne hne]
  apply record_next _ hj
  intro i hi i' hi'
  exact hdistinct i hi.le i' hi'.le

theorem close_last : close point memory places k (places k) = point (places 0) := update_self _ _ _

end Facts

section Follow

variable {point : α → β} {read : β → α} {memory : α → β} {places : ℕ → α} {k : ℕ}

/-- The pointers from the first place visit different places for as long as
there are places, and then come back. -/
structure Cycle (step : α → α) (first : α) (count : ℕ) : Prop where
  distinct : ∀ i < count, ∀ j < count, step^[i] first = step^[j] first → i = j
  closed : step^[count] first = first

theorem cycle_of_distinct (hread : ∀ p, read (point p) = p)
    (hdistinct : ∀ i ≤ k, ∀ j ≤ k, places i = places j → i = j) :
    Cycle (fun p => read (close point memory places k p)) (places 0) (k + 1) := by
  have hvisits : ∀ j ≤ k,
      (fun p => read (close point memory places k p))^[j] (places 0) = places j := by
    intro j hj
    induction j with
    | zero => rfl
    | succ j ih =>
        rw [iterate_succ_apply', ih (Nat.le_of_succ_le hj), close_next hdistinct hj, hread]
  constructor
  · intro i hi j hj hsame
    rw [hvisits i (Nat.le_of_lt_succ hi), hvisits j (Nat.le_of_lt_succ hj)] at hsame
    exact hdistinct i (Nat.le_of_lt_succ hi) j (Nat.le_of_lt_succ hj) hsame
  · rw [iterate_succ_apply', hvisits k (le_refl k), close_last, hread]

/-- The pointers lead to chosen places only, so a cycle of full length has room
for no repetition. -/
theorem distinct_of_cycle (hread : ∀ p, read (point p) = p)
    (hcycle : Cycle (fun p => read (close point memory places k p)) (places 0) (k + 1)) :
    ∀ i ≤ k, ∀ j ≤ k, places i = places j → i = j := by
  have hvisits : ∀ j, ∃ i ≤ k,
      (fun p => read (close point memory places k p))^[j] (places 0) = places i := by
    intro j
    induction j with
    | zero => exact ⟨0, Nat.zero_le k, rfl⟩
    | succ j ih =>
        obtain ⟨i, hi, hvisit⟩ := ih
        have hpoints : ∃ i' ≤ k, close point memory places k (places i) = point (places i') :=
          close_chosen hi
        obtain ⟨i', hi', hclose⟩ := hpoints
        refine ⟨i', hi', ?_⟩
        rw [iterate_succ_apply', hvisit, hclose, hread]
  have hcard : (range (k + 1)).card ≤ ((range (k + 1)).image places).card := by
    apply card_le_card_of_injOn
      (fun j => (fun p => read (close point memory places k p))^[j] (places 0))
    · intro j _
      obtain ⟨i, hi, hvisit⟩ := hvisits j
      dsimp only
      rw [hvisit]
      exact mem_coe.mpr (mem_image_of_mem places (mem_range.mpr (Nat.lt_succ_of_le hi)))
    · intro i hi j hj hsame
      exact hcycle.distinct i (mem_range.mp hi) j (mem_range.mp hj) hsame
  have hinj := injOn_of_card_image_eq (le_antisymm card_image_le hcard)
  intro i hi j hj hsame
  exact hinj (mem_coe.mpr (mem_range.mpr (Nat.lt_succ_of_le hi)))
    (mem_coe.mpr (mem_range.mpr (Nat.lt_succ_of_le hj))) hsame

end Follow

end PointerTrail
