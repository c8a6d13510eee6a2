import Mathlib.Algebra.BigOperators.Group.Finset.Basic
import Mathlib.Algebra.Order.BigOperators.Group.Finset
import Mathlib.Tactic

/-!
# Counting what parties have sent and taken

Parties exchange tokens that are all alike.  What is known of them is how many
each party has sent or taken at the place where it is, and the totals of that
over all parties.
-/

namespace TokenCount

open Function Finset

variable {ι β : Type*} {parties : Finset ι} {count other : β → ℕ}
  {place : ι → β} {i : ι} {after : β}

def total (parties : Finset ι) (count : β → ℕ) (place : ι → β) : ℕ :=
  ∑ i ∈ parties, count (place i)

theorem total_update [DecidableEq ι] (count : β → ℕ) (place : ι → β) (after : β)
    (hi : i ∈ parties) :
    total parties count (update place i after) + count (place i) =
      total parties count place + count after := by
  unfold total
  rw [← add_sum_erase parties _ hi, ← add_sum_erase parties _ hi, update_self]
  have hrest : ∑ x ∈ parties.erase i, count (update place i after x) =
      ∑ x ∈ parties.erase i, count (place x) := by
    apply sum_congr rfl
    intro x hx
    rw [update_of_ne (ne_of_mem_erase hx)]
  rw [hrest]
  ring

theorem total_update_same [DecidableEq ι] (hsame : count after = count (place i)) :
    total parties count (update place i after) = total parties count place := by
  apply sum_congr rfl
  intro x _
  by_cases hx : x = i
  · rw [hx, update_self, hsame]
  · rw [update_of_ne hx]

theorem total_le_card (hone : ∀ x, count x ≤ 1) : total parties count place ≤ parties.card := by
  have hle := sum_le_card_nsmul parties (fun i => count (place i)) 1
    fun i _ => hone (place i)
  rwa [smul_eq_mul, mul_one] at hle

theorem total_mono (hle : ∀ x, count x ≤ other x) :
    total parties count place ≤ total parties other place :=
  sum_le_sum fun i _ => hle (place i)

theorem eq_one_of_total [DecidableEq ι] (hone : ∀ x, count x ≤ 1)
    (hall : parties.card ≤ total parties count place) (hi : i ∈ parties) :
    count (place i) = 1 := by
  have hrest : ∑ x ∈ parties.erase i, count (place x) ≤ parties.card - 1 := by
    rw [← card_erase_of_mem hi]
    exact total_le_card hone
  have hsplit := add_sum_erase parties (fun x => count (place x)) hi
  have hcard : 0 < parties.card := card_pos.mpr ⟨i, hi⟩
  have hle := hone (place i)
  unfold total at hall
  omega

theorem count_le_total (count : β → ℕ) (place : ι → β) (hi : i ∈ parties) :
    count (place i) ≤ total parties count place :=
  single_le_sum (fun x _ => Nat.zero_le (count (place x))) hi

end TokenCount
