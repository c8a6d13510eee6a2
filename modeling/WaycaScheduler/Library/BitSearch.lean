import Mathlib.Tactic

/-!
# Searches for a bit

The position of the first or the last set bit below a size, and the size where
there is none.  The bits of an array of words are numbered through from the
lowest bit of the first word.
-/

namespace BitSearch

variable {bits other : ℕ → Bool} {start size result : ℕ}

/-- The first set bit from `start` on, or `size`. -/
structure FindsLeast (bits : ℕ → Bool) (start size result : ℕ) : Prop where
  le : result ≤ size
  found : result < size → start ≤ result ∧ bits result = true
  least : ∀ i, start ≤ i → i < result → bits i = false

/-- The last set bit, or `size`. -/
structure FindsGreatest (bits : ℕ → Bool) (size result : ℕ) : Prop where
  le : result ≤ size
  found : result < size → bits result = true
  greatest : ∀ i < size, bits i = true → result < size ∧ i ≤ result

theorem FindsLeast.unique {second : ℕ} (hfirst : FindsLeast bits start size result)
    (hsecond : FindsLeast bits start size second) : result = second := by
  have hnot : ∀ {low high : ℕ}, FindsLeast bits start size low →
      FindsLeast bits start size high → ¬ low < high := by
    intro low high hlow hhigh hlt
    obtain ⟨hle, hset⟩ := hlow.found (lt_of_lt_of_le hlt hhigh.le)
    rw [hhigh.least low hle hlt] at hset
    cases hset
  exact le_antisymm (not_lt.mp (hnot hsecond hfirst)) (not_lt.mp (hnot hfirst hsecond))

theorem FindsGreatest.unique {second : ℕ} (hfirst : FindsGreatest bits size result)
    (hsecond : FindsGreatest bits size second) : result = second := by
  have hle := hfirst.le
  have hle' := hsecond.le
  by_cases hlt : result < size
  · obtain ⟨hlt', hge⟩ := hsecond.greatest result hlt (hfirst.found hlt)
    exact le_antisymm hge (hfirst.greatest second hlt' (hsecond.found hlt')).2
  · by_cases hlt' : second < size
    · exact absurd (hfirst.greatest second hlt' (hsecond.found hlt')).1 hlt
    · omega

theorem FindsLeast.congr (hfinds : FindsLeast bits start size result)
    (hsame : ∀ i < size, other i = bits i) : FindsLeast other start size result where
  le := hfinds.le
  found := fun hlt => ⟨(hfinds.found hlt).1, (hsame result hlt).trans (hfinds.found hlt).2⟩
  least := fun i hstart hi =>
    (hsame i (lt_of_lt_of_le hi hfinds.le)).trans (hfinds.least i hstart hi)

theorem FindsGreatest.congr (hfinds : FindsGreatest bits size result)
    (hsame : ∀ i < size, other i = bits i) : FindsGreatest other size result where
  le := hfinds.le
  found := fun hlt => (hsame result hlt).trans (hfinds.found hlt)
  greatest := fun i hi hset => hfinds.greatest i hi ((hsame i hi).symm.trans hset)

theorem findsLeast_none (hnone : ∀ i, start ≤ i → i < size → bits i = false) :
    FindsLeast bits start size size :=
  ⟨le_refl size, fun hlt => absurd hlt (lt_irrefl size), hnone⟩

theorem findsLeast_min {pos : ℕ} (hstart : start ≤ pos) (hset : bits pos = true)
    (hnone : ∀ i, start ≤ i → i < pos → bits i = false) :
    FindsLeast bits start size (min pos size) := by
  rcases le_total pos size with hle | hle
  · rw [min_eq_left hle]
    exact ⟨hle, fun _ => ⟨hstart, hset⟩, hnone⟩
  · rw [min_eq_right hle]
    exact findsLeast_none fun i hi hlt => hnone i hi (lt_of_lt_of_le hlt hle)

theorem findsGreatest_none (hnone : ∀ i < size, bits i = false) :
    FindsGreatest bits size size := by
  refine ⟨le_refl size, fun hlt => absurd hlt (lt_irrefl size), ?_⟩
  intro i hi hset
  rw [hnone i hi] at hset
  cases hset

theorem findsGreatest_of {pos : ℕ} (hlt : pos < size) (hset : bits pos = true)
    (hnone : ∀ i < size, pos < i → bits i = false) : FindsGreatest bits size pos := by
  refine ⟨hlt.le, fun _ => hset, ?_⟩
  intro i hi hbit
  refine ⟨hlt, ?_⟩
  by_contra hgt
  rw [hnone i hi (not_le.mp hgt)] at hbit
  cases hbit

section Words

variable {w : ℕ} {word : BitVec w}

def bitAt (words : List (BitVec w)) (i : ℕ) : Bool :=
  (words[i / w]?).any fun word => word.getLsbD (i % w)

theorem bitAt_word {words : List (BitVec w)} {k j : ℕ} (hword : words[k]? = some word)
    (hj : j < w) : bitAt words (w * k + j) = word.getLsbD j := by
  unfold bitAt
  have hindex : (w * k + j) / w = k := by
    rw [Nat.mul_add_div (by omega), Nat.div_eq_of_lt hj, Nat.add_zero]
  have hbit : (w * k + j) % w = j := by
    rw [Nat.mul_add_mod, Nat.mod_eq_of_lt hj]
  rw [hindex, hbit, hword, Option.any_some]

theorem eq_zero_of_bits (hnone : ∀ j < w, word.getLsbD j = false) : word = 0 := by
  apply BitVec.eq_of_getLsbD_eq
  intro j hj
  rw [hnone j hj]
  exact BitVec.getLsbD_zero.symm

theorem getLsbD_of_eq_zero (hzero : word = 0) (j : ℕ) : word.getLsbD j = false := by
  rw [hzero]
  exact BitVec.getLsbD_zero

theorem ctz_spec (hword : word ≠ 0) :
    word.ctz.toNat < w ∧ word.getLsbD word.ctz.toNat = true ∧
      ∀ j < word.ctz.toNat, word.getLsbD j = false := by
  have hset := BitVec.getLsbD_true_ctz_of_ne_zero hword
  exact ⟨BitVec.lt_of_getLsbD hset, hset, fun j hj => BitVec.getLsbD_false_of_lt_ctz hj⟩

theorem clz_spec (hword : word ≠ 0) :
    w - 1 - word.clz.toNat < w ∧ word.getLsbD (w - 1 - word.clz.toNat) = true ∧
      ∀ j, w - 1 - word.clz.toNat < j → word.getLsbD j = false := by
  have hpos : 0 < w := by
    by_contra hzero
    apply hword
    apply eq_zero_of_bits
    intro j hj
    omega
  refine ⟨by omega, BitVec.getLsbD_true_clz_of_ne_zero hpos hword, ?_⟩
  intro j hj
  have hlt : word.toNat < 2 ^ j := by
    apply lt_of_lt_of_le BitVec.toNat_lt_two_pow_sub_clz
    apply Nat.pow_le_pow_right (by decide)
    omega
  exact Nat.testBit_lt_two_pow hlt

end Words

end BitSearch
