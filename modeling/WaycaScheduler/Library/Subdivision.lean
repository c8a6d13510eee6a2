import Mathlib.Algebra.BigOperators.Group.Finset.Basic
import Mathlib.Algebra.Order.BigOperators.Group.Finset
import Mathlib.Data.Finset.Card
import Mathlib.Tactic

/-!
# Classes that are subdivided evenly

Two labellings of a finite set, where the finer one determines the coarser one
and every coarse class has the same number of fine classes.  The numbers of
classes then divide, and subdivisions compose.
-/

namespace Subdivision

open Finset

variable {α β γ δ : Type*} [DecidableEq β] [DecidableEq γ] [DecidableEq δ]
  {set : Finset α} {fine : α → β} {middle : α → γ} {coarse : α → δ} {parts many : ℕ}

/-- Every coarse class has the same number of fine ones. -/
structure Subdivides (set : Finset α) (fine : α → β) (coarse : α → δ) (parts : ℕ) : Prop where
  refines : ∀ first ∈ set, ∀ second ∈ set, fine first = fine second →
    coarse first = coarse second
  card : ∀ element ∈ set,
    ((set.filter fun other => coarse other = coarse element).image fine).card = parts

theorem Subdivides.card_image (hsub : Subdivides set fine coarse parts) :
    (set.image fine).card = (set.image coarse).card * parts := by
  have hcover : set.image fine = (set.image coarse).biUnion fun label =>
      (set.filter fun other => coarse other = label).image fine := by
    ext value
    simp only [mem_image, mem_biUnion, mem_filter]
    constructor
    · rintro ⟨element, helement, rfl⟩
      exact ⟨coarse element, ⟨element, helement, rfl⟩, element, ⟨helement, rfl⟩, rfl⟩
    · rintro ⟨-, -, element, ⟨helement, -⟩, rfl⟩
      exact ⟨element, helement, rfl⟩
  have hdisjoint : ∀ label ∈ set.image coarse, ∀ other ∈ set.image coarse, label ≠ other →
      Disjoint ((set.filter fun element => coarse element = label).image fine)
        ((set.filter fun element => coarse element = other).image fine) := by
    intro label _ other _ hne
    rw [disjoint_left]
    intro value hvalue hagain
    obtain ⟨first, hfirst, rfl⟩ := mem_image.mp hvalue
    obtain ⟨second, hsecond, hsame⟩ := mem_image.mp hagain
    rw [mem_filter] at hfirst hsecond
    apply hne
    rw [← hfirst.2, ← hsecond.2]
    exact (hsub.refines second hsecond.1 first hfirst.1 hsame).symm
  rw [hcover, card_biUnion hdisjoint]
  apply sum_const_nat
  intro label hlabel
  obtain ⟨element, helement, rfl⟩ := mem_image.mp hlabel
  exact hsub.card element helement

theorem Subdivides.within (hsub : Subdivides set fine middle parts)
    (hrefines : ∀ first ∈ set, ∀ second ∈ set, middle first = middle second →
      coarse first = coarse second) (label : δ) :
    Subdivides (set.filter fun element => coarse element = label) fine middle parts := by
  constructor
  · intro first hfirst second hsecond
    exact hsub.refines first (mem_filter.mp hfirst).1 second (mem_filter.mp hsecond).1
  · intro element helement
    obtain ⟨hmem, hlabel⟩ := mem_filter.mp helement
    rw [← hsub.card element hmem, filter_filter]
    congr 2
    ext other
    simp only [mem_filter]
    constructor
    · rintro ⟨hother, -, hsame⟩
      exact ⟨hother, hsame⟩
    · rintro ⟨hother, hsame⟩
      exact ⟨hother, (hrefines other hother element hmem hsame).trans hlabel, hsame⟩

theorem Subdivides.trans (hfirst : Subdivides set fine middle parts)
    (hsecond : Subdivides set middle coarse many) :
    Subdivides set fine coarse (many * parts) := by
  constructor
  · intro first hmem second hother hsame
    exact hsecond.refines first hmem second hother (hfirst.refines first hmem second hother hsame)
  · intro element helement
    rw [(hfirst.within hsecond.refines (coarse element)).card_image, hsecond.card element helement]

/-! ## Classes against the largest one -/

/-- There are at most as many classes as the largest one goes into the set exactly
when all of them are of that size. -/
theorem card_image_le_div_iff {largest : ℕ} (hlargest : 0 < largest)
    (hle : ∀ label ∈ set.image fine, (set.filter fun element => fine element = label).card ≤
      largest) :
    (set.image fine).card ≤ set.card / largest ↔
      ∀ label ∈ set.image fine, (set.filter fun element => fine element = label).card =
        largest := by
  have hsum : set.card = ∑ label ∈ set.image fine,
      (set.filter fun element => fine element = label).card :=
    card_eq_sum_card_image fine set
  have hwhole : (set.image fine).card * largest = ∑ _label ∈ set.image fine, largest := by
    rw [sum_const, smul_eq_mul]
  have hbound := sum_le_sum hle
  rw [Nat.le_div_iff_mul_le hlargest, ← sum_eq_sum_iff_of_le hle, ← hsum, ← hwhole]
  rw [← hsum, ← hwhole] at hbound
  exact ⟨fun hless => le_antisymm hbound hless, fun heq => heq.ge⟩

end Subdivision
