import Mathlib.Algebra.BigOperators.Group.Finset.Basic
import Mathlib.Algebra.Order.BigOperators.Group.Finset
import Mathlib.Data.Finset.Card
import Mathlib.Data.Nat.Cast.Order.Ring
import Mathlib.Order.Interval.Finset.Nat
import Mathlib.Tactic

/-!
# Sets made of whole aligned blocks

The numbers are cut into blocks of a fixed size, the block with index `b`
being `[b * size, b * size + size)`.  A finite set of numbers is made of
whole blocks when it contains the block of each of its members.
-/

namespace AlignedBlocks

open Finset

variable {indices : Finset ℕ}

def block (size index : ℕ) : Finset ℕ :=
  Finset.Ico (index * size) (index * size + size)

/-- A set that has all of a block or nothing of it. -/
def WholeBlocks (size : ℕ) (cells : Finset ℕ) : Prop :=
  ∀ cell ∈ cells, block size (cell / size) ⊆ cells

instance (size : ℕ) (cells : Finset ℕ) : Decidable (WholeBlocks size cells) :=
  inferInstanceAs (Decidable (∀ cell ∈ cells, _))

variable {size index cell other : ℕ} {cells extra : Finset ℕ}

theorem mem_block : cell ∈ block size index ↔ index * size ≤ cell ∧ cell < index * size + size := by
  simp [block]

theorem mem_block_iff_div (hsize : 0 < size) :
    cell ∈ block size index ↔ cell / size = index := by
  rw [mem_block, Nat.div_eq_iff hsize]
  omega

theorem mem_own_block (hsize : 0 < size) : cell ∈ block size (cell / size) :=
  (mem_block_iff_div hsize).mpr rfl

@[simp] theorem block_card : (block size index).card = size := by
  simp [block]

theorem block_nonempty (hsize : 0 < size) (index : ℕ) : (block size index).Nonempty := by
  rw [← card_pos, block_card]
  exact hsize

theorem WholeBlocks.mem_of_div_eq (hwhole : WholeBlocks size cells) (hsize : 0 < size)
    (hmem : cell ∈ cells) (hsame : other / size = cell / size) : other ∈ cells :=
  hwhole cell hmem ((mem_block_iff_div hsize).mpr hsame)

theorem wholeBlocks_empty : WholeBlocks size ∅ := by
  intro cell hmem
  simp at hmem

theorem wholeBlocks_block (hsize : 0 < size) : WholeBlocks size (block size index) := by
  intro cell hmem
  rw [(mem_block_iff_div hsize).mp hmem]

theorem wholeBlocks_Ico (hsize : 0 < size) (first count : ℕ) :
    WholeBlocks size (Finset.Ico (first * size) ((first + count) * size)) := by
  intro cell hmem other hother
  rw [mem_Ico] at hmem ⊢
  have hindex := (mem_block_iff_div hsize).mp hother
  have hlow : first ≤ cell / size := (Nat.le_div_iff_mul_le hsize).mpr hmem.1
  have hhigh : cell / size < first + count := (Nat.div_lt_iff_lt_mul hsize).mpr hmem.2
  rw [← hindex] at hlow hhigh
  exact ⟨(Nat.le_div_iff_mul_le hsize).mp hlow, (Nat.div_lt_iff_lt_mul hsize).mp hhigh⟩

theorem wholeBlocks_range (hsize : 0 < size) {bound : ℕ} (hdvd : size ∣ bound) :
    WholeBlocks size (range bound) := by
  obtain ⟨count, rfl⟩ := hdvd
  have hwhole := wholeBlocks_Ico hsize 0 count
  rwa [Nat.zero_mul, Nat.zero_add, Nat.mul_comm, ← range_eq_Ico] at hwhole

theorem WholeBlocks.union (hcells : WholeBlocks size cells) (hextra : WholeBlocks size extra) :
    WholeBlocks size (cells ∪ extra) := by
  intro cell hmem
  rcases mem_union.mp hmem with hleft | hright
  · exact (hcells cell hleft).trans subset_union_left
  · exact (hextra cell hright).trans subset_union_right

theorem WholeBlocks.sdiff
    (hsize : 0 < size) (hcells : WholeBlocks size cells) (hextra : WholeBlocks size extra) :
    WholeBlocks size (cells \ extra) := by
  intro cell hmem other hother
  obtain ⟨hin, hout⟩ := mem_sdiff.mp hmem
  have hsame := (mem_block_iff_div hsize).mp hother
  refine mem_sdiff.mpr ⟨hcells cell hin hother, ?_⟩
  intro hbad
  exact hout (hextra.mem_of_div_eq hsize hbad hsame.symm)

theorem WholeBlocks.disjoint_block
    (hwhole : WholeBlocks size cells) (hsize : 0 < size) (hcell : cell ∉ cells) :
    Disjoint cells (block size (cell / size)) := by
  rw [disjoint_left]
  intro other hother hblock
  apply hcell
  apply hwhole other hother
  rw [(mem_block_iff_div hsize).mp hblock]
  exact mem_own_block hsize

theorem WholeBlocks.of_dvd {large : ℕ} (hsize : 0 < size) (hlarge : 0 < large) (hdvd : size ∣ large)
    (hwhole : WholeBlocks large cells) : WholeBlocks size cells := by
  intro cell hmem other hother
  obtain ⟨factor, rfl⟩ := hdvd
  have hsame := (mem_block_iff_div hsize).mp hother
  refine hwhole.mem_of_div_eq hlarge hmem ?_
  rw [← Nat.div_div_eq_div_mul, ← Nat.div_div_eq_div_mul, hsame]

def blockIndices (size : ℕ) (cells : Finset ℕ) : Finset ℕ :=
  cells.image (· / size)

theorem mem_blockIndices : index ∈ blockIndices size cells ↔
    ∃ cell ∈ cells, cell / size = index := by
  simp [blockIndices]

section

variable (hwhole : WholeBlocks size cells) (hsize : 0 < size)

include hwhole hsize

theorem WholeBlocks.filter_div_eq (hindex : index ∈ blockIndices size cells) :
    cells.filter (· / size = index) = block size index := by
  obtain ⟨cell, hmem, rfl⟩ := mem_blockIndices.mp hindex
  ext x
  rw [mem_filter, mem_block_iff_div hsize]
  constructor
  · exact fun h => h.2
  · exact fun h => ⟨hwhole.mem_of_div_eq hsize hmem h, h⟩

theorem WholeBlocks.card_eq : cells.card = (blockIndices size cells).card * size := by
  rw [card_eq_sum_card_image (· / size) cells]
  calc
    (∑ index ∈ cells.image (· / size), (cells.filter (· / size = index)).card) =
        ∑ _index ∈ cells.image (· / size), size := by
          apply sum_congr rfl
          intro index hindex
          rw [hwhole.filter_div_eq hsize hindex, block_card]
    _ = (blockIndices size cells).card * size := by
          simp [blockIndices]

theorem WholeBlocks.dvd_card : size ∣ cells.card := by
  rw [hwhole.card_eq hsize]
  exact Nat.dvd_mul_left _ _

end

theorem exists_partial_of_not_wholeBlocks (hnot : ¬ WholeBlocks size cells) :
    ∃ cell ∈ cells, ¬ block size (cell / size) ⊆ cells := by
  by_contra hall
  apply hnot
  intro cell hmem
  by_contra hblock
  exact hall ⟨cell, hmem, hblock⟩

/-! ## Sets given by the indices of their blocks -/

theorem mem_biUnion_block (hsize : 0 < size) :
    cell ∈ indices.biUnion (block size) ↔ cell / size ∈ indices := by
  simp [mem_block_iff_div hsize]

theorem wholeBlocks_biUnion (hsize : 0 < size) :
    WholeBlocks size (indices.biUnion (block size)) := by
  intro cell hmem
  obtain ⟨index, hindex, hcell⟩ := mem_biUnion.mp hmem
  rw [(mem_block_iff_div hsize).mp hcell]
  exact subset_biUnion_of_mem (block size) hindex

theorem blockIndices_biUnion (hsize : 0 < size) :
    blockIndices size (indices.biUnion (block size)) = indices := by
  ext index
  rw [mem_blockIndices]
  constructor
  · rintro ⟨cell, hmem, rfl⟩
    obtain ⟨other, hother, hcell⟩ := mem_biUnion.mp hmem
    rwa [(mem_block_iff_div hsize).mp hcell]
  · intro hindex
    obtain ⟨cell, hcell⟩ := block_nonempty hsize index
    exact ⟨cell, mem_biUnion.mpr ⟨index, hindex, hcell⟩, (mem_block_iff_div hsize).mp hcell⟩

@[simp] theorem blockIndices_empty : blockIndices size ∅ = ∅ := rfl

theorem blockIndices_union : blockIndices size (cells ∪ extra) =
    blockIndices size cells ∪ blockIndices size extra :=
  image_union _ _

theorem blockIndices_block (hsize : 0 < size) :
    blockIndices size (block size index) = {index} := by
  ext other
  rw [mem_blockIndices, mem_singleton]
  constructor
  · rintro ⟨cell, hcell, rfl⟩
    exact (mem_block_iff_div hsize).mp hcell
  · rintro rfl
    obtain ⟨cell, hcell⟩ := block_nonempty hsize other
    exact ⟨cell, hcell, (mem_block_iff_div hsize).mp hcell⟩

theorem WholeBlocks.eq_iff_blockIndices_eq
    (hsize : 0 < size) (hcells : WholeBlocks size cells) (hextra : WholeBlocks size extra) :
    cells = extra ↔ blockIndices size cells = blockIndices size extra := by
  constructor
  · exact fun h => by rw [h]
  · intro hindices
    have hsubset : ∀ {first second : Finset ℕ}, WholeBlocks size second →
        blockIndices size first = blockIndices size second → first ⊆ second := by
      intro first second hsecond hsame cell hcell
      have hindex : cell / size ∈ blockIndices size second := by
        rw [← hsame]
        exact mem_blockIndices.mpr ⟨cell, hcell, rfl⟩
      obtain ⟨other, hother, hdiv⟩ := mem_blockIndices.mp hindex
      exact hsecond.mem_of_div_eq hsize hother hdiv.symm
    exact Finset.Subset.antisymm (hsubset hextra hindices) (hsubset hcells hindices.symm)

theorem WholeBlocks.mem_iff_blockIndices (hsize : 0 < size) (hcells : WholeBlocks size cells) :
    cell ∈ cells ↔ cell / size ∈ blockIndices size cells := by
  constructor
  · exact fun h => mem_blockIndices.mpr ⟨cell, h, rfl⟩
  · intro hindex
    obtain ⟨other, hother, hdiv⟩ := mem_blockIndices.mp hindex
    exact hcells.mem_of_div_eq hsize hother hdiv.symm

/-! ## Blocks that are partly in a set -/

def Partly (size : ℕ) (cells : Finset ℕ) (index : ℕ) : Prop :=
  (block size index ∩ cells).Nonempty ∧ ¬ block size index ⊆ cells

theorem not_partly_empty : ¬ Partly size ∅ index := by
  rintro ⟨⟨cell, hcell⟩, -⟩
  simp at hcell

theorem partly_sdiff (hblock : block size index ⊆ cells) :
    Partly size (cells \ extra) index ↔ Partly size extra index := by
  have hmeets : (block size index ∩ (cells \ extra)).Nonempty ↔ ¬ block size index ⊆ extra := by
    rw [not_subset]
    constructor
    · rintro ⟨cell, hcell⟩
      rw [mem_inter, mem_sdiff] at hcell
      exact ⟨cell, hcell.1, hcell.2.2⟩
    · rintro ⟨cell, hcell, hout⟩
      exact ⟨cell, mem_inter.mpr ⟨hcell, mem_sdiff.mpr ⟨hblock hcell, hout⟩⟩⟩
  have hcontains : block size index ⊆ cells \ extra ↔ ¬ (block size index ∩ extra).Nonempty := by
    rw [not_nonempty_iff_eq_empty, subset_sdiff, ← disjoint_iff_inter_eq_empty]
    exact and_iff_right hblock
  unfold Partly
  rw [hmeets, hcontains, not_not, and_comm]

/-- A set that is partly in one block at most, and whose size is a multiple of
the block size, is made of whole blocks. -/
theorem wholeBlocks_of_dvd_card (hsize : 0 < size)
    (hone : ∀ first second, Partly size cells first → Partly size cells second → first = second)
    (hdvd : size ∣ cells.card) : WholeBlocks size cells := by
  intro cell hcell
  by_contra hnot
  have hindex : Partly size cells (cell / size) :=
    ⟨⟨cell, mem_inter.mpr ⟨mem_own_block hsize, hcell⟩⟩, hnot⟩
  have hrest : WholeBlocks size (cells \ block size (cell / size)) := by
    intro other hother x hx
    obtain ⟨hin, hout⟩ := mem_sdiff.mp hother
    have hne : other / size ≠ cell / size := fun h => hout ((mem_block_iff_div hsize).mpr h)
    have hwhole : block size (other / size) ⊆ cells := by
      by_contra hpartial
      exact hne (hone _ _ ⟨⟨other, mem_inter.mpr ⟨mem_own_block hsize, hin⟩⟩, hpartial⟩ hindex)
    refine mem_sdiff.mpr ⟨hwhole hx, ?_⟩
    intro hsame
    exact hne (((mem_block_iff_div hsize).mp hx).symm.trans ((mem_block_iff_div hsize).mp hsame))
  have hsplit : (cells ∩ block size (cell / size)).card +
      (cells \ block size (cell / size)).card = cells.card :=
    card_inter_add_card_sdiff _ _
  have hdvdInter : size ∣ (cells ∩ block size (cell / size)).card := by
    rw [← Nat.dvd_add_left (hrest.dvd_card hsize), hsplit]
    exact hdvd
  have hpos : 0 < (cells ∩ block size (cell / size)).card :=
    card_pos.mpr ⟨cell, mem_inter.mpr ⟨hcell, mem_own_block hsize⟩⟩
  have hle := Nat.le_of_dvd hpos hdvdInter
  have hall : cells ∩ block size (cell / size) = block size (cell / size) :=
    eq_of_subset_of_card_le inter_subset_right (by rwa [block_card])
  exact hnot (inter_eq_right.mp hall)

theorem partly_insert_of_ne (hsize : 0 < size) (hne : index ≠ cell / size) :
    Partly size (insert cell cells) index ↔ Partly size cells index := by
  have hout : cell ∉ block size index := fun h => hne ((mem_block_iff_div hsize).mp h).symm
  unfold Partly
  rw [inter_insert_of_notMem hout, subset_insert_iff_of_notMem hout]

end AlignedBlocks
