import WaycaScheduler.Library.AlignedBlocks
import Mathlib.Data.Finset.Max
import Mathlib.Data.Finset.Sort

/-!
# CPU sets

`cpu_set_t` is a bit map of `CPU_SETSIZE` bits.  The model is the finite set
of the numbers of its set bits.  The macros test the range of the CPU number
they are given; a negative number is outside because it is converted to an
unsigned one.
-/

namespace WaycaScheduler

open AlignedBlocks Finset

variable {set : CpuSet} {cpu : ℕ}

def CPU_SETSIZE : ℕ := 1024

/-- A `cpu_set_t` as the set of its CPU numbers. -/
@[ext] structure CpuSet where
  cpus : Finset ℕ
  inRange : ∀ cpu ∈ cpus, cpu < CPU_SETSIZE

instance : DecidableEq CpuSet := fun first second =>
  decidable_of_iff (first.cpus = second.cpus) CpuSet.ext_iff.symm

instance : Membership ℕ CpuSet := ⟨fun set cpu => cpu ∈ set.cpus⟩

instance (cpu : ℕ) (set : CpuSet) : Decidable (cpu ∈ set) :=
  inferInstanceAs (Decidable (cpu ∈ set.cpus))

@[simp] theorem CpuSet.mem_cpus :
    cpu ∈ set.cpus ↔ cpu ∈ set := Iff.rfl

theorem CpuSet.lt_of_mem (hmem : cpu ∈ set) :
    cpu < CPU_SETSIZE := set.inRange cpu hmem

theorem CpuSet.ext_mem {first second : CpuSet}
    (hsame : ∀ cpu, cpu ∈ first ↔ cpu ∈ second) : first = second :=
  CpuSet.ext (ext hsame)

/-! ## The macros of `sched.h` -/

def cpuZero : CpuSet := ⟨∅, by simp⟩

/-- `memset(&set, -1, sizeof(cpu_set_t))` -/
def cpuAll : CpuSet := ⟨range CPU_SETSIZE, by simp⟩

def cpuSet (cpu : ℤ) (set : CpuSet) : CpuSet :=
  if h : 0 ≤ cpu ∧ cpu < CPU_SETSIZE then
    ⟨insert cpu.toNat set.cpus, by
      intro c hc
      rcases mem_insert.mp hc with rfl | hc
      · omega
      · exact set.inRange c hc⟩
  else set

def cpuClr (cpu : ℕ) (set : CpuSet) : CpuSet :=
  ⟨set.cpus.erase cpu, fun c hc => set.inRange c (Finset.mem_of_mem_erase hc)⟩

def cpuIsset (cpu : ℤ) (set : CpuSet) : Bool :=
  decide (0 ≤ cpu ∧ cpu.toNat ∈ set)

def cpuAnd (first second : CpuSet) : CpuSet :=
  ⟨first.cpus ∩ second.cpus, fun c hc => first.inRange c (Finset.mem_of_mem_inter_left hc)⟩

def cpuOr (first second : CpuSet) : CpuSet :=
  ⟨first.cpus ∪ second.cpus, by
    intro c hc
    rcases mem_union.mp hc with hc | hc
    · exact first.inRange c hc
    · exact second.inRange c hc⟩

def cpuXor (first second : CpuSet) : CpuSet :=
  ⟨(second.cpus \ first.cpus) ∪ (first.cpus \ second.cpus), by
    intro c hc
    rcases mem_union.mp hc with hc | hc
    · exact second.inRange c (mem_sdiff.mp hc).1
    · exact first.inRange c (mem_sdiff.mp hc).1⟩

def cpuCount (set : CpuSet) : ℕ := set.cpus.card

/-- `for (num = start; num < start + count; num++) CPU_SET(num, set)` -/
def cpuSetRange (start : ℤ) : ℕ → CpuSet → CpuSet
  | 0, set => set
  | count + 1, set => cpuSetRange (start + 1) count (cpuSet start set)

/-! ## The searches of `bitops.h` -/

/-- The number of the lowest set bit of a set of bits, or `-1`. -/
def lowestOr (bits : Finset ℕ) : ℤ :=
  if h : bits.Nonempty then bits.min' h else -1

def cpusetFindFirstSet (set : CpuSet) : ℤ := lowestOr set.cpus

def cpusetFindLastSet (set : CpuSet) : ℤ :=
  if h : set.cpus.Nonempty then set.cpus.max' h else -1

def cpusetFindNextSet (set : CpuSet) (start : ℤ) : ℤ :=
  lowestOr (set.cpus.filter fun cpu => start < cpu)

/-! ## Membership in the result of each macro -/

section Membership

variable {set first second : CpuSet} {cpu : ℕ}

@[simp] theorem not_mem_cpuZero : cpu ∉ cpuZero := notMem_empty cpu

@[simp] theorem mem_cpuAll : cpu ∈ cpuAll ↔ cpu < CPU_SETSIZE := mem_range

theorem mem_cpuSet {pos : ℤ} : cpu ∈ cpuSet pos set ↔
    cpu ∈ set ∨ ((cpu : ℤ) = pos ∧ cpu < CPU_SETSIZE) := by
  unfold cpuSet
  split
  next hrange =>
    change cpu ∈ insert pos.toNat set.cpus ↔ _
    rw [mem_insert, CpuSet.mem_cpus, or_comm]
    constructor
    · rintro (h | h)
      · exact .inl h
      · exact .inr ⟨by omega, by omega⟩
    · rintro (h | ⟨h, -⟩)
      · exact .inl h
      · exact .inr (by omega)
  next hout =>
    constructor
    · exact .inl
    · rintro (h | ⟨h, hlt⟩)
      · exact h
      · exact absurd ⟨by omega, by omega⟩ hout

@[simp] theorem mem_cpuAnd : cpu ∈ cpuAnd first second ↔ cpu ∈ first ∧ cpu ∈ second := mem_inter

@[simp] theorem mem_cpuXor : cpu ∈ cpuXor first second ↔
    (cpu ∈ second ∧ cpu ∉ first) ∨ (cpu ∈ first ∧ cpu ∉ second) := by
  change cpu ∈ (second.cpus \ first.cpus) ∪ (first.cpus \ second.cpus) ↔ _
  simp

theorem cpuIsset_iff {pos : ℤ} :
    cpuIsset pos set = true ↔ ∃ cpu : ℕ, pos = cpu ∧ cpu ∈ set := by
  simp only [cpuIsset, decide_eq_true_eq]
  constructor
  · rintro ⟨hpos, hmem⟩
    exact ⟨pos.toNat, by omega, hmem⟩
  · rintro ⟨cpu, rfl, hmem⟩
    exact ⟨by omega, by simpa using hmem⟩

@[simp] theorem cpuIsset_natCast : cpuIsset (cpu : ℤ) set = true ↔ cpu ∈ set := by
  rw [cpuIsset_iff]
  constructor
  · rintro ⟨other, hsame, hmem⟩
    have heq : cpu = other := by exact_mod_cast hsame
    exact heq ▸ hmem
  · exact fun hmem => ⟨cpu, rfl, hmem⟩

theorem mem_cpuSetRange {start : ℤ} {count : ℕ} : cpu ∈ cpuSetRange start count set ↔
    cpu ∈ set ∨ (start ≤ cpu ∧ (cpu : ℤ) < start + count ∧ cpu < CPU_SETSIZE) := by
  induction count generalizing start set with
  | zero =>
      simp only [cpuSetRange]
      constructor
      · exact .inl
      · rintro (h | ⟨h, hlt, -⟩)
        · exact h
        · omega
  | succ count ih =>
      simp only [cpuSetRange]
      rw [ih, mem_cpuSet]
      push_cast
      constructor
      · rintro ((h | ⟨h, hlt⟩) | ⟨h, hlt, hsize⟩)
        · exact .inl h
        · exact .inr ⟨by omega, by omega, hlt⟩
        · exact .inr ⟨by omega, by omega, hsize⟩
      · rintro (h | ⟨h, hlt, hsize⟩)
        · exact .inl (.inl h)
        · by_cases heq : (cpu : ℤ) = start
          · exact .inl (.inr ⟨heq, hsize⟩)
          · exact .inr ⟨by omega, by omega, hsize⟩

end Membership

@[simp] theorem cpuZero_cpus : cpuZero.cpus = ∅ := rfl

@[simp] theorem cpuOr_cpus (first second : CpuSet) :
    (cpuOr first second).cpus = first.cpus ∪ second.cpus := rfl

@[simp] theorem cpuClr_cpus (cpu : ℕ) (set : CpuSet) :
    (cpuClr cpu set).cpus = set.cpus.erase cpu := rfl

theorem cpuSet_cpus (hlt : cpu < CPU_SETSIZE) (set : CpuSet) :
    (cpuSet cpu set).cpus = insert cpu set.cpus := by
  ext c
  rw [CpuSet.mem_cpus, mem_cpuSet, mem_insert, CpuSet.mem_cpus]
  constructor
  · rintro (h | ⟨h, -⟩)
    · exact .inr h
    · exact .inl (by exact_mod_cast h)
  · rintro (rfl | h)
    · exact .inr ⟨rfl, hlt⟩
    · exact .inl h

theorem cpuSet_of_neg {cpu : ℤ} (hneg : cpu < 0) (set : CpuSet) : cpuSet cpu set = set := by
  unfold cpuSet
  rw [dif_neg]
  omega

theorem cpuSetRange_cpus {start count : ℕ} (hend : start + count ≤ CPU_SETSIZE) :
    (cpuSetRange start count cpuZero).cpus = Finset.Ico start (start + count) := by
  ext cpu
  rw [CpuSet.mem_cpus, mem_cpuSetRange, mem_Ico]
  constructor
  · rintro (h | ⟨h, hlt, -⟩)
    · exact absurd h not_mem_cpuZero
    · omega
  · rintro ⟨h, hlt⟩
    exact .inr ⟨by omega, by omega, by omega⟩

theorem cpuCount_eq_zero : cpuCount set = 0 ↔ set = cpuZero := by
  unfold cpuCount
  rw [card_eq_zero]
  constructor
  · exact fun h => CpuSet.ext h
  · exact fun h => congrArg CpuSet.cpus h

theorem CpuSet.cpus_eq_empty : set.cpus = ∅ ↔ set = cpuZero := by
  rw [← card_eq_zero]
  exact cpuCount_eq_zero

/-! ## What the searches find -/

theorem lowestOr_of_nonempty {bits : Finset ℕ} (hbits : bits.Nonempty) :
    ∃ low ∈ bits, lowestOr bits = low ∧ ∀ bit ∈ bits, low ≤ bit := by
  refine ⟨bits.min' hbits, bits.min'_mem hbits, ?_, ?_⟩
  · simp [lowestOr, hbits]
  · exact fun bit hbit => bits.min'_le bit hbit

@[simp] theorem lowestOr_empty : lowestOr ∅ = -1 := by
  simp [lowestOr]

theorem cpusetFindFirstSet_zero : cpusetFindFirstSet cpuZero = -1 := by
  simp [cpusetFindFirstSet]

theorem cpusetFindLastSet_zero : cpusetFindLastSet cpuZero = -1 := by
  simp [cpusetFindLastSet]

theorem cpusetFindFirstSet_spec (hset : set.cpus.Nonempty) :
    ∃ low ∈ set, cpusetFindFirstSet set = (low : ℕ) ∧ ∀ cpu ∈ set, low ≤ cpu :=
  lowestOr_of_nonempty hset

theorem cpusetFindLastSet_spec (hset : set.cpus.Nonempty) :
    ∃ high ∈ set, cpusetFindLastSet set = (high : ℕ) ∧ ∀ cpu ∈ set, cpu ≤ high := by
  refine ⟨set.cpus.max' hset, set.cpus.max'_mem hset, ?_, ?_⟩
  · simp [cpusetFindLastSet, hset]
  · exact fun cpu hcpu => set.cpus.le_max' cpu hcpu

theorem le_cpusetFindLastSet (hmem : cpu ∈ set) :
    (cpu : ℤ) ≤ cpusetFindLastSet set := by
  obtain ⟨high, -, hlast, hhigh⟩ := cpusetFindLastSet_spec ⟨cpu, hmem⟩
  rw [hlast]
  exact_mod_cast hhigh cpu hmem

theorem cpusetFindLastSet_lt (set : CpuSet) : cpusetFindLastSet set < CPU_SETSIZE := by
  by_cases hset : set.cpus.Nonempty
  · obtain ⟨high, hmem, hlast, -⟩ := cpusetFindLastSet_spec hset
    rw [hlast]
    exact_mod_cast CpuSet.lt_of_mem hmem
  · rw [cpusetFindLastSet, dif_neg hset]
    simp [CPU_SETSIZE]

/-! ## Walking a set from its first to its last CPU -/

def walkPos : List ℕ → ℤ
  | [] => -1
  | cpu :: _ => cpu

/-- The CPUs of a set in the order in which a walk meets them. -/
def CpuSet.ascending (set : CpuSet) : List ℕ := set.cpus.sort

theorem CpuSet.mem_ascending :
    cpu ∈ set.ascending ↔ cpu ∈ set := mem_sort _

theorem CpuSet.ascending_nodup (set : CpuSet) : set.ascending.Nodup := sort_nodup _ _

theorem CpuSet.ascending_length (set : CpuSet) :
    set.ascending.length ≤ CPU_SETSIZE := by
  unfold CpuSet.ascending
  rw [length_sort]
  calc
    set.cpus.card ≤ (range CPU_SETSIZE).card := by
      apply card_le_card
      intro cpu hmem
      exact mem_range.mpr (set.inRange cpu hmem)
    _ = CPU_SETSIZE := card_range _

theorem lowestOr_eq_walkPos {bits : Finset ℕ} {rest : List ℕ}
    (hmem : ∀ bit, bit ∈ bits ↔ bit ∈ rest) (hsorted : rest.Pairwise (· < ·)) :
    lowestOr bits = walkPos rest := by
  cases rest with
  | nil =>
      have hempty : bits = ∅ := by
        ext bit
        simp [hmem bit]
      simp [hempty, walkPos]
  | cons first rest =>
      have hfirst : first ∈ bits := (hmem first).mpr (by simp)
      obtain ⟨low, hlow, heq, hmin⟩ := lowestOr_of_nonempty ⟨first, hfirst⟩
      have hle := hmin first hfirst
      have hge : first ≤ low := by
        rcases List.mem_cons.mp ((hmem low).mp hlow) with rfl | htail
        · exact le_rfl
        · exact ((List.pairwise_cons.mp hsorted).1 low htail).le
      rw [heq, walkPos]
      exact_mod_cast le_antisymm hle hge

theorem CpuSet.ascending_sorted (set : CpuSet) : set.ascending.Pairwise (· < ·) :=
  (sortedLT_sort set.cpus).pairwise

theorem cpusetFindFirstSet_eq (set : CpuSet) :
    cpusetFindFirstSet set = walkPos set.ascending := by
  apply lowestOr_eq_walkPos
  · exact fun bit => CpuSet.mem_ascending.symm
  · exact set.ascending_sorted

theorem cpusetFindNextSet_eq {before rest : List ℕ}
    (hsplit : set.ascending = before ++ cpu :: rest) :
    cpusetFindNextSet set cpu = walkPos rest := by
  have hsorted := set.ascending_sorted
  rw [hsplit, List.pairwise_append] at hsorted
  obtain ⟨-, htail, hcross⟩ := hsorted
  obtain ⟨hafter, hrest⟩ := List.pairwise_cons.mp htail
  apply lowestOr_eq_walkPos ?_ hrest
  intro bit
  rw [mem_filter, CpuSet.mem_cpus, ← CpuSet.mem_ascending, hsplit]
  simp only [List.mem_append, List.mem_cons, Nat.cast_lt]
  constructor
  · rintro ⟨hbefore | rfl | hin, hlt⟩
    · have := hcross bit hbefore cpu (by simp)
      omega
    · omega
    · exact hin
  · exact fun hin => ⟨.inr (.inr hin), hafter bit hin⟩

end WaycaScheduler
