import Mathlib.Tactic
import Mathlib.Data.Finset.Card

/-!
# CPU sets of a given size

The topology keeps its sets in memory from `CPU_ALLOC` and passes the size in
bytes to every operation.  A CPU beyond the size is neither set nor found, and
an operation on two sets looks at the bytes of its size only.
-/

namespace WaycaScheduler

/-- `CPU_ALLOC_SIZE` -/
def cpuAllocSize (count : ℕ) : ℕ := (count + 63) / 64 * 8

/-- `CPU_SET_S` -/
def cpuSetS (cpu setsize : ℕ) (set : Finset ℕ) : Finset ℕ :=
  if cpu / 8 < setsize then insert cpu set else set

/-- `CPU_ISSET_S` -/
def cpuIssetS (cpu setsize : ℕ) (set : Finset ℕ) : Bool :=
  decide (cpu / 8 < setsize) && decide (cpu ∈ set)

def cpuSeen (setsize : ℕ) (set : Finset ℕ) : Finset ℕ :=
  set.filter fun cpu => cpu / 8 < setsize

/-- `CPU_COUNT_S` -/
def cpuCountS (setsize : ℕ) (set : Finset ℕ) : ℕ := (cpuSeen setsize set).card

/-- `CPU_AND_S` -/
def cpuAndS (setsize : ℕ) (first second : Finset ℕ) : Finset ℕ :=
  cpuSeen setsize (first ∩ second)

/-- `CPU_ZERO_S` -/
def cpuZeroS (setsize : ℕ) (set : Finset ℕ) : Finset ℕ :=
  set.filter fun cpu => ¬ cpu / 8 < setsize

/-- `CPU_OR_S` into a set. -/
def cpuOrS (setsize : ℕ) (target first second : Finset ℕ) : Finset ℕ :=
  cpuZeroS setsize target ∪ cpuSeen setsize (first ∪ second)

/-- `CPU_EQUAL_S` -/
def cpuEqualS (setsize : ℕ) (first second : Finset ℕ) : Bool :=
  decide (cpuSeen setsize first = cpuSeen setsize second)

variable {cpu setsize count : ℕ} {set : Finset ℕ}

theorem lt_cpuAllocSize (hcpu : cpu < count) : cpu / 8 < cpuAllocSize count := by
  unfold cpuAllocSize
  omega

theorem cpuSetS_of_lt (hcpu : cpu < 8 * setsize) (set : Finset ℕ) :
    cpuSetS cpu setsize set = insert cpu set :=
  if_pos (by omega)

theorem cpuSetS_of_fits (hcpu : cpu / 8 < setsize) (set : Finset ℕ) :
    cpuSetS cpu setsize set = insert cpu set :=
  if_pos hcpu

theorem cpuSetS_eq_union (cpu : ℕ) (set : Finset ℕ) :
    cpuSetS cpu setsize set = set ∪ ({cpu} : Finset ℕ).filter (· < 8 * setsize) := by
  rw [Finset.filter_singleton]
  split
  next hlt => rw [cpuSetS_of_lt hlt, Finset.union_comm, ← Finset.insert_eq]
  next hge =>
    rw [Finset.union_empty]
    exact if_neg (by omega)

theorem cpuIssetS_of_fits (hcpu : cpu / 8 < setsize) :
    cpuIssetS cpu setsize set = decide (cpu ∈ set) := by
  simp [cpuIssetS, hcpu]

theorem cpuSeen_copy {size : ℕ} (hsize : size ≤ setsize) (target set : Finset ℕ) :
    cpuSeen setsize (cpuOrS size (cpuZeroS setsize target) (cpuZeroS setsize target) set) =
      cpuSeen size set := by
  ext cpu
  simp only [cpuSeen, cpuOrS, cpuZeroS, Finset.mem_filter, Finset.mem_union]
  constructor
  · rintro ⟨⟨⟨-, hbeyond⟩, -⟩ | ⟨⟨-, hbeyond⟩ | hset, hseen⟩, hfits⟩
    · exact absurd hfits hbeyond
    · exact absurd hfits hbeyond
    · exact ⟨hset, hseen⟩
  · rintro ⟨hset, hseen⟩
    exact ⟨.inr ⟨.inr hset, hseen⟩, hseen.trans_le hsize⟩

theorem cpuSeen_of_fits (hset : ∀ cpu ∈ set, cpu / 8 < setsize) : cpuSeen setsize set = set :=
  Finset.filter_eq_self.mpr hset

end WaycaScheduler
