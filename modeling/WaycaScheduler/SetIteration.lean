import WaycaScheduler.BitOps
import WaycaScheduler.PlacementSearch

/-!
# Walking the words of a CPU set

`lib/group.c` and the topology code visit the CPUs of a `cpu_set_t` from
`cpuset_find_first_set` on with `cpuset_find_next_set`.  The loop is modelled
over the sixteen words of the set.  It meets the CPUs of the set in ascending
order and ends behind the last one, whichever words they are in.
-/

namespace WaycaScheduler

open BitSearch

/-- `cpu_set_t` -/
abbrev CpuSetT :=
  { words : List (BitVec BITS_PER_LONG) // words.length = CPU_SETSIZE / BITS_PER_LONG }

/-- The CPUs whose bits are set. -/
def CpuSetT.toSet (set : CpuSetT) : CpuSet where
  cpus := (Finset.range CPU_SETSIZE).filter fun cpu => bitAt set.1 cpu = true
  inRange := fun _ hcpu => Finset.mem_range.mp (Finset.mem_filter.mp hcpu).1

theorem CpuSetT.mem_toSet {set : CpuSetT} {cpu : ℕ} :
    cpu ∈ set.toSet ↔ cpu < CPU_SETSIZE ∧ bitAt set.1 cpu = true := by
  rw [← CpuSet.mem_cpus]
  unfold CpuSetT.toSet
  rw [Finset.mem_filter, Finset.mem_range]

theorem CpuSetT.holds (set : CpuSetT) : HoldsSet set.1 set.toSet where
  length := set.2
  bits := by
    intro cpu hcpu
    by_cases hbit : bitAt set.1 cpu = true
    · rw [hbit, decide_eq_true (CpuSetT.mem_toSet.mpr ⟨hcpu, hbit⟩)]
    · have hout : cpu ∉ set.toSet := fun hmem => hbit (CpuSetT.mem_toSet.mp hmem).2
      rw [decide_eq_false hout]
      exact Bool.eq_false_iff.mpr hbit

/-! ## The searches on words -/

/-- `cpuset_find_first_set`; `constant` says which path of the bit search the
compiler takes. -/
def findFirstSet (constant : Bool) (set : CpuSetT) : Option ℤ :=
  (findFirstBit constant set.1 CPU_SETSIZE).map setPosition

/-- `cpuset_find_last_set` -/
def findLastSet (constant : Bool) (set : CpuSetT) : Option ℤ :=
  (findLastBit constant set.1 CPU_SETSIZE).map setPosition

/-- `cpuset_find_next_set`, called from positions that are not negative -/
def findNextSet (constant : Bool) (set : CpuSetT) (start : ℕ) : Option ℤ :=
  (findNextBit constant set.1 CPU_SETSIZE (start + 1)).map setPosition

def visitLoop (constant : Bool) (set : CpuSetT) : ℕ → ℤ → Option (List ℕ)
  | 0, _ => none
  | fuel + 1, pos =>
      if 0 ≤ pos then
        (findNextSet constant set pos.toNat).bind fun next =>
          (visitLoop constant set fuel next).map (pos.toNat :: ·)
      else some []

def visitSet (constant : Bool) (set : CpuSetT) (fuel : ℕ) : Option (List ℕ) :=
  (findFirstSet constant set).bind (visitLoop constant set fuel)

theorem visitLoop_eq (constant : Bool) {set : CpuSetT} {before rest : List ℕ}
    (hsplit : set.toSet.ascending = before ++ rest) {fuel : ℕ} (hfuel : rest.length < fuel) :
    visitLoop constant set fuel (walkPos rest) = some rest := by
  induction rest generalizing before fuel with
  | nil =>
      cases fuel with
      | zero => exact absurd hfuel (Nat.not_lt_zero _)
      | succ fuel => simp [visitLoop, walkPos]
  | cons cpu rest ih =>
      cases fuel with
      | zero => exact absurd hfuel (Nat.not_lt_zero _)
      | succ fuel =>
          have hnext : findNextSet constant set cpu = some (walkPos rest) := by
            unfold findNextSet
            rw [cpusetFindNextSet_words set.holds, cpusetFindNextSet_eq hsplit]
          have hlater : set.toSet.ascending = (before ++ [cpu]) ++ rest := by
            rw [hsplit, List.append_assoc, List.singleton_append]
          have hrest := ih hlater (Nat.lt_of_succ_lt_succ hfuel)
          simp only [visitLoop, walkPos, Int.natCast_nonneg, if_true, Int.toNat_natCast]
          rw [hnext, Option.bind_some, hrest, Option.map_some]

theorem visitSet_eq (constant : Bool) (set : CpuSetT) {fuel : ℕ} (hfuel : CPU_SETSIZE < fuel) :
    visitSet constant set fuel = some set.toSet.ascending := by
  have hlength : set.toSet.ascending.length < fuel :=
    lt_of_le_of_lt set.toSet.ascending_length hfuel
  unfold visitSet findFirstSet
  rw [cpusetFindFirstSet_words set.holds, Option.bind_some, cpusetFindFirstSet_eq]
  exact visitLoop_eq constant (List.nil_append _).symm hlength

theorem getLast_ascending (set : CpuSet) :
    set.ascending.getLast?.elim (-1) Nat.cast = cpusetFindLastSet set := by
  by_cases hset : set.cpus.Nonempty
  · obtain ⟨high, hhigh, hlast, hmax⟩ := cpusetFindLastSet_spec hset
    have hne : set.ascending ≠ [] := List.ne_nil_of_mem (CpuSet.mem_ascending.mpr hhigh)
    have hmem : set.ascending.getLast hne ∈ set := CpuSet.mem_ascending.mp (List.getLast_mem hne)
    have hge : high ≤ set.ascending.getLast hne :=
      List.Pairwise.rel_getLast (set.ascending_sorted.imp le_of_lt) (CpuSet.mem_ascending.mpr hhigh)
    rw [List.getLast?_eq_some_getLast hne, hlast, le_antisymm (hmax _ hmem) hge]
    rfl
  · have hzero : set = cpuZero :=
      CpuSet.cpus_eq_empty.mp (Finset.not_nonempty_iff_eq_empty.mp hset)
    have hnone : cpuZero.ascending = [] := by
      apply List.eq_nil_iff_forall_not_mem.mpr
      intro cpu hcpu
      exact not_mem_cpuZero (CpuSet.mem_ascending.mp hcpu)
    rw [hzero, cpusetFindLastSet_zero, hnone]
    rfl

/-! ## The load update as a walk -/

theorem updateLoad_undone (machine : Machine) (state between : State) {t : ThreadId}
    (hcur : (between.thread t).curSet = (state.thread t).curSet) :
    ((waycaThreadUpdateLoad machine state t true).bind fun after =>
        waycaThreadUpdateLoad machine { between with loads := after.loads } t false) =
      some { between with loads := state.loads } := by
  rw [waycaThreadUpdateLoad_eq, Option.bind_some, waycaThreadUpdateLoad_eq]
  apply congrArg some
  unfold State.addLoad
  simp [hcur]

theorem updateLoad_comm (machine : Machine) (state : State) (t u : ThreadId) (add add' : Bool) :
    ((waycaThreadUpdateLoad machine state t add).bind fun after =>
        waycaThreadUpdateLoad machine after u add') =
      (waycaThreadUpdateLoad machine state u add').bind fun after =>
        waycaThreadUpdateLoad machine after t add := by
  simp only [waycaThreadUpdateLoad_eq, Option.bind_some]
  apply congrArg some
  unfold State.addLoad
  dsimp only
  congr 1
  funext cpu
  ring

/-- The walk ends, and has met the CPUs of the set, each once, in ascending
order and the highest one last.  So the load update of a thread is undone by
its opposite, and the updates of different threads commute. -/
theorem walk_meets_each_cpu_once (constant : Bool) (set : CpuSetT) (machine : Machine) :
    (∃ visited : List ℕ,
      (∀ fuel > CPU_SETSIZE, visitSet constant set fuel = some visited) ∧
        visited.Pairwise (· < ·) ∧
        (∀ cpu, cpu ∈ visited ↔ cpu < CPU_SETSIZE ∧ bitAt set.1 cpu = true) ∧
        findLastSet constant set = some (visited.getLast?.elim (-1) Nat.cast)) ∧
      (∀ (state between : State) (t : ThreadId),
        (between.thread t).curSet = (state.thread t).curSet →
          ((waycaThreadUpdateLoad machine state t true).bind fun after =>
              waycaThreadUpdateLoad machine { between with loads := after.loads } t false) =
            some { between with loads := state.loads }) ∧
      ∀ (state : State) (t u : ThreadId) (add add' : Bool), t ≠ u →
        ((waycaThreadUpdateLoad machine state t add).bind fun after =>
            waycaThreadUpdateLoad machine after u add') =
          (waycaThreadUpdateLoad machine state u add').bind fun after =>
            waycaThreadUpdateLoad machine after t add := by
  refine ⟨⟨set.toSet.ascending, ?_, set.toSet.ascending_sorted, ?_, ?_⟩, ?_, ?_⟩
  · intro fuel hfuel
    exact visitSet_eq constant set hfuel
  · intro cpu
    rw [CpuSet.mem_ascending, CpuSetT.mem_toSet]
  · unfold findLastSet
    rw [cpusetFindLastSet_words set.holds, getLast_ascending]
  · intro state between t hcur
    exact updateLoad_undone machine state between hcur
  · intro state t u add add' _
    exact updateLoad_comm machine state t u add add'

end WaycaScheduler
