import WaycaScheduler.LevelOrder

/-!
# Uniform machines

The CPUs are numbered from zero without a gap, and the sizes of the topology
levels that exist divide one another and the number of CPUs.  Every level a
group can have then cuts all CPUs into whole topology sets.
-/

namespace WaycaScheduler

open AlignedBlocks

/-- The sizes of the levels between the single CPU and the whole machine; a
level that does not exist has a negative size. -/
def levelSizes (machine : Machine) : List ℤ :=
  [machine.cpusInCcl, machine.cpusInNode, machine.cpusInPackage]

/-- The sizes of the levels divide each other and the number of the CPUs. -/
structure UniformMachine (machine : Machine) : Prop where
  cpus_le : machine.cpusInTotal ≤ CPU_SETSIZE
  size_dvd : ∀ size ∈ levelSizes machine, 0 ≤ size →
    0 < size ∧ size ∣ (machine.cpusInTotal : ℤ)
  size_chain : ∀ first ∈ levelSizes machine, ∀ second ∈ levelSizes machine,
    0 ≤ first → 0 ≤ second → first ∣ second ∨ second ∣ first

variable {machine : Machine} {attr wanted : Attr} {level : ℕ}

theorem arrangedLevel_sizes (hlevel : arrangedLevel machine wanted = some (attr, level)) :
    level = 1 ∨ level = machine.cpusInTotal ∨ (level : ℤ) ∈ levelSizes machine := by
  obtain ⟨cpus, hcpus, hpair⟩ := Option.map_eq_some_iff.mp hlevel
  split at hpair
  next => exact .inl (Prod.mk.inj hpair).2.symm
  next hnonneg =>
    obtain ⟨-, rfl⟩ := Prod.mk.inj hpair
    have hcast : ((cpus.toNat : ℕ) : ℤ) = cpus := Int.toNat_of_nonneg (by omega)
    rw [hcast]
    unfold topoCpus at hcpus
    dsimp only at hcpus
    split_ifs at hcpus <;> cases hcpus <;> simp [levelSizes]

namespace UniformMachine

section

variable (huniform : UniformMachine machine)
  (hlevel : arrangedLevel machine wanted = some (attr, level))

include huniform hlevel

theorem level_pos : 0 < level := by
  rcases arrangedLevel_sizes hlevel with rfl | rfl | hsize
  · exact Nat.one_pos
  · exact machine.cpusInTotal_pos
  · exact_mod_cast (huniform.size_dvd level hsize (by positivity)).1

theorem level_dvd :
    level ∣ machine.cpusInTotal := by
  rcases arrangedLevel_sizes hlevel with rfl | rfl | hsize
  · exact one_dvd _
  · exact dvd_rfl
  · exact_mod_cast (huniform.size_dvd level hsize (by positivity)).2

theorem level_dvd_of_lt {otherWanted otherAttr : Attr} {other : ℕ}
    (hother : arrangedLevel machine otherWanted = some (otherAttr, other)) (hlt : level < other) :
    level ∣ other := by
  rcases arrangedLevel_sizes hlevel with rfl | rfl | hsize
  · exact one_dvd _
  · have hle := Nat.le_of_dvd machine.cpusInTotal_pos (huniform.level_dvd hother)
    omega
  · rcases arrangedLevel_sizes hother with rfl | rfl | hotherSize
    · have hpos := huniform.level_pos hlevel
      omega
    · exact huniform.level_dvd hlevel
    · rcases huniform.size_chain level hsize other hotherSize (by positivity)
        (by positivity) with hdvd | hdvd
      · exact_mod_cast hdvd
      · have hdvdNat : other ∣ level := by exact_mod_cast hdvd
        have hle := Nat.le_of_dvd (huniform.level_pos hlevel) hdvdNat
        omega

end

theorem totalCpuSet_cpus (huniform : UniformMachine machine) :
    (totalCpuSet machine).cpus = Finset.range machine.cpusInTotal := by
  ext cpu
  rw [CpuSet.mem_cpus, totalCpuSet, mem_cpuSetRange, Finset.mem_range]
  have hle := huniform.cpus_le
  constructor
  · rintro (hmem | ⟨-, hlt, -⟩)
    · exact absurd hmem not_mem_cpuZero
    · omega
  · exact fun hlt => .inr ⟨by omega, by omega, by omega⟩

theorem zero_mem_total (huniform : UniformMachine machine) : 0 ∈ totalCpuSet machine := by
  change 0 ∈ (totalCpuSet machine).cpus
  rw [huniform.totalCpuSet_cpus]
  exact Finset.mem_range.mpr machine.cpusInTotal_pos

theorem total_whole (huniform : UniformMachine machine)
    (hlevel : arrangedLevel machine wanted = some (attr, level)) :
    WholeBlocks level (totalCpuSet machine).cpus := by
  rw [huniform.totalCpuSet_cpus]
  exact wholeBlocks_range (huniform.level_pos hlevel) (huniform.level_dvd hlevel)

end UniformMachine

theorem smallMachine_uniform : UniformMachine smallMachine := by
  refine ⟨by decide, ?_, ?_⟩
  · decide
  · decide

end WaycaScheduler
