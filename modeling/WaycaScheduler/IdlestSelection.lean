import WaycaScheduler.LoadLedger

/-!
# The idlest set and the idlest core

`find_idlest_set` adds up the loads of whole topology sets and starts from
`INT_MAX`, so its choice is the least one only when some sum is below that; with
the default number of thread slots every sum is.  The loads it reads are those
of CPUs of the set when the set is made of whole topology sets.
-/

namespace WaycaScheduler

open AlignedBlocks Finset Transition

variable {loads : ℕ → ℤ} {cpuset : CpuSet} {group : WaycaScGroup}

/-! ## What the search reads -/

/-- The CPUs whose loads `find_idlest_set` reads from a position on. -/
def idlestSetReadsLoop (stride : ℕ) (cpuset : CpuSet) : ℕ → ℤ → List ℕ
  | 0, _ => []
  | fuel + 1, pos =>
      if pos ≤ cpusetFindLastSet cpuset then
        if cpuIsset pos cpuset = false then
          idlestSetReadsLoop stride cpuset fuel (pos + stride)
        else
          (List.range stride).map (pos.toNat + ·) ++
            idlestSetReadsLoop stride cpuset fuel (pos + stride)
      else []

def idlestSetReads (group : WaycaScGroup) (cpuset : CpuSet) : List ℕ :=
  let stride := group.nrCpusPerTopo
  let first := cpusetFindFirstSet cpuset
  idlestSetReadsLoop stride cpuset (CPU_SETSIZE + 2) (first - first.tmod stride)

theorem findIdlestSetLoop_congr {other : ℕ → ℤ} {stride : ℕ} {fuel : ℕ} {pos : ℤ}
    (hsame : ∀ cpu ∈ idlestSetReadsLoop stride cpuset fuel pos, other cpu = loads cpu)
    (idlestPos load : ℤ) :
    findIdlestSetLoop other stride cpuset fuel pos idlestPos load =
      findIdlestSetLoop loads stride cpuset fuel pos idlestPos load := by
  induction fuel generalizing pos idlestPos load with
  | zero => rfl
  | succ fuel ih =>
      simp only [idlestSetReadsLoop] at hsame
      simp only [findIdlestSetLoop]
      by_cases hlast : pos ≤ cpusetFindLastSet cpuset
      · rw [if_pos hlast] at hsame ⊢
        rw [if_pos hlast]
        by_cases hisset : cpuIsset pos cpuset = false
        · rw [if_pos hisset] at hsame ⊢
          rw [if_pos hisset, ih hsame]
        · rw [if_neg hisset] at hsame ⊢
          rw [if_neg hisset]
          have hsum : setLoad other stride pos.toNat = setLoad loads stride pos.toNat := by
            apply sum_congr rfl
            intro i hi
            apply hsame
            apply List.mem_append_left
            exact List.mem_map_of_mem (List.mem_range.mpr (mem_range.mp hi))
          have hlater : ∀ cpu ∈ idlestSetReadsLoop stride cpuset fuel (pos + stride),
              other cpu = loads cpu :=
            fun cpu hcpu => hsame cpu (List.mem_append_right _ hcpu)
          rw [hsum, ih hlater, ih hlater]
      · rw [if_neg hlast, if_neg hlast]

theorem findIdlestSet_congr {other : ℕ → ℤ}
    (hsame : ∀ cpu ∈ idlestSetReads group cpuset, other cpu = loads cpu) :
    findIdlestSet other group cpuset = findIdlestSet loads group cpuset := by
  unfold findIdlestSet
  dsimp only
  rw [findIdlestSetLoop_congr hsame]

theorem mem_idlestSetReadsLoop {stride : ℕ} {fuel : ℕ} {pos : ℤ} {cpu : ℕ}
    (hcpu : cpu ∈ idlestSetReadsLoop stride cpuset fuel pos) :
    ∃ p, Ahead stride cpuset pos p ∧ p ≤ cpu ∧ cpu < p + stride := by
  induction fuel generalizing pos with
  | zero => cases hcpu
  | succ fuel ih =>
      simp only [idlestSetReadsLoop] at hcpu
      split at hcpu
      next =>
        have hlater : cpu ∈ idlestSetReadsLoop stride cpuset fuel (pos + stride) →
            ∃ p, Ahead stride cpuset pos p ∧ p ≤ cpu ∧ cpu < p + stride := by
          intro hin
          obtain ⟨p, hahead, hbounds⟩ := ih hin
          exact ⟨p, hahead.of_later, hbounds⟩
        split at hcpu
        next => exact hlater hcpu
        next hisset =>
          rcases List.mem_append.mp hcpu with hhere | hin
          · obtain ⟨p, rfl, hmem⟩ := cpuIsset_iff.mp (by simpa using hisset)
            obtain ⟨i, hi, rfl⟩ := List.mem_map.mp hhere
            have hlt := List.mem_range.mp hi
            rw [Int.toNat_natCast]
            exact ⟨p, ⟨hmem, 0, by simp⟩, by omega, by omega⟩
          · exact hlater hin
      next => cases hcpu

theorem idlestSetReads_subset (hlevel : 0 < group.nrCpusPerTopo) (hset : cpuset.cpus.Nonempty)
    (hwhole : WholeBlocks group.nrCpusPerTopo cpuset.cpus) {cpu : ℕ}
    (hcpu : cpu ∈ idlestSetReads group cpuset) : cpu ∈ cpuset := by
  obtain ⟨low, -, hfirst, -⟩ := cpusetFindFirstSet_spec hset
  unfold idlestSetReads at hcpu
  dsimp only at hcpu
  rw [hfirst, firstPos_eq] at hcpu
  obtain ⟨p, ⟨hmem, i, hi⟩, hle, hlt⟩ := mem_idlestSetReadsLoop hcpu
  have hindex : p = (low / group.nrCpusPerTopo + i) * group.nrCpusPerTopo := by
    have hcast : (p : ℤ) = ((low / group.nrCpusPerTopo + i) * group.nrCpusPerTopo : ℕ) := by
      rw [hi]
      push_cast
      ring
    exact_mod_cast hcast
  have hown : p / group.nrCpusPerTopo * group.nrCpusPerTopo = p := by
    rw [hindex, Nat.mul_div_cancel _ hlevel]
  apply hwhole p hmem
  rw [mem_block, hown]
  exact ⟨hle, hlt⟩

/-! ## The sums of the loads -/

/-- `DEFAULT_WAYCA_SC_THREADS_NUM` of `lib/threads.c` -/
def DEFAULT_WAYCA_SC_THREADS_NUM : ℕ := 32760

variable {machine : Machine} {state : State}

theorem sum_threadLoad_le (machine : Machine) (curSet : CpuSet) (cells : Finset ℕ) :
    ∑ c ∈ cells, threadLoad machine curSet c ≤ machine.cpusInTotal + CPU_SETSIZE := by
  have hcount : cpuCount curSet ≤ CPU_SETSIZE := by
    have hlength := curSet.ascending_length
    unfold CpuSet.ascending at hlength
    rwa [length_sort] at hlength
  have hround : cpuCount curSet * divRoundUp machine.cpusInTotal (cpuCount curSet) ≤
      machine.cpusInTotal + CPU_SETSIZE := by
    have hle := Nat.mul_div_le (machine.cpusInTotal + cpuCount curSet - 1) (cpuCount curSet)
    unfold divRoundUp
    omega
  calc
    ∑ c ∈ cells, threadLoad machine curSet c =
        ∑ c ∈ cells.filter (· ∈ curSet),
          (divRoundUp machine.cpusInTotal (cpuCount curSet) : ℤ) := by
          rw [sum_filter]
          rfl
    _ ≤ ∑ c ∈ curSet.cpus, (divRoundUp machine.cpusInTotal (cpuCount curSet) : ℤ) := by
          apply sum_le_sum_of_subset_of_nonneg
          · intro c hc
            exact (mem_filter.mp hc).2
          · intro c _ _
            exact Int.natCast_nonneg _
    _ = (cpuCount curSet * divRoundUp machine.cpusInTotal (cpuCount curSet) : ℕ) := by
          rw [sum_const, nsmul_eq_mul]
          push_cast
          rfl
    _ ≤ machine.cpusInTotal + CPU_SETSIZE := by exact_mod_cast hround

theorem Ledger.setLoad_lt
    (hledger : Ledger machine state) (htotal : machine.cpusInTotal ≤ CPU_SETSIZE)
    (hlive : (liveThreads machine state).card ≤ DEFAULT_WAYCA_SC_THREADS_NUM)
    (stride pos : ℕ) : setLoad state.loads stride pos < INT_MAX := by
  have hthread : ∀ t ∈ liveThreads machine state,
      ∑ i ∈ range stride, threadLoad machine (state.thread t).curSet (pos + i) ≤ 2048 := by
    intro t _
    have hsum := sum_threadLoad_le machine (state.thread t).curSet
      ((range stride).map (addLeftEmbedding pos))
    rw [sum_map] at hsum
    have hsize : (CPU_SETSIZE : ℤ) = 1024 := rfl
    have htotal : (machine.cpusInTotal : ℤ) ≤ CPU_SETSIZE := by exact_mod_cast htotal
    calc
      _ ≤ (machine.cpusInTotal : ℤ) + CPU_SETSIZE := hsum
      _ ≤ 2048 := by omega
  have hlive : ((liveThreads machine state).card : ℤ) ≤ 32760 := by exact_mod_cast hlive
  calc
    setLoad state.loads stride pos =
        ∑ t ∈ liveThreads machine state,
          ∑ i ∈ range stride, threadLoad machine (state.thread t).curSet (pos + i) := by
          unfold setLoad
          rw [sum_comm]
          exact sum_congr rfl fun i _ => hledger (pos + i)
    _ ≤ ∑ _t ∈ liveThreads machine state, 2048 := sum_le_sum hthread
    _ = (liveThreads machine state).card * 2048 := by
          rw [sum_const, nsmul_eq_mul]
    _ < INT_MAX := by
          unfold INT_MAX
          omega

/-- The first among the blocks with the least load. -/
structure IdlestBlock (loads : ℕ → ℤ) (size : ℕ) (indices : Finset ℕ) (index : ℕ) : Prop where
  mem : index ∈ indices
  least : ∀ q ∈ indices, ∑ c ∈ block size index, loads c ≤ ∑ c ∈ block size q, loads c
  first : ∀ q ∈ indices, q < index → ∑ c ∈ block size index, loads c < ∑ c ∈ block size q, loads c

theorem setLoad_block (loads : ℕ → ℤ) (size index : ℕ) :
    setLoad loads size (index * size) = ∑ c ∈ block size index, loads c := by
  unfold setLoad block
  rw [sum_Ico_eq_sum_range, Nat.add_sub_cancel_left]

theorem findIdlestSet_idlest {indices : Finset ℕ} (hlevel : 0 < group.nrCpusPerTopo)
    (hset : cpuset.cpus.Nonempty)
    (hblocks : cpuset.cpus = indices.biUnion (block group.nrCpusPerTopo))
    (hsums : ∀ q ∈ indices, ∑ c ∈ block group.nrCpusPerTopo q, loads c < INT_MAX) :
    ∃ index chosen, findIdlestSet loads group cpuset = some chosen ∧
      chosen.cpus = block group.nrCpusPerTopo index ∧
      IdlestBlock loads group.nrCpusPerTopo indices index := by
  have hwhole : WholeBlocks group.nrCpusPerTopo cpuset.cpus := hblocks ▸ wholeBlocks_biUnion hlevel
  have hstart : ∀ q, q * group.nrCpusPerTopo ∈ cpuset ↔ q ∈ indices := by
    intro q
    rw [← CpuSet.mem_cpus, hblocks, mem_biUnion_block hlevel, Nat.mul_div_cancel _ hlevel]
  obtain ⟨low, hlow, -, index, hresult, hcases⟩ := findIdlestSet_spec loads rfl hlevel hset
  simp only [hstart, setLoad_block] at hcases
  have hlowIndex : low / group.nrCpusPerTopo ∈ indices := by
    rw [← CpuSet.mem_cpus, hblocks, mem_biUnion_block hlevel] at hlow
    exact hlow
  rcases hcases with ⟨rfl, hall⟩ | ⟨hindex, hall⟩
  · exact absurd (hall _ hlowIndex) (not_le.mpr (hsums _ hlowIndex))
  · have hmem : index * group.nrCpusPerTopo ∈ cpuset := (hstart index).mpr hindex
    have hend : index * group.nrCpusPerTopo + group.nrCpusPerTopo ≤ CPU_SETSIZE := by
      have hle := block_end_le hlevel hwhole hmem
      rwa [Nat.mul_div_cancel _ hlevel] at hle
    refine ⟨index, _, hresult, cpuSetRange_block hend, hindex, ?_, ?_⟩
    · exact fun q hq => (hall q hq).1
    · exact fun q hq => (hall q hq).2

/-- In a set of whole topology sets whose sums are below `INT_MAX` the search
ends with the one of least load, the lowest of equals, and reads loads of CPUs
below the bound only; the idlest core is the lowest CPU of least load of any
set; and with the default number of thread slots every sum is below
`INT_MAX`. -/
theorem idlest_choices_least
    {loads : ℕ → ℤ} {group : WaycaScGroup} {cpuset : CpuSet} {indices : Finset ℕ} {N : ℕ}
    (hset : cpuset.cpus.Nonempty)
    (hblocks : cpuset.cpus = indices.biUnion (block group.nrCpusPerTopo))
    (hbelow : ∀ cpu ∈ cpuset, cpu < N)
    (hsums : ∀ q ∈ indices, ∑ c ∈ block group.nrCpusPerTopo q, loads c < INT_MAX) :
    (∃ index chosen, findIdlestSet loads group cpuset = some chosen ∧
        chosen.cpus = block group.nrCpusPerTopo index ∧
        IdlestBlock loads group.nrCpusPerTopo indices index) ∧
      (∀ cpu ∈ idlestSetReads group cpuset, cpu < N) ∧
      (∀ other : ℕ → ℤ, (∀ cpu < N, other cpu = loads cpu) →
        findIdlestSet other group cpuset = findIdlestSet loads group cpuset) ∧
      (∀ any : CpuSet, any.cpus.Nonempty →
        ∃ c ∈ any, findIdlestCore loads any = some (c : ℤ) ∧
          ∀ d ∈ any, loads c ≤ loads d ∧ (d < c → loads c < loads d)) ∧
      ∀ (machine : Machine) (state : State), machine.cpusInTotal ≤ CPU_SETSIZE →
        machine.threadsArraySize ≤ DEFAULT_WAYCA_SC_THREADS_NUM →
        Reaches machine (fun _ call => call.keepsLedger = true) state →
        ∀ size q, ∑ c ∈ block size q, state.loads c < INT_MAX := by
  have hlevel : 0 < group.nrCpusPerTopo := by
    obtain ⟨cpu, hcpu⟩ := hset
    rw [hblocks] at hcpu
    obtain ⟨q, -, hin⟩ := Finset.mem_biUnion.mp hcpu
    have := mem_block.mp hin
    omega
  have hwhole : WholeBlocks group.nrCpusPerTopo cpuset.cpus :=
    hblocks ▸ wholeBlocks_biUnion hlevel
  have hreads : ∀ cpu ∈ idlestSetReads group cpuset, cpu < N :=
    fun cpu hcpu => hbelow cpu (idlestSetReads_subset hlevel hset hwhole hcpu)
  refine ⟨findIdlestSet_idlest hlevel hset hblocks hsums, hreads, ?_, ?_, ?_⟩
  · intro other hsame
    exact findIdlestSet_congr fun cpu hcpu => hsame cpu (hreads cpu hcpu)
  · intro any hany
    exact findIdlestCore_spec loads hany
  · intro machine state htotal hslots hreach size q
    have hlive : (liveThreads machine state).card ≤ DEFAULT_WAYCA_SC_THREADS_NUM := by
      have hcard := Finset.card_filter_le (range machine.threadsArraySize)
        (LiveThread machine state)
      rw [card_range] at hcard
      exact hcard.trans hslots
    rw [← setLoad_block]
    exact (ledger_of_reaches hreach).2.setLoad_lt htotal hlive size _

/-- Two topology sets of two CPUs, of which the second is idle. -/
theorem idlest_choices_least_pair :
    ∃ index chosen,
      findIdlestSet (fun c => if c < 2 then 4 else 0)
          { WaycaScGroup.zeroed with nrCpusPerTopo := 2 } (cpuSetRange 0 4 cpuZero) =
        some chosen ∧ chosen.cpus = block 2 index ∧
      IdlestBlock (fun c => if c < 2 then 4 else 0) 2 {0, 1} index := by
  have hblocks : (cpuSetRange 0 4 cpuZero).cpus = ({0, 1} : Finset ℕ).biUnion (block 2) := by
    decide
  have hbelow : ∀ cpu ∈ cpuSetRange 0 4 cpuZero, cpu < 4 := by
    intro cpu hcpu
    rw [← CpuSet.mem_cpus, hblocks] at hcpu
    revert cpu
    decide
  have hset : (cpuSetRange 0 4 cpuZero).cpus.Nonempty := by
    rw [hblocks]
    exact ⟨0, by decide⟩
  have hsums : ∀ q ∈ ({0, 1} : Finset ℕ),
      ∑ c ∈ block 2 q, (if c < 2 then 4 else 0 : ℤ) < INT_MAX := by
    decide
  exact (@idlest_choices_least (fun c => if c < 2 then 4 else 0)
    { WaycaScGroup.zeroed with nrCpusPerTopo := 2 } _ _ 4 hset hblocks hbelow hsums).1

end WaycaScheduler
