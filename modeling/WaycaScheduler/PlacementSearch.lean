import WaycaScheduler.Placement

/-!
# What the load update and the searches compute

Each loop of the placement code is given its result in closed form: the load
update adds one amount on every CPU of the thread, the idlest core and the
idlest topology set are least and lowest-numbered, and the incomplete set is
found whenever the number of available CPUs is not a multiple of the level
size.  None of the statements restricts the loads.
-/

namespace WaycaScheduler

open AlignedBlocks Finset

variable {fuel cpu stride p : ℕ} {cpuset : CpuSet} {pos : ℤ} {group : WaycaScGroup}

/-! ## The load update -/

theorem updateLoadLoop_eq {curSet : CpuSet} {before rest : List ℕ}
    (hsplit : curSet.ascending = before ++ rest) (load : ℤ) (hfuel : rest.length < fuel)
    (loads : ℕ → ℤ) :
    updateLoadLoop curSet load fuel (walkPos rest) loads =
      some fun c => loads c + if c ∈ rest then load else 0 := by
  induction rest generalizing before fuel loads with
  | nil =>
      cases fuel with
      | zero => simp at hfuel
      | succ fuel => simp [updateLoadLoop, walkPos]
  | cons cpu rest ih =>
      have hnodup := curSet.ascending_nodup
      rw [hsplit] at hnodup
      have hcpu : cpu ∉ rest := (List.nodup_cons.mp (List.nodup_append.mp hnodup).2.1).1
      cases fuel with
      | zero => simp at hfuel
      | succ fuel =>
          have hnext := cpusetFindNextSet_eq hsplit
          have hrest : curSet.ascending = (before ++ [cpu]) ++ rest := by simp [hsplit]
          have hrec := ih hrest (by simpa using hfuel)
            (Function.update loads cpu (loads cpu + load))
          simp only [updateLoadLoop, walkPos, Int.natCast_nonneg, if_true, Int.toNat_natCast]
          rw [hnext, hrec]
          congr 1
          funext c
          by_cases hc : c = cpu
          · subst c
            simp [hcpu]
          · simp [hc]

/-- What a thread on the set adds to the load of the CPU. -/
def threadLoad (machine : Machine) (curSet : CpuSet) (cpu : ℕ) : ℤ :=
  if cpu ∈ curSet then divRoundUp machine.cpusInTotal (cpuCount curSet) else 0

theorem threadLoad_of_not_mem {machine : Machine} {curSet : CpuSet} (hout : cpu ∉ curSet) :
    threadLoad machine curSet cpu = 0 := if_neg hout

def State.addLoad (machine : Machine) (state : State) (sign : ℤ) (t : ThreadId) : State :=
  { state with
    loads := fun c => state.loads c + sign * threadLoad machine (state.thread t).curSet c }

theorem waycaThreadUpdateLoad_eq (machine : Machine) (state : State) (t : ThreadId) (add : Bool) :
    waycaThreadUpdateLoad machine state t add =
      some (state.addLoad machine (if add then 1 else -1) t) := by
  unfold waycaThreadUpdateLoad State.addLoad
  dsimp only
  split
  next hzero =>
    have hempty := cpuCount_eq_zero.mp hzero
    have hnone : ∀ c, threadLoad machine (state.thread t).curSet c = 0 := by
      intro c
      exact threadLoad_of_not_mem (by simp [hempty])
    simp [hnone]
  next hcount =>
    have hloop := updateLoadLoop_eq
      (List.nil_append (state.thread t).curSet.ascending).symm
      (if add then (divRoundUp machine.cpusInTotal (cpuCount (state.thread t).curSet) : ℤ)
        else -divRoundUp machine.cpusInTotal (cpuCount (state.thread t).curSet))
      (Nat.lt_succ_of_le (CpuSet.ascending_length _)) state.loads
    rw [cpusetFindFirstSet_eq, hloop]
    simp only [Option.map_some, Option.some.injEq, State.mk.injEq, true_and, and_true]
    funext c
    simp only [CpuSet.mem_ascending]
    by_cases hmem : c ∈ (state.thread t).curSet
    · cases add <;> simp [threadLoad, hmem]
    · simp [threadLoad, hmem]

section

variable (machine : Machine) (state : State) (sign : ℤ) (t : ThreadId)

include machine state sign t

@[simp] theorem State.addLoad_thread : (state.addLoad machine sign t).thread = state.thread := rfl

@[simp] theorem State.addLoad_group : (state.addLoad machine sign t).group = state.group := rfl

@[simp] theorem State.addLoad_threadsArray :
    (state.addLoad machine sign t).threadsArray = state.threadsArray := rfl

@[simp] theorem State.addLoad_asserts :
    (state.addLoad machine sign t).asserts = state.asserts := rfl

@[simp] theorem State.addLoad_threadLinks :
    (state.addLoad machine sign t).threadLinks = state.threadLinks := rfl

end

/-! ## The idlest core -/

theorem findIdlestCoreLoop_spec (loads : ℕ → ℤ) {cpuset : CpuSet} {before rest : List ℕ}
    (hsplit : cpuset.ascending = before ++ rest)
    {fuel : ℕ} (hfuel : rest.length < fuel) (idlestCore load : ℤ) :
    ∃ core, findIdlestCoreLoop loads cpuset fuel (walkPos rest) idlestCore load = some core ∧
      ((core = idlestCore ∧ ∀ d ∈ rest, load ≤ loads d) ∨
        ∃ c ∈ rest, core = (c : ℕ) ∧ loads c < load ∧
          ∀ d ∈ rest, loads c ≤ loads d ∧ (d < c → loads c < loads d)) := by
  induction rest generalizing before fuel idlestCore load with
  | nil =>
      cases fuel with
      | zero => simp at hfuel
      | succ fuel =>
          refine ⟨idlestCore, ?_, .inl ⟨rfl, by simp⟩⟩
          simp [findIdlestCoreLoop, walkPos]
  | cons cpu rest ih =>
      have hmem : cpu ∈ cpuset := by
        rw [← CpuSet.mem_ascending, hsplit]
        simp
      have hsorted := cpuset.ascending_sorted
      rw [hsplit, List.pairwise_append] at hsorted
      have hafter : ∀ d ∈ rest, cpu < d := (List.pairwise_cons.mp hsorted.2.1).1
      have hlast := le_cpusetFindLastSet hmem
      cases fuel with
      | zero => simp at hfuel
      | succ fuel =>
          have hnext := cpusetFindNextSet_eq hsplit
          have hrest : cpuset.ascending = (before ++ [cpu]) ++ rest := by simp [hsplit]
          have hfuelRest : rest.length < fuel := by simpa using hfuel
          simp only [findIdlestCoreLoop, walkPos, hlast, Int.natCast_nonneg, and_self, if_true,
            Int.toNat_natCast, hnext]
          by_cases hless : loads cpu < load
          · rw [if_pos hless]
            obtain ⟨core, hcore, hcases⟩ := ih hrest hfuelRest (cpu : ℤ) (loads cpu)
            refine ⟨core, hcore, .inr ?_⟩
            rcases hcases with ⟨rfl, hall⟩ | ⟨c, hc, rfl, hlt, hall⟩
            · refine ⟨cpu, by simp, rfl, hless, ?_⟩
              intro d hd
              rcases List.mem_cons.mp hd with rfl | hd
              · exact ⟨le_rfl, fun h => absurd h (lt_irrefl _)⟩
              · have := hafter d hd
                exact ⟨hall d hd, fun h => by omega⟩
            · refine ⟨c, by simp [hc], rfl, hlt.trans hless, ?_⟩
              intro d hd
              rcases List.mem_cons.mp hd with rfl | hd
              · exact ⟨hlt.le, fun _ => hlt⟩
              · exact hall d hd
          · rw [if_neg hless]
            obtain ⟨core, hcore, hcases⟩ := ih hrest hfuelRest idlestCore load
            refine ⟨core, hcore, ?_⟩
            rcases hcases with ⟨rfl, hall⟩ | ⟨c, hc, rfl, hlt, hall⟩
            · refine .inl ⟨rfl, ?_⟩
              intro d hd
              rcases List.mem_cons.mp hd with rfl | hd
              · omega
              · exact hall d hd
            · refine .inr ⟨c, by simp [hc], rfl, hlt, ?_⟩
              intro d hd
              rcases List.mem_cons.mp hd with rfl | hd
              · exact ⟨by omega, fun _ => by omega⟩
              · exact hall d hd

theorem findIdlestCore_spec (loads : ℕ → ℤ) (hset : cpuset.cpus.Nonempty) :
    ∃ c ∈ cpuset, findIdlestCore loads cpuset = some ((c : ℕ) : ℤ) ∧
      ∀ d ∈ cpuset, loads c ≤ loads d ∧ (d < c → loads c < loads d) := by
  obtain ⟨low, hlow, hfirst, hmin⟩ := cpusetFindFirstSet_spec hset
  obtain ⟨core, hcore, hcases⟩ := findIdlestCoreLoop_spec
    loads (List.nil_append cpuset.ascending).symm
    (Nat.lt_succ_of_le cpuset.ascending_length) (low : ℤ) (loads low)
  rw [← cpusetFindFirstSet_eq] at hcore
  have hresult : findIdlestCore loads cpuset = some core := by
    unfold findIdlestCore
    rw [hfirst] at hcore ⊢
    simpa using hcore
  rcases hcases with ⟨rfl, hall⟩ | ⟨c, hc, rfl, -, hall⟩
  · refine ⟨low, hlow, hresult, ?_⟩
    intro d hd
    have := hmin d hd
    exact ⟨hall d (CpuSet.mem_ascending.mpr hd), fun h => by omega⟩
  · refine ⟨c, CpuSet.mem_ascending.mp hc, hresult, ?_⟩
    exact fun d hd => hall d (CpuSet.mem_ascending.mpr hd)

theorem findIdlestCore_zero (loads : ℕ → ℤ) : findIdlestCore loads cpuZero = some (-1) := by
  unfold findIdlestCore
  rw [cpusetFindFirstSet_zero]
  simp [findIdlestCoreLoop]

/-! ## The idlest topology set -/

/-- A position of the set that the loop, now at the given position, still has
to look at. -/
def Ahead (stride : ℕ) (cpuset : CpuSet) (pos : ℤ) (p : ℕ) : Prop :=
  p ∈ cpuset ∧ ∃ i : ℕ, (p : ℤ) = pos + i * stride

theorem ahead_cases (hahead : Ahead stride cpuset pos p) :
    (p : ℤ) = pos ∨ Ahead stride cpuset (pos + stride) p := by
  obtain ⟨hmem, i, hi⟩ := hahead
  cases i with
  | zero => exact .inl (by simpa using hi)
  | succ i => exact .inr ⟨hmem, i, by rw [hi]; push_cast; ring⟩

theorem Ahead.of_later (hahead : Ahead stride cpuset (pos + stride) p) :
    Ahead stride cpuset pos p := by
  obtain ⟨hmem, i, hi⟩ := hahead
  exact ⟨hmem, i + 1, by rw [hi]; push_cast; ring⟩

theorem Ahead.pos_le (hahead : Ahead stride cpuset pos p) : pos ≤ p := by
  obtain ⟨-, i, hi⟩ := hahead
  rw [hi]
  have : (0 : ℤ) ≤ i * stride := by positivity
  omega

/-- The invariant of the loop: the least load among the sets ahead, the first of them. -/
theorem findIdlestSetLoop_spec (loads : ℕ → ℤ) (hstride : 0 < stride) (cpuset : CpuSet)
    (hfuel : (cpusetFindLastSet cpuset + 1 - pos).toNat < fuel) (idlestPos load : ℤ) :
    ∃ found, findIdlestSetLoop loads stride cpuset fuel pos idlestPos load = some found ∧
      ((found = idlestPos ∧ ∀ p, Ahead stride cpuset pos p → load ≤ setLoad loads stride p) ∨
        ∃ c, Ahead stride cpuset pos c ∧ found = (c : ℕ) ∧ setLoad loads stride c < load ∧
          ∀ p, Ahead stride cpuset pos p → setLoad loads stride c ≤ setLoad loads stride p ∧
              (p < c → setLoad loads stride c < setLoad loads stride p)) := by
  induction fuel generalizing pos idlestPos load with
  | zero => omega
  | succ fuel ih =>
      simp only [findIdlestSetLoop]
      by_cases hlast : pos ≤ cpusetFindLastSet cpuset
      · have hfuelRest : (cpusetFindLastSet cpuset + 1 - (pos + stride)).toNat < fuel := by omega
        rw [if_pos hlast]
        by_cases hisset : cpuIsset pos cpuset = false
        · rw [if_pos hisset]
          have hskip : ∀ p, Ahead stride cpuset pos p → Ahead stride cpuset (pos + stride) p := by
            intro p hp
            rcases ahead_cases hp with heq | hlater
            · rw [← heq] at hisset
              have := cpuIsset_natCast.mpr hp.1
              rw [this] at hisset
              simp at hisset
            · exact hlater
          obtain ⟨found, hfound, hcases⟩ := ih hfuelRest idlestPos load
          refine ⟨found, hfound, ?_⟩
          rcases hcases with ⟨rfl, hall⟩ | ⟨c, hc, rfl, hlt, hall⟩
          · exact .inl ⟨rfl, fun p hp => hall p (hskip p hp)⟩
          · exact .inr ⟨c, hc.of_later, rfl, hlt, fun p hp => hall p (hskip p hp)⟩
        · rw [if_neg hisset]
          obtain ⟨cpu, rfl, hmem⟩ := cpuIsset_iff.mp (by simpa using hisset)
          have hhere : Ahead stride cpuset cpu cpu := ⟨hmem, 0, by simp⟩
          have hlater : ∀ p, Ahead stride cpuset ((cpu : ℤ) + stride) p → cpu < p := by
            intro p hp
            have := hp.pos_le
            omega
          rw [Int.toNat_natCast]
          by_cases hless : setLoad loads stride cpu < load
          · rw [if_pos hless]
            obtain ⟨found, hfound, hcases⟩ := ih hfuelRest (cpu : ℤ) (setLoad loads stride cpu)
            refine ⟨found, hfound, .inr ?_⟩
            rcases hcases with ⟨rfl, hall⟩ | ⟨c, hc, rfl, hlt, hall⟩
            · refine ⟨cpu, hhere, rfl, hless, ?_⟩
              intro p hp
              rcases ahead_cases hp with heq | hp
              · have heq : p = cpu := by exact_mod_cast heq
                subst p
                exact ⟨le_rfl, fun h => absurd h (lt_irrefl _)⟩
              · have := hlater p hp
                exact ⟨hall p hp, fun h => by omega⟩
            · refine ⟨c, hc.of_later, rfl, hlt.trans hless, ?_⟩
              intro p hp
              rcases ahead_cases hp with heq | hp
              · have heq : p = cpu := by exact_mod_cast heq
                subst p
                exact ⟨hlt.le, fun _ => hlt⟩
              · exact hall p hp
          · rw [if_neg hless]
            obtain ⟨found, hfound, hcases⟩ := ih hfuelRest idlestPos load
            refine ⟨found, hfound, ?_⟩
            rcases hcases with ⟨rfl, hall⟩ | ⟨c, hc, rfl, hlt, hall⟩
            · refine .inl ⟨rfl, ?_⟩
              intro p hp
              rcases ahead_cases hp with heq | hp
              · have heq : p = cpu := by exact_mod_cast heq
                subst p
                omega
              · exact hall p hp
            · refine .inr ⟨c, hc.of_later, rfl, hlt, ?_⟩
              intro p hp
              rcases ahead_cases hp with heq | hp
              · have heq : p = cpu := by exact_mod_cast heq
                subst p
                exact ⟨by omega, fun _ => by omega⟩
              · exact hall p hp
      · rw [if_neg hlast]
        refine ⟨idlestPos, rfl, .inl ⟨rfl, ?_⟩⟩
        intro p hp
        have hle := le_cpusetFindLastSet hp.1
        have := hp.pos_le
        omega

theorem firstPos_eq {low : ℕ} :
    (low : ℤ) - (low : ℤ).tmod stride = (low / stride * stride : ℕ) := by
  have hsplit := Nat.div_add_mod low stride
  rw [Nat.mul_comm] at hsplit
  have htmod : (low : ℤ).tmod stride = ((low % stride : ℕ) : ℤ) := by
    simp [Int.tmod_eq_emod_of_nonneg]
  rw [htmod]
  omega

section

variable (loads : ℕ → ℤ) (hlevel : group.nrCpusPerTopo = stride) (hstride : 0 < stride)
  (hset : cpuset.cpus.Nonempty)

include loads hlevel hstride hset

/-- The idlest set of a non-empty set of CPUs is the topology set with some
index.  Either it is the first one the set touches, and no topology set whose
first CPU is in the set is below the bound, or it has the least load of these
and the lowest index among equals. -/
theorem findIdlestSet_spec :
    ∃ low ∈ cpuset, (∀ c ∈ cpuset, low ≤ c) ∧ ∃ index : ℕ, findIdlestSet loads group cpuset =
          some (cpuSetRange ((index * stride : ℕ) : ℤ) stride cpuZero) ∧
        ((index = low / stride ∧ ∀ q, q * stride ∈ cpuset →
            INT_MAX ≤ setLoad loads stride (q * stride)) ∨
          (index * stride ∈ cpuset ∧ ∀ q, q * stride ∈ cpuset →
            setLoad loads stride (index * stride) ≤ setLoad loads stride (q * stride) ∧
              (q < index → setLoad loads stride (index * stride) <
                setLoad loads stride (q * stride)))) := by
  obtain ⟨low, hlow, hfirst, hmin⟩ := cpusetFindFirstSet_spec hset
  refine ⟨low, hlow, hmin, ?_⟩
  have hlast := cpusetFindLastSet_lt cpuset
  have hfuel : (cpusetFindLastSet cpuset + 1 - (low / stride * stride : ℕ)).toNat <
      CPU_SETSIZE + 2 := by omega
  obtain ⟨found, hfound, hcases⟩ := findIdlestSetLoop_spec
    loads hstride cpuset hfuel (low / stride * stride : ℕ) INT_MAX
  have hresult : findIdlestSet loads group cpuset = some (cpuSetRange found stride cpuZero) := by
    unfold findIdlestSet
    simp only [hlevel, hstride.ne', if_false, hfirst, firstPos_eq, hfound, Option.map_some]
  have hahead : ∀ q, q * stride ∈ cpuset →
      Ahead stride cpuset (low / stride * stride : ℕ) (q * stride) := by
    intro q hq
    have hle : low / stride ≤ q := by
      have := Nat.div_le_div_right (c := stride) (hmin _ hq)
      rwa [Nat.mul_div_cancel _ hstride] at this
    obtain ⟨i, rfl⟩ := Nat.exists_eq_add_of_le hle
    exact ⟨hq, i, by push_cast; ring⟩
  rcases hcases with ⟨rfl, hall⟩ | ⟨c, ⟨hc, i, hi⟩, rfl, -, hall⟩
  · exact ⟨low / stride, hresult, .inl ⟨rfl, fun q hq => hall _ (hahead q hq)⟩⟩
  · have hindex : c = (low / stride + i) * stride := by
      have hcast : (c : ℤ) = ((low / stride + i) * stride : ℕ) := by
        rw [hi]
        push_cast
        ring
      exact_mod_cast hcast
    subst hindex
    refine ⟨low / stride + i, hresult, .inr ⟨hc, ?_⟩⟩
    intro q hq
    obtain ⟨hle, hlt⟩ := hall _ (hahead q hq)
    exact ⟨hle, fun h => hlt (Nat.mul_lt_mul_of_pos_right h hstride)⟩

theorem findIdlestSet_entry :
    ∃ c ∈ cpuset, (c % stride = 0 ∨ ∀ d ∈ cpuset, c ≤ d) ∧ findIdlestSet loads group cpuset =
        some (cpuSetRange ((c / stride * stride : ℕ) : ℤ) stride cpuZero) := by
  obtain ⟨low, hlow, hmin, index, hresult, hcases⟩ := findIdlestSet_spec loads hlevel hstride hset
  rcases hcases with ⟨rfl, -⟩ | ⟨hmem, -⟩
  · exact ⟨low, hlow, .inr hmin, hresult⟩
  · refine ⟨index * stride, hmem, .inl (Nat.mul_mod_left index stride), ?_⟩
    rw [Nat.mul_div_cancel _ hstride]
    exact hresult

theorem findIdlestSet_touches :
    ∃ c ∈ cpuset, findIdlestSet loads group cpuset =
      some (cpuSetRange ((c / stride * stride : ℕ) : ℤ) stride cpuZero) := by
  obtain ⟨c, hc, -, hresult⟩ := findIdlestSet_entry loads hlevel hstride hset
  exact ⟨c, hc, hresult⟩

end

theorem findIdlestSet_zero (loads : ℕ → ℤ) (hlevel : 0 < group.nrCpusPerTopo) :
    findIdlestSet loads group cpuZero = some (if group.nrCpusPerTopo = 1 then cpuZero
        else cpuSetRange 0 group.nrCpusPerTopo cpuZero) := by
  unfold findIdlestSet
  simp only [hlevel.ne', if_false, cpusetFindFirstSet_zero]
  by_cases hone : group.nrCpusPerTopo = 1
  · rw [hone]
    rfl
  · have hpos : (-1 : ℤ) - Int.tmod (-1) group.nrCpusPerTopo = 0 := by
      have hneg : Int.tmod (-1) (group.nrCpusPerTopo : ℤ) =
          -Int.tmod 1 (group.nrCpusPerTopo : ℤ) := Int.neg_tmod 1 _
      have hmod : Int.tmod 1 (group.nrCpusPerTopo : ℤ) = 1 :=
        Int.tmod_eq_of_lt (by norm_num) (by omega)
      rw [hneg, hmod]
      norm_num
    rw [hpos]
    simp [findIdlestSetLoop, cpusetFindLastSet_zero, hone]

/-! ## The incomplete topology set -/

def PartlyIn (cpuset : CpuSet) (stride : ℕ) (pos : ℤ) : Prop :=
  cpuCount (cpuAnd (cpuSetRange pos stride cpuZero) cpuset) ≠ stride ∧
    cpuCount (cpuAnd (cpuSetRange pos stride cpuZero) cpuset) ≠ 0

theorem findIncompleteSetLoop_spec (total cpuset : CpuSet) (hstride : 0 < stride)
    (hfuel : (cpusetFindLastSet total + 1 - pos).toNat < fuel) :
    ∃ found, findIncompleteSetLoop total cpuset stride fuel pos = some found ∧
      ((found = -ENODATA ∧ ∀ i : ℕ, pos + i * stride ≤ cpusetFindLastSet total →
          ¬ PartlyIn cpuset stride (pos + i * stride)) ∨
        ∃ i : ℕ, found = pos + i * stride ∧ found ≤ cpusetFindLastSet total ∧
          PartlyIn cpuset stride found) := by
  induction fuel generalizing pos with
  | zero => omega
  | succ fuel ih =>
      simp only [findIncompleteSetLoop]
      by_cases hlast : pos ≤ cpusetFindLastSet total
      · rw [if_pos hlast]
        by_cases hpartly : PartlyIn cpuset stride pos
        · refine ⟨pos, if_pos hpartly, .inr ⟨0, by simp, hlast, hpartly⟩⟩
        · have hskip : ¬ (cpuCount (cpuAnd (cpuSetRange pos stride cpuZero) cpuset) ≠ stride ∧
              cpuCount (cpuAnd (cpuSetRange pos stride cpuZero) cpuset) ≠ 0) := hpartly
          rw [if_neg hskip]
          have hfuelRest :
              (cpusetFindLastSet total + 1 - (pos + stride)).toNat < fuel := by omega
          obtain ⟨found, hfound, hcases⟩ := ih hfuelRest
          refine ⟨found, hfound, ?_⟩
          rcases hcases with ⟨rfl, hall⟩ | ⟨i, hi, hle, hhere⟩
          · refine .inl ⟨rfl, ?_⟩
            intro i hi
            cases i with
            | zero => simpa using hpartly
            | succ i =>
                have hsame : pos + ((i + 1 : ℕ) : ℤ) * stride = pos + stride + i * stride := by
                  push_cast
                  ring
                rw [hsame] at hi ⊢
                exact hall i hi
          · refine .inr ⟨i + 1, ?_, hle, hhere⟩
            rw [hi]
            push_cast
            ring
      · rw [if_neg hlast]
        refine ⟨-ENODATA, rfl, .inl ⟨rfl, ?_⟩⟩
        intro i hi
        have : (0 : ℤ) ≤ i * stride := by positivity
        omega

theorem cpuSetRange_block {index : ℕ} (hend : index * stride + stride ≤ CPU_SETSIZE) :
    (cpuSetRange ((index * stride : ℕ) : ℤ) stride cpuZero).cpus = block stride index :=
  cpuSetRange_cpus hend

theorem partlyIn_iff {index : ℕ} (hend : index * stride + stride ≤ CPU_SETSIZE) :
    PartlyIn cpuset stride ((index * stride : ℕ) : ℤ) ↔
      ¬ block stride index ⊆ cpuset.cpus ∧ (block stride index ∩ cpuset.cpus).Nonempty := by
  have hset : (cpuAnd (cpuSetRange ((index * stride : ℕ) : ℤ) stride cpuZero) cpuset).cpus =
      block stride index ∩ cpuset.cpus := by
    change (cpuSetRange _ _ _).cpus ∩ cpuset.cpus = _
    rw [cpuSetRange_block hend]
  unfold PartlyIn cpuCount
  rw [hset, Finset.card_ne_zero]
  refine and_congr_left fun _ => not_congr ?_
  constructor
  · intro hcard
    rw [← Finset.inter_eq_left]
    apply Finset.eq_of_subset_of_card_le Finset.inter_subset_left
    rw [hcard, block_card]
  · intro hsubset
    rw [Finset.inter_eq_left.mpr hsubset, block_card]

theorem block_end_le {total : CpuSet} (hstride : 0 < stride)
    (hwhole : WholeBlocks stride total.cpus) (hmem : cpu ∈ total) :
    cpu / stride * stride + stride ≤ CPU_SETSIZE := by
  have hlast : cpu / stride * stride + (stride - 1) ∈ block stride (cpu / stride) :=
    mem_block.mpr ⟨by omega, by omega⟩
  have := CpuSet.lt_of_mem (hwhole cpu hmem hlast)
  omega

/-- When the number of CPUs in the set is not a multiple of the level size,
the search finds a topology set of the group that is partly in the set. -/
theorem findIncompleteSet_spec (hlevel : group.nrCpusPerTopo = stride) (hstride : 0 < stride)
    (hwhole : WholeBlocks stride group.total.cpus) (hsubset : cpuset.cpus ⊆ group.total.cpus)
    (hcount : ¬ stride ∣ cpuset.cpus.card) :
    ∃ c ∈ cpuset, findIncompleteSet group cpuset = some ((c / stride * stride : ℕ) : ℤ) ∧
      ¬ block stride (c / stride) ⊆ cpuset.cpus := by
  have hpartial : ∃ c ∈ cpuset.cpus, ¬ block stride (c / stride) ⊆ cpuset.cpus := by
    apply exists_partial_of_not_wholeBlocks
    exact fun hall => hcount (hall.dvd_card hstride)
  obtain ⟨c, hc, hnot⟩ := hpartial
  have hctotal : c ∈ group.total := hsubset hc
  obtain ⟨low, hlow, hfirst, hmin⟩ := cpusetFindFirstSet_spec ⟨c, hctotal⟩
  have haligned : low / stride * stride = low := by
    have hstart : low / stride * stride ∈ group.total :=
      hwhole low hlow (mem_block.mpr ⟨le_rfl, by omega⟩)
    exact le_antisymm (Nat.div_mul_le_self _ _) (hmin _ hstart)
  have hlastLt := cpusetFindLastSet_lt group.total
  obtain ⟨found, hfound, hcases⟩ := findIncompleteSetLoop_spec group.total cpuset hstride
    (show (cpusetFindLastSet group.total + 1 - (low : ℤ)).toNat < CPU_SETSIZE + 2 by omega)
  have hresult : findIncompleteSet group cpuset = some found := by
    unfold findIncompleteSet
    rw [hlevel, hfirst]
    exact hfound
  have hstep : ∀ i : ℕ, (low : ℤ) + i * stride = (((low / stride + i) * stride : ℕ) : ℤ) := by
    intro i
    conv_lhs => rw [← haligned]
    push_cast
    ring
  rcases hcases with ⟨-, hall⟩ | ⟨i, hi, hle, hpartly⟩
  · exfalso
    have hindex : low / stride ≤ c / stride := Nat.div_le_div_right (hmin c hctotal)
    obtain ⟨i, hi⟩ := Nat.exists_eq_add_of_le hindex
    have hpos : (low : ℤ) + i * stride = ((c / stride * stride : ℕ) : ℤ) := by
      rw [hstep, hi]
    have hstart : c / stride * stride ∈ group.total :=
      hwhole c hctotal (mem_block.mpr ⟨le_rfl, by omega⟩)
    have hnone := hall i (by rw [hpos]; exact le_cpusetFindLastSet hstart)
    rw [hpos, partlyIn_iff (block_end_le hstride hwhole hctotal)] at hnone
    exact hnone ⟨hnot, c, mem_inter.mpr ⟨mem_own_block hstride, hc⟩⟩
  · rw [hstep] at hi
    subst hi
    obtain ⟨high, hhigh, hlast, -⟩ := cpusetFindLastSet_spec ⟨low, hlow⟩
    have hend : (low / stride + i) * stride + stride ≤ CPU_SETSIZE := by
      have hbound := block_end_le hstride hwhole hhigh
      have hle' : (low / stride + i) * stride ≤ high := by
        rw [hlast] at hle
        exact_mod_cast hle
      have hidx : low / stride + i ≤ high / stride := (Nat.le_div_iff_mul_le hstride).mpr hle'
      have hmul := Nat.mul_le_mul_right stride hidx
      omega
    rw [partlyIn_iff hend] at hpartly
    obtain ⟨hnotAll, d, hd⟩ := hpartly
    obtain ⟨hdblock, hdset⟩ := mem_inter.mp hd
    have hdindex := (mem_block_iff_div hstride).mp hdblock
    refine ⟨d, hdset, ?_, ?_⟩
    · rw [hdindex]
      exact hresult
    · rw [hdindex]
      exact hnotAll

theorem scanAvailable_spec {available : CpuSet} {start left : ℕ} (hmem : cpu ∈ available)
    (hstart : start ≤ cpu) (hend : cpu < start + left) :
    ∃ c ∈ available, scanAvailable available left start = (c : ℕ) ∧ start ≤ c ∧ c ≤ cpu ∧
      ∀ d ∈ available, start ≤ d → c ≤ d := by
  induction left generalizing start with
  | zero => omega
  | succ left ih =>
      simp only [scanAvailable]
      by_cases hhere : start ∈ available
      · rw [if_pos (cpuIsset_natCast.mpr hhere)]
        exact ⟨start, hhere, rfl, le_rfl, hstart, fun d _ hd => hd⟩
      · rw [if_neg (by simpa using hhere)]
        have hne : start ≠ cpu := fun h => hhere (h ▸ hmem)
        obtain ⟨c, hc, hscan, hlow, hhigh, hleast⟩ := ih (show start + 1 ≤ cpu by omega) (by omega)
        refine ⟨c, hc, by exact_mod_cast hscan, by omega, hhigh, ?_⟩
        intro d hd hdstart
        have hdne : start ≠ d := fun h => hhere (h ▸ hd)
        exact hleast d hd (by omega)

end WaycaScheduler
