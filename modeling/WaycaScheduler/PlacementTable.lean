import WaycaScheduler.BalancedPlacement
import WaycaScheduler.UniformMachine
import Mathlib.Data.Int.CardIntervalMod

/-!
# The placement table

The header shows where the first threads of a group go for each combination of
`WT_GF_PERCPU` and `WT_GF_COMPACT`.  The table is a closed form in the number
of the thread.  How often a CPU has been handed out fixes its load up to a common
amount and tells which topology set and which CPU the two searches settle on.
-/

namespace WaycaScheduler

open AlignedBlocks Finset OwnedLists Transition

def tableBlock (a s index : ℕ) : Finset ℕ :=
  Ico (a + index * s) (a + (index + 1) * s)

/-- The CPUs of the thread with the number `i` in a group with the CPUs from
`a` on, in `k` topology sets of `s` CPUs. -/
def tableCpus (attr : Attr) (a k s i : ℕ) : Finset ℕ :=
  match hasFlag attr WT_GF_PERCPU, hasFlag attr WT_GF_COMPACT with
  | false, false => tableBlock a s (i % k)
  | true, false => {a + i % k * s + i / k % s}
  | false, true => tableBlock a s (i / s % k)
  | true, true => {a + i % (k * s)}

/-- How many of the CPUs are used when the thread with the number `i` comes. -/
def filled (attr : Attr) (k s i : ℕ) : ℕ :=
  if hasFlag attr WT_GF_COMPACT then i % (k * s) else i % k * s

def tableOffset (attr : Attr) (k s i : ℕ) : ℕ :=
  if hasFlag attr WT_GF_PERCPU && !hasFlag attr WT_GF_COMPACT then i / k % s else 0

/-- How many of the first `i` threads are on the CPU. -/
def tally (attr : Attr) (a k s i c : ℕ) : ℕ :=
  Nat.count (fun t => c ∈ tableCpus attr a k s t) i

section ClosedForm

variable {attr : Attr} {a k s i j o : ℕ}

theorem mem_tableBlock (ho : o < s) (index : ℕ) :
    a + j * s + o ∈ tableBlock a s index ↔ index = j := by
  rw [tableBlock, mem_Ico]
  constructor
  · rintro ⟨hlow, hhigh⟩
    have hle : index < j + 1 := by
      refine lt_of_mul_lt_mul_right (a := s) ?_ (Nat.zero_le s)
      rw [Nat.succ_mul]
      omega
    have hge : j < index + 1 := by
      refine lt_of_mul_lt_mul_right (a := s) ?_ (Nat.zero_le s)
      omega
    omega
  · rintro rfl
    rw [Nat.succ_mul]
    omega

theorem count_mod {r v : ℕ} (hv : v < r) (i : ℕ) :
    Nat.count (fun t => t % r = v) i = i / r + if v < i % r then 1 else 0 := by
  have hiff : ∀ t, t % r = v ↔ t ≡ v [MOD r] := by
    intro t
    rw [Nat.ModEq, Nat.mod_eq_of_lt hv]
  simp only [hiff, Nat.count_modEq_card i (Nat.zero_lt_of_lt hv), Nat.mod_eq_of_lt hv]

theorem count_div (hs : 0 < s) (p : ℕ → Prop) [DecidablePred p] (u : ℕ) :
    Nat.count (fun t => p (t / s)) (u * s) = Nat.count p u * s := by
  induction u with
  | zero => simp
  | succ u ih =>
      have hgroup : Nat.count (fun t => p ((u * s + t) / s)) s = (if p u then 1 else 0) * s := by
        rw [Nat.count_eq_card_filter_range]
        have hsame : ∀ t ∈ range s, (p ((u * s + t) / s) ↔ p u) := by
          intro t ht
          rw [Nat.add_comm, Nat.add_mul_div_right _ _ hs,
            Nat.div_eq_of_lt (mem_range.mp ht), Nat.zero_add]
        rw [filter_congr hsame]
        split
        next hp => simp [hp]
        next hp => simp [hp]
      rw [Nat.succ_mul, Nat.count_add, ih, hgroup, Nat.count_succ, Nat.add_mul]

theorem lt_mul_of_parts (hj : j < k) (ho : o < s) : j * s + o < k * s :=
  calc j * s + o < j * s + s := by omega
    _ = (j + 1) * s := (Nat.succ_mul j s).symm
    _ ≤ k * s := Nat.mul_le_mul_right s hj

theorem mod_parts (i : ℕ) : i % (k * s) = i / k % s * k + i % k := by
  rw [Nat.mod_mul]
  ring

theorem tally_scattered (hpercpu : hasFlag attr WT_GF_PERCPU = false)
    (hcompact : hasFlag attr WT_GF_COMPACT = false) (hj : j < k) (ho : o < s) :
    tally attr a k s i (a + j * s + o) = i / k + if j < i % k then 1 else 0 := by
  unfold tally tableCpus
  simp only [hpercpu, hcompact, mem_tableBlock ho]
  exact count_mod hj i

theorem tally_scattered_percpu (hpercpu : hasFlag attr WT_GF_PERCPU = true)
    (hcompact : hasFlag attr WT_GF_COMPACT = false) (hj : j < k) (ho : o < s) :
    tally attr a k s i (a + j * s + o) =
      i / (k * s) + if o * k + j < i % (k * s) then 1 else 0 := by
  have hiff : ∀ t, a + j * s + o ∈ tableCpus attr a k s t ↔ t % (k * s) = o * k + j := by
    intro t
    unfold tableCpus
    simp only [hpercpu, hcompact, mem_singleton]
    have hmod := Nat.mod_lt (t / k) (Nat.zero_lt_of_lt ho)
    have hdiv := Nat.mod_lt t (Nat.zero_lt_of_lt hj)
    rw [mod_parts]
    constructor
    · intro heq
      have hindex := (mem_tableBlock (a := a) ho (t % k)).mp (by
        rw [heq, tableBlock, mem_Ico, Nat.succ_mul]
        omega)
      rw [hindex] at heq ⊢
      have hoffset : o = t / k % s := by omega
      rw [hoffset]
    · intro heq
      have hindex : t % k = j := by
        have hboth := congrArg (· % k) heq
        simpa [Nat.mod_eq_of_lt hj] using hboth
      have hoffset : t / k % s = o := by
        rw [hindex] at heq
        exact Nat.eq_of_mul_eq_mul_right (Nat.zero_lt_of_lt hj) (Nat.add_right_cancel heq)
      rw [hindex, hoffset]
  unfold tally
  simp only [hiff]
  refine count_mod ?_ i
  rw [Nat.mul_comm k s]
  exact lt_mul_of_parts ho hj

theorem tally_compact_percpu (hpercpu : hasFlag attr WT_GF_PERCPU = true)
    (hcompact : hasFlag attr WT_GF_COMPACT = true) (hj : j < k) (ho : o < s) :
    tally attr a k s i (a + j * s + o) =
      i / (k * s) + if j * s + o < i % (k * s) then 1 else 0 := by
  have hiff : ∀ t, a + j * s + o ∈ tableCpus attr a k s t ↔ t % (k * s) = j * s + o := by
    intro t
    unfold tableCpus
    simp only [hpercpu, hcompact, mem_singleton]
    omega
  unfold tally
  simp only [hiff]
  exact count_mod (lt_mul_of_parts hj ho) i

theorem tally_compact (hpercpu : hasFlag attr WT_GF_PERCPU = false)
    (hcompact : hasFlag attr WT_GF_COMPACT = true) (hj : j < k) (ho : o < s)
    (hwhole : s ∣ i) :
    tally attr a k s i (a + j * s + o) = (i / s / k + if j < i / s % k then 1 else 0) * s := by
  have hs := Nat.zero_lt_of_lt ho
  obtain ⟨u, rfl⟩ := hwhole
  unfold tally tableCpus
  simp only [hpercpu, hcompact, mem_tableBlock ho]
  rw [Nat.mul_comm s u, count_div hs (fun t => t % k = j) u, count_mod hj, Nat.mul_div_cancel _ hs]

/-- When no topology set is begun, the CPUs of the unused sets have been handed
out equally often set by set, and the offset is the first of the places inside
a set that were handed out least. -/
theorem tally_fresh (hs : 0 < s) (hfresh : hasFlag attr WT_GF_COMPACT → s ∣ i % (k * s)) :
    ∃ height : ℕ → ℕ, (∀ j o, filled attr k s i ≤ j * s → j < k → o < s →
        tally attr a k s i (a + j * s + o) = height o) ∧
      ∀ o < s, height (tableOffset attr k s i) ≤ height o ∧
        (o < tableOffset attr k s i → height (tableOffset attr k s i) < height o) := by
  cases hcompact : hasFlag attr WT_GF_COMPACT with
  | false =>
      have hunused : ∀ j, filled attr k s i ≤ j * s → i % k ≤ j := by
        intro j hle
        rw [filled, hcompact, if_neg Bool.false_ne_true] at hle
        exact Nat.le_of_mul_le_mul_right hle hs
      cases hpercpu : hasFlag attr WT_GF_PERCPU with
      | false =>
          refine ⟨fun _ => i / k, ?_, ?_⟩
          · intro j o hle hj ho
            rw [tally_scattered hpercpu hcompact hj ho, if_neg (hunused j hle).not_gt, Nat.add_zero]
          · simp [tableOffset, hpercpu]
      | true =>
          refine ⟨fun o => i / (k * s) + if o < i / k % s then 1 else 0, ?_, ?_⟩
          · intro j o hle hj ho
            have hge := hunused j hle
            rw [tally_scattered_percpu hpercpu hcompact hj ho, mod_parts]
            congr 1
            refine if_congr ?_ rfl rfl
            constructor
            · intro hlt
              by_contra hnot
              have hmul := Nat.mul_le_mul_right k (Nat.le_of_not_lt hnot)
              omega
            · intro hlt
              have hmul := Nat.mul_le_mul_right k hlt
              rw [Nat.succ_mul] at hmul
              omega
          · intro o ho
            have hoffset : tableOffset attr k s i = i / k % s := by
              simp [tableOffset, hpercpu, hcompact]
            rw [hoffset]
            refine ⟨by simp, fun hlt => ?_⟩
            simp [hlt]
  | true =>
      have hwhole : s ∣ i := by
        have hdvd := hfresh hcompact
        rw [← Nat.dvd_mod_iff (Dvd.intro_left k rfl)]
        exact hdvd
      have hunused : ∀ j, filled attr k s i ≤ j * s → i % (k * s) ≤ j * s := by
        intro j hle
        rwa [filled, hcompact, if_pos rfl] at hle
      have hoffset : tableOffset attr k s i = 0 := by simp [tableOffset, hcompact]
      rw [hoffset]
      cases hpercpu : hasFlag attr WT_GF_PERCPU with
      | false =>
          refine ⟨fun _ => i / s / k * s, ?_, by simp⟩
          intro j o hle hj ho
          have hge := hunused j hle
          have hindex : i / s % k ≤ j := by
            rw [← Nat.mod_mul_left_div_self]
            exact Nat.div_le_of_le_mul (by rwa [Nat.mul_comm s j])
          rw [tally_compact hpercpu hcompact hj ho hwhole, if_neg hindex.not_gt, Nat.add_zero]
      | true =>
          refine ⟨fun _ => i / (k * s), ?_, by simp⟩
          intro j o hle hj ho
          have hge := hunused j hle
          rw [tally_compact_percpu hpercpu hcompact hj ho, if_neg (by omega), Nat.add_zero]

end ClosedForm

/-! ## The two searches -/

/-- The group has `k` topology sets from the index `b` on, and the first `m` of
their CPUs are used. -/
structure Laid (group : WaycaScGroup) (b k m : ℕ) : Prop where
  level_pos : 0 < group.nrCpusPerTopo
  total_eq : group.total.cpus =
    Ico (b * group.nrCpusPerTopo) ((b + k) * group.nrCpusPerTopo)
  used_eq : group.used.cpus =
    Ico (b * group.nrCpusPerTopo) (b * group.nrCpusPerTopo + m)
  room : m < k * group.nrCpusPerTopo

namespace Laid

variable {group : WaycaScGroup} {b k m : ℕ} {loads : ℕ → ℤ}

section

variable (hlaid : Laid group b k m)

include hlaid

theorem shaped : Shaped group := by
  refine ⟨hlaid.level_pos, ?_⟩
  rw [hlaid.total_eq]
  exact wholeBlocks_Ico hlaid.level_pos b k

theorem available_eq : (availableSet group).cpus =
      Ico (b * group.nrCpusPerTopo + m) ((b + k) * group.nrCpusPerTopo) := by
  have hroom := hlaid.room
  ext c
  rw [availableSet_cpus, hlaid.total_eq, hlaid.used_eq, mem_sdiff, mem_Ico, mem_Ico, mem_Ico,
    Nat.add_mul]
  omega

theorem mem_available {c : ℕ} :
    c ∈ availableSet group ↔
      b * group.nrCpusPerTopo + m ≤ c ∧ c < (b + k) * group.nrCpusPerTopo := by
  rw [← CpuSet.mem_cpus, hlaid.available_eq, mem_Ico]

theorem first_mem :
    b * group.nrCpusPerTopo + m ∈ availableSet group := by
  have hroom := hlaid.room
  rw [hlaid.mem_available, Nat.add_mul]
  omega

theorem available_card : (availableSet group).cpus.card + m = k * group.nrCpusPerTopo := by
  have hroom := hlaid.room
  rw [hlaid.available_eq, Nat.card_Ico, Nat.add_mul]
  omega

theorem choose_begun (hcompact : hasFlag group.attr WT_GF_COMPACT)
    (hbegun : ¬ group.nrCpusPerTopo ∣ m) :
    chooseTargetPos loads group = some (((b * group.nrCpusPerTopo + m : ℕ) : ℤ), true) := by
  have hlevel := hlaid.level_pos
  have hroom := hlaid.room
  have hsubset : (availableSet group).cpus ⊆ group.total.cpus :=
    fun c hc => (mem_availableSet.mp hc).1
  have hcount : ¬ group.nrCpusPerTopo ∣ (availableSet group).cpus.card := by
    intro hdvd
    refine hbegun ((Nat.dvd_add_right hdvd).mp ?_)
    rw [hlaid.available_card]
    exact Dvd.intro_left k rfl
  obtain ⟨c, hc, hfound, hpartial⟩ :=
    findIncompleteSet_spec rfl hlevel hlaid.shaped.whole hsubset hcount
  have hcrange := hlaid.mem_available.mp hc
  have hindex : c / group.nrCpusPerTopo = (b * group.nrCpusPerTopo + m) / group.nrCpusPerTopo := by
    refine le_antisymm ?_ (Nat.div_le_div_right hcrange.1)
    by_contra hlater
    refine hpartial fun d hd => ?_
    have hdiv := (mem_block_iff_div hlevel).mp hd
    refine hlaid.mem_available.mpr ⟨?_, ?_⟩
    · by_contra hlow
      have hle := Nat.div_le_div_right (c := group.nrCpusPerTopo) (Nat.le_of_not_le hlow)
      omega
    · refine (Nat.div_lt_iff_lt_mul hlevel).mp ?_
      rw [hdiv]
      exact (Nat.div_lt_iff_lt_mul hlevel).mpr hcrange.2
  rw [hindex] at hfound
  have hown := mem_block.mp (mem_own_block hlevel :
    b * group.nrCpusPerTopo + m ∈ block _ ((b * group.nrCpusPerTopo + m) / group.nrCpusPerTopo))
  obtain ⟨found, hfree, hscan, -, hhigh, -⟩ := scanAvailable_spec hlaid.first_mem hown.1 hown.2
  have hfirst : found = b * group.nrCpusPerTopo + m :=
    le_antisymm hhigh (hlaid.mem_available.mp hfree).1
  have hmod : cpuCount (availableSet group) % group.nrCpusPerTopo ≠ 0 :=
    fun h => hcount (Nat.dvd_of_mod_eq_zero h)
  unfold chooseTargetPos
  simp only [hlevel.ne', if_false]
  rw [if_pos ⟨hmod, hcompact⟩, hfound, Option.map_some, hscan, hfirst]
  simp only [Nat.cast_nonneg, decide_true]

end

/-- When no set is begun, equal loads of the unused sets lead to the first of
them, and inside it to the first of the least loaded CPUs. -/
theorem choose_fresh {q r : ℕ} {base : ℤ} {weight : ℕ} {height : ℕ → ℕ}
    (hlaid : Laid group b k (q * group.nrCpusPerTopo)) (hr : r < group.nrCpusPerTopo)
    (hweight : 0 < weight)
    (hloads : ∀ j o, q ≤ j → j < k → o < group.nrCpusPerTopo →
      loads (b * group.nrCpusPerTopo + j * group.nrCpusPerTopo + o) = base + weight * height o)
    (hleast : ∀ o < group.nrCpusPerTopo, height r ≤ height o ∧ (o < r → height r < height o)) :
    chooseTargetPos loads group =
      some (((b * group.nrCpusPerTopo + q * group.nrCpusPerTopo + r : ℕ) : ℤ), true) := by
  have hlevel := hlaid.level_pos
  have hq : q < k := lt_of_mul_lt_mul_right hlaid.room (Nat.zero_le _)
  set s := group.nrCpusPerTopo with hs
  have hwhole : cpuCount (availableSet group) % s = 0 := by
    refine Nat.mod_eq_zero_of_dvd ((Nat.dvd_add_left (Dvd.intro_left q rfl)).mp ?_)
    change s ∣ (availableSet group).cpus.card + q * s
    rw [hlaid.available_card]
    exact Dvd.intro_left k rfl
  have hset : ∀ index, index * s ∈ availableSet group → b + q ≤ index ∧
        setLoad loads s (index * s) = ∑ o ∈ range s, (base + weight * height o) := by
    intro index hmem
    obtain ⟨hlow, hhigh⟩ := hlaid.mem_available.mp hmem
    rw [← Nat.add_mul] at hlow
    have hge := Nat.le_of_mul_le_mul_right hlow hlevel
    have hlt := lt_of_mul_lt_mul_right hhigh (Nat.zero_le _)
    refine ⟨hge, sum_congr rfl fun o ho => ?_⟩
    have hsplit : index * s + o = b * s + (index - b) * s + o := by
      rw [← Nat.add_mul, Nat.add_sub_cancel' (by omega)]
    rw [hsplit, hloads (index - b) o (by omega) (by omega) (mem_range.mp ho)]
  have hfirst : (b + q) * s ∈ availableSet group := by
    rw [Nat.add_mul]
    exact hlaid.first_mem
  obtain ⟨low, hlow, hmin, index, hfound, hcases⟩ := findIdlestSet_spec loads rfl hlevel ⟨_, hfirst⟩
  have hindex : index = b + q := by
    rcases hcases with ⟨rfl, -⟩ | ⟨hmem, hbest⟩
    · have hle := hmin _ hfirst
      have hge := (hlaid.mem_available.mp hlow).1
      rw [← Nat.add_mul] at hge
      rw [le_antisymm hle hge, Nat.mul_div_cancel _ hlevel]
    · obtain ⟨hge, hsum⟩ := hset index hmem
      by_contra hne
      have hlt := (hbest (b + q) hfirst).2 (by omega)
      rw [← hs, hsum, (hset (b + q) hfirst).2] at hlt
      exact hlt.false
  rw [hindex] at hfound
  have hend : (b + q) * s + s ≤ CPU_SETSIZE := by
    have hle := hlaid.shaped.block_end (mem_availableSet.mp hfirst).1
    rwa [← hs, Nat.mul_div_cancel _ hlevel] at hle
  have hcpus := cpuSetRange_block hend
  have hin : ∀ o < s, (b + q) * s + o ∈ cpuSetRange (((b + q) * s : ℕ) : ℤ) s cpuZero := by
    intro o ho
    rw [← CpuSet.mem_cpus, hcpus, mem_block]
    omega
  obtain ⟨c, hc, hcore, hbest⟩ := findIdlestCore_spec loads ⟨_, hin r hr⟩
  have hcblock : c ∈ block s (b + q) := by
    rw [← hcpus]
    exact hc
  obtain ⟨o, ho, rfl⟩ : ∃ o < s, c = (b + q) * s + o := by
    have hbounds := mem_block.mp hcblock
    exact ⟨c - (b + q) * s, by omega, by omega⟩
  have hload : ∀ o < s, loads ((b + q) * s + o) = base + weight * height o := by
    intro o ho
    rw [Nat.add_mul]
    exact hloads q o le_rfl hq ho
  have hsame : o = r := by
    obtain ⟨hleastR, hbefore⟩ := hleast o ho
    obtain ⟨hleastO, hbeforeO⟩ := hbest _ (hin r hr)
    rw [hload o ho, hload r hr] at hleastO hbeforeO
    have hheight : height o ≤ height r := by
      have hle : (weight : ℤ) * height o ≤ weight * height r := by linarith
      exact_mod_cast le_of_mul_le_mul_left hle (by exact_mod_cast hweight)
    rcases lt_trichotomy o r with hlt | heq | hgt
    · have hstrict := hbefore hlt
      omega
    · exact heq
    · have hstrict := hbeforeO (by omega)
      have hequal : height o = height r := le_antisymm hheight hleastR
      rw [hequal] at hstrict
      exact absurd hstrict (lt_irrefl _)
  unfold chooseTargetPos
  simp only [← hs, hlevel.ne', if_false, hwhole, ne_eq, not_true_eq_false, false_and]
  rw [hfound, Option.bind_some, hcore, Option.map_some, hsame, Nat.add_mul]

end Laid

section Assignment

variable {group : WaycaScGroup} {thread : WaycaThread} {b k i : ℕ} {loads : ℕ → ℤ}

theorem tableOffset_lt (attr : Attr) {s : ℕ} (hs : 0 < s) (i : ℕ) :
    tableOffset attr k s i < s := by
  unfold tableOffset
  split
  next => exact Nat.mod_lt _ hs
  next => exact hs

theorem succ_mod (hk : 0 < k) (i : ℕ) : (i + 1) % k = if i % k + 1 = k then 0 else i % k + 1 := by
  have hlt := Nat.mod_lt i hk
  rw [Nat.add_mod]
  split
  next hwrap =>
    rcases Nat.eq_or_lt_of_le (Nat.succ_le_of_lt hk) with hone | hmany
    · simp [← hone, Nat.mod_one]
    · rw [Nat.mod_eq_of_lt hmany, hwrap, Nat.mod_self]
  next hgoing =>
    have hmany : 1 < k := by omega
    rw [Nat.mod_eq_of_lt hmany, Nat.mod_eq_of_lt (by omega)]

theorem Laid.choose {base : ℤ} {weight : ℕ} (hweight : 0 < weight)
    (hlaid : Laid group b k (filled group.attr k group.nrCpusPerTopo i))
    (hloads : ∀ c ∈ group.total, loads c = base + weight *
      tally group.attr (b * group.nrCpusPerTopo) k group.nrCpusPerTopo i c) :
    chooseTargetPos loads group =
      some (((b * group.nrCpusPerTopo + filled group.attr k group.nrCpusPerTopo i +
        tableOffset group.attr k group.nrCpusPerTopo i : ℕ) : ℤ), true) := by
  have hlevel := hlaid.level_pos
  by_cases hbegun : hasFlag group.attr WT_GF_COMPACT = true ∧
      ¬ group.nrCpusPerTopo ∣ i % (k * group.nrCpusPerTopo)
  · have hoffset : tableOffset group.attr k group.nrCpusPerTopo i = 0 := by
      simp [tableOffset, hbegun.1]
    have hfilled : filled group.attr k group.nrCpusPerTopo i =
        i % (k * group.nrCpusPerTopo) := if_pos hbegun.1
    rw [hoffset, Nat.add_zero]
    refine hlaid.choose_begun hbegun.1 ?_
    rw [hfilled]
    exact hbegun.2
  · have hfresh : hasFlag group.attr WT_GF_COMPACT →
        group.nrCpusPerTopo ∣ i % (k * group.nrCpusPerTopo) := by
      intro hcompact
      by_contra hnot
      exact hbegun ⟨hcompact, hnot⟩
    obtain ⟨q, hq⟩ : group.nrCpusPerTopo ∣ filled group.attr k group.nrCpusPerTopo i := by
      unfold filled
      split
      next hcompact => exact hfresh hcompact
      next => exact Dvd.intro_left _ rfl
    rw [Nat.mul_comm] at hq
    obtain ⟨height, hheight, hleast⟩ := tally_fresh (a := b * group.nrCpusPerTopo) hlevel hfresh
    rw [hq] at hlaid hheight ⊢
    have hunused : ∀ j o, q ≤ j → j < k → o < group.nrCpusPerTopo →
        loads (b * group.nrCpusPerTopo + j * group.nrCpusPerTopo + o) =
          base + weight * height o := by
      intro j o hj hjk ho
      have hmem : b * group.nrCpusPerTopo + j * group.nrCpusPerTopo + o ∈ group.total := by
        have hlt := lt_mul_of_parts hjk ho
        rw [← CpuSet.mem_cpus, hlaid.total_eq, mem_Ico, Nat.add_mul]
        omega
      rw [hloads _ hmem, hheight j o (Nat.mul_le_mul_right _ hj) hjk ho]
    exact hlaid.choose_fresh (tableOffset_lt group.attr hlevel i) hweight hunused hleast

theorem threadCpus_target (hlevel : 0 < group.nrCpusPerTopo) :
    threadCpus group (b * group.nrCpusPerTopo + filled group.attr k group.nrCpusPerTopo i +
        tableOffset group.attr k group.nrCpusPerTopo i) =
      tableCpus group.attr (b * group.nrCpusPerTopo) k group.nrCpusPerTopo i := by
  have hblock : ∀ index o, o < group.nrCpusPerTopo → block group.nrCpusPerTopo
          ((b * group.nrCpusPerTopo + index * group.nrCpusPerTopo + o) / group.nrCpusPerTopo) =
        tableBlock (b * group.nrCpusPerTopo) group.nrCpusPerTopo index := by
    intro index o ho
    rw [← Nat.add_mul, Nat.add_comm, Nat.add_mul_div_right _ _ hlevel, Nat.div_eq_of_lt ho,
      Nat.zero_add]
    unfold block tableBlock
    congr 1 <;> ring
  unfold threadCpus tableCpus filled tableOffset
  cases hpercpu : hasFlag group.attr WT_GF_PERCPU with
  | false =>
      cases hcompact : hasFlag group.attr WT_GF_COMPACT with
      | false =>
          simp only [Bool.false_eq_true, if_false, Bool.false_and]
          exact hblock _ 0 hlevel
      | true =>
          simp only [Bool.false_eq_true, if_false, if_true, Bool.false_and]
          rw [← hblock _ (i % group.nrCpusPerTopo) (Nat.mod_lt i hlevel), Nat.add_zero,
            Nat.add_assoc]
          congr 3
          rw [Nat.mul_comm k, Nat.mod_mul]
          ring
  | true =>
      cases hcompact : hasFlag group.attr WT_GF_COMPACT with
      | false => simp
      | true => simp

theorem bookedCpus_target (hlaid : Laid group b k (filled group.attr k group.nrCpusPerTopo i)) :
    ∃ m, bookedCpus group (b * group.nrCpusPerTopo + filled group.attr k group.nrCpusPerTopo i +
          tableOffset group.attr k group.nrCpusPerTopo i) =
        Ico (b * group.nrCpusPerTopo) (b * group.nrCpusPerTopo + m) ∧
      m ≤ k * group.nrCpusPerTopo ∧
      filled group.attr k group.nrCpusPerTopo (i + 1) =
        if m = k * group.nrCpusPerTopo then 0 else m := by
  have hlevel := hlaid.level_pos
  have hroom := hlaid.room
  have hk : 0 < k := Nat.pos_of_mul_pos_right (Nat.zero_lt_of_lt hroom)
  unfold bookedCpus
  rw [hlaid.used_eq]
  cases hcompact : hasFlag group.attr WT_GF_COMPACT with
  | true =>
      have hfilled : ∀ x, filled group.attr k group.nrCpusPerTopo x =
          x % (k * group.nrCpusPerTopo) := fun x => if_pos hcompact
      refine ⟨filled group.attr k group.nrCpusPerTopo i + 1, ?_, hroom, ?_⟩
      · have hoffset : tableOffset group.attr k group.nrCpusPerTopo i = 0 := by
          simp [tableOffset, hcompact]
        rw [if_pos rfl, hoffset, Nat.add_zero]
        ext c
        rw [mem_insert, mem_Ico, mem_Ico]
        omega
      · rw [hfilled, hfilled, succ_mod (Nat.mul_pos hk hlevel)]
  | false =>
      have hfilled : ∀ x, filled group.attr k group.nrCpusPerTopo x =
          x % k * group.nrCpusPerTopo := fun x => if_neg (by simp [hcompact])
      refine ⟨(i % k + 1) * group.nrCpusPerTopo, ?_, Nat.mul_le_mul_right _ (Nat.mod_lt i hk), ?_⟩
      · have hoffset := tableOffset_lt group.attr (k := k) hlevel i
        rw [if_neg Bool.false_ne_true, hfilled, ← Nat.add_mul, Nat.add_comm ((b + i % k) * _),
          Nat.add_mul_div_right _ _ hlevel, Nat.div_eq_of_lt hoffset, Nat.zero_add]
        ext c
        rw [mem_union, mem_Ico, mem_block, mem_Ico, Nat.add_mul, Nat.add_mul (i % k), Nat.one_mul]
        omega
      · rw [hfilled, succ_mod hk]
        by_cases hwrap : i % k + 1 = k
        · rw [if_pos hwrap, if_pos (by rw [hwrap]), Nat.zero_mul]
        · rw [if_neg hwrap, if_neg fun h => hwrap (Nat.eq_of_mul_eq_mul_right hlevel h)]

theorem rollOver_laid
    {m : ℕ} {used : CpuSet} (hlaid : Laid group b k (filled group.attr k group.nrCpusPerTopo i))
    (hused : used.cpus = Ico (b * group.nrCpusPerTopo) (b * group.nrCpusPerTopo + m))
    (hle : m ≤ k * group.nrCpusPerTopo) :
    Laid (rollOver group used) b k (if m = k * group.nrCpusPerTopo then 0 else m) := by
  have hroom := hlaid.room
  have hfull : used = group.total ↔ m = k * group.nrCpusPerTopo := by
    rw [CpuSet.ext_iff, hused, hlaid.total_eq, Nat.add_mul]
    constructor
    · intro heq
      have hcard := congrArg Finset.card heq
      rw [Nat.card_Ico, Nat.card_Ico] at hcard
      omega
    · rintro rfl
      rfl
  refine ⟨hlaid.level_pos, hlaid.total_eq, ?_, ?_⟩
  · unfold rollOver
    dsimp only
    by_cases hm : m = k * group.nrCpusPerTopo
    · rw [if_pos (hfull.mpr hm), if_pos hm, Nat.add_zero, Ico_self]
      rfl
    · rw [if_neg (mt hfull.mp hm), if_neg hm, hused]
  · change _ < k * group.nrCpusPerTopo
    split <;> omega

/-- From thread `i` to the next one: the table gives the CPUs, and the books follow it. -/
theorem Laid.assign {base : ℤ} {weight : ℕ} (hweight : 0 < weight)
    (hlaid : Laid group b k (filled group.attr k group.nrCpusPerTopo i))
    (hloads : ∀ c ∈ group.total, loads c = base + weight *
      tally group.attr (b * group.nrCpusPerTopo) k group.nrCpusPerTopo i c)
    (thread : WaycaThread) :
    ∃ assigned, waycaGroupAssignThreadResource loads group thread = some assigned ∧
      assigned.thread.curSet.cpus =
        tableCpus group.attr (b * group.nrCpusPerTopo) k group.nrCpusPerTopo i ∧
      SameShape group assigned.group ∧
      Laid assigned.group b k (filled group.attr k group.nrCpusPerTopo (i + 1)) := by
  have hlevel := hlaid.level_pos
  have hchoose := hlaid.choose hweight hloads
  set target := b * group.nrCpusPerTopo + filled group.attr k group.nrCpusPerTopo i +
    tableOffset group.attr k group.nrCpusPerTopo i with htarget
  have hmem : target ∈ group.total := by
    obtain ⟨cpu, hcpu, hchoice⟩ := chooseTargetPos_spec loads hlaid.shaped ⟨_, hlaid.first_mem⟩
    rw [hchoose, Option.some.injEq, Prod.mk.injEq, Nat.cast_inj] at hcpu
    rw [hcpu.1]
    exact hchoice.mem_total
  obtain ⟨used, cpus, result, hassign, hto⟩ := assignedTo_of_target thread hchoose
    (CpuSet.lt_of_mem hmem) (hlaid.shaped.block_end hmem)
  obtain ⟨m, hbooked, hle, hnext⟩ := bookedCpus_target hlaid
  refine ⟨result, hassign, ?_, ?_, ?_⟩
  · rw [hto.thread_eq]
    change cpus.cpus = _
    rw [hto.cpus_eq]
    exact threadCpus_target hlevel
  · rw [hto.group_eq]
    exact (SameShape.refl group).rollOver used
  · rw [hto.group_eq, hnext]
    exact rollOver_laid hlaid (hto.used_eq.trans hbooked) hle

end Assignment

/-! ## Attaching thread after thread -/

theorem tableCpus_card (attr : Attr) (a k s i : ℕ) :
    (tableCpus attr a k s i).card = if hasFlag attr WT_GF_PERCPU then 1 else s := by
  have hblock : ∀ index, (tableBlock a s index).card = s := by
    intro index
    rw [tableBlock, Nat.card_Ico, Nat.succ_mul]
    omega
  unfold tableCpus
  split
  next hpercpu _ => simp [hpercpu, hblock]
  next hpercpu _ => simp [hpercpu]
  next hpercpu _ => simp [hpercpu, hblock]
  next hpercpu _ => simp [hpercpu]

def tableWeight (machine : Machine) (attr : Attr) (s : ℕ) : ℕ :=
  divRoundUp machine.cpusInTotal (if hasFlag attr WT_GF_PERCPU then 1 else s)

theorem tableWeight_pos {machine : Machine} {attr : Attr} {s : ℕ} (hs : 0 < s) :
    0 < tableWeight machine attr s := by
  have htotal := machine.cpusInTotal_pos
  unfold tableWeight divRoundUp
  split
  next => exact Nat.div_pos (by omega) Nat.one_pos
  next => exact Nat.div_pos (by omega) hs

section Attaching

variable {machine : Machine} {state : State} {g : GroupId} {origin : WaycaScGroup}
  {b k i : ℕ}

/-- The state after `i` threads went where the table says. -/
structure OnTable (machine : Machine) (g : GroupId) (origin : WaycaScGroup) (b k i : ℕ)
    (state : State) : Prop where
  membership : Membership machine state
  live : LiveGroup machine state g
  no_groups : (state.group g).nrGroups = 0
  shape : SameShape origin (state.group g)
  laid : Laid (state.group g) b k (filled origin.attr k origin.nrCpusPerTopo i)
  loads_eq : ∃ base : ℤ, ∀ c ∈ origin.total, state.loads c = base +
    tableWeight machine origin.attr origin.nrCpusPerTopo *
      tally origin.attr (b * origin.nrCpusPerTopo) k origin.nrCpusPerTopo i c

theorem OnTable.attach {t : ThreadId} (huniform : UniformMachine machine)
    (hinside : origin.total.cpus ⊆ (totalCpuSet machine).cpus)
    (htable : OnTable machine g origin b k i state) (hthread : LiveThread machine state t)
    (hfree : (state.thread t).group = none)
    (hcur : (state.thread t).curSet = totalCpuSet machine) :
    ∃ next, step machine state (.threadAttachGroup t g) = some (next, 0) ∧
      OnTable machine g origin b k (i + 1) next ∧ (next.thread t).group = some g ∧
      (next.thread t).curSet.cpus =
        tableCpus origin.attr (b * origin.nrCpusPerTopo) k origin.nrCpusPerTopo i ∧
      (∀ x, LiveThread machine next x ↔ LiveThread machine state x) ∧
      ∀ x, x ≠ t → (next.thread x).group = (state.thread x).group ∧
        (next.thread x).curSet = (state.thread x).curSet := by
  obtain ⟨htotal, hlevel, hattr⟩ := htable.shape
  have hs : 0 < origin.nrCpusPerTopo := hlevel ▸ htable.laid.level_pos
  obtain ⟨base, hloads⟩ := htable.loads_eq
  have hall : ∀ c ∈ origin.total, threadLoad machine (state.thread t).curSet c = 1 := by
    intro c hc
    have hcount : cpuCount (totalCpuSet machine) = machine.cpusInTotal := by
      unfold cpuCount
      rw [huniform.totalCpuSet_cpus, card_range]
    have hin : c ∈ totalCpuSet machine := hinside hc
    rw [hcur, threadLoad, if_pos hin, hcount, divRoundUp, Nat.add_sub_assoc
      machine.cpusInTotal_pos, Nat.add_comm, Nat.add_div_right _ machine.cpusInTotal_pos,
      Nat.div_eq_of_lt (Nat.sub_lt machine.cpusInTotal_pos Nat.one_pos)]
    rfl
  have hlowered : ∀ c ∈ origin.total, (state.addLoad machine (-1) t).loads c =
      (base - 1) + tableWeight machine origin.attr origin.nrCpusPerTopo *
        tally origin.attr (b * origin.nrCpusPerTopo) k origin.nrCpusPerTopo i c := by
    intro c hc
    change state.loads c + -1 * threadLoad machine (state.thread t).curSet c = _
    rw [hall c hc, hloads c hc]
    ring
  have hassign : ∀ first count thread, ∃ assigned,
      waycaGroupAssignThreadResource (state.addLoad machine (-1) t).loads
          { state.group g with threads := first, nrThreads := count } thread = some assigned ∧
        assigned.thread.curSet.cpus =
          tableCpus origin.attr (b * origin.nrCpusPerTopo) k origin.nrCpusPerTopo i ∧
        SameShape origin assigned.group ∧
        Laid assigned.group b k (filled origin.attr k origin.nrCpusPerTopo (i + 1)) := by
    intro first count thread
    set before : WaycaScGroup :=
      { state.group g with threads := first, nrThreads := count } with hbefore
    have hshape : SameShape origin before := ⟨htotal, hlevel, hattr⟩
    have hlaid : Laid before b k (filled before.attr k before.nrCpusPerTopo i) := by
      rw [hshape.attr_eq, hshape.level_eq]
      exact ⟨htable.laid.level_pos, htable.laid.total_eq, htable.laid.used_eq, htable.laid.room⟩
    have hbeforeLoads : ∀ c ∈ before.total, (state.addLoad machine (-1) t).loads c =
        (base - 1) + tableWeight machine origin.attr origin.nrCpusPerTopo *
          tally before.attr (b * before.nrCpusPerTopo) k before.nrCpusPerTopo i c := by
      rw [hshape.attr_eq, hshape.level_eq, hshape.total_eq]
      exact hlowered
    obtain ⟨assigned, hassigned, hcpus, hsame, hnext⟩ :=
      hlaid.assign (tableWeight_pos hs) hbeforeLoads thread
    rw [hshape.attr_eq, hshape.level_eq] at hcpus hnext
    exact ⟨assigned, hassigned, hcpus, hshape.trans hsame, hnext⟩
  obtain ⟨next, links, assigned, hcall, hattached⟩ := attachThread_accepted htable.membership
    hthread htable.live hfree htable.no_groups
      fun first count thread => (hassign first count thread).imp fun _ h => h.1
  obtain ⟨same, hsameAssign, hcpus, hshape, hlaid⟩ := hassign (links.first g) (links.count g)
    { state.thread t with siblings := links.siblings t, group := links.owner t }
  obtain rfl : same = assigned := Option.some.inj (hsameAssign.symm.trans hattached.assign)
  have hlinks := hattached.sameLinks
  have howner : ∀ x, (next.thread x).group =
      Function.update state.threadLinks.owner t (some g) x := by
    intro x
    rw [hlinks.thread_group, ← hattached.owner_eq]
    rfl
  have hcurNext : (next.thread t).curSet.cpus =
      tableCpus origin.attr (b * origin.nrCpusPerTopo) k origin.nrCpusPerTopo i := by
    rw [hattached.thread_self]
    exact hcpus
  refine ⟨next, hcall, ⟨hattached.membership htable.membership,
    hlinks.liveGroup.mpr htable.live, ?_, ?_, ?_, base - 1, ?_⟩, ?_, hcurNext,
    fun x => hlinks.liveThread, ?_⟩
  · rw [hlinks.nrGroups]
    exact htable.no_groups
  · rw [hattached.group_self]
    exact hshape
  · rw [hattached.group_self]
    exact hlaid
  · intro c hc
    have hweight : threadLoad machine (next.thread t).curSet c =
        tableWeight machine origin.attr origin.nrCpusPerTopo *
          if c ∈ tableCpus origin.attr (b * origin.nrCpusPerTopo) k origin.nrCpusPerTopo i
            then 1 else 0 := by
      have hcount : cpuCount (next.thread t).curSet =
          if hasFlag origin.attr WT_GF_PERCPU then 1 else origin.nrCpusPerTopo := by
        unfold cpuCount
        rw [hcurNext, tableCpus_card]
      have hmem : c ∈ (next.thread t).curSet ↔ c ∈ tableCpus origin.attr
          (b * origin.nrCpusPerTopo) k origin.nrCpusPerTopo i := by
        rw [← CpuSet.mem_cpus, hcurNext]
      unfold threadLoad tableWeight
      simp only [hcount, hmem]
      split <;> simp
    rw [hattached.loads_eq, hloads c hc, hall c hc, hweight, tally, tally, Nat.count_succ]
    push_cast
    ring
  · rw [howner, Function.update_self]
  · intro x hx
    rw [howner, Function.update_of_ne hx, hattached.thread_other hx]
    exact ⟨rfl, rfl⟩

theorem OnTable.attachAll {threads : List ThreadId} (huniform : UniformMachine machine)
    (hinside : origin.total.cpus ⊆ (totalCpuSet machine).cpus)
    (htable : OnTable machine g origin b k i state) (hnodup : threads.Nodup)
    (hthreads : ∀ t ∈ threads, LiveThread machine state t ∧ (state.thread t).group = none ∧
      (state.thread t).curSet = totalCpuSet machine) :
    ∃ final, runCalls (step machine) (fun _ _ => True) state
          (threads.map fun t => .threadAttachGroup t g) = some final ∧
      (∀ x, x ∉ threads → (final.thread x).group = (state.thread x).group ∧
        (final.thread x).curSet = (state.thread x).curSet) ∧
      ∀ n t, threads[n]? = some t → (final.thread t).group = some g ∧ (final.thread t).curSet.cpus =
          tableCpus origin.attr (b * origin.nrCpusPerTopo) k origin.nrCpusPerTopo (i + n) := by
  induction threads generalizing i state with
  | nil => exact ⟨state, rfl, fun _ _ => ⟨rfl, rfl⟩, by simp⟩
  | cons t rest ih =>
      obtain ⟨hnotin, hrest⟩ := List.nodup_cons.mp hnodup
      obtain ⟨hlive, hfree, hcur⟩ := hthreads t List.mem_cons_self
      obtain ⟨next, hstep, hnext, hgroup, hcpus, hliveNext, hothers⟩ :=
        htable.attach huniform hinside hlive hfree hcur
      have hremaining : ∀ x ∈ rest, LiveThread machine next x ∧ (next.thread x).group = none ∧
          (next.thread x).curSet = totalCpuSet machine := by
        intro x hx
        have hne : x ≠ t := fun h => hnotin (h ▸ hx)
        rw [hliveNext, (hothers x hne).1, (hothers x hne).2]
        exact hthreads x (List.mem_cons_of_mem t hx)
      obtain ⟨final, hrun, hsame, hlist⟩ := ih hnext hrest hremaining
      refine ⟨final, ?_, ?_, ?_⟩
      · rw [List.map_cons, runCalls, if_pos trivial, hstep]
        exact hrun
      · intro x hx
        rw [List.mem_cons, not_or] at hx
        rw [(hsame x hx.2).1, (hsame x hx.2).2]
        exact hothers x hx.1
      · intro n x hx
        cases n with
        | zero =>
            obtain rfl : t = x := by simpa using hx
            rw [(hsame t hnotin).1, (hsame t hnotin).2]
            exact ⟨hgroup, hcpus⟩
        | succ n =>
            have hin := hlist n x (by simpa using hx)
            rwa [Nat.add_right_comm, Nat.add_assoc] at hin

end Attaching

/-- On a uniform machine, threads that may run on all CPUs are attached one by
one to a group with `k` topology sets of evenly loaded and unused CPUs.  All of
them are accepted, and the thread with the number `i` is bound to the CPUs of
the table. -/
theorem placement_table
    {machine : Machine} {start : State} {g : GroupId} {a k : ℕ} {threads : List ThreadId}
    (huniform : UniformMachine machine) (hreach : Reachable machine start)
    (hlive : LiveGroup machine start g) (hgroups : (start.group g).nrGroups = 0) (hk : 0 < k)
    (haligned : (start.group g).nrCpusPerTopo ∣ a)
    (htotal : (start.group g).total.cpus =
      Ico a (a + k * (start.group g).nrCpusPerTopo))
    (hend : a + k * (start.group g).nrCpusPerTopo ≤ machine.cpusInTotal)
    (hused : (start.group g).used = cpuZero)
    (hequal : ∀ c ∈ (start.group g).total, ∀ d ∈ (start.group g).total,
      start.loads c = start.loads d)
    (hnodup : threads.Nodup)
    (hthreads : ∀ t ∈ threads, LiveThread machine start t ∧ (start.thread t).group = none ∧
      (start.thread t).curSet = totalCpuSet machine) :
    ∃ final, runCalls (step machine) (fun _ _ => True) start
          (threads.map fun t => .threadAttachGroup t g) = some final ∧
      ∀ i t, threads[i]? = some t → (final.thread t).group = some g ∧
        (final.thread t).curSet.cpus =
          tableCpus (start.group g).attr a k (start.group g).nrCpusPerTopo i := by
  obtain ⟨hmembership, harranged⟩ := levelsArranged_of_reaches hreach
  have hlevel := huniform.level_pos (harranged g hlive)
  obtain ⟨b, rfl⟩ := haligned
  rw [Nat.mul_comm _ b] at htotal hend ⊢
  have hinside : (start.group g).total.cpus ⊆ (totalCpuSet machine).cpus := by
    intro c hc
    rw [htotal, mem_Ico] at hc
    rw [huniform.totalCpuSet_cpus, mem_range]
    omega
  have hfirst : b * (start.group g).nrCpusPerTopo ∈ (start.group g).total := by
    rw [← CpuSet.mem_cpus, htotal, mem_Ico]
    have hpos := Nat.mul_pos hk hlevel
    omega
  have hfilled : filled (start.group g).attr k (start.group g).nrCpusPerTopo 0 = 0 := by
    simp [filled]
  have htable : OnTable machine g (start.group g) b k 0 start := by
    refine ⟨hmembership, hlive, hgroups, .refl _, ?_,
      start.loads (b * (start.group g).nrCpusPerTopo), ?_⟩
    · rw [hfilled]
      refine ⟨hlevel, ?_, ?_, Nat.mul_pos hk hlevel⟩
      · rw [htotal, Nat.add_mul]
      · rw [hused, Nat.add_zero, Ico_self]
        rfl
    · intro c hc
      rw [hequal c hc _ hfirst, tally, Nat.count_zero]
      simp
  obtain ⟨final, hrun, -, hlist⟩ := htable.attachAll huniform hinside hnodup hthreads
  refine ⟨final, hrun, ?_⟩
  intro i t hget
  have hentry := hlist i t hget
  rwa [Nat.zero_add] at hentry

/-- Three threads in a group of two CCLs with `WT_GF_PERCPU`: the third one is
on the second CPU of the first CCL. -/
theorem placement_table_three :
    ∃ start final, Reachable smallMachine start ∧
      (start.group 0).attr = WT_GF_CCL ||| WT_GF_PERCPU ∧
      runCalls (step smallMachine) (fun _ _ => True) start
        ([0, 1, 2].map fun t => .threadAttachGroup t 0) = some final ∧
      (final.thread 2).curSet.cpus = {1} := by
  have hrun : ∃ start ∈ runCalls (step smallMachine) (fun _ _ => True) State.start
      [.groupCreate true true, .groupSetAttr 0 (some (WT_GF_CCL ||| WT_GF_PERCPU)),
        createOnSmall, createOnSmall, createOnSmall],
      LiveGroup smallMachine start 0 ∧ (start.group 0).nrGroups = 0 ∧
      (start.group 0).attr = WT_GF_CCL ||| WT_GF_PERCPU ∧
      (start.group 0).nrCpusPerTopo = 2 ∧ (start.group 0).total.cpus = Ico 0 4 ∧
      (start.group 0).used = cpuZero ∧
      (∀ c ∈ (start.group 0).total.cpus, ∀ d ∈ (start.group 0).total.cpus,
        start.loads c = start.loads d) ∧
      ∀ t ∈ ([0, 1, 2] : List ThreadId), LiveThread smallMachine start t ∧
        (start.thread t).group = none ∧ (start.thread t).curSet = totalCpuSet smallMachine := by
    decide +kernel
  obtain ⟨start, hreach, hlive, hgroups, hattr, hlevel, htotal, hused, hequal, hthreads⟩ :=
    exists_reachable_of_runCalls hrun
  obtain ⟨final, hfinal, hlist⟩ := placement_table (a := 0) (k := 2) smallMachine_uniform
    hreach hlive hgroups (by decide) (dvd_zero _) (by rw [hlevel]; exact htotal)
    (by rw [hlevel]; decide) hused hequal (by decide : [0, 1, 2].Nodup) hthreads
  have hentry := (hlist 2 2 rfl).2
  rw [hattr, hlevel] at hentry
  exact ⟨start, final, hreach, hattr, hfinal, hentry.trans (by decide)⟩

end WaycaScheduler
