import WaycaScheduler.ListTermination

/-!
# Lists that are refused

`list_to_mask` returns the negative of `errno` after the message about a bad item.
Before the message only `strtoul` has set `errno`, and only for a number that does
not fit into an `unsigned long`.  A text that is bad for another reason is left
with a zero and the CPUs seen so far, unless the message fails and sets `errno`.
-/

namespace WaycaScheduler

open CText Fuelled

variable {text : List Char}

/-- `sizeof(cpu_set_t)` -/
def cpuSetBytes : ℕ := 128

/-- The list for `thread_sched_setaffinity`, or the error. -/
def bindCpulist (perror : ℤ → ℤ) (crInTotal : ℤ) (setaffinity : Finset ℕ → ℤ) (fuel : ℕ)
    (s : List Char) : Option ℤ := do
  let (ret, mask) ← listToMask perror crInTotal fuel s cpuSetBytes
  if ret ≠ 0 then some (-EINVAL) else some (setaffinity mask)

def threadBindCpulist := bindCpulist

def processBindCpulist := bindCpulist

/-! ## Lists of the CPUs of a machine -/

/-- A list of items separated by commas, with ranges that are not empty and lie
below the number of CPUs, and the CPUs that it denotes. -/
inductive CpuList (n : ℕ) : List Char → Finset ℕ → Prop
  | last {text : List Char} {a b s : ℕ} :
      Denotes text a b s → a ≤ b → b < n → s ≠ 0 → CpuList n text (steps a b s)
  | more {text later : List Char} {a b s : ℕ} {cpus : Finset ℕ} :
      Denotes text a b s → a ≤ b → b < n → s ≠ 0 → CpuList n later cpus →
      CpuList n (text ++ ',' :: later) (steps a b s ∪ cpus)

/-- A list with its CPUs, and those of the items before the first one with a
stride of half of the CPUs or more. -/
inductive LeadingCpus (n : ℕ) : List Char → Finset ℕ → Finset ℕ → Prop
  | last {text : List Char} {a b s : ℕ} :
      Denotes text a b s → a ≤ b → b < n → s ≠ 0 → s < n / 2 →
      LeadingCpus n text (steps a b s) (steps a b s)
  | more {text later : List Char} {a b s : ℕ} {cpus leading : Finset ℕ} :
      Denotes text a b s → a ≤ b → b < n → s ≠ 0 → s < n / 2 → LeadingCpus n later cpus leading →
      LeadingCpus n (text ++ ',' :: later) (steps a b s ∪ cpus) (steps a b s ∪ leading)
  | wide {text tail : List Char} {a b s : ℕ} {cpus : Finset ℕ} :
      Denotes text a b s → a ≤ b → b < n → n / 2 ≤ s → RangeEnd tail →
      CpuList n (text ++ tail) cpus → LeadingCpus n (text ++ tail) cpus ∅

/-- The first item that is refused leaves an error number behind the message. -/
def RefusedWithErrno (perror : ℤ → ℤ) (n : ℕ) (text : List Char) : Prop :=
  ∃ place, RoundAt n text place ∧ (readListItem place).bad n ∧
    perror (readListItem place).errno ≠ 0

theorem LeadingCpus.cpuList {n : ℕ} {cpus leading : Finset ℕ}
    (hleading : LeadingCpus n text cpus leading) : CpuList n text cpus := by
  induction hleading with
  | last hdenotes hle hlt hpos _ => exact .last hdenotes hle hlt hpos
  | more hdenotes hle hlt hpos _ _ ih => exact .more hdenotes hle hlt hpos ih
  | wide _ _ _ _ _ hlist => exact hlist

theorem CpuList.leadingCpus {n : ℕ} {cpus : Finset ℕ} (hlist : CpuList n text cpus) :
    ∃ leading, LeadingCpus n text cpus leading := by
  induction hlist with
  | @last text a b s hdenotes hle hlt hpos =>
      by_cases hstride : s < n / 2
      · exact ⟨_, .last hdenotes hle hlt hpos hstride⟩
      · have hwide := LeadingCpus.wide hdenotes hle hlt (not_lt.mp hstride) (.inl rfl)
          ((List.append_nil text).symm ▸ CpuList.last hdenotes hle hlt hpos)
        rw [List.append_nil] at hwide
        exact ⟨∅, hwide⟩
  | @more text later a b s cpus hdenotes hle hlt hpos hlater ih =>
      by_cases hstride : s < n / 2
      · obtain ⟨leading, hleading⟩ := ih
        exact ⟨_, .more hdenotes hle hlt hpos hstride hleading⟩
      · exact ⟨∅, .wide hdenotes hle hlt (not_lt.mp hstride) (.inr ⟨later, rfl⟩)
          (.more hdenotes hle hlt hpos hlater)⟩

/-! ## What the rounds return -/

section Rounds

variable {perror : ℤ → ℤ} {n cpusetsize : ℕ} {mask : Finset ℕ}

/-- The stride of an item may also be too large for an `unsigned long`. -/
theorem wide_item_bad {a b s : ℕ} {tail : List Char} (hn : n < 2 ^ 31)
    (hdenotes : Denotes text a b s) (hend : RangeEnd tail) (hle : a ≤ b) (hlt : b < n)
    (hwide : n / 2 ≤ s) : (readListItem (text ++ tail)).bad n := by
  have hulong : ulongSize = 2 ^ 64 := rfl
  have hhalf : toUlong ((n : ℤ).tdiv 2) = n / 2 := toUlong_natCast (by omega : n / 2 < ulongSize)
  by_cases hs : s < ulongSize
  · rw [readListItem_denotes hdenotes hend (by omega) (by omega) hs]
    refine .inr (.inl ?_)
    rw [hhalf]
    exact hwide
  · refine .inr (.inr (.inl ?_))
    cases hdenotes with
    | single _ => omega
    | span _ _ => omega
    | strided hfirst hlast hstep =>
        unfold readListItem
        dsimp only
        rw [List.append_assoc, List.cons_append, List.append_assoc, List.cons_append,
          hfirst.strtoul_rest (noDigit_cons rfl _), skipChar_cons]
        dsimp only
        rw [hlast.strtoul_rest (noDigit_cons rfl _), skipChar_cons]
        dsimp only
        rw [hstep.strtoul_range hend.noDigit _ (not_lt.mp hs)]
        exact (by decide : ERANGE ≠ 0)

/-- On a list the rounds end with the CPUs of the leading items. -/
theorem LeadingCpus.returns {cpus leading : Finset ℕ} (hn : n < 2 ^ 31)
    (hleading : LeadingCpus n text cpus leading) (mask : Finset ℕ) :
    ∃ ret, Returns (fun fuel => listToMaskLoop perror n cpusetsize fuel text mask)
      (ret, mask ∪ leading.filter (· < 8 * cpusetsize)) := by
  induction hleading generalizing mask with
  | @last text a b s hdenotes hle hlt hpos hstride =>
      have hround : Returns (fun fuel => listToMaskLoop perror n cpusetsize fuel (text ++ []) mask)
          (0, mask ∪ (steps a b s).filter (· < 8 * cpusetsize)) :=
        listToMask_item hn hdenotes (.inl rfl) hle hlt (Nat.one_le_iff_ne_zero.mpr hpos) hstride rfl
      rw [List.append_nil] at hround
      exact ⟨0, hround⟩
  | @more text later a b s cpus leading hdenotes hle hlt hpos hstride _ ih =>
      obtain ⟨ret, hlater⟩ := ih (mask ∪ (steps a b s).filter (· < 8 * cpusetsize))
      rw [Finset.union_assoc, ← Finset.filter_union] at hlater
      exact ⟨ret, listToMask_item hn hdenotes (.inr ⟨later, rfl⟩) hle hlt
        (Nat.one_le_iff_ne_zero.mpr hpos) hstride hlater⟩
  | wide hdenotes hle hlt hwide hend _ =>
      have hbad := wide_item_bad hn hdenotes hend hle hlt hwide
      rw [Finset.filter_empty, Finset.union_empty]
      exact ⟨_, (listToMask_refused hbad).mpr rfl⟩

theorem refusedWithErrno_of_ne_zero {fuel : ℕ} {ret : ℤ} {result : Finset ℕ} (hret : ret ≠ 0)
    (hrun : listToMaskLoop perror n cpusetsize fuel text mask = some (ret, result)) :
    RefusedWithErrno perror n text := by
  induction fuel generalizing text mask with
  | zero => cases hrun
  | succ fuel ih =>
      rw [listToMaskLoop] at hrun
      split at hrun
      next hbad =>
        cases hrun
        exact ⟨text, .here text, hbad, neg_ne_zero.mp hret⟩
      next hgood =>
        obtain ⟨middle, -, hrun⟩ := Option.bind_eq_some_iff.mp hrun
        split at hrun
        next =>
          cases hrun
          exact absurd rfl hret
        next hrest =>
          obtain ⟨place, hround, hbad, herrno⟩ := ih hrun
          exact ⟨place, .later hgood hrest hround, hbad, herrno⟩

theorem returns_of_refusedWithErrno (hn : n < 2 ^ 31) (hends : ListEnds n text)
    (hrefused : RefusedWithErrno perror n text) (cpusetsize : ℕ) (mask : Finset ℕ) :
    ∃ ret ≠ 0, ∃ result,
      Returns (fun fuel => listToMaskLoop perror n cpusetsize fuel text mask) (ret, result) := by
  obtain ⟨place, hround, hbad, herrno⟩ := hrefused
  induction hround generalizing mask with
  | here text =>
      exact ⟨_, neg_ne_zero.mpr herrno, mask, (listToMask_refused hbad).mpr rfl⟩
  | later hgood hrest _ ih =>
      obtain ⟨hmoves, hlater⟩ := (listEnds_iff_of_good hgood).mp hends
      obtain ⟨hlast, hstride⟩ := ListItem.good_bounds hn hgood
      obtain ⟨middle, hwalk⟩ := (maskRange_ends_iff hlast hstride).mpr hmoves
      obtain ⟨ret, hret, result, hreturns⟩ := ih (hlater _ _ hrest) middle hbad herrno
      refine ⟨ret, hret, result, (listToMask_good hgood).mpr ⟨middle, hwalk, ?_⟩⟩
      rwa [hrest]

end Rounds

/-- The result of `list_to_mask` is right exactly if the rounds end and the first
item that is refused leaves an error number, or the text is a list whose leading
items have all its CPUs and the set has room for them.  In the first case the
callers pass the refusal on. -/
theorem lists_decided_iff {n : ℕ} (hn : n < 2 ^ 31) (perror : ℤ → ℤ) (text : List Char)
    (cpusetsize : ℕ) :
    ((∃ ret mask, Returns (fun fuel => listToMask perror n fuel text cpusetsize) (ret, mask) ∧
        (ret = 0 → CpuList n text mask) ∧ ((∀ cpus, ¬ CpuList n text cpus) → ret ≠ 0)) ↔
      (ListEnds n text ∧ RefusedWithErrno perror n text) ∨
        ∃ cpus leading, LeadingCpus n text cpus leading ∧
          leading.filter (· < 8 * cpusetsize) = cpus) ∧
    (ListEnds n text → RefusedWithErrno perror n text → ∀ setaffinity,
      Returns (fun fuel => threadBindCpulist perror n setaffinity fuel text) (-EINVAL) ∧
      Returns (fun fuel => processBindCpulist perror n setaffinity fuel text) (-EINVAL)) := by
  refine ⟨⟨?_, ?_⟩, ?_⟩
  · rintro ⟨ret, mask, hreturns, hlist, -⟩
    by_cases hret : ret = 0
    · obtain ⟨leading, hleading⟩ := (hlist hret).leadingCpus
      obtain ⟨ret', hreturns'⟩ : ∃ ret', Returns (fun fuel =>
          listToMaskLoop perror n cpusetsize fuel text ∅)
          (ret', ∅ ∪ leading.filter (· < 8 * cpusetsize)) := hleading.returns hn ∅
      rw [Finset.empty_union] at hreturns'
      have hmask := congrArg Prod.snd ((listToMaskLoop_steady text ∅).unique hreturns' hreturns)
      exact .inr ⟨mask, leading, hleading, hmask⟩
    · have hends := (listToMask_ends_iff hn text ∅).mp ⟨_, hreturns⟩
      obtain ⟨fuel, hrun⟩ := hreturns
      exact .inl ⟨hends, refusedWithErrno_of_ne_zero hret hrun⟩
  · rintro (⟨hends, hrefused⟩ | ⟨cpus, leading, hleading, hroom⟩)
    · obtain ⟨ret, hret, mask, hreturns⟩ := returns_of_refusedWithErrno hn hends hrefused _ ∅
      exact ⟨ret, mask, hreturns, fun hzero => absurd hzero hret, fun _ => hret⟩
    · obtain ⟨ret, hreturns⟩ := hleading.returns hn ∅
      rw [hroom, Finset.empty_union] at hreturns
      exact ⟨ret, cpus, hreturns, fun _ => hleading.cpuList,
        fun hnone => absurd hleading.cpuList (hnone cpus)⟩
  · intro hends hrefused setaffinity
    obtain ⟨ret, hret, mask, fuel, hrun⟩ :=
      returns_of_refusedWithErrno hn hends hrefused cpuSetBytes ∅
    dsimp only at hrun
    have hbind : bindCpulist perror n setaffinity fuel text = some (-EINVAL) := by
      unfold bindCpulist listToMask
      rw [hrun]
      exact if_pos hret
    exact ⟨⟨fuel, hbind⟩, fuel, hbind⟩

/-- The list `0-3` on 2048 CPUs, which are more than the set has room for. -/
theorem lists_decided_large_machine :
    2048 < 2 ^ 31 ∧ ∃ ret mask,
      Returns (fun fuel => listToMask errnoKept (2048 : ℕ) fuel ['0', '-', '3'] cpuSetBytes)
        (ret, mask) ∧
      (ret = 0 → CpuList 2048 ['0', '-', '3'] mask) ∧
      ((∀ cpus, ¬ CpuList 2048 ['0', '-', '3'] cpus) → ret ≠ 0) := by
  have hitem : Denotes ['0', '-', '3'] 0 3 1 := .span (isNumber_toDigits 0) (isNumber_toDigits 3)
  refine ⟨by decide, (lists_decided_iff (by decide) errnoKept ['0', '-', '3'] cpuSetBytes).1.mpr ?_⟩
  exact .inr ⟨_, _, .last hitem (by decide) (by decide) (by decide) (by decide), by decide +kernel⟩

/-! ## What is taken for a list -/

theorem CpuList.chars {n : ℕ} {cpus : Finset ℕ} (hlist : CpuList n text cpus) :
    ∀ char ∈ text, char.isDigit = true ∨ char = '-' ∨ char = ':' ∨ char = ',' := by
  have hitem : ∀ {char : Char}, char.isDigit = true ∨ char = '-' ∨ char = ':' →
      char.isDigit = true ∨ char = '-' ∨ char = ':' ∨ char = ',' := by
    intro char hchar
    tauto
  induction hlist with
  | last hdenotes _ _ _ => exact fun char hchar => hitem (hdenotes.chars char hchar)
  | more hdenotes _ _ _ _ ih =>
      intro char hchar
      rcases List.mem_append.mp hchar with hchar | hchar
      · exact hitem (hdenotes.chars char hchar)
      rcases List.mem_cons.mp hchar with rfl | hchar
      · exact .inr (.inr (.inr rfl))
      exact ih char hchar

/-- The list `0,x` on 8 CPUs. -/
theorem bad_list_bound_in_part :
    (∀ cpus, ¬ CpuList 8 ['0', ',', 'x'] cpus) ∧
      listToMask errnoKept 8 20 ['0', ',', 'x'] cpuSetBytes = some (0, {0}) ∧
      ∀ setaffinity, threadBindCpulist errnoKept 8 setaffinity 20 ['0', ',', 'x'] =
        some (setaffinity {0}) := by
  have hparse : listToMask errnoKept 8 20 ['0', ',', 'x'] cpuSetBytes = some (0, {0}) := by
    decide +kernel
  refine ⟨?_, hparse, ?_⟩
  · intro cpus hlist
    have hchar := hlist.chars 'x' (by decide)
    exact absurd hchar (by decide)
  · intro setaffinity
    unfold threadBindCpulist bindCpulist
    rw [hparse]
    rfl

end WaycaScheduler
