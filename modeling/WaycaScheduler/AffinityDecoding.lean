import WaycaScheduler.AffinityBitmap
import Mathlib.Data.List.TakeWhile

/-!
# Reading any affinity text

`bitmap_str_to_cpumask` goes back from the newline, refuses the first character
that is neither a digit nor a comma, and has no bound on the digits before it.
An empty text it leaves with the negative of `errno`, which nothing has set.
-/

namespace WaycaScheduler

open Numerals

/-- The buffer after `memset` and `read`. -/
def readBuffer (bytes : List Char) : List Char :=
  bytes ++ List.replicate (PATH_MAX - bytes.length) '\x00'

def lineOf (text : List Char) : List Char :=
  text.takeWhile (· ≠ '\n')

/-- A line of hexadecimal groups whose value fits into the set. -/
def AffinityText (text : List Char) : Prop :=
  '\n' ∈ text ∧ HexGroups (lineOf text) ∧ hexValue (lineOf text) < 2 ^ CPU_SETSIZE

/-- The set is the value of the line, or a negative code is returned. -/
structure Decoded (text : List Char) (ret : ℤ) (set : BitVec CPU_SETSIZE) : Prop where
  zero_iff : ret = 0 ↔ AffinityText text
  value : ret = 0 → set.toNat = hexValue (lineOf text)
  negative : ret ≠ 0 → ret < 0

def groupChar (ch : Char) : Bool :=
  decide (ch = ',') || (hexDigit ch).isSome

def groupsBack (line : List Char) : List Char :=
  line.reverse.takeWhile groupChar

/-! ## Digits in any number -/

theorem orUnit_beyond {k : ℕ} (hk : 256 ≤ k) (cpuset : BitVec CPU_SETSIZE) (unit : BitVec 32) :
    orUnit cpuset (k / 8) unit = none := by
  apply if_neg
  have hhalves : CPU_SETSIZE / CHUNKSZ = 32 := rfl
  omega

theorem hexGroups_takeWhile (text : List Char) : HexGroups (text.takeWhile groupChar) := by
  intro ch hch
  have hgroup := List.mem_takeWhile_imp hch
  rw [groupChar, Bool.or_eq_true, decide_eq_true_eq] at hgroup
  exact hgroup

section Backwards

variable {before : List Char}

theorem bitmapStrLoop_overrun (hcount : 256 < digitCount hexDigit (before.takeWhile groupChar)) :
    bitmapStrLoop before 0 0 0 = none := by
  obtain ⟨run, tmp, more, d, hrun, hdigit, hfull⟩ := exists_digit_behind hcount
  have hbefore : before = run ++ tmp :: (more ++ before.dropWhile groupChar) := by
    rw [← List.cons_append, ← List.append_assoc, ← hrun, List.takeWhile_append_dropWhile]
  have hgroups : HexGroups run := by
    intro ch hch
    apply hexGroups_takeWhile before
    rw [hrun]
    exact List.mem_append_left _ hch
  have hzero : (0 : BitVec CPU_SETSIZE).toNat = 0 := BitVec.toNat_zero
  obtain ⟨next, hloop, -⟩ := bitmapStrLoop_groups (tmp :: (more ++ before.dropWhile groupChar))
    (k := 0) hgroups (by omega) (by rw [hzero]; decide)
  rw [← hbefore, hfull, bitmapStrLoop_digit hdigit, orUnit_beyond (by omega),
    Option.bind_none] at hloop
  exact hloop

theorem bitmapStrLoop_refused (hline : '\n' ∉ before)
    (hcount : digitCount hexDigit (before.takeWhile groupChar) ≤ 256)
    (hbad : ¬ HexGroups before) :
    ∃ next, bitmapStrLoop before 0 0 0 = some (-EINVAL, next) := by
  have hzero : (0 : BitVec CPU_SETSIZE).toNat = 0 := BitVec.toNat_zero
  obtain ⟨next, hloop, -⟩ := bitmapStrLoop_groups (before.dropWhile groupChar) (k := 0)
    (hexGroups_takeWhile before) (by omega) (by rw [hzero]; decide)
  rw [List.takeWhile_append_dropWhile] at hloop
  cases hrest : before.dropWhile groupChar with
  | nil =>
      have hall := List.takeWhile_append_dropWhile (p := groupChar) (l := before)
      rw [hrest, List.append_nil] at hall
      rw [← hall] at hbad
      exact absurd (hexGroups_takeWhile before) hbad
  | cons tmp rest =>
      have hgroup : ¬ groupChar tmp = true := by
        have hhead := List.head_dropWhile_not groupChar (l := before) (by simp [hrest])
        simp only [hrest, List.head_cons] at hhead
        simp [hhead]
      rw [groupChar, Bool.or_eq_true, decide_eq_true_eq, not_or] at hgroup
      have hmem : tmp ∈ before := by
        apply List.dropWhile_subset groupChar
        rw [hrest]
        exact List.mem_cons_self
      have hnewline : tmp ≠ '\n' := fun heq => hline (heq ▸ hmem)
      have hnone : hexDigit tmp = none := Option.not_isSome_iff_eq_none.mp hgroup.2
      rw [hrest, bitmapStrLoop_other hnone hnewline, if_neg hgroup.1] at hloop
      exact ⟨next, hloop⟩

end Backwards

theorem cString_readBuffer (bytes : List Char) : cString (readBuffer bytes) = cString bytes := by
  unfold cString readBuffer
  rw [List.takeWhile_append]
  split
  next hwhole =>
    have hnulls : ∀ count, (List.replicate count '\x00').takeWhile (· ≠ '\x00') = [] := by
      intro count
      cases count with
      | zero => rfl
      | succ count => rfl
    rw [hnulls, List.append_nil]
    have htaken := List.takeWhile_prefix (l := bytes) (· ≠ '\x00')
    exact (htaken.eq_of_length hwhole).symm
  next => rfl

theorem not_mem_lineOf (text : List Char) : '\n' ∉ lineOf text := by
  intro hin
  have hother := List.mem_takeWhile_imp hin
  simp at hother

theorem digitCount_groupsBack {line : List Char} (hgroups : HexGroups line) :
    digitCount hexDigit (groupsBack line) = digitCount hexDigit line := by
  have hall : line.reverse.takeWhile groupChar = line.reverse := by
    apply List.takeWhile_eq_self_iff.mpr
    intro ch hch
    rw [groupChar, Bool.or_eq_true, decide_eq_true_eq]
    exact hgroups ch (List.mem_reverse.mp hch)
  unfold groupsBack
  rw [hall]
  exact List.countP_reverse

section Decoding

variable {text : List Char}

theorem bitmapStrLoop_decoded (hnewline : '\n' ∈ text)
    (hcount : digitCount hexDigit (groupsBack (lineOf text)) ≤ 256) :
    ∃ ret set, bitmapStrLoop (lineOf text).reverse 0 0 0 = some (ret, set) ∧
      Decoded text ret set := by
  by_cases hgroups : HexGroups (lineOf text)
  · have hreverse : HexGroups (lineOf text).reverse :=
      fun ch hch => hgroups ch (List.mem_reverse.mp hch)
    have hdigits : digitCount hexDigit (lineOf text).reverse ≤ 256 := by
      rw [digitCount_groupsBack hgroups] at hcount
      exact List.countP_reverse.trans_le hcount
    obtain ⟨set, hloop, hset⟩ := bitmapStrLoop_value hreverse hdigits
    rw [List.reverse_reverse] at hset
    refine ⟨0, set, hloop, ?_, fun _ => hset, fun hne => absurd rfl hne⟩
    refine ⟨fun _ => ⟨hnewline, hgroups, ?_⟩, fun _ => rfl⟩
    rw [← hset]
    exact set.isLt
  · have hbad : ¬ HexGroups (lineOf text).reverse :=
      fun hreverse => hgroups fun ch hch => hreverse ch (List.mem_reverse.mpr hch)
    have hline : '\n' ∉ (lineOf text).reverse :=
      fun hin => not_mem_lineOf text (List.mem_reverse.mp hin)
    obtain ⟨set, hloop⟩ := bitmapStrLoop_refused hline hcount hbad
    have hneg : -EINVAL < 0 := by decide
    refine ⟨-EINVAL, set, hloop, ?_, fun hzero => absurd hzero hneg.ne, fun _ => hneg⟩
    exact ⟨fun hzero => absurd hzero hneg.ne, fun haccepted => absurd haccepted.2.1 hgroups⟩

theorem decoded_negative {ret : ℤ} (hnewline : '\n' ∉ text) (hneg : ret < 0)
    (set : BitVec CPU_SETSIZE) : Decoded text ret set :=
  ⟨⟨fun hzero => absurd hzero hneg.ne, fun haccepted => absurd haccepted.1 hnewline⟩,
    fun hzero => absurd hzero hneg.ne, fun _ => hneg⟩

end Decoding

/-- The text is decoded exactly when an empty read has left an error, and the
digits and commas at the end of the line have at most 256 digits. -/
theorem affinity_decoded_iff (bytes : List Char) (errno : ℤ) (old : BitVec CPU_SETSIZE) :
    (∃ ret set, bitmapStrToCpumask (readBuffer bytes) bytes.length errno old = some (ret, set) ∧
      Decoded (cString bytes) ret set) ↔
    (bytes = [] → 0 < errno) ∧
      ('\n' ∈ cString bytes →
        digitCount hexDigit (groupsBack (lineOf (cString bytes))) ≤ 256) := by
  unfold bitmapStrToCpumask
  rw [cString_readBuffer]
  by_cases hempty : bytes = []
  · subst hempty
    have hnewline : '\n' ∉ cString [] := List.not_mem_nil
    have hlength : ([] : List Char).length ≤ 0 := le_refl 0
    rw [if_pos hlength]
    constructor
    · rintro ⟨ret, set, hresult, hdecoded⟩
      rw [Option.some.injEq, Prod.mk.injEq] at hresult
      refine ⟨fun _ => ?_, fun hin => absurd hin hnewline⟩
      have hne : ret ≠ 0 := fun hzero => hnewline (hdecoded.zero_iff.mp hzero).1
      have hneg := hdecoded.negative hne
      omega
    · rintro ⟨herrno, -⟩
      exact ⟨-errno, old, rfl, decoded_negative hnewline (by have := herrno rfl; omega) old⟩
  · have hlength : ¬ bytes.length ≤ 0 := by
      rw [Nat.le_zero, List.length_eq_zero_iff]
      exact hempty
    rw [if_neg hlength]
    by_cases hnewline : '\n' ∈ cString bytes
    · rw [if_neg (not_not.mpr hnewline)]
      change (∃ ret set, bitmapStrLoop (lineOf (cString bytes)).reverse 0 0 0 = _ ∧ _) ↔ _
      constructor
      · rintro ⟨ret, set, hresult, -⟩
        refine ⟨fun hnil => absurd hnil hempty, fun _ => ?_⟩
        by_contra hmore
        rw [bitmapStrLoop_overrun (not_le.mp hmore)] at hresult
        cases hresult
      · rintro ⟨-, hcount⟩
        exact bitmapStrLoop_decoded hnewline (hcount hnewline)
    · rw [if_pos hnewline]
      constructor
      · intro _
        exact ⟨fun hnil => absurd hnil hempty, fun hin => absurd hin hnewline⟩
      · intro _
        exact ⟨-EINVAL, old, rfl, decoded_negative hnewline (by decide) old⟩

/-- The line of a kernel with 1028 CPUs, and a read that returns nothing. -/
theorem wide_affinity_overruns_set :
    AffinityText (cString (List.replicate 257 '0' ++ ['\n'])) ∧
      bitmapStrToCpumask (readBuffer (List.replicate 257 '0' ++ ['\n'])) 258 0 0 = none ∧
      ¬ AffinityText (cString []) ∧ bitmapStrToCpumask (readBuffer []) 0 0 0 = some (0, 0) := by
  refine ⟨⟨?_, ?_, ?_⟩, ?_, fun haccepted => List.not_mem_nil haccepted.1, rfl⟩
  · decide +kernel
  · decide +kernel
  · decide +kernel
  · decide +kernel

end WaycaScheduler
