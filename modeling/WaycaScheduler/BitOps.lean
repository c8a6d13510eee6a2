import WaycaScheduler.Library.BitSearch
import WaycaScheduler.CpuSet

/-!
# The bit searches

`bitops.h` looks for a bit in an array of words.  Each search has a body for a
size that the compiler knows and that is at most a word, and one that goes from
word to word.  A word outside the array is not there to be read, and the
positions are numbers without a bound.
-/

namespace WaycaScheduler

open BitSearch

def BITS_PER_LONG : ℕ := 64

/-- `small_const_nbits`; whether the compiler knows the number is given. -/
def smallConstNbits (constant : Bool) (nbits : ℕ) : Bool :=
  constant && decide (nbits ≤ BITS_PER_LONG) && decide (0 < nbits)

/-- `GENMASK` -/
def genmask (h l : ℕ) : BitVec BITS_PER_LONG :=
  (BitVec.allOnes BITS_PER_LONG - (BitVec.ofNat BITS_PER_LONG 1 <<< l) +
    BitVec.ofNat BITS_PER_LONG 1) &&&
      (BitVec.allOnes BITS_PER_LONG >>> (BITS_PER_LONG - 1 - h))

/-- `__builtin_ffsl` -/
def builtinFfsl (word : BitVec BITS_PER_LONG) : ℕ :=
  if word = 0 then 0 else word.ctz.toNat + 1

/-- `__ffs` -/
def ffs (word : BitVec BITS_PER_LONG) : ℕ :=
  if word ≠ 0 then builtinFfsl word - 1 else BITS_PER_LONG

/-- `__ffz` -/
def ffz (word : BitVec BITS_PER_LONG) : ℕ := ffs (~~~word)

/-- `__fls` -/
def fls (word : BitVec BITS_PER_LONG) : ℕ :=
  if word ≠ 0 then BITS_PER_LONG - word.clz.toNat - 1 else BITS_PER_LONG

/-- `round_down` for a power of two. -/
def roundDown (x y : ℕ) : ℕ := x / y * y

/-- `while (!tmp)`, with the words behind the one of `start`. -/
def findNextLoop (nbits : ℕ) (invert : BitVec BITS_PER_LONG) :
    List (BitVec BITS_PER_LONG) → ℕ → BitVec BITS_PER_LONG → Option ℕ
  | [], start, tmp =>
      if tmp ≠ 0 then some (min (start + ffs tmp) nbits)
      else if nbits ≤ start + BITS_PER_LONG then some nbits
      else none
  | word :: later, start, tmp =>
      if tmp ≠ 0 then some (min (start + ffs tmp) nbits)
      else if nbits ≤ start + BITS_PER_LONG then some nbits
      else findNextLoop nbits invert later (start + BITS_PER_LONG) (word ^^^ invert)

/-- `_find_next_bit`, for a start within the number of bits. -/
def findNextBitFrom (addr : List (BitVec BITS_PER_LONG)) (nbits start : ℕ)
    (invert : BitVec BITS_PER_LONG) : Option ℕ := do
  let tmp ← addr[start / BITS_PER_LONG]?
  let mask := BitVec.allOnes BITS_PER_LONG <<< (start &&& (BITS_PER_LONG - 1))
  findNextLoop nbits invert (addr.drop (start / BITS_PER_LONG + 1))
    (roundDown start BITS_PER_LONG) ((tmp ^^^ invert) &&& mask)

def findNextBit (constant : Bool) (addr : List (BitVec BITS_PER_LONG)) (size offset : ℕ) :
    Option ℕ :=
  if size ≤ offset then some size
  else if smallConstNbits constant size then do
    let val := (← addr[0]?) &&& genmask (size - 1) offset
    some (if val ≠ 0 then ffs val else size)
  else findNextBitFrom addr size offset 0

def findNextZeroBit (constant : Bool) (addr : List (BitVec BITS_PER_LONG)) (size offset : ℕ) :
    Option ℕ :=
  if size ≤ offset then some size
  else if smallConstNbits constant size then do
    let val := (← addr[0]?) ||| ~~~genmask (size - 1) offset
    some (if val = BitVec.allOnes BITS_PER_LONG then size else ffz val)
  else findNextBitFrom addr size offset (BitVec.allOnes BITS_PER_LONG)

/-- The loop of `find_first_bit` and `find_first_zero_bit`, from word `idx` on.
A word without the bit that is looked for is passed over. -/
def findFirstLoop (skip : BitVec BITS_PER_LONG) (find : BitVec BITS_PER_LONG → ℕ) (size : ℕ) :
    List (BitVec BITS_PER_LONG) → ℕ → Option ℕ
  | [], idx => if idx * BITS_PER_LONG < size then none else some size
  | word :: later, idx =>
      if idx * BITS_PER_LONG < size then
        if word ≠ skip then some (min (idx * BITS_PER_LONG + find word) size)
        else findFirstLoop skip find size later (idx + 1)
      else some size

def findFirstBit (constant : Bool) (addr : List (BitVec BITS_PER_LONG)) (size : ℕ) : Option ℕ :=
  if smallConstNbits constant size then do
    let val := (← addr[0]?) &&& genmask (size - 1) 0
    some (if val ≠ 0 then ffs val else size)
  else findFirstLoop 0 ffs size addr 0

def findFirstZeroBit (constant : Bool) (addr : List (BitVec BITS_PER_LONG)) (size : ℕ) :
    Option ℕ :=
  if smallConstNbits constant size then do
    let val := (← addr[0]?) ||| ~~~genmask (size - 1) 0
    some (if val = BitVec.allOnes BITS_PER_LONG then size else ffz val)
  else findFirstLoop (BitVec.allOnes BITS_PER_LONG) ffz size addr 0

/-- `do { .. } while (idx--)` -/
def findLastLoop (addr : List (BitVec BITS_PER_LONG)) (size : ℕ) :
    ℕ → BitVec BITS_PER_LONG → Option ℕ
  | 0, val => do
      let val := val &&& (← addr[0]?)
      some (if val ≠ 0 then fls val else size)
  | idx + 1, val => do
      let val := val &&& (← addr[idx + 1]?)
      if val ≠ 0 then some ((idx + 1) * BITS_PER_LONG + fls val)
      else findLastLoop addr size idx (BitVec.allOnes BITS_PER_LONG)

def findLastBit (constant : Bool) (addr : List (BitVec BITS_PER_LONG)) (size : ℕ) : Option ℕ :=
  if smallConstNbits constant size then do
    let val := (← addr[0]?) &&& genmask (size - 1) 0
    some (if val ≠ 0 then fls val else size)
  else
    let val := BitVec.allOnes BITS_PER_LONG >>>
      (-BitVec.ofNat BITS_PER_LONG size &&& BitVec.ofNat BITS_PER_LONG (BITS_PER_LONG - 1)).toNat
    findLastLoop addr size ((size - 1) / BITS_PER_LONG) val

section Words

variable {word : BitVec BITS_PER_LONG} {h l j : ℕ}

theorem ffs_eq (hword : word ≠ 0) : ffs word = word.ctz.toNat := by
  unfold ffs builtinFfsl
  rw [if_pos hword, if_neg hword, Nat.add_sub_cancel]

theorem fls_eq (hword : word ≠ 0) : fls word = BITS_PER_LONG - 1 - word.clz.toNat := by
  unfold fls
  rw [if_pos hword]
  omega

theorem getLsbD_genmask (hh : h < BITS_PER_LONG) (hl : l < BITS_PER_LONG) :
    (genmask h l).getLsbD j = (decide (l ≤ j) && decide (j ≤ h)) := by
  have hupper : BitVec.allOnes BITS_PER_LONG - (BitVec.ofNat BITS_PER_LONG 1 <<< l) +
      BitVec.ofNat BITS_PER_LONG 1 = -(BitVec.ofNat BITS_PER_LONG 1 <<< l) := by
    rw [BitVec.allOnes_sub_eq_not, BitVec.neg_eq_not_add]
  have hone : ∀ i, (BitVec.ofNat BITS_PER_LONG 1 <<< l).getLsbD i = decide (i = l) := by
    intro i
    rw [← BitVec.twoPow_eq, BitVec.getLsbD_twoPow]
    by_cases hi : i = l
    · simp [hi, hl]
    · simp [hi, Ne.symm hi]
  unfold genmask
  rw [hupper, BitVec.getLsbD_and, BitVec.getLsbD_neg, BitVec.getLsbD_ushiftRight,
    BitVec.getLsbD_allOnes]
  simp only [hone, decide_eq_true_eq, exists_eq_right]
  have hshift : (BITS_PER_LONG - 1 - h + j < BITS_PER_LONG) ↔ j ≤ h := by omega
  simp only [hshift]
  by_cases hj : j ≤ h
  · have hlt : j < BITS_PER_LONG := by omega
    simp only [hlt, hj, decide_true, Bool.true_and, Bool.and_true]
    rcases lt_trichotomy j l with hjl | rfl | hjl
    · simp [hjl.ne, hjl.not_ge, hjl.le]
    · simp
    · simp [hjl.ne', hjl.le, hjl]
  · simp [hj]

end Words

/-! ## The searches from word to word -/

section Loops

variable {addr : List (BitVec BITS_PER_LONG)} {size offset : ℕ}

theorem bitAt_in_word {k i : ℕ} {word : BitVec BITS_PER_LONG} (hword : addr[k]? = some word)
    (hle : BITS_PER_LONG * k ≤ i) (hlt : i < BITS_PER_LONG * (k + 1)) :
    bitAt addr i = word.getLsbD (i - BITS_PER_LONG * k) := by
  rw [Nat.mul_succ] at hlt
  rw [← bitAt_word hword (by omega), Nat.add_sub_cancel' hle]

section Next

variable {invert tmp : BitVec BITS_PER_LONG} {k : ℕ}

/-- What the loop knows at word `k`: no bit before it, and those of the word
from the offset on in `tmp`. -/
structure AtWord (addr : List (BitVec BITS_PER_LONG)) (invert : BitVec BITS_PER_LONG)
    (offset k : ℕ) (tmp : BitVec BITS_PER_LONG) : Prop where
  offset_lt : offset < BITS_PER_LONG * (k + 1)
  word : ∀ i, BITS_PER_LONG * k ≤ i → i < BITS_PER_LONG * (k + 1) →
    tmp.getLsbD (i - BITS_PER_LONG * k) =
      (decide (offset ≤ i) && bitAt (addr.map (· ^^^ invert)) i)
  none_before : ∀ i, offset ≤ i → i < BITS_PER_LONG * k →
    bitAt (addr.map (· ^^^ invert)) i = false

theorem AtWord.found (hat : AtWord addr invert offset k tmp) (htmp : tmp ≠ 0) :
    FindsLeast (bitAt (addr.map (· ^^^ invert))) offset size
      (min (BITS_PER_LONG * k + ffs tmp) size) := by
  obtain ⟨hlt, hset, hbefore⟩ := ctz_spec htmp
  rw [ffs_eq htmp]
  have hword := hat.word (BITS_PER_LONG * k + tmp.ctz.toNat) (by omega)
    (by rw [Nat.mul_succ]; omega)
  rw [Nat.add_sub_cancel_left, hset] at hword
  obtain ⟨hoffset, hbit⟩ := (Bool.and_eq_true _ _).mp hword.symm
  apply findsLeast_min (of_decide_eq_true hoffset) hbit
  intro i hi hpos
  by_cases hle : BITS_PER_LONG * k ≤ i
  · have hunset := hat.word i hle (by rw [Nat.mul_succ]; omega)
    rw [hbefore (i - BITS_PER_LONG * k) (by omega), decide_eq_true hi, Bool.true_and] at hunset
    exact hunset.symm
  · exact hat.none_before i hi (not_le.mp hle)

theorem AtWord.none_in_word (hat : AtWord addr invert offset k tmp) (htmp : tmp = 0) :
    ∀ i, offset ≤ i → i < BITS_PER_LONG * (k + 1) → bitAt (addr.map (· ^^^ invert)) i = false := by
  intro i hi hlt
  by_cases hle : BITS_PER_LONG * k ≤ i
  · have hunset := hat.word i hle hlt
    rw [getLsbD_of_eq_zero htmp, decide_eq_true hi, Bool.true_and] at hunset
    exact hunset.symm
  · exact hat.none_before i hi (not_le.mp hle)

theorem atWord_of_none_before {word : BitVec BITS_PER_LONG} (hword : addr[k]? = some word)
    (hoffset : offset ≤ BITS_PER_LONG * k)
    (hnone : ∀ i, offset ≤ i → i < BITS_PER_LONG * k →
      bitAt (addr.map (· ^^^ invert)) i = false) :
    AtWord addr invert offset k (word ^^^ invert) := by
  have hread : (addr.map (· ^^^ invert))[k]? = some (word ^^^ invert) := by
    rw [List.getElem?_map, hword, Option.map_some]
  refine ⟨?_, ?_, hnone⟩
  · exact lt_of_le_of_lt hoffset (Nat.mul_lt_mul_of_pos_left (Nat.lt_succ_self k) (by decide))
  · intro i hle hlt
    rw [bitAt_in_word hread hle hlt, decide_eq_true (hoffset.trans hle), Bool.true_and]

theorem findNextLoop_spec {later : List (BitVec BITS_PER_LONG)}
    (hlater : addr.drop (k + 1) = later) (hsize : size ≤ BITS_PER_LONG * addr.length)
    (hat : AtWord addr invert offset k tmp) :
    ∃ result, findNextLoop size invert later (BITS_PER_LONG * k) tmp = some result ∧
      FindsLeast (bitAt (addr.map (· ^^^ invert))) offset size result := by
  induction later generalizing k tmp with
  | nil =>
      have hend : size ≤ BITS_PER_LONG * k + BITS_PER_LONG := by
        have hlength : addr.length ≤ k + 1 := List.drop_eq_nil_iff.mp hlater
        rw [← Nat.mul_succ]
        exact le_trans hsize (Nat.mul_le_mul_left _ hlength)
      rw [findNextLoop]
      by_cases htmp : tmp = 0
      · rw [if_neg (not_not.mpr htmp), if_pos hend]
        refine ⟨size, rfl, findsLeast_none fun i hi hlt => ?_⟩
        apply hat.none_in_word htmp i hi
        rw [Nat.mul_succ]
        omega
      · rw [if_pos htmp]
        exact ⟨_, rfl, hat.found htmp⟩
  | cons word later ih =>
      rw [findNextLoop]
      by_cases htmp : tmp = 0
      · rw [if_neg (not_not.mpr htmp)]
        by_cases hend : size ≤ BITS_PER_LONG * k + BITS_PER_LONG
        · rw [if_pos hend]
          refine ⟨size, rfl, findsLeast_none fun i hi hlt => ?_⟩
          apply hat.none_in_word htmp i hi
          rw [Nat.mul_succ]
          omega
        · rw [if_neg hend, ← Nat.mul_succ]
          have hword : addr[k + 1]? = some word := by
            rw [← List.head?_drop, hlater, List.head?_cons]
          have hrest : addr.drop (k + 1 + 1) = later := by
            rw [← List.tail_drop, hlater, List.tail_cons]
          exact ih hrest (atWord_of_none_before hword hat.offset_lt.le (hat.none_in_word htmp))
      · rw [if_pos htmp]
        exact ⟨_, rfl, hat.found htmp⟩

theorem atWord_first {word : BitVec BITS_PER_LONG}
    (hword : addr[offset / BITS_PER_LONG]? = some word) (invert : BitVec BITS_PER_LONG) :
    AtWord addr invert offset (offset / BITS_PER_LONG) ((word ^^^ invert) &&&
      (BitVec.allOnes BITS_PER_LONG <<< (offset &&& (BITS_PER_LONG - 1)))) := by
  have hlong : BITS_PER_LONG = 64 := rfl
  have hread : (addr.map (· ^^^ invert))[offset / BITS_PER_LONG]? = some (word ^^^ invert) := by
    rw [List.getElem?_map, hword, Option.map_some]
  have hshift : offset &&& (BITS_PER_LONG - 1) = offset % BITS_PER_LONG :=
    Nat.and_two_pow_sub_one_eq_mod offset 6
  have hsplit := Nat.div_add_mod offset BITS_PER_LONG
  constructor
  · exact Nat.lt_mul_div_succ offset (by decide)
  · intro i hle hlt
    rw [bitAt_in_word hread hle hlt, BitVec.getLsbD_and, BitVec.getLsbD_shiftLeft,
      BitVec.getLsbD_allOnes, hshift, Bool.and_comm]
    rw [Nat.mul_succ] at hlt
    congr 1
    by_cases hi : offset ≤ i
    · have hnot : ¬ i - BITS_PER_LONG * (offset / BITS_PER_LONG) < offset % BITS_PER_LONG := by
        omega
      have hin : i - BITS_PER_LONG * (offset / BITS_PER_LONG) < BITS_PER_LONG := by omega
      have hin' : i - BITS_PER_LONG * (offset / BITS_PER_LONG) - offset % BITS_PER_LONG <
          BITS_PER_LONG := by omega
      simp [hi, hnot, hin, hin']
    · have hbelow : i - BITS_PER_LONG * (offset / BITS_PER_LONG) < offset % BITS_PER_LONG := by
        omega
      simp [hi, hbelow]
  · intro i hi hlt
    omega

theorem findNextBitFrom_spec (hsize : size ≤ BITS_PER_LONG * addr.length)
    (hoffset : offset < size) (invert : BitVec BITS_PER_LONG) :
    ∃ result, findNextBitFrom addr size offset invert = some result ∧
      FindsLeast (bitAt (addr.map (· ^^^ invert))) offset size result := by
  have hindex : offset / BITS_PER_LONG < addr.length :=
    Nat.div_lt_of_lt_mul (lt_of_lt_of_le hoffset hsize)
  have hword := List.getElem?_eq_getElem hindex
  unfold findNextBitFrom
  rw [hword]
  simp only [Option.bind_eq_bind, Option.bind_some]
  rw [roundDown, mul_comm]
  exact findNextLoop_spec rfl hsize (atWord_first hword invert)

theorem findFirstLoop_spec {find : BitVec BITS_PER_LONG → ℕ} {later : List (BitVec BITS_PER_LONG)}
    (invert : BitVec BITS_PER_LONG) (hfind : ∀ word, find word = ffs (word ^^^ invert))
    (hlater : addr.drop k = later) (hsize : size ≤ BITS_PER_LONG * addr.length)
    (hnone : ∀ i, 0 ≤ i → i < BITS_PER_LONG * k → bitAt (addr.map (· ^^^ invert)) i = false) :
    ∃ result, findFirstLoop invert find size later k = some result ∧
      FindsLeast (bitAt (addr.map (· ^^^ invert))) 0 size result := by
  induction later generalizing k with
  | nil =>
      have hlength : addr.length ≤ k := List.drop_eq_nil_iff.mp hlater
      have hend : size ≤ BITS_PER_LONG * k := le_trans hsize (Nat.mul_le_mul_left _ hlength)
      rw [findFirstLoop, mul_comm, if_neg (not_lt.mpr hend)]
      exact ⟨size, rfl, findsLeast_none fun i hi hlt => hnone i hi (lt_of_lt_of_le hlt hend)⟩
  | cons word later ih =>
      rw [findFirstLoop, mul_comm]
      by_cases hin : BITS_PER_LONG * k < size
      · rw [if_pos hin]
        have hword : addr[k]? = some word := by
          rw [← List.head?_drop, hlater, List.head?_cons]
        have hat := atWord_of_none_before hword (Nat.zero_le _) hnone
        by_cases hskip : word = invert
        · rw [if_neg (not_not.mpr hskip)]
          have hrest : addr.drop (k + 1) = later := by
            rw [← List.tail_drop, hlater, List.tail_cons]
          refine ih hrest (hat.none_in_word ?_)
          rw [hskip]
          exact BitVec.xor_self
        · rw [if_pos hskip, hfind]
          exact ⟨_, rfl, hat.found fun hzero => hskip (BitVec.xor_eq_zero_iff.mp hzero)⟩
      · rw [if_neg hin]
        refine ⟨size, rfl, findsLeast_none fun i hi hlt => hnone i hi ?_⟩
        exact lt_of_lt_of_le hlt (not_lt.mp hin)

end Next

section Last

variable {idx : ℕ} {word val : BitVec BITS_PER_LONG}

/-- What the loop knows at word `idx` on its way down: no bit behind it, and
`val` lets the bits below the size through. -/
structure DownAtWord (addr : List (BitVec BITS_PER_LONG)) (size idx : ℕ)
    (val : BitVec BITS_PER_LONG) : Prop where
  mask : ∀ i, BITS_PER_LONG * idx ≤ i → i < BITS_PER_LONG * (idx + 1) →
    val.getLsbD (i - BITS_PER_LONG * idx) = decide (i < size)
  none_behind : ∀ i < size, BITS_PER_LONG * (idx + 1) ≤ i → bitAt addr i = false

section

variable (hdown : DownAtWord addr size idx val) (hword : addr[idx]? = some word)

include hdown hword

theorem DownAtWord.masked {i : ℕ} (hle : BITS_PER_LONG * idx ≤ i)
    (hlt : i < BITS_PER_LONG * (idx + 1)) :
    (val &&& word).getLsbD (i - BITS_PER_LONG * idx) = (decide (i < size) && bitAt addr i) := by
  rw [BitVec.getLsbD_and, hdown.mask i hle hlt, bitAt_in_word hword hle hlt]

theorem DownAtWord.found (hmasked : val &&& word ≠ 0) :
    FindsGreatest (bitAt addr) size (BITS_PER_LONG * idx + fls (val &&& word)) := by
  obtain ⟨hlt, hset, hbehind⟩ := clz_spec hmasked
  rw [← fls_eq hmasked] at hlt hset hbehind
  have hbit := hdown.masked hword (i := BITS_PER_LONG * idx + fls (val &&& word)) (by omega)
    (by rw [Nat.mul_succ]; omega)
  rw [Nat.add_sub_cancel_left, hset] at hbit
  obtain ⟨hsize, hbit⟩ := (Bool.and_eq_true _ _).mp hbit.symm
  apply findsGreatest_of (of_decide_eq_true hsize) hbit
  intro i hi hgt
  by_cases hin : i < BITS_PER_LONG * (idx + 1)
  · have hunset := hdown.masked hword (by omega : BITS_PER_LONG * idx ≤ i) hin
    rw [hbehind (i - BITS_PER_LONG * idx) (by omega), decide_eq_true hi, Bool.true_and] at hunset
    exact hunset.symm
  · exact hdown.none_behind i hi (not_lt.mp hin)

theorem DownAtWord.none_from (hmasked : val &&& word = 0) :
    ∀ i < size, BITS_PER_LONG * idx ≤ i → bitAt addr i = false := by
  intro i hi hle
  by_cases hin : i < BITS_PER_LONG * (idx + 1)
  · have hunset := hdown.masked hword hle hin
    rw [getLsbD_of_eq_zero hmasked, decide_eq_true hi, Bool.true_and] at hunset
    exact hunset.symm
  · exact hdown.none_behind i hi (not_lt.mp hin)

end

theorem findLastLoop_spec (hidx : BITS_PER_LONG * idx < size)
    (hsize : size ≤ BITS_PER_LONG * addr.length) (hdown : DownAtWord addr size idx val) :
    ∃ result, findLastLoop addr size idx val = some result ∧
      FindsGreatest (bitAt addr) size result := by
  have hinside : idx < addr.length :=
    lt_of_mul_lt_mul_left (lt_of_lt_of_le hidx hsize) (Nat.zero_le _)
  have hword := List.getElem?_eq_getElem hinside
  induction idx generalizing val with
  | zero =>
      rw [findLastLoop, hword]
      simp only [Option.bind_eq_bind, Option.bind_some]
      by_cases hmasked : val &&& addr[0] = 0
      · rw [if_neg (not_not.mpr hmasked)]
        refine ⟨size, rfl, findsGreatest_none fun i hi => ?_⟩
        exact hdown.none_from hword hmasked i hi (by omega)
      · rw [if_pos hmasked]
        refine ⟨_, rfl, ?_⟩
        have hfound := hdown.found hword hmasked
        rwa [Nat.mul_zero, Nat.zero_add] at hfound
  | succ idx ih =>
      rw [findLastLoop, hword]
      simp only [Option.bind_eq_bind, Option.bind_some]
      by_cases hmasked : val &&& addr[idx + 1] = 0
      · rw [if_neg (not_not.mpr hmasked)]
        rw [Nat.mul_succ] at hidx
        have hbelow : idx < addr.length := by omega
        apply ih (by omega) _ hbelow (List.getElem?_eq_getElem hbelow)
        refine ⟨?_, hdown.none_from hword hmasked⟩
        intro i hle hlt
        rw [Nat.mul_succ] at hlt
        rw [BitVec.getLsbD_allOnes, decide_eq_true (by omega), decide_eq_true (by omega)]
      · rw [if_pos hmasked, mul_comm]
        exact ⟨_, rfl, hdown.found hword hmasked⟩

theorem downAtWord_last (addr : List (BitVec BITS_PER_LONG)) (hpos : 1 ≤ size) :
    DownAtWord addr size ((size - 1) / BITS_PER_LONG) (BitVec.allOnes BITS_PER_LONG >>>
      (-BitVec.ofNat BITS_PER_LONG size &&&
        BitVec.ofNat BITS_PER_LONG (BITS_PER_LONG - 1)).toNat) := by
  have hlong : BITS_PER_LONG = 64 := rfl
  have hshift : (-BitVec.ofNat BITS_PER_LONG size &&&
      BitVec.ofNat BITS_PER_LONG (BITS_PER_LONG - 1)).toNat = (64 - size % 64) % 64 := by
    have hmask : (BitVec.ofNat BITS_PER_LONG (BITS_PER_LONG - 1)).toNat = 2 ^ 6 - 1 := rfl
    rw [BitVec.toNat_and, hmask, Nat.and_two_pow_sub_one_eq_mod, BitVec.toNat_neg,
      BitVec.toNat_ofNat, hlong]
    omega
  have hsplit := Nat.div_add_mod (size - 1) BITS_PER_LONG
  have hrest : (size - 1) % BITS_PER_LONG = (size - 1) % 64 := rfl
  constructor
  · intro i hle hlt
    rw [Nat.mul_succ] at hlt
    rw [BitVec.getLsbD_ushiftRight, BitVec.getLsbD_allOnes, hshift]
    apply decide_eq_decide.mpr
    omega
  · intro i hi hle
    rw [Nat.mul_succ] at hle
    omega

end Last

end Loops

/-! ## The searches inside one word -/

section Small

variable {bits : ℕ → Bool} {size offset : ℕ} {val : BitVec BITS_PER_LONG}

theorem findsLeast_small (hsize : size ≤ BITS_PER_LONG) (hval : ∀ j < BITS_PER_LONG,
      val.getLsbD j = (decide (offset ≤ j) && decide (j < size) && bits j)) :
    FindsLeast bits offset size (if val ≠ 0 then ffs val else size) := by
  by_cases hzero : val = 0
  · rw [if_neg (not_not.mpr hzero)]
    apply findsLeast_none
    intro i hi hlt
    have hunset := hval i (by omega)
    rw [getLsbD_of_eq_zero hzero, decide_eq_true hi, decide_eq_true hlt] at hunset
    exact hunset.symm
  · obtain ⟨hlt, hset, hbefore⟩ := ctz_spec hzero
    rw [if_pos hzero, ffs_eq hzero]
    have hfound := hval _ hlt
    rw [hset] at hfound
    simp only [Bool.true_eq, Bool.and_eq_true, decide_eq_true_eq] at hfound
    obtain ⟨⟨hoffset, hbelow⟩, hbit⟩ := hfound
    refine ⟨hbelow.le, fun _ => ⟨hoffset, hbit⟩, ?_⟩
    intro i hi hpos
    have hunset := hval i (by omega)
    rw [hbefore i hpos, decide_eq_true hi, decide_eq_true (by omega : i < size)] at hunset
    exact hunset.symm

theorem findsGreatest_small (hsize : size ≤ BITS_PER_LONG)
    (hval : ∀ j < BITS_PER_LONG, val.getLsbD j = (decide (j < size) && bits j)) :
    FindsGreatest bits size (if val ≠ 0 then fls val else size) := by
  by_cases hzero : val = 0
  · rw [if_neg (not_not.mpr hzero)]
    apply findsGreatest_none
    intro i hlt
    have hunset := hval i (by omega)
    rw [getLsbD_of_eq_zero hzero, decide_eq_true hlt] at hunset
    exact hunset.symm
  · obtain ⟨hlt, hset, hbehind⟩ := clz_spec hzero
    rw [if_pos hzero, fls_eq hzero]
    have hfound := hval _ hlt
    rw [hset] at hfound
    simp only [Bool.true_eq, Bool.and_eq_true, decide_eq_true_eq] at hfound
    apply findsGreatest_of hfound.1 hfound.2
    intro i hi hgt
    have hunset := hval i (by omega)
    rw [hbehind i hgt, decide_eq_true hi] at hunset
    exact hunset.symm

end Small

/-! ## The five searches -/

section Searches

variable {addr : List (BitVec BITS_PER_LONG)} {size : ℕ}

theorem bitAt_not {i : ℕ} (hi : i < BITS_PER_LONG * addr.length) :
    bitAt (addr.map (~~~ ·)) i = !bitAt addr i := by
  have hindex : i / BITS_PER_LONG < addr.length := Nat.div_lt_of_lt_mul hi
  have hbit : i % BITS_PER_LONG < BITS_PER_LONG := Nat.mod_lt i (by decide)
  unfold bitAt
  rw [List.getElem?_map, List.getElem?_eq_getElem hindex]
  simp [hbit]

theorem getLsbD_masked (hpos : 1 ≤ size) (hsmall : size ≤ BITS_PER_LONG) {offset : ℕ}
    (hoffset : offset < size) {word : BitVec BITS_PER_LONG} (hword : addr[0]? = some word)
    {j : ℕ} (hj : j < BITS_PER_LONG) :
    (word &&& genmask (size - 1) offset).getLsbD j =
      (decide (offset ≤ j) && decide (j < size) && bitAt addr j) := by
  have hbit := bitAt_word hword hj
  rw [Nat.mul_zero, Nat.zero_add] at hbit
  rw [BitVec.getLsbD_and, getLsbD_genmask (by omega) (by omega), hbit, Bool.and_comm]
  congr 2
  apply decide_eq_decide.mpr
  omega

theorem ffz_masked (word mask : BitVec BITS_PER_LONG) (size : ℕ) :
    (if word ||| ~~~mask = BitVec.allOnes BITS_PER_LONG then size else ffz (word ||| ~~~mask)) =
      if ~~~word &&& mask ≠ 0 then ffs (~~~word &&& mask) else size := by
  have hnot : ~~~(word ||| ~~~mask) = ~~~word &&& mask := by
    rw [BitVec.not_or, BitVec.not_not]
  have hzero : word ||| ~~~mask = BitVec.allOnes BITS_PER_LONG ↔ ~~~word &&& mask = 0 := by
    rw [← hnot]
    constructor
    · intro hall
      rw [hall, BitVec.not_allOnes]
      rfl
    · intro hnone
      rw [← BitVec.not_not (b := word ||| ~~~mask), hnone]
      exact BitVec.not_zero
  rw [ffz, hnot]
  by_cases hmasked : ~~~word &&& mask = 0
  · rw [if_pos (hzero.mpr hmasked), if_neg (not_not.mpr hmasked)]
  · rw [if_neg (fun hall => hmasked (hzero.mp hall)), if_pos hmasked]

variable (hpos : 1 ≤ size) (hsize : size ≤ BITS_PER_LONG * addr.length) (constant : Bool)

include hpos hsize

theorem first_word : ∃ word, addr[0]? = some word := by
  have hlength : 0 < addr.length := by
    by_contra hempty
    rw [Nat.eq_zero_of_not_pos hempty, Nat.mul_zero] at hsize
    omega
  exact ⟨_, List.getElem?_eq_getElem hlength⟩

omit hpos in
theorem findsLeast_zero {offset result : ℕ}
    (hfinds : FindsLeast (bitAt (addr.map (~~~ ·))) offset size result) :
    FindsLeast (fun i => !bitAt addr i) offset size result :=
  hfinds.congr fun _ hi => (bitAt_not (lt_of_lt_of_le hi hsize)).symm

section Small

variable {constant : Bool} {offset : ℕ} (hsmall : smallConstNbits constant size = true)
  (hoffset : offset < size)

include hsmall hoffset

theorem small_least :
    ∃ word, addr[0]? = some word ∧ FindsLeast (bitAt addr) offset size
      (if word &&& genmask (size - 1) offset ≠ 0 then ffs (word &&& genmask (size - 1) offset)
        else size) := by
  obtain ⟨word, hword⟩ := first_word hpos hsize
  simp only [smallConstNbits, Bool.and_eq_true, decide_eq_true_eq] at hsmall
  exact ⟨word, hword, findsLeast_small hsmall.1.2 fun j hj =>
    getLsbD_masked hpos hsmall.1.2 hoffset hword hj⟩

theorem small_leastZero :
    ∃ word, addr[0]? = some word ∧ FindsLeast (fun i => !bitAt addr i) offset size
      (if word ||| ~~~genmask (size - 1) offset = BitVec.allOnes BITS_PER_LONG then size
        else ffz (word ||| ~~~genmask (size - 1) offset)) := by
  have hsize' : size ≤ BITS_PER_LONG * (addr.map (~~~ ·)).length := by
    rwa [List.length_map]
  obtain ⟨_, hread, hfinds⟩ := small_least hpos hsize' hsmall hoffset
  rw [List.getElem?_map] at hread
  obtain ⟨word, hword, rfl⟩ := Option.map_eq_some_iff.mp hread
  refine ⟨word, hword, ?_⟩
  rw [ffz_masked]
  exact findsLeast_zero hsize hfinds

end Small

theorem findNextBit_spec (offset : ℕ) :
    ∃ result, findNextBit constant addr size offset = some result ∧
      FindsLeast (bitAt addr) offset size result := by
  unfold findNextBit
  by_cases hend : size ≤ offset
  · rw [if_pos hend]
    exact ⟨size, rfl, findsLeast_none fun i hi hlt => by omega⟩
  rw [if_neg hend]
  by_cases hsmall : smallConstNbits constant size = true
  · obtain ⟨word, hword, hfinds⟩ := small_least hpos hsize hsmall (not_le.mp hend)
    rw [if_pos hsmall, hword]
    exact ⟨_, rfl, hfinds⟩
  · rw [if_neg hsmall]
    obtain ⟨result, hresult, hfinds⟩ := findNextBitFrom_spec hsize (not_le.mp hend) 0
    refine ⟨result, hresult, ?_⟩
    simpa using hfinds

theorem findFirstBit_spec :
    ∃ result, findFirstBit constant addr size = some result ∧
      FindsLeast (bitAt addr) 0 size result := by
  unfold findFirstBit
  by_cases hsmall : smallConstNbits constant size = true
  · obtain ⟨word, hword, hfinds⟩ := small_least hpos hsize hsmall hpos
    rw [if_pos hsmall, hword]
    exact ⟨_, rfl, hfinds⟩
  · rw [if_neg hsmall]
    obtain ⟨result, hresult, hfinds⟩ := findFirstLoop_spec (k := 0) 0
      (fun word => congrArg ffs BitVec.xor_zero.symm) rfl hsize (fun i _ hi => by omega)
    refine ⟨result, hresult, ?_⟩
    simpa using hfinds

theorem findNextZeroBit_spec (offset : ℕ) :
    ∃ result, findNextZeroBit constant addr size offset = some result ∧
      FindsLeast (fun i => !bitAt addr i) offset size result := by
  unfold findNextZeroBit
  by_cases hend : size ≤ offset
  · rw [if_pos hend]
    exact ⟨size, rfl, findsLeast_none fun i hi hlt => by omega⟩
  rw [if_neg hend]
  by_cases hsmall : smallConstNbits constant size = true
  · obtain ⟨word, hword, hfinds⟩ := small_leastZero hpos hsize hsmall (not_le.mp hend)
    rw [if_pos hsmall, hword]
    exact ⟨_, rfl, hfinds⟩
  · rw [if_neg hsmall]
    obtain ⟨result, hresult, hfinds⟩ := findNextBitFrom_spec hsize (not_le.mp hend)
      (BitVec.allOnes BITS_PER_LONG)
    simp only [BitVec.xor_allOnes] at hfinds
    exact ⟨result, hresult, findsLeast_zero hsize hfinds⟩

theorem findFirstZeroBit_spec :
    ∃ result, findFirstZeroBit constant addr size = some result ∧
      FindsLeast (fun i => !bitAt addr i) 0 size result := by
  unfold findFirstZeroBit
  by_cases hsmall : smallConstNbits constant size = true
  · obtain ⟨word, hword, hfinds⟩ := small_leastZero hpos hsize hsmall hpos
    rw [if_pos hsmall, hword]
    exact ⟨_, rfl, hfinds⟩
  · rw [if_neg hsmall]
    obtain ⟨result, hresult, hfinds⟩ := findFirstLoop_spec (k := 0)
      (BitVec.allOnes BITS_PER_LONG) (fun word => congrArg ffs BitVec.xor_allOnes.symm) rfl hsize
      (fun i _ hi => by omega)
    simp only [BitVec.xor_allOnes] at hfinds
    exact ⟨result, hresult, findsLeast_zero hsize hfinds⟩

theorem findLastBit_spec :
    ∃ result, findLastBit constant addr size = some result ∧
      FindsGreatest (bitAt addr) size result := by
  unfold findLastBit
  by_cases hsmall : smallConstNbits constant size = true
  · rw [if_pos hsmall]
    obtain ⟨word, hword⟩ := first_word hpos hsize
    simp only [smallConstNbits, Bool.and_eq_true, decide_eq_true_eq] at hsmall
    rw [hword]
    refine ⟨_, rfl, findsGreatest_small hsmall.1.2 fun j hj => ?_⟩
    rw [getLsbD_masked hpos hsmall.1.2 hpos hword hj, decide_eq_true (Nat.zero_le j), Bool.true_and]
  · rw [if_neg hsmall]
    have hlast : BITS_PER_LONG * ((size - 1) / BITS_PER_LONG) < size := by
      have hle := Nat.mul_div_le (size - 1) BITS_PER_LONG
      omega
    exact findLastLoop_spec hlast hsize (downAtWord_last addr hpos)

end Searches

/-- All five searches return the position they are for, or the size. -/
structure SearchesExact (constant : Bool) (addr : List (BitVec BITS_PER_LONG)) (size : ℕ) :
    Prop where
  first : ∃ result, findFirstBit constant addr size = some result ∧
    FindsLeast (bitAt addr) 0 size result
  next : ∀ offset, ∃ result, findNextBit constant addr size offset = some result ∧
    FindsLeast (bitAt addr) offset size result
  firstZero : ∃ result, findFirstZeroBit constant addr size = some result ∧
    FindsLeast (fun i => !bitAt addr i) 0 size result
  nextZero : ∀ offset, ∃ result, findNextZeroBit constant addr size offset = some result ∧
    FindsLeast (fun i => !bitAt addr i) offset size result
  last : ∃ result, findLastBit constant addr size = some result ∧
    FindsGreatest (bitAt addr) size result

/-- The searches return the same for both arrays. -/
structure SearchesAgree (constant : Bool) (addr : List (BitVec BITS_PER_LONG)) (otherwise : Bool)
    (other : List (BitVec BITS_PER_LONG)) (size : ℕ) : Prop where
  first : findFirstBit constant addr size = findFirstBit otherwise other size
  next : ∀ offset, findNextBit constant addr size offset = findNextBit otherwise other size offset
  firstZero : findFirstZeroBit constant addr size = findFirstZeroBit otherwise other size
  nextZero : ∀ offset,
    findNextZeroBit constant addr size offset = findNextZeroBit otherwise other size offset
  last : findLastBit constant addr size = findLastBit otherwise other size

theorem searchesExact {addr : List (BitVec BITS_PER_LONG)} {size : ℕ} (hpos : 1 ≤ size)
    (hsize : size ≤ BITS_PER_LONG * addr.length) (constant : Bool) :
    SearchesExact constant addr size where
  first := findFirstBit_spec hpos hsize constant
  next := findNextBit_spec hpos hsize constant
  firstZero := findFirstZeroBit_spec hpos hsize constant
  nextZero := findNextZeroBit_spec hpos hsize constant
  last := findLastBit_spec hpos hsize constant

theorem agree_of_unique {first second : Option ℕ} {Finds Finds' : ℕ → Prop}
    (hfirst : ∃ result, first = some result ∧ Finds result)
    (hsecond : ∃ result, second = some result ∧ Finds' result)
    (hunique : ∀ a b, Finds a → Finds' b → a = b) : first = second := by
  obtain ⟨a, ha, hfinds⟩ := hfirst
  obtain ⟨b, hb, hfinds'⟩ := hsecond
  rw [ha, hb, hunique a b hfinds hfinds']

/-- The searches are exact, and neither the bits from the size on nor the path
that the compiler takes changes what they return. -/
theorem bit_searches_exact (addr : List (BitVec BITS_PER_LONG)) {size : ℕ} (hpos : 1 ≤ size)
    (hsize : size ≤ BITS_PER_LONG * addr.length) :
    (∀ constant, SearchesExact constant addr size) ∧
      ∀ constant otherwise other, size ≤ BITS_PER_LONG * other.length →
        (∀ i < size, bitAt other i = bitAt addr i) →
        SearchesAgree constant addr otherwise other size := by
  refine ⟨searchesExact hpos hsize, ?_⟩
  intro constant otherwise other hother hsame
  have hexact := searchesExact hpos hsize constant
  have hexact' := searchesExact hpos hother otherwise
  have hsameZero : ∀ i < size, (!bitAt addr i) = !bitAt other i :=
    fun i hi => congrArg (! ·) (hsame i hi).symm
  have hsame' : ∀ i < size, bitAt addr i = bitAt other i := fun i hi => (hsame i hi).symm
  constructor
  · exact agree_of_unique hexact.first hexact'.first fun a b ha hb => ha.unique (hb.congr hsame')
  · intro offset
    exact agree_of_unique (hexact.next offset) (hexact'.next offset)
      fun a b ha hb => ha.unique (hb.congr hsame')
  · exact agree_of_unique hexact.firstZero hexact'.firstZero
      fun a b ha hb => ha.unique (hb.congr hsameZero)
  · intro offset
    exact agree_of_unique (hexact.nextZero offset) (hexact'.nextZero offset)
      fun a b ha hb => ha.unique (hb.congr hsameZero)
  · exact agree_of_unique hexact.last hexact'.last fun a b ha hb => ha.unique (hb.congr hsame')

/-- Bits 3, 65 and 70 of two words, with a size of 68 that leaves out the last. -/
theorem bit_searches_exact_two_words :
    (∀ constant, SearchesExact constant [8, 66] 68) ∧
      findLastBit true [8, 66] 68 = findLastBit false [8, 2] 68 := by
  have hexact := bit_searches_exact [8, 66] (by decide : 1 ≤ 68) (by decide)
  refine ⟨hexact.1, (hexact.2 true false [8, 2] (by decide) ?_).last⟩
  decide +kernel

/-! ## The searches in a CPU set -/

/-- The words of a `cpu_set_t`. -/
structure HoldsSet (words : List (BitVec BITS_PER_LONG)) (set : CpuSet) : Prop where
  length : words.length = CPU_SETSIZE / BITS_PER_LONG
  bits : ∀ cpu < CPU_SETSIZE, bitAt words cpu = decide (cpu ∈ set)

/-- `pos == CPU_SETSIZE ? -1 : pos` -/
def setPosition (pos : ℕ) : ℤ := if pos = CPU_SETSIZE then -1 else pos

section Sets

variable {words : List (BitVec BITS_PER_LONG)} {set : CpuSet}

section

variable (hholds : HoldsSet words set)

include hholds

theorem HoldsSet.size :
    CPU_SETSIZE ≤ BITS_PER_LONG * words.length := by
  rw [hholds.length]
  decide

theorem HoldsSet.lowestOr {start result : ℕ} {cpus : Finset ℕ}
    (hcpus : ∀ cpu, cpu ∈ cpus ↔ start ≤ cpu ∧ cpu ∈ set)
    (hfinds : FindsLeast (bitAt words) start CPU_SETSIZE result) :
    setPosition result = WaycaScheduler.lowestOr cpus := by
  unfold setPosition
  by_cases hnone : result = CPU_SETSIZE
  · have hempty : cpus = ∅ := by
      apply Finset.eq_empty_of_forall_notMem
      intro cpu hcpu
      obtain ⟨hle, hmem⟩ := (hcpus cpu).mp hcpu
      have hlt := CpuSet.lt_of_mem hmem
      have hunset := hfinds.least cpu hle (hnone ▸ hlt)
      rw [hholds.bits cpu hlt, decide_eq_true hmem] at hunset
      cases hunset
    rw [if_pos hnone, hempty, lowestOr_empty]
  · have hlt : result < CPU_SETSIZE := lt_of_le_of_ne hfinds.le hnone
    obtain ⟨hle, hset⟩ := hfinds.found hlt
    rw [hholds.bits result hlt] at hset
    have hfound : result ∈ cpus := (hcpus result).mpr ⟨hle, of_decide_eq_true hset⟩
    obtain ⟨low, hlow, hlowest, hmin⟩ := lowestOr_of_nonempty ⟨result, hfound⟩
    rw [if_neg hnone, hlowest]
    obtain ⟨hlowLe, hlowSet⟩ := (hcpus low).mp hlow
    have hge : result ≤ low := by
      by_contra hgt
      have hunset := hfinds.least low hlowLe (not_le.mp hgt)
      rw [hholds.bits low (CpuSet.lt_of_mem hlowSet), decide_eq_true hlowSet] at hunset
      cases hunset
    exact_mod_cast le_antisymm hge (hmin result hfound)

theorem cpusetFindFirstSet_words (constant : Bool) :
    (findFirstBit constant words CPU_SETSIZE).map setPosition = some (cpusetFindFirstSet set) := by
  obtain ⟨result, hresult, hfinds⟩ := findFirstBit_spec (by decide) hholds.size constant
  rw [hresult, Option.map_some]
  apply congrArg some
  apply hholds.lowestOr _ hfinds
  intro cpu
  exact ⟨fun hcpu => ⟨Nat.zero_le cpu, hcpu⟩, fun hcpu => hcpu.2⟩

theorem cpusetFindNextSet_words (constant : Bool) (cpu : ℕ) :
    (findNextBit constant words CPU_SETSIZE (cpu + 1)).map setPosition =
      some (cpusetFindNextSet set cpu) := by
  obtain ⟨result, hresult, hfinds⟩ := findNextBit_spec (by decide) hholds.size constant (cpu + 1)
  rw [hresult, Option.map_some]
  apply congrArg some
  apply hholds.lowestOr _ hfinds
  intro other
  rw [Finset.mem_filter, Nat.cast_lt]
  exact ⟨fun hother => ⟨hother.2, hother.1⟩, fun hother => ⟨hother.2, hother.1⟩⟩

theorem cpusetFindLastSet_words (constant : Bool) :
    (findLastBit constant words CPU_SETSIZE).map setPosition = some (cpusetFindLastSet set) := by
  obtain ⟨result, hresult, hfinds⟩ := findLastBit_spec (by decide) hholds.size constant
  rw [hresult, Option.map_some]
  apply congrArg some
  by_cases hset : set.cpus.Nonempty
  · obtain ⟨high, hhigh, hlast, hmax⟩ := cpusetFindLastSet_spec hset
    have hbit := hholds.bits high (CpuSet.lt_of_mem hhigh)
    rw [decide_eq_true hhigh] at hbit
    obtain ⟨hlt, hle⟩ := hfinds.greatest high (CpuSet.lt_of_mem hhigh) hbit
    have hfound := hfinds.found hlt
    rw [hholds.bits result hlt] at hfound
    have hsame : result = high := le_antisymm (hmax result (of_decide_eq_true hfound)) hle
    rw [hlast, ← hsame]
    exact if_neg hlt.ne
  · have hzero : set = cpuZero := CpuSet.cpus_eq_empty.mp (Finset.not_nonempty_iff_eq_empty.mp hset)
    have hnone : result = CPU_SETSIZE := by
      by_contra hne
      have hlt : result < CPU_SETSIZE := lt_of_le_of_ne hfinds.le hne
      have hfound := hfinds.found hlt
      rw [hholds.bits result hlt] at hfound
      exact hset ⟨result, of_decide_eq_true hfound⟩
    rw [hzero, cpusetFindLastSet_zero]
    exact if_pos hnone

end

end Sets

end WaycaScheduler
