import WaycaScheduler.LibraryState
import WaycaScheduler.BitOps
import WaycaScheduler.Library.Numerals

/-!
# The text of an interrupt affinity

The kernel shows the CPUs of an interrupt as hexadecimal digits in groups of
eight, the highest CPUs first.  `bitmap_scnprintf` writes this text from a
`cpu_set_t` and `bitmap_str_to_cpumask` reads it backwards from the newline on.

A `cpu_set_t` is the number of its 1024 bits, with its words and their halves as
consecutive runs of these bits.
-/

namespace WaycaScheduler

open Numerals

variable {k chunksz n buflen : ℕ} {text : List Char}
variable {cpuset : BitVec CPU_SETSIZE} {sep : List Char} {out : Printed}

def CHUNKSZ : ℕ := 32

def PATH_MAX : ℕ := 4096

/-! ## Writing -/

/-- `maskp[word]`, if the word is inside the set. -/
def maskWord (mask : BitVec CPU_SETSIZE) (word : ℕ) : Option (BitVec BITS_PER_LONG) :=
  if word < CPU_SETSIZE / BITS_PER_LONG then
    some (mask.extractLsb' (BITS_PER_LONG * word) BITS_PER_LONG)
  else none

/-- `ALIGN` for a power of two. -/
def align (x a : ℕ) : ℕ := (x + (a - 1)) / a * a

/-- The text in a buffer and what the calls of `snprintf` have returned. -/
structure Printed where
  buf : List Char
  len : ℕ
deriving DecidableEq

/-- `len += snprintf(buf + len, buflen - len, ..)`.  A size that is exceeded by
the length wraps around, and the call would write outside the buffer. -/
def Printed.snprintf (out : Printed) (buflen : ℕ) (text : List Char) : Option Printed :=
  if out.len ≤ buflen then
    some ⟨out.buf ++ text.take (buflen - out.len - 1), out.len + text.length⟩
  else none

/-- The conversion `%0*lx`. -/
def hexText (width val : ℕ) : List Char :=
  (Nat.toDigits 16 val).leftpad width '0'

/-- From the highest chunk on; zero chunks in front are left out. -/
def bitmapScnprintfLoop (buflen : ℕ) (mask : BitVec CPU_SETSIZE) :
    ℕ → ℕ → List Char → Bool → Printed → Option Printed
  | 0, _, _, _, out => some out
  | chunks + 1, chunksz, sep, first, out => do
      let i := CHUNKSZ * chunks
      let chunkmask := BitVec.ofNat 32 (2 ^ chunksz - 1)
      let word ← maskWord mask (i / BITS_PER_LONG)
      let val := (word >>> (i % BITS_PER_LONG)) &&& chunkmask.setWidth BITS_PER_LONG
      if val ≠ 0 || !first || i == 0 then
        let out ← out.snprintf buflen (sep ++ hexText ((chunksz + 3) / 4) val.toNat)
        bitmapScnprintfLoop buflen mask chunks CHUNKSZ [','] false out
      else bitmapScnprintfLoop buflen mask chunks CHUNKSZ sep first out

def bitmapScnprintf (buflen : ℕ) (mask : BitVec CPU_SETSIZE) (nmaskbits : ℕ) :
    Option Printed :=
  let rest := nmaskbits &&& (CHUNKSZ - 1)
  let chunksz := if rest = 0 then CHUNKSZ else rest
  bitmapScnprintfLoop buflen mask (align nmaskbits CHUNKSZ / CHUNKSZ) chunksz [] true ⟨[], 0⟩

/-! ## Reading -/

def hexToBin (ch : Char) : ℤ :=
  if '0' ≤ ch ∧ ch ≤ '9' then (ch.toNat : ℤ) - '0'.toNat
  else if 'a' ≤ ch.toLower ∧ ch.toLower ≤ 'f' then (ch.toLower.toNat : ℤ) - 'a'.toNat + 10
  else -1

/-- `*((unsigned int *)cpuset + pos) |= unit`, if the half word is inside the
set. -/
def orUnit (cpuset : BitVec CPU_SETSIZE) (pos : ℕ) (unit : BitVec 32) :
    Option (BitVec CPU_SETSIZE) :=
  if pos < CPU_SETSIZE / CHUNKSZ then
    some (cpuset ||| (unit.setWidth CPU_SETSIZE <<< (CHUNKSZ * pos)))
  else none

/-- The characters from the one before `c` back to the start. -/
def bitmapStrLoop : List Char → ℕ → ℕ → BitVec CPU_SETSIZE → Option (ℤ × BitVec CPU_SETSIZE)
  | [], _, _, cpuset => some (0, cpuset)
  | tmp :: before, pos, i, cpuset =>
      if tmp = ',' ∨ tmp = '\n' then bitmapStrLoop before pos i cpuset
      else
        let num := hexToBin tmp
        if num < 0 then some (-EINVAL, cpuset)
        else do
          let cpuset ← orUnit cpuset pos (BitVec.ofInt 32 num <<< i)
          if i + 4 ≥ CHUNKSZ then bitmapStrLoop before (pos + 1) 0 cpuset
          else bitmapStrLoop before pos (i + 4) cpuset

def cString (buffer : List Char) : List Char :=
  buffer.takeWhile (· ≠ '\x00')

def bitmapStrToCpumask (start : List Char) (len : ℕ) (errno : ℤ)
    (cpuset : BitVec CPU_SETSIZE) : Option (ℤ × BitVec CPU_SETSIZE) :=
  if len ≤ 0 then some (-errno, cpuset)
  else if '\n' ∉ cString start then some (-EINVAL, cpuset)
  else bitmapStrLoop ((cString start).takeWhile (· ≠ '\n')).reverse 0 0 0

/-! ## The number a text denotes -/

def hexDigit (ch : Char) : Option ℕ :=
  if 0 ≤ hexToBin ch then some (hexToBin ch).toNat else none

def hexValue (text : List Char) : ℕ := value 16 hexDigit text

def HexGroups (text : List Char) : Prop :=
  ∀ ch ∈ text, ch = ',' ∨ (hexDigit ch).isSome

instance (text : List Char) : Decidable (HexGroups text) :=
  List.decidableBAll (fun ch => ch = ',' ∨ (hexDigit ch).isSome) text

theorem hexDigit_digitChar : ∀ d < 16, hexDigit d.digitChar = some d := by
  decide

theorem hexToBin_lt (ch : Char) : hexToBin ch < 16 := by
  unfold hexToBin
  split
  next h =>
    have hle : ch.toNat ≤ '9'.toNat := h.2
    have hnine : '9'.toNat = 57 := rfl
    have hzero : '0'.toNat = 48 := rfl
    omega
  next =>
    split
    next h =>
      have hle : ch.toLower.toNat ≤ 'f'.toNat := h.2
      have hf : 'f'.toNat = 102 := rfl
      have ha : 'a'.toNat = 97 := rfl
      omega
    next => decide

theorem hexDigit_cases (ch : Char) : (hexDigit ch = none ∧ hexToBin ch < 0) ∨
      ∃ d < 16, hexDigit ch = some d ∧ hexToBin ch = d := by
  have hlt := hexToBin_lt ch
  unfold hexDigit
  by_cases hneg : 0 ≤ hexToBin ch
  · refine .inr ⟨(hexToBin ch).toNat, by omega, if_pos hneg, ?_⟩
    omega
  · exact .inl ⟨if_neg hneg, by omega⟩

theorem HexGroups.append {first second : List Char} (hfirst : HexGroups first)
    (hsecond : HexGroups second) : HexGroups (first ++ second) := by
  intro ch hch
  rcases List.mem_append.mp hch with hin | hin
  · exact hfirst ch hin
  · exact hsecond ch hin

/-! ## Reading gives the number -/

theorem sixteen_pow (k : ℕ) : 16 ^ k = 2 ^ (4 * k) := by
  rw [pow_mul]
  norm_num

theorem orUnit_digit {d : ℕ} (hk : k < 256) (hd : d < 16)
    (hbound : cpuset.toNat < 16 ^ k) :
    ∃ next, orUnit cpuset (k / 8) (BitVec.ofInt 32 d <<< (4 * (k % 8))) = some next ∧
      next.toNat = cpuset.toNat + 16 ^ k * d := by
  have hinside : k / 8 < CPU_SETSIZE / CHUNKSZ := by
    have : CPU_SETSIZE / CHUNKSZ = 32 := rfl
    omega
  have hunit : (BitVec.ofInt 32 d <<< (4 * (k % 8))).toNat = d * 2 ^ (4 * (k % 8)) := by
    have hpow : 2 ^ (4 * (k % 8)) ≤ 2 ^ 28 := Nat.pow_le_pow_right (by decide) (by omega)
    have hlt : d * 2 ^ (4 * (k % 8)) < 2 ^ 32 := by
      calc d * 2 ^ (4 * (k % 8)) < 16 * 2 ^ (4 * (k % 8)) :=
            Nat.mul_lt_mul_of_pos_right hd (by positivity)
        _ ≤ 16 * 2 ^ 28 := by omega
        _ = 2 ^ 32 := by norm_num
    rw [BitVec.toNat_shiftLeft, Nat.shiftLeft_eq, BitVec.ofInt_natCast, BitVec.toNat_ofNat,
      Nat.mod_eq_of_lt (by omega : d < 2 ^ 32), Nat.mod_eq_of_lt hlt]
  have hplace : 2 ^ (4 * (k % 8)) * 2 ^ (CHUNKSZ * (k / 8)) = 16 ^ k := by
    have hbits : 4 * (k % 8) + CHUNKSZ * (k / 8) = 4 * k := by
      rw [show CHUNKSZ = 32 from rfl]
      omega
    rw [← pow_add, hbits, sixteen_pow]
  have hfits : d * 16 ^ k < 2 ^ CPU_SETSIZE := by
    calc d * 16 ^ k < 16 * 16 ^ k := Nat.mul_lt_mul_of_pos_right hd (by positivity)
      _ = 16 ^ (k + 1) := by ring
      _ ≤ 16 ^ 256 := Nat.pow_le_pow_right (by decide) (by omega)
      _ = 2 ^ CPU_SETSIZE := by rw [sixteen_pow, show 4 * 256 = CPU_SETSIZE from rfl]
  refine ⟨_, if_pos hinside, ?_⟩
  have hshifted : ((BitVec.ofInt 32 d <<< (4 * (k % 8))).setWidth CPU_SETSIZE <<<
      (CHUNKSZ * (k / 8))).toNat = 16 ^ k * d := by
    rw [BitVec.toNat_shiftLeft, Nat.shiftLeft_eq, BitVec.toNat_setWidth, hunit]
    have hsmall : d * 2 ^ (4 * (k % 8)) < 2 ^ CPU_SETSIZE := by
      refine lt_of_le_of_lt ?_ hfits
      rw [← hplace]
      exact Nat.mul_le_mul_left d (Nat.le_mul_of_pos_right _ (by positivity))
    rw [Nat.mod_eq_of_lt hsmall, mul_assoc, hplace, Nat.mod_eq_of_lt hfits, mul_comm]
  rw [BitVec.toNat_or, hshifted, Nat.or_comm, sixteen_pow]
  rw [sixteen_pow] at hbound
  rw [← Nat.two_pow_add_eq_or_of_lt hbound, add_comm]

theorem bitmapStrLoop_other {tmp : Char} (hother : hexDigit tmp = none) (hline : tmp ≠ '\n')
    (rest : List Char) (pos i : ℕ) (cpuset : BitVec CPU_SETSIZE) :
    bitmapStrLoop (tmp :: rest) pos i cpuset =
      if tmp = ',' then bitmapStrLoop rest pos i cpuset else some (-EINVAL, cpuset) := by
  have hneg : hexToBin tmp < 0 := by
    rcases hexDigit_cases tmp with ⟨-, hneg⟩ | ⟨d, -, hsome, -⟩
    · exact hneg
    · rw [hother] at hsome
      cases hsome
  rw [bitmapStrLoop]
  by_cases hcomma : tmp = ','
  · rw [if_pos (.inl hcomma), if_pos hcomma]
  · rw [if_neg (not_or.mpr ⟨hcomma, hline⟩), if_neg hcomma]
    exact if_pos hneg

theorem bitmapStrLoop_digit {tmp : Char} {d : ℕ} (hdigit : hexDigit tmp = some d)
    (rest : List Char) (k : ℕ) (cpuset : BitVec CPU_SETSIZE) :
    bitmapStrLoop (tmp :: rest) (k / 8) (4 * (k % 8)) cpuset =
      (orUnit cpuset (k / 8) (BitVec.ofInt 32 d <<< (4 * (k % 8)))).bind
        (bitmapStrLoop rest ((k + 1) / 8) (4 * ((k + 1) % 8))) := by
  have hnum : hexToBin tmp = d := by
    rcases hexDigit_cases tmp with ⟨hnone, -⟩ | ⟨other, -, hsome, hnum⟩
    · rw [hdigit] at hnone
      cases hnone
    · rw [hdigit, Option.some.injEq] at hsome
      rw [hnum, hsome]
  have hseparator : ¬ (tmp = ',' ∨ tmp = '\n') := by
    rintro (rfl | rfl)
    · cases hdigit
    · cases hdigit
  have hchunk : CHUNKSZ = 32 := rfl
  rw [bitmapStrLoop, if_neg hseparator]
  simp only [hnum, Nat.cast_nonneg, not_lt_of_ge, if_false, Option.bind_eq_bind]
  congr 1
  funext middle
  split
  next hlast =>
    rw [show (k + 1) / 8 = k / 8 + 1 by omega, show 4 * ((k + 1) % 8) = 0 by omega]
  next hlast =>
    rw [show (k + 1) / 8 = k / 8 by omega, show 4 * ((k + 1) % 8) = 4 * (k % 8) + 4 by omega]

theorem bitmapStrLoop_groups {run : List Char} (rest : List Char)
    (hgroups : HexGroups run) (hcount : k + digitCount hexDigit run ≤ 256)
    (hbound : cpuset.toNat < 16 ^ k) :
    ∃ next, bitmapStrLoop (run ++ rest) (k / 8) (4 * (k % 8)) cpuset =
        bitmapStrLoop rest ((k + digitCount hexDigit run) / 8)
          (4 * ((k + digitCount hexDigit run) % 8)) next ∧
      next.toNat = cpuset.toNat + 16 ^ k * hexValue run.reverse := by
  induction run generalizing k cpuset with
  | nil => exact ⟨cpuset, rfl, by simp [hexValue]⟩
  | cons tmp run ih =>
      have hrest : HexGroups run := fun ch hch => hgroups ch (List.mem_cons_of_mem _ hch)
      have hvalue : hexValue (tmp :: run).reverse =
          readChar 16 hexDigit (hexValue run.reverse) tmp := by
        rw [List.reverse_cons]
        exact value_concat run.reverse tmp
      rcases hexDigit_cases tmp with ⟨hnone, -⟩ | ⟨d, hd, hsome, -⟩
      · have hcomma : tmp = ',' := by
          rcases hgroups tmp List.mem_cons_self with hcomma | hdigit
          · exact hcomma
          · rw [hnone] at hdigit
            cases hdigit
        have hsame : digitCount hexDigit (tmp :: run) = digitCount hexDigit run := by
          simp [digitCount, hnone]
        rw [hsame] at hcount ⊢
        obtain ⟨next, hloop, hnext⟩ := ih hrest hcount hbound
        refine ⟨next, ?_, ?_⟩
        · rw [List.cons_append, bitmapStrLoop_other hnone (by rw [hcomma]; decide),
            if_pos hcomma, hloop]
        · rw [hnext, hvalue, readChar, hnone]
      · have hmore : k + digitCount hexDigit (tmp :: run) = k + 1 + digitCount hexDigit run := by
          simp only [digitCount, List.countP_cons, hsome, Option.isSome_some, if_true]
          omega
        rw [hmore] at hcount ⊢
        obtain ⟨middle, hor, hmiddle⟩ := orUnit_digit (by omega : k < 256) hd hbound
        have hboundMiddle : middle.toNat < 16 ^ (k + 1) := by
          rw [hmiddle, pow_succ]
          nlinarith
        obtain ⟨next, hloop, hnext⟩ := ih hrest hcount hboundMiddle
        refine ⟨next, ?_, ?_⟩
        · rw [List.cons_append, bitmapStrLoop_digit hsome, hor, Option.bind_some, hloop]
        · rw [hnext, hmiddle, hvalue, readChar, hsome]
          dsimp only
          ring

theorem bitmapStrLoop_value {before : List Char} (hgroups : HexGroups before)
    (hcount : digitCount hexDigit before ≤ 256) :
    ∃ next, bitmapStrLoop before 0 0 0 = some (0, next) ∧
      next.toNat = hexValue before.reverse := by
  have hzero : (0 : BitVec CPU_SETSIZE).toNat = 0 := BitVec.toNat_zero
  obtain ⟨next, hloop, hnext⟩ := bitmapStrLoop_groups [] (k := 0) hgroups
    (by omega) (by rw [hzero]; decide)
  rw [List.append_nil] at hloop
  refine ⟨next, hloop, ?_⟩
  rw [hnext, hzero, pow_zero, one_mul, zero_add]

theorem HexGroups.not_newline (hgroups : HexGroups text) : '\n' ∉ text := by
  intro hin
  rcases hgroups '\n' hin with hcomma | hdigit
  · exact absurd hcomma (by decide)
  · exact absurd hdigit (by decide)

theorem HexGroups.not_null (hgroups : HexGroups text) : '\x00' ∉ text := by
  intro hin
  rcases hgroups '\x00' hin with hcomma | hdigit
  · exact absurd hcomma (by decide)
  · exact absurd hdigit (by decide)

theorem bitmapStrToCpumask_value (hgroups : HexGroups text)
    (hcount : digitCount hexDigit text ≤ 256) (rest : List Char) {len : ℕ} (hlen : 0 < len)
    (errno : ℤ) (old : BitVec CPU_SETSIZE) :
    ∃ set, bitmapStrToCpumask (text ++ '\n' :: rest) len errno old = some (0, set) ∧
      set.toNat = hexValue text := by
  have hstring : cString (text ++ '\n' :: rest) = text ++ '\n' :: cString rest := by
    unfold cString
    rw [List.takeWhile_append_of_pos]
    · rfl
    · intro ch hch
      apply decide_eq_true
      rintro rfl
      exact hgroups.not_null hch
  have hline : (cString (text ++ '\n' :: rest)).takeWhile (· ≠ '\n') = text := by
    rw [hstring, List.takeWhile_append_of_pos]
    · simp
    · intro ch hch
      apply decide_eq_true
      rintro rfl
      exact hgroups.not_newline hch
  have hnewline : '\n' ∈ cString (text ++ '\n' :: rest) := by
    rw [hstring]
    simp
  have hreverse : HexGroups text.reverse := fun ch hch => hgroups ch (List.mem_reverse.mp hch)
  have hcountReverse : digitCount hexDigit text.reverse ≤ 256 := by
    unfold digitCount at *
    rw [List.countP_reverse]
    exact hcount
  obtain ⟨set, hloop, hset⟩ := bitmapStrLoop_value hreverse hcountReverse
  refine ⟨set, ?_, ?_⟩
  · unfold bitmapStrToCpumask
    rw [if_neg (by omega), if_neg (not_not.mpr hnewline), hline]
    exact hloop
  · rw [hset, List.reverse_reverse]

/-! ## Writing gives the number -/

theorem hexGroups_of_digits (hdigits : ∀ ch ∈ text, ∃ d < 16, ch = d.digitChar) :
    HexGroups text ∧ digitCount hexDigit text = text.length := by
  have hsome : ∀ ch ∈ text, (hexDigit ch).isSome := by
    intro ch hch
    obtain ⟨d, hd, rfl⟩ := hdigits ch hch
    rw [hexDigit_digitChar d hd]
    rfl
  exact ⟨fun ch hch => .inr (hsome ch hch), List.countP_eq_length.mpr hsome⟩

theorem hexText_spec {width val : ℕ} (hwidth : 0 < width) (hval : val < 16 ^ width) :
    HexGroups (hexText width val) ∧ digitCount hexDigit (hexText width val) = width ∧
      (hexText width val).length = width ∧ hexValue (hexText width val) = val := by
  have hlength : (Nat.toDigits 16 val).length ≤ width :=
    Nat.toDigits_length 16 val width hwidth hval
  have hpadded : (hexText width val).length = width := by
    rw [hexText, List.length_leftpad]
    omega
  have hdigits : ∀ ch ∈ hexText width val, ∃ d < 16, ch = d.digitChar := by
    intro ch hch
    rw [hexText, List.leftpad, List.mem_append, List.mem_replicate] at hch
    rcases hch with ⟨-, rfl⟩ | hch
    · exact ⟨0, by decide, rfl⟩
    · exact digit_of_mem_toDigits (by decide) val ch hch
  obtain ⟨hgroups, hcount⟩ := hexGroups_of_digits hdigits
  refine ⟨hgroups, hcount.trans hpadded, hpadded, ?_⟩
  unfold hexValue hexText List.leftpad
  rw [value_zeros_append, value_toDigits (by decide) hexDigit_digitChar]
  intro ch hch
  rw [(List.mem_replicate.mp hch).2]
  exact .inr (hexDigit_digitChar 0 (by decide))

theorem chunk_val (mask : BitVec CPU_SETSIZE) (hk : k < 32) (hchunksz : chunksz ≤ 32) :
    ∃ word, maskWord mask (CHUNKSZ * k / BITS_PER_LONG) = some word ∧
      ((word >>> (CHUNKSZ * k % BITS_PER_LONG)) &&&
        (BitVec.ofNat 32 (2 ^ chunksz - 1)).setWidth BITS_PER_LONG).toNat =
          mask.toNat / 2 ^ (CHUNKSZ * k) % 2 ^ chunksz := by
  have hchunk : CHUNKSZ = 32 := rfl
  have hlong : BITS_PER_LONG = 64 := rfl
  have hinside : CHUNKSZ * k / BITS_PER_LONG < CPU_SETSIZE / BITS_PER_LONG := by
    rw [hchunk, hlong, show CPU_SETSIZE / 64 = 16 from rfl]
    omega
  have hones : 2 ^ chunksz - 1 < 2 ^ 32 := by
    have : 2 ^ chunksz ≤ 2 ^ 32 := Nat.pow_le_pow_right (by decide) hchunksz
    omega
  refine ⟨_, if_pos hinside, ?_⟩
  rw [BitVec.toNat_and, BitVec.toNat_setWidth, BitVec.toNat_ofNat, Nat.mod_eq_of_lt hones,
    Nat.mod_eq_of_lt (lt_trans hones (by decide)), Nat.and_two_pow_sub_one_eq_mod,
    BitVec.toNat_ushiftRight, BitVec.extractLsb'_toNat]
  apply Nat.eq_of_testBit_eq
  intro j
  have hplace : BITS_PER_LONG * (CHUNKSZ * k / BITS_PER_LONG) +
      (CHUNKSZ * k % BITS_PER_LONG + j) = CHUNKSZ * k + j := by
    rw [← add_assoc, Nat.div_add_mod]
  by_cases hj : j < chunksz
  · have hlow : CHUNKSZ * k % BITS_PER_LONG + j < BITS_PER_LONG := by
      rw [hchunk, hlong]
      omega
    simp only [Nat.testBit_mod_two_pow, Nat.testBit_shiftRight, Nat.testBit_div_two_pow, hj,
      hlow, hplace, decide_true, Bool.true_and]
    rw [add_comm]
  · simp only [Nat.testBit_mod_two_pow, hj, decide_false, Bool.false_and]

/-- What has been written when the chunks below a number are still to come. -/
structure Printing (number chunks : ℕ) (out : Printed) : Prop where
  groups : HexGroups out.buf
  value_eq : hexValue out.buf = number / 2 ^ (CHUNKSZ * chunks)
  digits_le : digitCount hexDigit out.buf + 8 * chunks ≤ 256
  length_le : out.buf.length + 9 * chunks ≤ 288
  len_eq : out.len = out.buf.length

structure ChunkAt (n k chunksz : ℕ) : Prop where
  pos : 0 < chunksz
  le : chunksz ≤ CHUNKSZ
  inside : CHUNKSZ * k + chunksz ≤ n
  full_or_top : chunksz = CHUNKSZ ∨ CHUNKSZ * k + chunksz = n

theorem ChunkAt.val_eq (hat : ChunkAt n k chunksz) (mask : ℕ) :
    mask / 2 ^ (CHUNKSZ * k) % 2 ^ chunksz = mask % 2 ^ n / 2 ^ (CHUNKSZ * k) % 2 ^ CHUNKSZ := by
  obtain ⟨-, hle, hinside, hshape⟩ := hat
  apply Nat.eq_of_testBit_eq
  intro j
  simp only [Nat.testBit_mod_two_pow, Nat.testBit_div_two_pow]
  have hiff : (j < chunksz) ↔ (j < CHUNKSZ ∧ j + CHUNKSZ * k < n) := by
    rcases hshape with rfl | rfl
    · omega
    · omega
  by_cases hj : j < chunksz
  · obtain ⟨hfirst, hsecond⟩ := hiff.mp hj
    simp [hj, hfirst, hsecond]
  · by_cases hfirst : j < CHUNKSZ
    · have hsecond : ¬ j + CHUNKSZ * k < n := fun h => hj (hiff.mpr ⟨hfirst, h⟩)
      simp [hj, hsecond]
    · simp [hj, hfirst]

theorem chunk_split (number k : ℕ) :
    number / 2 ^ (CHUNKSZ * k) = 2 ^ CHUNKSZ * (number / 2 ^ (CHUNKSZ * (k + 1))) +
        number / 2 ^ (CHUNKSZ * k) % 2 ^ CHUNKSZ := by
  rw [mul_add, mul_one, pow_add, ← Nat.div_div_eq_div_mul, Nat.div_add_mod]

theorem Printing.chunk {number width val : ℕ}
    (hout : Printing number (k + 1) out) (hbuflen : 288 < buflen)
    (hsep : sep = [] ∨ sep = [',']) (hwidth : 0 < width) (hle : width ≤ 8)
    (hval : val < 16 ^ width)
    (hvalue : number / 2 ^ (CHUNKSZ * k) = 16 ^ width * (number / 2 ^ (CHUNKSZ * (k + 1))) + val) :
    ∃ next, out.snprintf buflen (sep ++ hexText width val) = some next ∧
      Printing number k next := by
  obtain ⟨hgroups, hcount, hlength, hnumber⟩ := hexText_spec hwidth hval
  have hsepGroups : HexGroups sep := by
    rcases hsep with rfl | rfl
    · decide
    · decide
  have hsepZero : ∀ ch ∈ sep, hexDigit ch = none ∨ hexDigit ch = some 0 := by
    rcases hsep with rfl | rfl
    · exact nofun
    · intro ch hch
      rw [List.mem_singleton] at hch
      subst hch
      exact .inl rfl
  have hsepDigits : digitCount hexDigit sep = 0 := by
    rcases hsep with rfl | rfl
    · rfl
    · decide
  have hsepLength : sep.length ≤ 1 := by
    rcases hsep with rfl | rfl
    · decide
    · decide
  have htextLength : (sep ++ hexText width val).length ≤ 9 := by
    rw [List.length_append, hlength]
    omega
  have hlengthOut := hout.length_le
  have hlenOut := hout.len_eq
  have hroom : out.len ≤ buflen := by omega
  have htake : (sep ++ hexText width val).take (buflen - out.len - 1) =
      sep ++ hexText width val := by
    apply List.take_of_length_le
    omega
  refine ⟨_, if_pos hroom, ?_⟩
  rw [htake]
  constructor
  · exact hout.groups.append (hsepGroups.append hgroups)
  · have htext : hexValue (sep ++ hexText width val) = val :=
      (value_zeros_append hsepZero).trans hnumber
    have hdigits : digitCount hexDigit (sep ++ hexText width val) = width := by
      rw [digitCount_append, hsepDigits, hcount, zero_add]
    change value 16 hexDigit (out.buf ++ (sep ++ hexText width val)) = _
    rw [value_append, hdigits, hvalue, ← hout.value_eq]
    exact congrArg _ htext
  · have hbefore := hout.digits_le
    rw [digitCount_append, digitCount_append, hsepDigits, hcount]
    omega
  · rw [List.length_append]
    omega
  · change out.len + _ = (out.buf ++ _).length
    rw [hlenOut]
    exact List.length_append.symm

theorem bitmapScnprintfLoop_prints {chunks : ℕ} {mask : BitVec CPU_SETSIZE}
    {first : Bool} (hbuflen : 288 < buflen) (hn : n ≤ CPU_SETSIZE)
    (hout : Printing (mask.toNat % 2 ^ n) chunks out) (hsep : sep = [] ∨ sep = [','])
    (hfirst : first = true → out.buf = []) (hlater : first = false → chunksz = CHUNKSZ)
    (hat : ∀ k, chunks = k + 1 → ChunkAt n k chunksz) :
    ∃ final, bitmapScnprintfLoop buflen mask chunks chunksz sep first out = some final ∧
      Printing (mask.toNat % 2 ^ n) 0 final := by
  induction chunks generalizing chunksz sep first out with
  | zero => exact ⟨out, rfl, hout⟩
  | succ k ih =>
      have hplace := hat k rfl
      have hsize : CHUNKSZ = 32 := rfl
      have hcpus : CPU_SETSIZE = 1024 := rfl
      have hbits : ∀ j, CHUNKSZ * j = 32 * j := fun _ => rfl
      have hk := hbits k
      have hpos := hplace.pos
      have hle := hplace.le
      have hinside := hplace.inside
      obtain ⟨word, hword, hval⟩ := chunk_val mask (by omega : k < 32) (hsize ▸ hle)
      have hnumber := hplace.val_eq mask.toNat
      have hsplit := chunk_split (mask.toNat % 2 ^ n) k
      rw [← hnumber] at hsplit
      have hnext : ∀ j, k = j + 1 → ChunkAt n j CHUNKSZ := by
        intro j hj
        have := hbits j
        exact ⟨by omega, le_refl _, by omega, .inl rfl⟩
      rw [bitmapScnprintfLoop]
      simp only [hword, Option.bind_eq_bind, Option.bind_some]
      split
      next hprint =>
        have hvalLt : mask.toNat / 2 ^ (CHUNKSZ * k) % 2 ^ chunksz < 16 ^ ((chunksz + 3) / 4) := by
          rw [sixteen_pow]
          refine lt_of_lt_of_le (Nat.mod_lt _ (by positivity)) ?_
          exact Nat.pow_le_pow_right (by decide) (by omega)
        have hvalue : mask.toNat % 2 ^ n / 2 ^ (CHUNKSZ * k) =
            16 ^ ((chunksz + 3) / 4) * (mask.toNat % 2 ^ n / 2 ^ (CHUNKSZ * (k + 1))) +
              mask.toNat / 2 ^ (CHUNKSZ * k) % 2 ^ chunksz := by
          cases first with
          | true =>
              have hnone := hout.value_eq
              rw [hfirst rfl] at hnone
              rw [hsplit, ← hnone]
              simp [hexValue]
          | false =>
              rw [hsplit, hlater rfl, sixteen_pow]
              rfl
        obtain ⟨next, hsnprintf, hprinting⟩ := hout.chunk hbuflen hsep (by omega) (by omega)
          hvalLt hvalue
        rw [hval, hsnprintf, Option.bind_some]
        exact ih hprinting (.inr rfl) nofun (fun _ => rfl) hnext
      next hskip =>
        simp only [Bool.or_eq_true, not_or, Bool.not_eq_true', Bool.not_eq_false,
          decide_eq_true_eq, ne_eq, not_not] at hskip
        obtain ⟨⟨hzero, htrue⟩, -⟩ := hskip
        have hnothing : (0 : BitVec BITS_PER_LONG).toNat = 0 := rfl
        rw [hzero, hnothing] at hval
        refine ih ⟨hout.groups, ?_, ?_, ?_, hout.len_eq⟩ hsep hfirst (fun _ => rfl) hnext
        · have hnone := hout.value_eq
          rw [hfirst htrue] at hnone ⊢
          rw [hsplit, ← hval, ← hnone]
          simp [hexValue]
        · have := hout.digits_le
          omega
        · have := hout.length_le
          omega

theorem bitmapScnprintf_prints (mask : BitVec CPU_SETSIZE) (hbuflen : 288 < buflen) (hpos : 1 ≤ n)
    (hn : n ≤ CPU_SETSIZE) :
    ∃ out, bitmapScnprintf buflen mask n = some out ∧ Printing (mask.toNat % 2 ^ n) 0 out := by
  have hsize : CHUNKSZ = 32 := rfl
  have hcpus : CPU_SETSIZE = 1024 := rfl
  have hbits : ∀ j, CHUNKSZ * j = 32 * j := fun _ => rfl
  have hrest : n &&& (CHUNKSZ - 1) = n % 32 := Nat.and_two_pow_sub_one_eq_mod n 5
  have hchunks : align n CHUNKSZ / CHUNKSZ = (n + 31) / 32 := by
    unfold align
    rw [hsize]
    omega
  unfold bitmapScnprintf
  dsimp only
  rw [hrest, hchunks]
  refine bitmapScnprintfLoop_prints hbuflen hn ⟨by decide, ?_, ?_, ?_, rfl⟩ (.inl rfl)
    (fun _ => rfl) nofun ?_
  · have hlt : mask.toNat % 2 ^ n < 2 ^ (CHUNKSZ * ((n + 31) / 32)) := by
      refine lt_of_lt_of_le (Nat.mod_lt _ (by positivity)) ?_
      rw [hbits]
      exact Nat.pow_le_pow_right (by decide) (by omega)
    rw [Nat.div_eq_of_lt hlt]
    rfl
  · simp only [digitCount_nil]
    omega
  · simp only [List.length_nil]
    omega
  · intro k hk
    have := hbits k
    split
    next hzero => exact ⟨by omega, le_refl _, by omega, .inl rfl⟩
    next hnonzero => exact ⟨by omega, by omega, by omega, .inr (by omega)⟩

def LeadingZeros (lead : List Char) : Prop :=
  ∀ ch ∈ lead, ch = '0' ∨ ch = ','

instance (lead : List Char) : Decidable (LeadingZeros lead) :=
  List.decidableBAll (fun ch => ch = '0' ∨ ch = ',') lead

theorem LeadingZeros.groups {lead : List Char} (hlead : LeadingZeros lead) :
    HexGroups lead ∧ ∀ ch ∈ lead, hexDigit ch = none ∨ hexDigit ch = some 0 := by
  constructor
  · intro ch hch
    rcases hlead ch hch with rfl | rfl
    · exact .inr (by decide)
    · exact .inl rfl
  · intro ch hch
    rcases hlead ch hch with rfl | rfl
    · exact .inr (by decide)
    · exact .inl (by decide)

/-- The text of a bitmap and a newline are read back as the bits below the
given number, also with zeros in front while there are at most 256 digits. -/
theorem affinity_round_trip
    {n : ℕ} (mask : BitVec CPU_SETSIZE) (hpos : 1 ≤ n) (hn : n ≤ CPU_SETSIZE) :
    ∃ out, bitmapScnprintf PATH_MAX mask n = some out ∧ out.len = out.buf.length ∧
      digitCount hexDigit out.buf ≤ 256 ∧
      ∀ lead rest len errno old, LeadingZeros lead →
        digitCount hexDigit (lead ++ out.buf) ≤ 256 → 0 < len →
        ∃ set, bitmapStrToCpumask (lead ++ out.buf ++ '\n' :: rest) len errno old =
            some (0, set) ∧
          ∀ cpu, set.getLsbD cpu = (decide (cpu < n) && mask.getLsbD cpu) := by
  obtain ⟨out, hprint, hout⟩ :=
    bitmapScnprintf_prints mask (by decide : 288 < PATH_MAX) hpos hn
  refine ⟨out, hprint, hout.len_eq, hout.digits_le, ?_⟩
  intro lead rest len errno old hlead hcount hlen
  obtain ⟨hgroups, hzeros⟩ := hlead.groups
  obtain ⟨set, hread, hset⟩ := bitmapStrToCpumask_value (hgroups.append hout.groups) hcount rest
    hlen errno old
  have hnumber : set.toNat = mask.toNat % 2 ^ n := by
    rw [hset]
    change value 16 hexDigit (lead ++ out.buf) = _
    rw [value_zeros_append hzeros]
    change hexValue out.buf = _
    rw [hout.value_eq, mul_zero, pow_zero, Nat.div_one]
  refine ⟨set, hread, ?_⟩
  intro cpu
  rw [← BitVec.testBit_toNat, hnumber, Nat.testBit_mod_two_pow, BitVec.testBit_toNat]

/-- CPUs 0, 4, 33 and 39 of 40, with one chunk of zeros in front. -/
theorem affinity_round_trip_forty :
    ∃ out set, bitmapScnprintf PATH_MAX 0x8200000011 40 = some out ∧
      out.buf = ['8', '2', ',', '0', '0', '0', '0', '0', '0', '1', '1'] ∧
      bitmapStrToCpumask (['0', '0', '0', '0', '0', '0', '0', '0', ','] ++ out.buf ++ ['\n'])
        21 0 0 = some (0, set) ∧
      ∀ cpu, set.getLsbD cpu =
        (decide (cpu < 40) && (0x8200000011 : BitVec CPU_SETSIZE).getLsbD cpu) := by
  have htext : bitmapScnprintf PATH_MAX 0x8200000011 40 =
      some ⟨['8', '2', ',', '0', '0', '0', '0', '0', '0', '1', '1'], 11⟩ := by
    decide +kernel
  obtain ⟨out, hprint, -, -, hread⟩ :=
    affinity_round_trip 0x8200000011 (by decide : 1 ≤ 40) (by decide)
  obtain rfl := Option.some.inj (htext.symm.trans hprint)
  obtain ⟨set, hdecode, hset⟩ := hread ['0', '0', '0', '0', '0', '0', '0', '0', ','] [] 21 0 0
    (by decide) (by decide) (by decide)
  exact ⟨_, set, hprint, rfl, hdecode, hset⟩

end WaycaScheduler
