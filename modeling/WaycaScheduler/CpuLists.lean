import WaycaScheduler.LibraryState
import WaycaScheduler.SizedCpuSet
import WaycaScheduler.Library.CText

/-!
# CPU lists

The text `0-3,8,10-20:2` names CPUs by ranges.  `list_to_mask` walks along it
with `strtoul`.  `cpulist_parse` looks for the next separator of each kind from
where a number has ended.  Both loops over the CPUs of a range may fail to end,
so they carry fuel.  On the lists of the grammar with CPUs below the number of
CPUs the parsers return the same set.
-/

namespace WaycaScheduler

open CText Finset

variable {a b s cpusetsize : ℕ} {tail before : List Char} {sep : Char}

/-! ## Conversions between the integer types -/

/-- The value of an `int` as an `unsigned long`. -/
def toUlong (x : ℤ) : ℕ := (x % (ulongSize : ℤ)).toNat

/-- The value of an `unsigned long` as an `int`. -/
def toInt (x : ℕ) : ℤ := (x : ℤ).bmod (2 ^ 32)

/-- The value of an `unsigned long` as an `unsigned int`. -/
def toUint (x : ℕ) : ℕ := x % 2 ^ 32

/-! ## The parser of the thread interface -/

/-- What one round of `list_to_mask` has read. -/
structure ListItem where
  start : ℕ
  last : ℕ
  stride : ℕ
  rest : List Char
  errno : ℤ
deriving DecidableEq

/-- One item as `list_to_mask` reads it, with what is left of the text. -/
def readListItem (s : List Char) : ListItem :=
  let start := strtoul 0 s
  match skipChar '-' start.rest with
  | none => ⟨start.value, start.value, 1, start.rest, start.errno⟩
  | some s =>
      let last := strtoul start.errno s
      match skipChar ':' last.rest with
      | none => ⟨start.value, last.value, 1, last.rest, last.errno⟩
      | some s =>
          let stride := strtoul last.errno s
          ⟨start.value, last.value, stride.value, stride.rest, stride.errno⟩

/-- `for (int i = start; i <= end; i += stride)`. -/
def maskRangeLoop (last stride cpusetsize : ℕ) :
    ℕ → ℤ → Finset ℕ → Option (Finset ℕ)
  | 0, _, _ => none
  | fuel + 1, i, mask =>
      if toUlong i ≤ last then
        maskRangeLoop last stride cpusetsize fuel (toInt (toUlong i + stride))
          (cpuSetS (toUlong i) cpusetsize mask)
      else some mask

def ListItem.bad (item : ListItem) (crInTotal : ℤ) : Prop :=
  (item.rest.head? ≠ some ',' ∧ item.rest ≠ []) ∨
    toUlong (crInTotal.tdiv 2) ≤ item.stride ∨ item.errno ≠ 0 ∨ toUlong crInTotal ≤ item.last

instance (item : ListItem) (crInTotal : ℤ) : Decidable (item.bad crInTotal) :=
  inferInstanceAs (Decidable (_ ∨ _))

/-- A call of `perror` that writes its message leaves `errno` as it is. -/
def errnoKept (errno : ℤ) : ℤ := errno

/-- The argument `perror` gives the `errno` after the call from the one before. -/
def listToMaskLoop (perror : ℤ → ℤ) (crInTotal : ℤ) (cpusetsize : ℕ) :
    ℕ → List Char → Finset ℕ → Option (ℤ × Finset ℕ)
  | 0, _, _ => none
  | fuel + 1, s, mask =>
      let item := readListItem s
      if item.bad crInTotal then some (-perror item.errno, mask)
      else do
        let mask ← maskRangeLoop item.last item.stride cpusetsize fuel (toInt item.start) mask
        match item.rest with
        | [] => some (0, mask)
        | _ :: s => listToMaskLoop perror crInTotal cpusetsize fuel s mask

/-- `list_to_mask`, with the value of `wayca_sc_cpus_in_total`. -/
def listToMask (perror : ℤ → ℤ) (crInTotal : ℤ) (fuel : ℕ) (s : List Char) (cpusetsize : ℕ) :
    Option (ℤ × Finset ℕ) :=
  listToMaskLoop perror crInTotal cpusetsize fuel s ∅

/-! ## The parser of the topology -/

def nexttoken (q : Option (List Char)) (sep : Char) : Option (List Char) :=
  (q.bind fun text => strchr text sep).map List.tail

def nextnumber : List Char → Except ℤ (ℕ × List Char)
  | [] => .error (-EINVAL)
  | char :: later =>
      if !char.isDigit then .error (-EINVAL)
      else
        let parsed := strtoul 0 (char :: later)
        if parsed.errno ≠ 0 then .error (-parsed.errno)
        else if parsed.rest = char :: later then .error (-EINVAL)
        else .ok (toUint parsed.value, parsed.rest)

/-- `c1 != NULL && (c2 == NULL || c1 < c2)`, and then `c1`. -/
def tokenBefore (c1 c2 : Option (List Char)) : Option (List Char) :=
  match c1, c2 with
  | none, _ => none
  | some first, none => some first
  | some first, some second => if second.length < first.length then some first else none

/-- The beginning, the end and the stride of a range, and where the last number
has ended.  There is none where the function returns 1. -/
structure CpulistItem where
  a : ℕ
  b : ℕ
  s : ℕ
  rest : List Char
deriving DecidableEq

/-- One item as `cpulist_parse` reads it, none where it returns 1. -/
def cpulistItem (p : List Char) : Option CpulistItem := do
  let (a, rest) ← (nextnumber p).toOption
  let c2 := nexttoken (some rest) ','
  match tokenBefore (nexttoken (some rest) '-') c2 with
  | none => some ⟨a, a, 1, rest⟩
  | some c1 =>
      let (b, rest) ← (nextnumber c1).toOption
      let c1 := if rest = [] then none else nexttoken (some rest) ':'
      match tokenBefore c1 c2 with
      | none => some ⟨a, b, 1, rest⟩
      | some c1 =>
          let (s, rest) ← (nextnumber c1).toOption
          if s = 0 then none else some ⟨a, b, s, rest⟩

/-- `while (a <= b)`, with the code 2 for a CPU that does not fit. -/
def cpulistRangeLoop (b s setsize : ℕ) (fail : Bool) :
    ℕ → ℕ → Finset ℕ → Option (ℤ × Finset ℕ)
  | 0, _, _ => none
  | fuel + 1, a, set =>
      if a ≤ b then
        if fail && decide (8 * setsize ≤ a) then some (2, set)
        else cpulistRangeLoop b s setsize fail fuel (toUint (a + s)) (cpuSetS a setsize set)
      else some (0, set)

/-- The loop over the items; `stop` is where the last number ended. -/
def cpulistParseLoop (setsize : ℕ) (fail : Bool) :
    ℕ → Option (List Char) → Option (List Char) → Finset ℕ → Option (ℤ × Finset ℕ)
  | 0, _, _, _ => none
  | _ + 1, none, stop, set =>
      some (if stop.any (· ≠ []) then 1 else 0, set)
  | fuel + 1, some p, _, set =>
      match cpulistItem p with
      | none => some (1, set)
      | some item =>
          if ¬ item.a ≤ item.b then some (1, set)
          else do
            let (ret, set) ← cpulistRangeLoop item.b item.s setsize fail fuel item.a set
            if ret ≠ 0 then some (ret, set)
            else cpulistParseLoop setsize fail fuel (nexttoken (some p) ',') (some item.rest) set

def cpulistParse (fuel : ℕ) (str : List Char) (setsize : ℕ) (fail : Bool) :
    Option (ℤ × Finset ℕ) :=
  cpulistParseLoop setsize fail fuel (some str) none ∅

/-! ## The grammar -/

/-- The numbers `a`, `a + s`, `a + 2 * s` and so on up to `b`. -/
def steps (a b s : ℕ) : Finset ℕ :=
  (Finset.Icc a b).filter fun c => s ∣ c - a

/-- An item of a list in the format of the kernel. -/
inductive CpuRange where
  | single (a : ℕ)
  | span (a b : ℕ)
  | strided (a b s : ℕ)
deriving DecidableEq

namespace CpuRange

def first : CpuRange → ℕ
  | single a => a
  | span a _ => a
  | strided a _ _ => a

def last : CpuRange → ℕ
  | single a => a
  | span _ b => b
  | strided _ b _ => b

def stride : CpuRange → ℕ
  | single _ => 1
  | span _ _ => 1
  | strided _ _ s => s

def text : CpuRange → List Char
  | single a => Nat.toDigits 10 a
  | span a b => Nat.toDigits 10 a ++ '-' :: Nat.toDigits 10 b
  | strided a b s => Nat.toDigits 10 a ++ '-' :: Nat.toDigits 10 b ++ ':' :: Nat.toDigits 10 s

def cpus (range : CpuRange) : Finset ℕ :=
  steps range.first range.last range.stride

/-- The range is not empty, lies below the number of CPUs, and a stride is
below half of it. -/
def Fits (n : ℕ) : CpuRange → Prop
  | single a => a < n
  | span a b => a ≤ b ∧ b < n
  | strided a b s => a ≤ b ∧ b < n ∧ 1 ≤ s ∧ s < n / 2

instance (n : ℕ) : (range : CpuRange) → Decidable (range.Fits n)
  | single a => inferInstanceAs (Decidable (a < n))
  | span a b => inferInstanceAs (Decidable (a ≤ b ∧ b < n))
  | strided a b s => inferInstanceAs (Decidable (a ≤ b ∧ b < n ∧ 1 ≤ s ∧ s < n / 2))

theorem Fits.bounds {n : ℕ} {range : CpuRange} (hmin : 4 ≤ n) (hfits : range.Fits n) :
    range.first ≤ range.last ∧ range.last < n ∧ 1 ≤ range.stride ∧ range.stride < n / 2 := by
  cases range with
  | single a => exact ⟨le_refl a, hfits, le_refl 1, by change 1 < n / 2; omega⟩
  | span a b => exact ⟨hfits.1, hfits.2, le_refl 1, by change 1 < n / 2; omega⟩
  | strided a b s => exact hfits

end CpuRange

def rangesText : List CpuRange → List Char
  | [] => []
  | [range] => range.text
  | range :: later => range.text ++ ',' :: rangesText later

def rangesCpus (ranges : List CpuRange) : Finset ℕ :=
  ranges.toFinset.biUnion CpuRange.cpus

/-! ## The loops over the CPUs of a range -/

theorem mem_steps {c : ℕ} : c ∈ steps a b s ↔ (a ≤ c ∧ c ≤ b) ∧ s ∣ c - a := by
  rw [steps, mem_filter, mem_Icc]

theorem steps_of_lt (hlt : b < a) : steps a b s = ∅ := by
  rw [steps, Finset.Icc_eq_empty (by omega), filter_empty]

theorem steps_of_le (hle : a ≤ b) (hs : 1 ≤ s) :
    steps a b s = insert a (steps (a + s) b s) := by
  ext c
  rw [mem_insert, mem_steps, mem_steps]
  constructor
  · rintro ⟨⟨hac, hcb⟩, k, hk⟩
    rcases Nat.eq_zero_or_pos k with rfl | hpos
    · exact .inl (by omega)
    · have hstep : s ≤ s * k := Nat.le_mul_of_pos_right s hpos
      refine .inr ⟨⟨by omega, hcb⟩, k - 1, ?_⟩
      rw [Nat.mul_sub, mul_one]
      omega
  · rintro (rfl | ⟨⟨hac, hcb⟩, k, hk⟩)
    · exact ⟨⟨le_refl c, hle⟩, by simp⟩
    · refine ⟨⟨by omega, hcb⟩, k + 1, ?_⟩
      rw [Nat.mul_add, mul_one]
      omega

theorem toUlong_natCast {x : ℕ} (hx : x < ulongSize) : toUlong (x : ℤ) = x := by
  unfold toUlong
  rw [Int.emod_eq_of_lt (by omega) (by exact_mod_cast hx), Int.toNat_natCast]

theorem toInt_natCast {x : ℕ} (hx : x < 2 ^ 31) : toInt x = (x : ℤ) := by
  unfold toInt
  rw [Int.bmod_eq_of_le (by omega) (by omega)]

theorem toInt_bounds (x : ℕ) : -2 ^ 31 ≤ toInt x ∧ toInt x < 2 ^ 31 := by
  unfold toInt
  have hlow := Int.le_bmod (x := (x : ℤ)) (m := 2 ^ 32) (by decide)
  have hhigh := Int.bmod_lt (x := (x : ℤ)) (m := 2 ^ 32) (by decide)
  omega

theorem lt_toUlong_of_wrapped {last x : ℕ} (hlast : last < 2 ^ 31) (hlow : 2 ^ 31 ≤ x)
    (hhigh : x < 2 ^ 32) : last < toUlong (toInt x) := by
  have hwrapped : toInt x = (x : ℤ) - 2 ^ 32 := by
    unfold toInt
    rw [Int.bmod_neg _ _ (by omega)]
    omega
  have hsize : ulongSize = 2 ^ 64 := rfl
  unfold toUlong
  rw [hwrapped, hsize]
  omega

theorem maskRangeLoop_eq {fuel : ℕ} (hlast : b < 2 ^ 31) (hstride : s < 2 ^ 30) (hs : 1 ≤ s)
    (hle : a ≤ b) (hfuel : b + 1 - a < fuel) (mask : Finset ℕ) :
    maskRangeLoop b s cpusetsize fuel (a : ℤ) mask =
      some (mask ∪ (steps a b s).filter (· < 8 * cpusetsize)) := by
  have hsize : ulongSize = 2 ^ 64 := rfl
  induction fuel generalizing a mask with
  | zero => omega
  | succ fuel ih =>
      rw [maskRangeLoop, toUlong_natCast (by omega), if_pos hle, steps_of_le hle hs, insert_eq,
        filter_union, ← union_assoc, ← cpuSetS_eq_union]
      by_cases hin : a + s ≤ b
      · rw [toInt_natCast (by omega), ih hin (by omega)]
      · have hgone : b < toUlong (toInt (a + s)) := by
          by_cases hwraps : a + s < 2 ^ 31
          · rw [toInt_natCast hwraps, toUlong_natCast (by omega)]
            exact not_le.mp hin
          · exact lt_toUlong_of_wrapped hlast (by omega) (by omega)
        cases fuel with
        | zero => omega
        | succ fuel =>
            rw [maskRangeLoop, if_neg (not_le.mpr hgone), steps_of_lt (not_le.mp hin),
              filter_empty, union_empty]

theorem cpulistRangeLoop_eq {fuel setsize : ℕ} {fail : Bool} (hs : 1 ≤ s)
    (hroom : ∀ c ∈ steps a b s, c + s < 2 ^ 32)
    (hfits : fail = true → ∀ c ∈ steps a b s, c < 8 * setsize) (hfuel : b + 1 - a < fuel)
    (set : Finset ℕ) :
    cpulistRangeLoop b s setsize fail fuel a set =
      some (0, set ∪ (steps a b s).filter (· < 8 * setsize)) := by
  induction fuel generalizing a set with
  | zero => omega
  | succ fuel ih =>
      rw [cpulistRangeLoop]
      split
      next hle =>
        have hsteps := steps_of_le hle hs
        have hfirst : a ∈ steps a b s := hsteps ▸ mem_insert_self _ _
        have hlater : ∀ c ∈ steps (a + s) b s, c ∈ steps a b s :=
          fun c hc => hsteps ▸ mem_insert_of_mem hc
        have hgo : ¬ (fail && decide (8 * setsize ≤ a)) = true := by
          rw [Bool.and_eq_true, decide_eq_true_eq]
          rintro ⟨hfail, hhigh⟩
          exact absurd (hfits hfail a hfirst) (not_lt.mpr hhigh)
        have hnext : toUint (a + s) = a + s := Nat.mod_eq_of_lt (hroom a hfirst)
        rw [if_neg hgo, hnext, ih (fun c hc => hroom c (hlater c hc))
          (fun hfail c hc => hfits hfail c (hlater c hc)) (by omega), cpuSetS_eq_union,
          union_assoc, ← filter_union, ← insert_eq, ← hsteps]
      next hgt => rw [steps_of_lt (by omega), filter_empty, union_empty]

/-! ## One range of the text -/

def RangeEnd (tail : List Char) : Prop :=
  tail = [] ∨ ∃ later, tail = ',' :: later

theorem RangeEnd.noDigit (hend : RangeEnd tail) : NoDigit tail := by
  rcases hend with rfl | ⟨later, rfl⟩
  · trivial
  · rfl

theorem RangeEnd.skipChar_eq_none {char : Char} (hend : RangeEnd tail) (hchar : char ≠ ',') :
    skipChar char tail = none := by
  rcases hend with rfl | ⟨later, rfl⟩
  · rfl
  · exact if_neg hchar.symm

/-- The text of an item with its first CPU, its last one and its stride. -/
inductive Denotes : List Char → ℕ → ℕ → ℕ → Prop
  | single {text : List Char} {a : ℕ} : IsNumber text a → Denotes text a a 1
  | span {first last : List Char} {a b : ℕ} :
      IsNumber first a → IsNumber last b → Denotes (first ++ '-' :: last) a b 1
  | strided {first last step : List Char} {a b s : ℕ} :
      IsNumber first a → IsNumber last b → IsNumber step s →
      Denotes (first ++ '-' :: (last ++ ':' :: step)) a b s

theorem Denotes.chars {item : List Char} (hdenotes : Denotes item a b s) :
    ∀ char ∈ item, char.isDigit = true ∨ char = '-' ∨ char = ':' := by
  intro char hmem
  cases hdenotes with
  | single hfirst => exact .inl (hfirst.digits char hmem)
  | span hfirst hlast =>
      rw [List.mem_append, List.mem_cons] at hmem
      rcases hmem with hmem | hmem | hmem
      · exact .inl (hfirst.digits char hmem)
      · exact .inr (.inl hmem)
      · exact .inl (hlast.digits char hmem)
  | strided hfirst hlast hstep =>
      rw [List.mem_append, List.mem_cons, List.mem_append, List.mem_cons] at hmem
      rcases hmem with hmem | hmem | hmem | hmem | hmem
      · exact .inl (hfirst.digits char hmem)
      · exact .inr (.inl hmem)
      · exact .inl (hlast.digits char hmem)
      · exact .inr (.inr hmem)
      · exact .inl (hstep.digits char hmem)

theorem CpuRange.denotes (range : CpuRange) :
    Denotes range.text range.first range.last range.stride := by
  cases range with
  | single a => exact .single (isNumber_toDigits a)
  | span a b => exact .span (isNumber_toDigits a) (isNumber_toDigits b)
  | strided a b s =>
      rw [text, List.append_assoc, List.cons_append]
      exact .strided (isNumber_toDigits a) (isNumber_toDigits b) (isNumber_toDigits s)

theorem readListItem_denotes {text : List Char} (hdenotes : Denotes text a b s)
    (hend : RangeEnd tail) (ha : a < ulongSize) (hb : b < ulongSize) (hs : s < ulongSize) :
    readListItem (text ++ tail) = ⟨a, b, s, tail, 0⟩ := by
  cases hdenotes with
  | single hfirst =>
      unfold readListItem
      rw [hfirst.strtoul hend.noDigit 0 ha]
      dsimp only
      rw [hend.skipChar_eq_none (by decide)]
  | span hfirst hlast =>
      unfold readListItem
      rw [List.append_assoc, List.cons_append, hfirst.strtoul (noDigit_cons rfl _) 0 ha]
      dsimp only
      rw [skipChar_cons]
      dsimp only
      rw [hlast.strtoul hend.noDigit 0 hb]
      dsimp only
      rw [hend.skipChar_eq_none (by decide)]
  | strided hfirst hlast hstep =>
      unfold readListItem
      rw [List.append_assoc, List.cons_append, List.append_assoc, List.cons_append,
        hfirst.strtoul (noDigit_cons rfl _) 0 ha]
      dsimp only
      rw [skipChar_cons]
      dsimp only
      rw [hlast.strtoul (noDigit_cons rfl _) 0 hb]
      dsimp only
      rw [skipChar_cons]
      dsimp only
      rw [hstep.strtoul hend.noDigit 0 hs]

theorem nextnumber_number {text rest : List Char} {number : ℕ} (hnumber : IsNumber text number)
    (hrest : NoDigit rest) (hlt : number < ulongSize) :
    nextnumber (text ++ rest) = .ok (toUint number, rest) := by
  obtain ⟨head, later, htext⟩ := List.exists_cons_of_ne_nil hnumber.nonempty
  have hdigit : head.isDigit = true := hnumber.digits head (htext ▸ List.mem_cons_self)
  have hread := hnumber.strtoul hrest 0 hlt
  have hadvanced : rest ≠ head :: (later ++ rest) := by
    intro hsame
    have hlength := congrArg List.length hsame
    simp only [List.length_cons, List.length_append] at hlength
    omega
  rw [htext, List.cons_append] at hread ⊢
  unfold nextnumber
  simp only [hdigit, Bool.not_true, Bool.false_eq_true, if_false, hread, ne_eq,
    not_true_eq_false, hadvanced]

theorem nexttoken_append_right (hbefore : sep ∉ before) :
    nexttoken (some (before ++ tail)) sep = nexttoken (some tail) sep := by
  unfold nexttoken
  rw [Option.bind_some, Option.bind_some, strchr_append_right hbefore]

theorem nexttoken_append (hbefore : sep ∉ before) :
    nexttoken (some (before ++ sep :: tail)) sep = some tail := by
  unfold nexttoken
  rw [Option.bind_some, strchr_append hbefore]
  rfl

theorem tokenBefore_rangeEnd (hend : RangeEnd tail) (hsep : sep ≠ ',') :
    tokenBefore (nexttoken (some tail) sep) (nexttoken (some tail) ',') = none := by
  rcases hend with rfl | ⟨later, rfl⟩
  · rfl
  · have hcomma : nexttoken (some (',' :: later)) ',' = some later :=
      nexttoken_append List.not_mem_nil
    have hsingle : sep ∉ [','] := by
      rw [List.mem_singleton]
      exact hsep
    have hlater : nexttoken (some (',' :: later)) sep = nexttoken (some later) sep :=
      nexttoken_append_right hsingle
    rw [hcomma, hlater]
    unfold nexttoken
    rw [Option.bind_some]
    cases hfound : strchr later sep with
    | none => rfl
    | some found =>
        obtain ⟨hnonempty, hlength⟩ := strchr_length_le hfound
        have htail : found.tail.length < found.length := by
          rw [List.length_tail]
          have := List.length_pos_iff.mpr hnonempty
          omega
        rw [Option.map_some]
        exact if_neg (by omega)

theorem tokenBefore_of_range (hend : RangeEnd tail) :
    tokenBefore (some (before ++ tail)) (nexttoken (some tail) ',') = some (before ++ tail) := by
  rcases hend with rfl | ⟨later, rfl⟩
  · rfl
  · have hcomma : nexttoken (some (',' :: later)) ',' = some later :=
      nexttoken_append List.not_mem_nil
    rw [hcomma]
    apply if_pos
    rw [List.length_append, List.length_cons]
    omega

section Reading

variable {text item left rest : List Char}

/-- The text up to a comma, with the numbers that are read from it and what is
left behind the last one. -/
inductive Reads : List Char → ℕ → ℕ → ℕ → List Char → Prop
  | single {first left : List Char} {a : ℕ} :
      IsNumber first a → NoDigit left → '-' ∉ left → Reads (first ++ left) a a 1 left
  | span {first junk last left : List Char} {a b : ℕ} :
      IsNumber first a → NoDigit junk → '-' ∉ junk → IsNumber last b → NoDigit left →
      ':' ∉ left → Reads (first ++ (junk ++ '-' :: (last ++ left))) a b 1 left
  | strided {first junk last junk' step left : List Char} {a b s : ℕ} :
      IsNumber first a → NoDigit junk → '-' ∉ junk → IsNumber last b → NoDigit junk' →
      ':' ∉ junk' → IsNumber step s → NoDigit left →
      Reads (first ++ (junk ++ '-' :: (last ++ (junk' ++ ':' :: (step ++ left))))) a b s left

theorem Denotes.comma_not_mem (hdenotes : Denotes item a b s) : ',' ∉ item := by
  cases hdenotes with
  | single hfirst => exact hfirst.not_mem rfl
  | span hfirst hlast =>
      simp [hfirst.not_mem, hlast.not_mem]
  | strided hfirst hlast hstep =>
      simp [hfirst.not_mem, hlast.not_mem, hstep.not_mem]

theorem Denotes.reads (hdenotes : Denotes item a b s) : Reads item a b s [] := by
  have hempty : NoDigit [] := trivial
  cases hdenotes with
  | single hfirst =>
      have hreads := Reads.single hfirst hempty List.not_mem_nil
      rwa [List.append_nil] at hreads
  | span hfirst hlast =>
      have hreads := Reads.span hfirst hempty List.not_mem_nil hlast hempty List.not_mem_nil
      rwa [List.append_nil, List.nil_append] at hreads
  | strided hfirst hlast hstep =>
      have hreads := Reads.strided hfirst hempty List.not_mem_nil hlast hempty List.not_mem_nil
        hstep hempty
      rwa [List.append_nil, List.nil_append, List.nil_append] at hreads

theorem RangeEnd.noDigit_append (hend : RangeEnd tail) (hleft : NoDigit left) :
    NoDigit (left ++ tail) := by
  cases left with
  | nil => exact hend.noDigit
  | cons char later => exact hleft

theorem noDigit_append_cons {char : Char} (hleft : NoDigit left) (hchar : char.isDigit = false) :
    NoDigit (left ++ char :: rest) := by
  cases left with
  | nil => exact hchar
  | cons next later => exact hleft

theorem nexttoken_eq_none (hnone : sep ∉ left) : nexttoken (some left) sep = none := by
  unfold nexttoken
  rw [Option.bind_some, strchr_eq_none hnone, Option.map_none]

theorem nexttoken_cases (left : List Char) (sep : Char) :
    (sep ∉ left ∧ nexttoken (some left) sep = none) ∨
      ∃ before after, left = before ++ sep :: after ∧ sep ∉ before ∧
        nexttoken (some left) sep = some after := by
  by_cases hin : sep ∈ left
  · obtain ⟨before, after, rfl, hbefore⟩ := List.eq_append_cons_of_mem hin
    exact .inr ⟨before, after, rfl, hbefore, nexttoken_append hbefore⟩
  · exact .inl ⟨hin, nexttoken_eq_none hin⟩

theorem tokenBefore_inside (hend : RangeEnd tail) (hcomma : ',' ∉ left) (hsep : sep ≠ ',') :
    tokenBefore (nexttoken (some (left ++ tail)) sep) (nexttoken (some tail) ',') =
      (nexttoken (some left) sep).map (· ++ tail) := by
  rcases nexttoken_cases left sep with ⟨hnone, htoken⟩ | ⟨before, after, rfl, hbefore, htoken⟩
  · rw [nexttoken_append_right hnone, tokenBefore_rangeEnd hend hsep, htoken, Option.map_none]
  · rw [htoken, List.append_assoc, List.cons_append, nexttoken_append hbefore,
      tokenBefore_of_range hend, Option.map_some]

theorem nexttoken_or_end (left : List Char) :
    (if left = [] then none else nexttoken (some left) sep) = nexttoken (some left) sep := by
  split
  next hnil =>
    rw [hnil]
    rfl
  next => rfl

def keptItem (a b s : ℕ) (rest : List Char) : CpulistItem :=
  ⟨toUint a, toUint b, toUint s, rest⟩

theorem cpulistItem_reads (hreads : Reads text a b s left) (hcomma : ',' ∉ text)
    (hend : RangeEnd tail) (ha : a < ulongSize) (hb : b < ulongSize) (hs : s < ulongSize)
    (hpos : toUint s ≠ 0) :
    cpulistItem (text ++ tail) = some (keptItem a b s (left ++ tail)) := by
  cases hreads with
  | single hfirst hleft hdash =>
      rw [List.mem_append, not_or] at hcomma
      unfold cpulistItem
      rw [List.append_assoc, nextnumber_number hfirst (hend.noDigit_append hleft) ha]
      simp only [Except.toOption, Option.bind_eq_bind, Option.bind_some]
      rw [nexttoken_append_right hcomma.2, tokenBefore_inside hend hcomma.2 (by decide),
        nexttoken_eq_none hdash, Option.map_none]
      rfl
  | @span first junk last left a b hfirst hjunk hdash hlast hleft hcolon =>
      rw [List.mem_append, not_or] at hcomma
      have hbehind : ',' ∉ left := by
        intro hmem
        exact hcomma.2 (by simp [hmem])
      have hstart : NoDigit ((junk ++ '-' :: (last ++ left)) ++ tail) :=
        hend.noDigit_append (noDigit_append_cons hjunk rfl)
      unfold cpulistItem
      rw [List.append_assoc, nextnumber_number hfirst hstart ha]
      simp only [Except.toOption, Option.bind_eq_bind, Option.bind_some]
      rw [nexttoken_append_right hcomma.2, tokenBefore_inside hend hcomma.2 (by decide),
        nexttoken_append hdash, Option.map_some]
      simp only [List.append_assoc, nextnumber_number hlast (hend.noDigit_append hleft) hb,
        Option.bind_some, nexttoken_or_end]
      rw [tokenBefore_inside hend hbehind (by decide), nexttoken_eq_none hcolon, Option.map_none]
      rfl
  | @strided first junk last junk' step left a b s hfirst hjunk hdash hlast hjunk' hcolon hstep
      hleft =>
      rw [List.mem_append, not_or] at hcomma
      have hbehind : ',' ∉ junk' ++ ':' :: (step ++ left) := by
        intro hmem
        exact hcomma.2 (by simp only [List.mem_append, List.mem_cons] at hmem ⊢; tauto)
      have hstart : NoDigit
          ((junk ++ '-' :: (last ++ (junk' ++ ':' :: (step ++ left)))) ++ tail) :=
        hend.noDigit_append (noDigit_append_cons hjunk rfl)
      have hmiddle : NoDigit ((junk' ++ ':' :: (step ++ left)) ++ tail) :=
        hend.noDigit_append (noDigit_append_cons hjunk' rfl)
      unfold cpulistItem
      rw [List.append_assoc, nextnumber_number hfirst hstart ha]
      simp only [Except.toOption, Option.bind_eq_bind, Option.bind_some]
      rw [nexttoken_append_right hcomma.2, tokenBefore_inside hend hcomma.2 (by decide),
        nexttoken_append hdash, Option.map_some]
      simp only [List.append_assoc last, nextnumber_number hlast hmiddle hb, Option.bind_some,
        nexttoken_or_end]
      rw [tokenBefore_inside hend hbehind (by decide), nexttoken_append hcolon, Option.map_some]
      simp only [List.append_assoc step,
        nextnumber_number hstep (hend.noDigit_append hleft) hs, Option.bind_some, if_neg hpos]
      rfl

theorem cpulistItem_denotes (hdenotes : Denotes text a b s) (hend : RangeEnd tail)
    (ha : a < 2 ^ 32) (hb : b < 2 ^ 32) (hs : s < 2 ^ 32) (hpos : 1 ≤ s) :
    cpulistItem (text ++ tail) = some ⟨a, b, s, tail⟩ := by
  have hsize : (2 : ℕ) ^ 32 < ulongSize := by decide
  have hkept : ∀ x < 2 ^ 32, toUint x = x := fun x hx => Nat.mod_eq_of_lt hx
  have hitem := cpulistItem_reads hdenotes.reads hdenotes.comma_not_mem hend (by omega) (by omega)
    (by omega) (by rw [hkept s hs]; omega)
  rwa [keptItem, hkept a ha, hkept b hb, hkept s hs, List.nil_append] at hitem

end Reading

theorem rangesText_cons (range : CpuRange) (later : List CpuRange) :
    ∃ tail, rangesText (range :: later) = range.text ++ tail ∧ RangeEnd tail ∧
      (later = [] → tail = []) ∧ (later ≠ [] → tail = ',' :: rangesText later) := by
  cases later with
  | nil => exact ⟨[], by simp [rangesText], .inl rfl, fun _ => rfl, fun h => absurd rfl h⟩
  | cons next rest =>
      exact ⟨',' :: rangesText (next :: rest), rfl, .inr ⟨_, rfl⟩, nofun, fun _ => rfl⟩

theorem rangesCpus_cons (range : CpuRange) (later : List CpuRange) :
    rangesCpus (range :: later) = range.cpus ∪ rangesCpus later := by
  rw [rangesCpus, List.toFinset_cons, biUnion_insert]
  rfl

section Lists

variable {n fuel : ℕ} {ranges : List CpuRange} {set : Finset ℕ} {perror : ℤ → ℤ}

theorem ListItem.not_bad (hend : RangeEnd tail) (hmax : n < 2 ^ 31) (hlt : b < n)
    (hstride : s < n / 2) :
    ¬ (⟨a, b, s, tail, 0⟩ : ListItem).bad n := by
  have hulong : ulongSize = 2 ^ 64 := rfl
  have hhalf : toUlong ((n : ℤ).tdiv 2) = n / 2 := toUlong_natCast (by omega : n / 2 < ulongSize)
  have htotal : toUlong (n : ℤ) = n := toUlong_natCast (by omega)
  unfold ListItem.bad
  rw [hhalf, htotal]
  rintro (⟨hcomma, hnil⟩ | hbad | hbad | hbad)
  · rcases hend with rfl | ⟨rest, rfl⟩
    · exact hnil rfl
    · exact hcomma rfl
  · exact absurd hbad (by dsimp only; omega)
  · exact hbad rfl
  · exact absurd hbad (by dsimp only; omega)

theorem listToMaskLoop_item {text : List Char} (hdenotes : Denotes text a b s)
    (hend : RangeEnd tail) (hmax : n < 2 ^ 31) (hle : a ≤ b) (hlt : b < n) (hpos : 1 ≤ s)
    (hstride : s < n / 2) (hfuel : n < fuel) :
    listToMaskLoop perror n cpusetsize (fuel + 1) (text ++ tail) set = match tail with
      | [] => some (0, set ∪ (steps a b s).filter (· < 8 * cpusetsize))
      | _ :: later => listToMaskLoop perror n cpusetsize fuel later
          (set ∪ (steps a b s).filter (· < 8 * cpusetsize)) := by
  have hulong : ulongSize = 2 ^ 64 := rfl
  have hitem := readListItem_denotes hdenotes hend (by omega) (by omega) (by omega)
  rw [listToMaskLoop, hitem]
  simp only [if_neg (ListItem.not_bad hend hmax hlt hstride), Option.bind_eq_bind]
  rw [toInt_natCast (by omega), maskRangeLoop_eq (by omega) (by omega) hpos hle (by omega),
    Option.bind_some]

/-- A list of ranges is read to its end, into the CPUs that the set has. -/
theorem listToMaskLoop_ranges (hmin : 4 ≤ n) (hmax : n < 2 ^ 31) (hnonempty : ranges ≠ [])
    (hfits : ∀ range ∈ ranges, range.Fits n) (hfuel : n + ranges.length < fuel) :
    listToMaskLoop perror n cpusetsize fuel (rangesText ranges) set =
      some (0, set ∪ (rangesCpus ranges).filter (· < 8 * cpusetsize)) := by
  induction ranges generalizing fuel set with
  | nil => exact absurd rfl hnonempty
  | cons range later ih =>
      obtain ⟨tail, htext, hend, hlastTail, hnextTail⟩ := rangesText_cons range later
      obtain ⟨hle, hlt, hpos, hstride⟩ := (hfits range List.mem_cons_self).bounds hmin
      rw [List.length_cons] at hfuel
      cases fuel with
      | zero => omega
      | succ fuel =>
          rw [htext, listToMaskLoop_item range.denotes hend hmax hle hlt hpos hstride (by omega),
            rangesCpus_cons, filter_union, ← union_assoc]
          by_cases hlater : later = []
          · rw [hlastTail hlater, hlater]
            simp [rangesCpus, CpuRange.cpus]
          · rw [hnextTail hlater]
            exact ih hlater (fun r hr => hfits r (List.mem_cons_of_mem _ hr)) (by omega)

theorem rangesCpus_lt {bound cpu : ℕ} (hlast : ∀ range ∈ ranges, range.last < bound)
    (hcpu : cpu ∈ rangesCpus ranges) : cpu < bound := by
  obtain ⟨range, hrange, hmem⟩ := mem_biUnion.mp hcpu
  have hsteps := mem_steps.mp hmem
  exact lt_of_le_of_lt hsteps.1.2 (hlast range (List.mem_toFinset.mp hrange))

/-- The same for the parser of the library. -/
theorem cpulistParseLoop_ranges
    {setsize : ℕ} {fail : Bool} {stop : Option (List Char)} (hmin : 4 ≤ n) (hmax : n ≤ 1024)
    (hsize : n ≤ 8 * setsize) (hnonempty : ranges ≠ [])
    (hfits : ∀ range ∈ ranges, range.Fits n) (hfuel : n + ranges.length < fuel) :
    cpulistParseLoop setsize fail fuel (some (rangesText ranges)) stop set =
      some (0, set ∪ (rangesCpus ranges).filter (· < 8 * setsize)) := by
  induction ranges generalizing fuel set stop with
  | nil => exact absurd rfl hnonempty
  | cons range later ih =>
      obtain ⟨tail, htext, hend, hlastTail, hnextTail⟩ := rangesText_cons range later
      obtain ⟨hle, hlt, hpos, hstride⟩ := (hfits range List.mem_cons_self).bounds hmin
      rw [List.length_cons] at hfuel
      cases fuel with
      | zero => omega
      | succ fuel =>
          have hbelow : ∀ c ∈ steps range.first range.last range.stride, c < n :=
            fun c hc => lt_of_le_of_lt (mem_steps.mp hc).1.2 hlt
          have hitem := cpulistItem_denotes range.denotes hend (by omega) (by omega) (by omega) hpos
          rw [htext, cpulistParseLoop, hitem]
          simp only [not_true_eq_false, if_false, hle, Option.bind_eq_bind]
          rw [cpulistRangeLoop_eq hpos (fun c hc => by have := hbelow c hc; omega)
            (fun _ c hc => lt_of_lt_of_le (hbelow c hc) hsize) (by omega), Option.bind_some,
            rangesCpus_cons, filter_union, ← union_assoc]
          simp only [ne_eq, not_true_eq_false, if_false]
          rw [nexttoken_append_right range.denotes.comma_not_mem]
          by_cases hlater : later = []
          · rw [hlastTail hlater, hlater]
            cases fuel with
            | zero => omega
            | succ fuel =>
                simp [cpulistParseLoop, nexttoken, strchr, rangesCpus, CpuRange.cpus]
          · have hcomma : nexttoken (some (',' :: rangesText later)) ',' =
                some (rangesText later) := nexttoken_append List.not_mem_nil
            rw [hnextTail hlater, hcomma]
            exact ih hlater (fun r hr => hfits r (List.mem_cons_of_mem _ hr)) (by omega)

/-- On a list of ranges below the number of CPUs both parsers return 0 and the
CPUs of the ranges. -/
theorem cpulist_parsers_agree
    (hmin : 4 ≤ n) (hmax : n ≤ 1024) (hnonempty : ranges ≠ [])
    (hfits : ∀ range ∈ ranges, range.Fits n) (hfuel : n + ranges.length < fuel) :
    (∀ perror cpusetsize, n ≤ 8 * cpusetsize →
      listToMask perror n fuel (rangesText ranges) cpusetsize = some (0, rangesCpus ranges)) ∧
    ∀ setsize fail, n ≤ 8 * setsize →
      cpulistParse fuel (rangesText ranges) setsize fail = some (0, rangesCpus ranges) := by
  have hall : ∀ {setsize}, n ≤ 8 * setsize →
      (rangesCpus ranges).filter (· < 8 * setsize) = rangesCpus ranges := by
    intro setsize hsize
    refine filter_true_of_mem fun cpu hcpu => lt_of_lt_of_le ?_ hsize
    exact rangesCpus_lt (fun range hrange => ((hfits range hrange).bounds hmin).2.1) hcpu
  constructor
  · intro perror cpusetsize hsize
    unfold listToMask
    rw [listToMaskLoop_ranges hmin (by omega) hnonempty hfits hfuel, hall hsize,
      empty_union]
  · intro setsize fail hsize
    unfold cpulistParse
    rw [cpulistParseLoop_ranges hmin hmax hsize hnonempty hfits hfuel, hall hsize,
      empty_union]

end Lists

/-- The list `0-7:3,9,12-13` on 16 CPUs. -/
theorem cpulist_parsers_agree_three_ranges :
    listToMask errnoKept 16 20 ['0', '-', '7', ':', '3', ',', '9', ',', '1', '2', '-', '1', '3'] 2 =
        some (0, {0, 3, 6, 9, 12, 13}) ∧
      cpulistParse 20 ['0', '-', '7', ':', '3', ',', '9', ',', '1', '2', '-', '1', '3'] 2 true =
        some (0, {0, 3, 6, 9, 12, 13}) := by
  have htext : rangesText [.strided 0 7 3, .single 9, .span 12 13] =
      ['0', '-', '7', ':', '3', ',', '9', ',', '1', '2', '-', '1', '3'] := by
    decide +kernel
  have hcpus : rangesCpus [.strided 0 7 3, .single 9, .span 12 13] =
      {0, 3, 6, 9, 12, 13} := by
    decide +kernel
  have hboth := cpulist_parsers_agree (by decide : 4 ≤ 16) (by decide)
    (by decide : [CpuRange.strided 0 7 3, .single 9, .span 12 13] ≠ []) (by decide)
    (by decide : 16 + 3 < 20)
  rw [htext, hcpus] at hboth
  exact ⟨hboth.1 errnoKept 2 (by decide), hboth.2 2 true (by decide)⟩

end WaycaScheduler
