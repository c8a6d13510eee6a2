import Mathlib.Tactic
import Mathlib.Data.Nat.Digits.Defs

/-!
# Texts as the C library reads them

A text is the list of the characters before its terminating null.  A pointer
into the text is what is left of it, so that the earlier of two pointers is
the longer one, and a null character is read where nothing is left.
-/

namespace CText

variable {char : Char}

/-- The largest value of an `unsigned long` and one more. -/
def ulongSize : ℕ := 2 ^ 64

def ERANGE : ℤ := 34

/-- `isspace` in the C locale. -/
def isSpace (char : Char) : Bool :=
  char = ' ' || ('\t' ≤ char && char ≤ '\r')

/-- What `strtoul` returns, where it stops and what it leaves in `errno`. -/
structure Parsed where
  value : ℕ
  rest : List Char
  errno : ℤ
deriving DecidableEq

def readSign : List Char → Bool × List Char
  | '-' :: rest => (true, rest)
  | '+' :: rest => (false, rest)
  | rest => (false, rest)

/-- `strtoul(text, &rest, 10)`. -/
def strtoul (errno : ℤ) (text : List Char) : Parsed :=
  let signed := readSign (text.dropWhile isSpace)
  let digits := signed.2.takeWhile Char.isDigit
  let rest := signed.2.dropWhile Char.isDigit
  let value := Nat.ofDigitChars 10 digits 0
  if digits = [] then ⟨0, text, errno⟩
  else if ulongSize ≤ value then ⟨ulongSize - 1, rest, ERANGE⟩
  else ⟨if signed.1 then (ulongSize - value) % ulongSize else value, rest, errno⟩

/-- `strtol(text, &rest, 10)`: the value and where it stops. -/
def strtol (text : List Char) : ℤ × List Char :=
  let signed := readSign (text.dropWhile isSpace)
  let digits := signed.2.takeWhile Char.isDigit
  let value : ℤ := Nat.ofDigitChars 10 digits 0
  if digits = [] then (0, text)
  else (max (-2 ^ 63) (min (2 ^ 63 - 1) (if signed.1 then -value else value)),
    signed.2.dropWhile Char.isDigit)

/-- What `strtol` leaves in an `errno` that was zero. -/
def strtolErrno (text : List Char) : ℤ :=
  let signed := readSign (text.dropWhile isSpace)
  let value : ℤ := Nat.ofDigitChars 10 (signed.2.takeWhile Char.isDigit) 0
  let value := if signed.1 then -value else value
  if -2 ^ 63 ≤ value ∧ value < 2 ^ 63 then 0 else ERANGE

def strchr (text : List Char) (char : Char) : Option (List Char) :=
  if char ∈ text then some (text.dropWhile (· ≠ char)) else none

def strstr (needle : List Char) : List Char → Option (List Char)
  | [] => if needle = [] then some [] else none
  | char :: rest =>
      if needle.isPrefixOf (char :: rest) then some (char :: rest) else strstr needle rest

def afterLast (char : Char) (text : List Char) : Option (List Char) :=
  if char ∈ text then some (text.reverse.takeWhile (· ≠ char)).reverse else none

def digitValue (char : Char) : ℕ :=
  if char.isDigit then char.toNat - '0'.toNat
  else if 'a' ≤ char && char ≤ 'f' then char.toNat - 'a'.toNat + 10
  else if 'A' ≤ char && char ≤ 'F' then char.toNat - 'A'.toNat + 10
  else 16

def readBase (base : ℕ) (text : List Char) : ℕ :=
  (text.takeWhile (digitValue · < base)).foldl (fun value char => value * base + digitValue char) 0

def readAuto (text : List Char) : Bool × ℕ :=
  let (negative, text) := readSign (text.dropWhile isSpace)
  match text with
  | '0' :: x :: digit :: rest =>
      if (x = 'x' ∨ x = 'X') ∧ digitValue digit < 16 then (negative, readBase 16 (digit :: rest))
      else (negative, readBase 8 (x :: digit :: rest))
  | '0' :: rest => (negative, readBase 8 rest)
  | text => (negative, readBase 10 text)

/-- `strtol(text, NULL, 0)` -/
def strtolAuto (text : List Char) : ℤ :=
  let (negative, value) := readAuto text
  max (-2 ^ 63) (min (2 ^ 63 - 1) (if negative then -(value : ℤ) else value))

/-- `strtoull(text, NULL, 0)` -/
def strtoullAuto (text : List Char) : ℕ :=
  let (negative, value) := readAuto text
  if ulongSize ≤ value then ulongSize - 1
  else if negative then (ulongSize - value) % ulongSize
  else value

def skipChar (char : Char) : List Char → Option (List Char)
  | [] => none
  | next :: rest => if next = char then some rest else none

theorem skipChar_cons (char : Char) (rest : List Char) :
    skipChar char (char :: rest) = some rest :=
  if_pos rfl

def NoDigit : List Char → Prop
  | [] => True
  | char :: _ => char.isDigit = false

theorem noDigit_cons (hchar : char.isDigit = false) (rest : List Char) :
    NoDigit (char :: rest) :=
  hchar

theorem readSign_digit {head : Char} (hdigit : head.isDigit = true) (tail : List Char) :
    readSign ((head :: tail).dropWhile isSpace) = (false, head :: tail) := by
  have hbounds := Char.isDigit_iff_toNat.mp hdigit
  have hspace : isSpace head = false := by
    have hblank : head ≠ ' ' := by
      rintro rfl
      exact absurd hdigit (by decide)
    have hcontrol : ¬ head ≤ '\r' := by
      intro hle
      have hle : head.toNat ≤ '\r'.toNat := hle
      have hsmall : '\r'.toNat < '0'.toNat := by decide
      omega
    simp [isSpace, hblank, hcontrol]
  rw [List.dropWhile_cons, hspace]
  have hminus : head ≠ '-' := by
    rintro rfl
    exact absurd hdigit (by decide)
  have hplus : head ≠ '+' := by
    rintro rfl
    exact absurd hdigit (by decide)
  simp [readSign, hminus, hplus]

/-- A number is written with one digit or more. -/
structure IsNumber (text : List Char) (number : ℕ) : Prop where
  nonempty : text ≠ []
  digits : ∀ char ∈ text, char.isDigit = true
  value : Nat.ofDigitChars 10 text 0 = number

theorem isNumber_toDigits (number : ℕ) : IsNumber (Nat.toDigits 10 number) number :=
  ⟨Nat.toDigits_ne_nil, fun _ hchar => Nat.isDigit_of_mem_toDigits (by decide) (by decide) hchar,
    Nat.ofDigitChars_toDigits (by decide) (by decide)⟩

section Numbers

variable {text rest : List Char} {number : ℕ}

theorem IsNumber.not_mem (hnumber : IsNumber text number) {char : Char}
    (hchar : char.isDigit = false) : char ∉ text := by
  intro hmem
  have hdigit := hnumber.digits char hmem
  rw [hchar] at hdigit
  cases hdigit

section

variable (hnumber : IsNumber text number) (hrest : NoDigit rest)

include hnumber hrest

theorem IsNumber.read :
    readSign ((text ++ rest).dropWhile isSpace) = (false, text ++ rest) ∧
      (text ++ rest).takeWhile Char.isDigit = text ∧
      (text ++ rest).dropWhile Char.isDigit = rest := by
  refine ⟨?_, ?_, ?_⟩
  · obtain ⟨head, tail, htext⟩ := List.exists_cons_of_ne_nil hnumber.nonempty
    have hhead : head.isDigit = true := hnumber.digits head (by simp [htext])
    rw [htext, List.cons_append]
    exact readSign_digit hhead (tail ++ rest)
  · rw [List.takeWhile_append_of_pos hnumber.digits]
    cases rest with
    | nil => simp
    | cons next later =>
        have hnext : next.isDigit = false := hrest
        simp [hnext]
  · rw [List.dropWhile_append_of_pos hnumber.digits]
    cases rest with
    | nil => rfl
    | cons next later =>
        have hnext : next.isDigit = false := hrest
        simp [hnext]

theorem IsNumber.strtoul (errno : ℤ) (hlt : number < ulongSize) :
    CText.strtoul errno (text ++ rest) = ⟨number, rest, errno⟩ := by
  obtain ⟨hstart, htake, hdrop⟩ := hnumber.read hrest
  unfold CText.strtoul
  simp only [hstart, htake, hdrop, hnumber.value, if_neg hnumber.nonempty,
    if_neg (not_le.mpr hlt), Bool.false_eq_true, if_false]

theorem IsNumber.strtoul_range (errno : ℤ) (hle : ulongSize ≤ number) :
    CText.strtoul errno (text ++ rest) = ⟨ulongSize - 1, rest, ERANGE⟩ := by
  obtain ⟨hstart, htake, hdrop⟩ := hnumber.read hrest
  unfold CText.strtoul
  simp only [hstart, htake, hdrop, hnumber.value, if_neg hnumber.nonempty, if_pos hle]

theorem IsNumber.strtoul_value (errno : ℤ) :
    (CText.strtoul errno (text ++ rest)).value = min number (ulongSize - 1) := by
  rcases lt_or_ge number ulongSize with hlt | hle
  · rw [hnumber.strtoul hrest errno hlt, min_eq_left (Nat.le_sub_one_of_lt hlt)]
  · rw [hnumber.strtoul_range hrest errno hle, min_eq_right (le_trans (Nat.sub_le _ _) hle)]

theorem IsNumber.strtoul_rest (errno : ℤ) : (CText.strtoul errno (text ++ rest)).rest = rest := by
  rcases lt_or_ge number ulongSize with hlt | hle
  · rw [hnumber.strtoul hrest errno hlt]
  · rw [hnumber.strtoul_range hrest errno hle]

theorem IsNumber.strtol (hlt : number < 2 ^ 63) :
    CText.strtol (text ++ rest) = ((number : ℤ), rest) ∧ strtolErrno (text ++ rest) = 0 := by
  obtain ⟨hstart, htake, hdrop⟩ := hnumber.read hrest
  unfold CText.strtol strtolErrno
  simp only [hstart, htake, hdrop, hnumber.value, if_neg hnumber.nonempty, Bool.false_eq_true,
    if_false, Prod.mk.injEq, and_true]
  constructor
  · omega
  · exact if_pos (by omega)

end

end Numbers

theorem strchr_eq_none {text : List Char} (hnone : char ∉ text) :
    strchr text char = none :=
  if_neg hnone

theorem strchr_append {before rest : List Char} (hbefore : char ∉ before) :
    strchr (before ++ char :: rest) char = some (char :: rest) := by
  unfold strchr
  rw [if_pos (by simp), List.dropWhile_append_of_pos]
  · simp
  · intro other hother
    apply decide_eq_true
    rintro rfl
    exact hbefore hother

theorem strchr_append_right {before text : List Char} (hbefore : char ∉ before) :
    strchr (before ++ text) char = strchr text char := by
  by_cases hin : char ∈ text
  · obtain ⟨middle, rest, rfl, hmiddle⟩ := List.eq_append_cons_of_mem hin
    have hboth : char ∉ before ++ middle := by
      rw [List.mem_append, not_or]
      exact ⟨hbefore, hmiddle⟩
    rw [← List.append_assoc, strchr_append hboth, strchr_append hmiddle]
  · have hboth : char ∉ before ++ text := by
      rw [List.mem_append, not_or]
      exact ⟨hbefore, hin⟩
    rw [strchr_eq_none hboth, strchr_eq_none hin]

theorem not_mem_toDigits (number : ℕ) (hchar : char.isDigit = false) :
    char ∉ Nat.toDigits 10 number := by
  intro hin
  have hdigit := Nat.isDigit_of_mem_toDigits (by decide) (by decide) hin
  rw [hchar] at hdigit
  cases hdigit

theorem strchr_length_le {text found : List Char} (hfound : strchr text char = some found) :
    found ≠ [] ∧ found.length ≤ text.length := by
  by_cases hin : char ∈ text
  · obtain ⟨before, rest, rfl, hbefore⟩ := List.eq_append_cons_of_mem hin
    rw [strchr_append hbefore, Option.some.injEq] at hfound
    subst hfound
    simp
  · rw [strchr_eq_none hin] at hfound
    cases hfound

end CText
