import Mathlib.Tactic
import Mathlib.Data.Nat.Digits.Defs

/-!
# Numerals in a text

The digits of a text denote a number in a base, the characters that are not
digits are passed over.  What is a digit is a parameter, so that a text may
group its digits with separators.
-/

namespace Numerals

variable {base : ℕ} {digit : Char → Option ℕ} {first second : List Char}

def readChar (base : ℕ) (digit : Char → Option ℕ) (sofar : ℕ) (char : Char) : ℕ :=
  match digit char with
  | some d => base * sofar + d
  | none => sofar

def value (base : ℕ) (digit : Char → Option ℕ) (text : List Char) : ℕ :=
  text.foldl (readChar base digit) 0

def digitCount (digit : Char → Option ℕ) (text : List Char) : ℕ :=
  text.countP fun char => (digit char).isSome

@[simp] theorem value_nil : value base digit [] = 0 := rfl

@[simp] theorem digitCount_nil : digitCount digit [] = 0 := rfl

theorem digitCount_append :
    digitCount digit (first ++ second) = digitCount digit first + digitCount digit second :=
  List.countP_append

theorem exists_digit_behind {text : List Char} {count : ℕ} (hmore : count < digitCount digit text) :
    ∃ before char after d, text = before ++ char :: after ∧ digit char = some d ∧
      digitCount digit before = count := by
  induction text generalizing count with
  | nil => exact absurd hmore (Nat.not_lt_zero count)
  | cons char rest ih =>
      cases hchar : digit char with
      | none =>
          have hsame : ∀ later, digitCount digit (char :: later) = digitCount digit later := by
            simp [digitCount, hchar]
          rw [hsame] at hmore
          obtain ⟨before, found, after, d, htext, hdigit, hcount⟩ := ih hmore
          refine ⟨char :: before, found, after, d, ?_, hdigit, ?_⟩
          · rw [htext, List.cons_append]
          · rw [hsame, hcount]
      | some d =>
          have hsucc : ∀ later, digitCount digit (char :: later) = digitCount digit later + 1 := by
            simp [digitCount, hchar]
          cases count with
          | zero => exact ⟨[], char, rest, d, rfl, hchar, rfl⟩
          | succ count =>
              rw [hsucc] at hmore
              obtain ⟨before, found, after, e, htext, hdigit, hcount⟩ :=
                ih (Nat.lt_of_succ_lt_succ hmore)
              refine ⟨char :: before, found, after, e, ?_, hdigit, ?_⟩
              · rw [htext, List.cons_append]
              · rw [hsucc, hcount]

theorem value_concat (text : List Char) (char : Char) :
    value base digit (text ++ [char]) = readChar base digit (value base digit text) char := by
  simp [value]

theorem value_append :
    value base digit (first ++ second) =
      base ^ digitCount digit second * value base digit first + value base digit second := by
  induction second using List.reverseRecOn with
  | nil => simp
  | append_singleton rest char ih =>
      rw [← List.append_assoc, value_concat, value_concat, ih, digitCount_append]
      unfold readChar
      cases hchar : digit char with
      | none => simp [digitCount, hchar]
      | some d =>
          simp only [digitCount, List.countP_singleton, hchar, Option.isSome_some, if_true]
          rw [pow_succ]
          ring

theorem value_eq_zero (hzero : ∀ char ∈ first, digit char = none ∨ digit char = some 0) :
    value base digit first = 0 := by
  induction first using List.reverseRecOn with
  | nil => rfl
  | append_singleton rest char ih =>
      rw [value_concat, ih fun c hc => hzero c (List.mem_append_left _ hc)]
      unfold readChar
      rcases hzero char (by simp) with hchar | hchar
      · rw [hchar]
      · rw [hchar, mul_zero]

theorem value_zeros_append (hzero : ∀ char ∈ first, digit char = none ∨ digit char = some 0) :
    value base digit (first ++ second) = value base digit second := by
  rw [value_append, value_eq_zero hzero, mul_zero, zero_add]

theorem value_toDigits
    (hbase : 1 < base) (hdigit : ∀ d < base, digit d.digitChar = some d) (n : ℕ) :
    value base digit (Nat.toDigits base n) = n := by
  induction n using Nat.strong_induction_on with
  | _ n ih =>
      by_cases hlt : n < base
      · rw [Nat.toDigits_of_lt_base hlt]
        simp [value, readChar, hdigit n hlt]
      · have hpos : 0 < n := by omega
        rw [Nat.toDigits_of_base_le hbase (not_lt.mp hlt), value_concat,
          ih (n / base) (Nat.div_lt_self hpos hbase)]
        unfold readChar
        rw [hdigit _ (Nat.mod_lt n (by omega))]
        exact Nat.div_add_mod n base

theorem digit_of_mem_toDigits (hbase : 1 < base) (n : ℕ) :
    ∀ char ∈ Nat.toDigits base n, ∃ d < base, char = d.digitChar := by
  induction n using Nat.strong_induction_on with
  | _ n ih =>
      intro char hchar
      by_cases hlt : n < base
      · rw [Nat.toDigits_of_lt_base hlt, List.mem_singleton] at hchar
        exact ⟨n, hlt, hchar⟩
      · have hpos : 0 < n := by omega
        rw [Nat.toDigits_of_base_le hbase (not_lt.mp hlt), List.mem_append,
          List.mem_singleton] at hchar
        rcases hchar with hchar | hchar
        · exact ih (n / base) (Nat.div_lt_self hpos hbase) char hchar
        · exact ⟨n % base, Nat.mod_lt n (by omega), hchar⟩

end Numerals
