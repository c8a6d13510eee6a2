import WaycaScheduler.ListTermination
import Mathlib.Data.List.TakeWhile

/-!
# What `cpulist_parse` accepts

The parser should accept a text exactly if it is a list of items.  It finds the
separators of an item by searching, so it passes over what stands between a
number and the next separator, and it keeps 32 bits of each number.  The parser
decides the texts as the grammar does as long as it comes to items without such
parts and its numbers do not wrap around.
-/

namespace WaycaScheduler

open CText Fallible Fuelled Finset

/-! ## The numbers of an item -/

section Numbers

variable {text tail rest left : List Char} {number x : ℕ}

theorem noDigit_of_append (hboth : NoDigit (left ++ rest)) : NoDigit left := by
  cases left with
  | nil => trivial
  | cons next later => exact hboth

theorem nextnumber_tooLarge (hnumber : IsNumber text number) (hrest : NoDigit rest)
    (hle : ulongSize ≤ number) : nextnumber (text ++ rest) = .error (-CText.ERANGE) := by
  obtain ⟨head, later, htext⟩ := List.exists_cons_of_ne_nil hnumber.nonempty
  have hdigit : head.isDigit = true := hnumber.digits head (htext ▸ List.mem_cons_self)
  have hread := hnumber.strtoul_range hrest 0 hle
  have hrange : CText.ERANGE ≠ 0 := by decide
  rw [htext, List.cons_append] at hread ⊢
  unfold nextnumber
  simp only [hdigit, Bool.not_true, Bool.false_eq_true, if_false, hread, ne_eq, hrange,
    not_false_eq_true, if_true]

theorem exists_number {char : Char} {later : List Char} (hdigit : char.isDigit = true) :
    ∃ digits number left, char :: later = digits ++ left ∧ IsNumber digits number ∧
      NoDigit left := by
  refine ⟨(char :: later).takeWhile Char.isDigit, _, (char :: later).dropWhile Char.isDigit,
    List.takeWhile_append_dropWhile.symm, ⟨?_, ?_, rfl⟩, ?_⟩
  · simp [hdigit]
  · intro digit hmem
    exact List.mem_takeWhile_imp hmem
  · have hhead := List.head?_dropWhile_not Char.isDigit (char :: later)
    cases hrest : (char :: later).dropWhile Char.isDigit with
    | nil => trivial
    | cons next rest =>
        rw [hrest] at hhead
        exact hhead

theorem nextnumber_inside (hend : RangeEnd tail)
    (hread : nextnumber (text ++ tail) = .ok (x, rest)) :
    ∃ digits number left, text = digits ++ left ∧ rest = left ++ tail ∧ IsNumber digits number ∧
      NoDigit left ∧ number < ulongSize ∧ x = toUint number := by
  cases text with
  | nil =>
      rcases hend with rfl | ⟨later, rfl⟩
      · cases hread
      · cases hread
  | cons char later =>
      by_cases hdigit : char.isDigit = true
      · obtain ⟨digits, number, left, htext, hnumber, hleft⟩ := exists_number hdigit
        have hbehind := hend.noDigit_append hleft
        rw [htext, List.append_assoc] at hread
        rcases lt_or_ge number ulongSize with hlt | hge
        · rw [nextnumber_number hnumber hbehind hlt] at hread
          cases hread
          exact ⟨digits, number, left, htext, rfl, hnumber, hleft, hlt, rfl⟩
        · rw [nextnumber_tooLarge hnumber hbehind hge] at hread
          cases hread
      · rw [List.cons_append, nextnumber, if_pos (by simp [hdigit])] at hread
        cases hread

end Numbers

section Items

variable {text tail left : List Char} {a b s : ℕ} {item : CpulistItem}

theorem reads_of_cpulistItem (hitem : cpulistItem (text ++ tail) = some item)
    (hcomma : ',' ∉ text) (hend : RangeEnd tail) :
    ∃ a b s left, Reads text a b s left ∧ a < ulongSize ∧ b < ulongSize ∧ s < ulongSize ∧
      toUint s ≠ 0 ∧ item = keptItem a b s (left ++ tail) := by
  have hone : 1 < ulongSize := by decide
  have hunit : toUint 1 ≠ 0 := by decide
  obtain ⟨⟨x, rest⟩, hfirst, hitem⟩ := Option.bind_eq_some_iff.mp hitem
  obtain ⟨first, a, left, rfl, rfl, hnumber, hleft, ha, rfl⟩ :=
    nextnumber_inside hend (ok_of_toOption hfirst)
  rw [List.mem_append, not_or] at hcomma
  dsimp only at hitem
  rw [nexttoken_append_right hcomma.2, tokenBefore_inside hend hcomma.2 (by decide)] at hitem
  rcases nexttoken_cases left '-' with ⟨hdash, htoken⟩ | ⟨junk, after, rfl, hdash, htoken⟩
  · rw [htoken, Option.map_none] at hitem
    cases hitem
    exact ⟨a, a, 1, left, .single hnumber hleft hdash, ha, ha, hone, hunit, rfl⟩
  · rw [htoken, Option.map_some] at hitem
    obtain ⟨⟨x, rest⟩, hlast, hitem⟩ := Option.bind_eq_some_iff.mp hitem
    obtain ⟨last, b, left, rfl, rfl, hnumber', hleft', hb, rfl⟩ :=
      nextnumber_inside hend (ok_of_toOption hlast)
    have hjunk := noDigit_of_append hleft
    have hbehind : ',' ∉ left := by
      intro hmem
      exact hcomma.2 (by simp [hmem])
    dsimp only at hitem
    rw [nexttoken_or_end, tokenBefore_inside hend hbehind (by decide)] at hitem
    rcases nexttoken_cases left ':' with ⟨hcolon, htoken'⟩ | ⟨junk', after, rfl, hcolon, htoken'⟩
    · rw [htoken', Option.map_none] at hitem
      cases hitem
      exact ⟨a, b, 1, left, .span hnumber hjunk hdash hnumber' hleft' hcolon, ha, hb, hone,
        hunit, rfl⟩
    · rw [htoken', Option.map_some] at hitem
      obtain ⟨⟨x, rest⟩, hstep, hitem⟩ := Option.bind_eq_some_iff.mp hitem
      obtain ⟨step, s, left, rfl, rfl, hnumber'', hleft'', hs, rfl⟩ :=
        nextnumber_inside hend (ok_of_toOption hstep)
      have hjunk' := noDigit_of_append hleft'
      dsimp only at hitem
      split at hitem
      next => cases hitem
      next hpos =>
        cases hitem
        exact ⟨a, b, s, left, .strided hnumber hjunk hdash hnumber' hjunk' hcolon hnumber''
          hleft'', ha, hb, hs, hpos, rfl⟩

end Items

/-! ## The grammar -/

/-- The text is a list of ranges, and these are the CPUs in them. -/
inductive Listed : List Char → Finset ℕ → Prop
  | last {text : List Char} {a b s : ℕ} :
      Denotes text a b s → a ≤ b → 1 ≤ s → Listed text (steps a b s)
  | more {item later : List Char} {a b s : ℕ} {cpus : Finset ℕ} :
      Denotes item a b s → a ≤ b → 1 ≤ s → Listed later cpus →
      Listed (item ++ ',' :: later) (steps a b s ∪ cpus)

/-- The list is well formed up to an item with a CPU that does not fit. -/
inductive DoesNotFit (max : ℕ) : List Char → Prop
  | here {item tail : List Char} {a b s c : ℕ} :
      Denotes item a b s → a ≤ b → 1 ≤ s → c ∈ steps a b s → max ≤ c → RangeEnd tail →
      DoesNotFit max (item ++ tail)
  | later {item later : List Char} {a b s : ℕ} :
      Denotes item a b s → a ≤ b → 1 ≤ s → DoesNotFit max later →
      DoesNotFit max (item ++ ',' :: later)

/-- What the comment of `cpulist_parse` says about the code it returns. -/
structure Answers (max : ℕ) (fail : Bool) (text : List Char) (code : ℤ) : Prop where
  accepted : code = 0 ↔ ∃ cpus, Listed text cpus ∧ (fail = true → ∀ c ∈ cpus, c < max)
  unfit : code = 2 ↔ fail = true ∧ DoesNotFit max text
  known : code = 0 ∨ code = 1 ∨ code = 2

section Grammar

variable {item item' tail tail' text later : List Char} {a b s a' b' s' max : ℕ}
  {cpus : Finset ℕ}

def numbers (text : List Char) : List ℕ :=
  (text.splitOnP (!·.isDigit)).map (Nat.ofDigitChars 10 · 0)

theorem numbers_single {digits : List Char} {number : ℕ} (hnumber : IsNumber digits number) :
    numbers digits = [number] := by
  have hdigits : ∀ char ∈ digits, (!char.isDigit) = false := by
    intro char hmem
    simp [hnumber.digits char hmem]
  rw [numbers, List.splitOnP_eq_singleton hdigits, List.map_singleton, hnumber.value]

theorem numbers_cons {digits rest : List Char} {number : ℕ} {char : Char}
    (hnumber : IsNumber digits number) (hchar : char.isDigit = false) :
    numbers (digits ++ char :: rest) = number :: numbers rest := by
  have hdigits : ∀ char ∈ digits, (!char.isDigit) = false := by
    intro char hmem
    simp [hnumber.digits char hmem]
  rw [numbers, List.splitOnP_append_cons_of_forall_mem hdigits char (by simp [hchar]),
    List.map_cons, hnumber.value, numbers]

theorem Denotes.numbers_eq (hdenotes : Denotes item a b s) :
    (numbers item = [a] ∧ b = a ∧ s = 1) ∨ (numbers item = [a, b] ∧ s = 1) ∨
      numbers item = [a, b, s] := by
  cases hdenotes with
  | single hfirst => exact .inl ⟨numbers_single hfirst, rfl, rfl⟩
  | span hfirst hlast =>
      rw [numbers_cons hfirst rfl, numbers_single hlast]
      exact .inr (.inl ⟨rfl, rfl⟩)
  | strided hfirst hlast hstep =>
      rw [numbers_cons hfirst rfl, numbers_cons hlast rfl, numbers_single hstep]
      exact .inr (.inr rfl)

theorem Denotes.unique (hdenotes : Denotes item a b s) (hdenotes' : Denotes item a' b' s') :
    a = a' ∧ b = b' ∧ s = s' := by
  have hnumbers := hdenotes'.numbers_eq
  rcases hdenotes.numbers_eq with ⟨hitem, rfl, rfl⟩ | ⟨hitem, rfl⟩ | hitem
  · simp only [hitem] at hnumbers
    grind
  · simp only [hitem] at hnumbers
    grind
  · simp only [hitem] at hnumbers
    grind

theorem item_unique (hcomma : ',' ∉ item) (hcomma' : ',' ∉ item') (hend : RangeEnd tail)
    (hend' : RangeEnd tail') (hsame : item ++ tail = item' ++ tail') :
    item = item' ∧ tail = tail' := by
  have hcut : ∀ {part rest : List Char}, ',' ∉ part → RangeEnd rest →
      (part ++ rest).takeWhile (· ≠ ',') = part := by
    intro part rest hpart hrest
    rw [List.takeWhile_append_of_pos]
    · rcases hrest with rfl | ⟨later, rfl⟩
      · simp
      · simp
    · intro char hmem
      apply decide_eq_true
      rintro rfl
      exact hpart hmem
  have hitem : item = item' := by rw [← hcut hcomma hend, hsame, hcut hcomma' hend']
  subst hitem
  exact ⟨rfl, List.append_cancel_left hsame⟩

theorem Listed.inv (hcomma : ',' ∉ item) (hend : RangeEnd tail)
    (hlisted : Listed (item ++ tail) cpus) :
    ∃ a b s, Denotes item a b s ∧ a ≤ b ∧ 1 ≤ s ∧
      ((tail = [] ∧ cpus = steps a b s) ∨ ∃ later cpus', tail = ',' :: later ∧
        Listed later cpus' ∧ cpus = steps a b s ∪ cpus') := by
  generalize htext : item ++ tail = text at hlisted
  cases hlisted with
  | @last _ a b s hdenotes hle hpos =>
      have hsame := item_unique hcomma hdenotes.comma_not_mem hend (.inl rfl)
        (htext.trans (List.append_nil text).symm)
      obtain ⟨rfl, rfl⟩ := hsame
      exact ⟨a, b, s, hdenotes, hle, hpos, .inl ⟨rfl, rfl⟩⟩
  | @more item' later a b s cpus' hdenotes hle hpos hlater =>
      obtain ⟨rfl, rfl⟩ := item_unique hcomma hdenotes.comma_not_mem hend (.inr ⟨later, rfl⟩) htext
      exact ⟨a, b, s, hdenotes, hle, hpos, .inr ⟨later, cpus', rfl, hlater, rfl⟩⟩

theorem DoesNotFit.inv (hcomma : ',' ∉ item) (hend : RangeEnd tail)
    (hunfit : DoesNotFit max (item ++ tail)) :
    ∃ a b s, Denotes item a b s ∧ a ≤ b ∧ 1 ≤ s ∧
      ((∃ c ∈ steps a b s, max ≤ c) ∨ ∃ later, tail = ',' :: later ∧ DoesNotFit max later) := by
  generalize htext : item ++ tail = text at hunfit
  cases hunfit with
  | @here item' tail' a b s c hdenotes hle hpos hmem hmax hend' =>
      obtain ⟨rfl, rfl⟩ := item_unique hcomma hdenotes.comma_not_mem hend hend' htext
      exact ⟨a, b, s, hdenotes, hle, hpos, .inl ⟨c, hmem, hmax⟩⟩
  | @later item' later a b s hdenotes hle hpos hlater =>
      obtain ⟨rfl, rfl⟩ := item_unique hcomma hdenotes.comma_not_mem hend (.inr ⟨later, rfl⟩) htext
      exact ⟨a, b, s, hdenotes, hle, hpos, .inr ⟨later, rfl, hlater⟩⟩

section Answers

variable {fail : Bool} {code : ℤ}

theorem answers_refused (hcomma : ',' ∉ item) (hend : RangeEnd tail)
    (hbad : ∀ a b s, Denotes item a b s → s = 0 ∨ b < a) :
    Answers max fail (item ++ tail) code ↔ code = 1 := by
  have hlisted : ∀ cpus, ¬ Listed (item ++ tail) cpus := by
    intro cpus hlisted
    obtain ⟨a, b, s, hdenotes, hle, hpos, -⟩ := hlisted.inv hcomma hend
    have := hbad a b s hdenotes
    omega
  have hfits : ¬ DoesNotFit max (item ++ tail) := by
    intro hunfit
    obtain ⟨a, b, s, hdenotes, hle, hpos, -⟩ := hunfit.inv hcomma hend
    have := hbad a b s hdenotes
    omega
  constructor
  · intro hanswers
    have hzero : code ≠ 0 := by
      intro hzero
      obtain ⟨cpus, hcpus, -⟩ := hanswers.accepted.mp hzero
      exact hlisted cpus hcpus
    have htwo : code ≠ 2 := fun htwo => hfits (hanswers.unfit.mp htwo).2
    have := hanswers.known
    omega
  · rintro rfl
    refine ⟨iff_of_false (by decide) ?_, iff_of_false (by decide) ?_, by decide⟩
    · rintro ⟨cpus, hcpus, -⟩
      exact hlisted cpus hcpus
    · rintro ⟨-, hunfit⟩
      exact hfits hunfit

theorem answers_unfit {c : ℕ} (hdenotes : Denotes item a b s) (hle : a ≤ b) (hpos : 1 ≤ s)
    (hmem : c ∈ steps a b s) (hmax : max ≤ c) (hend : RangeEnd tail) :
    Answers max true (item ++ tail) 2 := by
  refine ⟨iff_of_false (by decide) ?_, iff_of_true rfl ⟨rfl, ?_⟩, by decide⟩
  · rintro ⟨cpus, hlisted, hfits⟩
    obtain ⟨a', b', s', hdenotes', -, -, hcpus⟩ := hlisted.inv hdenotes.comma_not_mem hend
    obtain ⟨rfl, rfl, rfl⟩ := hdenotes.unique hdenotes'
    have hin : c ∈ cpus := by
      rcases hcpus with ⟨-, rfl⟩ | ⟨later, cpus', -, -, rfl⟩
      · exact hmem
      · exact mem_union_left _ hmem
    exact absurd (hfits rfl c hin) (not_lt.mpr hmax)
  · exact .here hdenotes hle hpos hmem hmax hend

theorem answers_last (hdenotes : Denotes text a b s) (hle : a ≤ b) (hpos : 1 ≤ s)
    (hfits : fail = true → ∀ c ∈ steps a b s, c < max) : Answers max fail text 0 := by
  refine ⟨iff_of_true rfl ⟨_, .last hdenotes hle hpos, hfits⟩, iff_of_false (by decide) ?_,
    by decide⟩
  rintro ⟨hfail, hunfit⟩
  rw [← List.append_nil text] at hunfit
  obtain ⟨a', b', s', hdenotes', -, -, hcpus⟩ := hunfit.inv hdenotes.comma_not_mem (.inl rfl)
  obtain ⟨rfl, rfl, rfl⟩ := hdenotes.unique hdenotes'
  rcases hcpus with ⟨c, hmem, hmax⟩ | ⟨later, hnil, -⟩
  · exact absurd (hfits hfail c hmem) (not_lt.mpr hmax)
  · cases hnil

theorem listed_more (hdenotes : Denotes item a b s) (hle : a ≤ b) (hpos : 1 ≤ s) :
    Listed (item ++ ',' :: later) cpus ↔
      ∃ cpus', Listed later cpus' ∧ cpus = steps a b s ∪ cpus' := by
  constructor
  · intro hlisted
    obtain ⟨a', b', s', hdenotes', -, -, hcpus⟩ :=
      hlisted.inv hdenotes.comma_not_mem (.inr ⟨later, rfl⟩)
    obtain ⟨rfl, rfl, rfl⟩ := hdenotes.unique hdenotes'
    rcases hcpus with ⟨hnil, -⟩ | ⟨later', cpus', hsame, hlater, rfl⟩
    · cases hnil
    · cases hsame
      exact ⟨cpus', hlater, rfl⟩
  · rintro ⟨cpus', hlater, rfl⟩
    exact .more hdenotes hle hpos hlater

theorem answers_more (hdenotes : Denotes item a b s) (hle : a ≤ b) (hpos : 1 ≤ s)
    (hfits : fail = true → ∀ c ∈ steps a b s, c < max) :
    Answers max fail (item ++ ',' :: later) code ↔ Answers max fail later code := by
  have haccepted : (∃ cpus, Listed (item ++ ',' :: later) cpus ∧
      (fail = true → ∀ c ∈ cpus, c < max)) ↔
      ∃ cpus, Listed later cpus ∧ (fail = true → ∀ c ∈ cpus, c < max) := by
    simp only [listed_more hdenotes hle hpos]
    constructor
    · rintro ⟨_, ⟨cpus, hlater, rfl⟩, hsmall⟩
      exact ⟨cpus, hlater, fun hfail c hc => hsmall hfail c (mem_union_right _ hc)⟩
    · rintro ⟨cpus, hlater, hsmall⟩
      refine ⟨_, ⟨cpus, hlater, rfl⟩, ?_⟩
      intro hfail c hc
      rcases mem_union.mp hc with hfirst | hrest
      · exact hfits hfail c hfirst
      · exact hsmall hfail c hrest
  have hunfit : (fail = true ∧ DoesNotFit max (item ++ ',' :: later)) ↔
      fail = true ∧ DoesNotFit max later := by
    apply and_congr_right
    intro hfail
    constructor
    · intro hunfit
      obtain ⟨a', b', s', hdenotes', -, -, hcpus⟩ :=
        hunfit.inv hdenotes.comma_not_mem (.inr ⟨later, rfl⟩)
      obtain ⟨rfl, rfl, rfl⟩ := hdenotes.unique hdenotes'
      rcases hcpus with ⟨c, hmem, hmax⟩ | ⟨later', hsame, hlater⟩
      · exact absurd (hfits hfail c hmem) (not_lt.mpr hmax)
      · cases hsame
        exact hlater
    · exact .later hdenotes hle hpos
  constructor
  · rintro ⟨hzero, htwo, hknown⟩
    exact ⟨hzero.trans haccepted, htwo.trans hunfit, hknown⟩
  · rintro ⟨hzero, htwo, hknown⟩
    exact ⟨hzero.trans haccepted.symm, htwo.trans hunfit.symm, hknown⟩

end Answers

end Grammar

/-! ## The walk without a wrap -/

/-- The walk from `a` to `b` stays below 2^32 and, if it has to, inside the
set. -/
structure Walkable (max : ℕ) (fail : Bool) (a b s : ℕ) : Prop where
  le : a ≤ b
  pos : 1 ≤ s
  last : b < 2 ^ 32
  room : ∀ c ∈ steps a b s, c + s < 2 ^ 32
  fits : fail = true → ∀ c ∈ steps a b s, c < max

section Walk

variable {a b s setsize : ℕ} {fail : Bool} {set : Finset ℕ}

theorem Walkable.small {max : ℕ} (hwalk : Walkable max fail a b s) :
    toUint a = a ∧ toUint b = b ∧ toUint s = s := by
  have hfirst := hwalk.room a (mem_steps.mpr ⟨⟨le_refl a, hwalk.le⟩, by simp⟩)
  have hlast := hwalk.last
  unfold toUint
  exact ⟨Nat.mod_eq_of_lt (by omega), Nat.mod_eq_of_lt hlast, Nat.mod_eq_of_lt (by omega)⟩

theorem cpulistWalk_unfit {c : ℕ} (hpos : 1 ≤ s) (hlast : b < 2 ^ 32) (hmem : c ∈ steps a b s)
    (hmax : 8 * setsize ≤ c) (set : Finset ℕ) :
    ∃ set', Returns (fun fuel => cpulistRangeLoop b s setsize true fuel a set) (2, set') := by
  induction hleft : b + 1 - a using Nat.strong_induction_on generalizing a set with
  | _ left ih =>
      have hle : a ≤ b := by
        have := mem_steps.mp hmem
        omega
      by_cases hhigh : 8 * setsize ≤ a
      · refine ⟨set, (returns_done ?_ rfl).mpr rfl⟩
        intro fuel
        rw [cpulistRangeLoop, if_pos hle, if_pos (by simp [hhigh])]
      · have hlater : c ∈ steps (a + s) b s := by
          rw [steps_of_le hle hpos, mem_insert] at hmem
          rcases hmem with rfl | hlater
          · exact absurd hmax hhigh
          · exact hlater
        have hnext : toUint (a + s) = a + s := by
          apply Nat.mod_eq_of_lt
          have := mem_steps.mp hlater
          omega
        obtain ⟨set', hrest⟩ := ih (b + 1 - (a + s)) (by omega) hlater (cpuSetS a setsize set) rfl
        refine ⟨set', (returns_next ?_ rfl).mpr hrest⟩
        intro fuel
        rw [cpulistRangeLoop, if_pos hle, if_neg (by simp [hhigh]), hnext]

end Walk

/-- The parser refuses the item itself: a number is missing or needs more than
64 bits, the stride is zero, or the range is empty. -/
def RefusedHere (item : List Char) : Prop :=
  ∀ a b s left, Reads item a b s left →
    ulongSize ≤ a ∨ ulongSize ≤ b ∨ ulongSize ≤ s ∨ s = 0 ∨ (b < a ∧ a < 2 ^ 32)

/-- Items of the grammar without a wrap, up to the end, to one that does not
fit, or to one that is not of the grammar and is refused, itself or for what
the text has behind its last number. -/
inductive Orderly (max : ℕ) (fail : Bool) : List Char → Prop
  | last {text : List Char} {a b s : ℕ} :
      Denotes text a b s → Walkable max fail a b s → Orderly max fail text
  | more {item later : List Char} {a b s : ℕ} :
      Denotes item a b s → Walkable max fail a b s → Orderly max fail later →
      Orderly max fail (item ++ ',' :: later)
  | unfit {item tail : List Char} {a b s c : ℕ} :
      Denotes item a b s → 1 ≤ s → s < 2 ^ 32 → b < 2 ^ 32 → fail = true → c ∈ steps a b s →
      max ≤ c → RangeEnd tail → Orderly max fail (item ++ tail)
  | refused {item tail : List Char} :
      ',' ∉ item → RangeEnd tail → (∀ a b s, Denotes item a b s → s = 0 ∨ b < a) →
      RefusedHere item → Orderly max fail (item ++ tail)
  | leftover {item left : List Char} {a b s : ℕ} :
      ',' ∉ item → (∀ a b s, ¬ Denotes item a b s) → Reads item a b s left →
      Walkable max fail a b s → left ≠ [] → Orderly max fail item

section Rounds

variable {setsize : ℕ} {fail : Bool} {set : Finset ℕ} {stop : Option (List Char)}
  {item left tail later text : List Char} {a b s : ℕ} {result : ℤ × Finset ℕ}

theorem round_walks (hcomma : ',' ∉ item) (hend : RangeEnd tail) (hreads : Reads item a b s left)
    (hwalk : Walkable (8 * setsize) fail a b s) :
    Returns (fun fuel => cpulistParseLoop setsize fail fuel (some (item ++ tail)) stop set)
        result ↔
      Returns (fun fuel => cpulistParseLoop setsize fail fuel (nexttoken (some tail) ',')
        (some (left ++ tail)) (set ∪ (steps a b s).filter (· < 8 * setsize))) result := by
  obtain ⟨ha, hb, hs⟩ := hwalk.small
  have hsize : (2 : ℕ) ^ 32 < ulongSize := by decide
  have hsmall : ∀ x, toUint x = x → x < ulongSize := by
    intro x hx
    have := Nat.mod_lt x (by decide : 2 ^ 32 > 0)
    unfold toUint at hx
    omega
  have hpos := hwalk.pos
  have hitem := cpulistItem_reads hreads hcomma hend (hsmall a ha) (hsmall b hb) (hsmall s hs)
    (by omega)
  have hreturns : Returns (fun fuel => cpulistRangeLoop b s setsize fail fuel a set) _ :=
    ⟨_, cpulistRangeLoop_eq hwalk.pos hwalk.room hwalk.fits (Nat.lt_succ_self _) set⟩
  unfold keptItem at hitem
  rw [ha, hb, hs] at hitem
  rw [cpulistParse_round hitem hwalk.le, nexttoken_append_right hcomma]
  constructor
  · rintro ⟨middle, hmiddle, hrest⟩
    cases (cpulistRangeLoop_steady a set).unique hmiddle hreturns
    exact hrest
  · intro hrest
    exact ⟨_, hreturns, hrest⟩

theorem round_last (hcomma : ',' ∉ item) (hreads : Reads item a b s left)
    (hwalk : Walkable (8 * setsize) fail a b s) :
    Returns (fun fuel => cpulistParseLoop setsize fail fuel (some item) stop set) result ↔
      result = (if left = [] then 0 else 1, set ∪ (steps a b s).filter (· < 8 * setsize)) := by
  have hround : Returns (fun fuel => cpulistParseLoop setsize fail fuel (some (item ++ [])) stop
      set) result ↔ _ := round_walks hcomma (.inl rfl) hreads hwalk
  rw [List.append_nil, List.append_nil, nexttoken_eq_none List.not_mem_nil,
    cpulistParse_finished] at hround
  rw [hround]
  by_cases hnil : left = []
  · simp [hnil]
  · simp [hnil]

theorem round_more (hcomma : ',' ∉ item) (hreads : Reads item a b s left)
    (hwalk : Walkable (8 * setsize) fail a b s) :
    Returns (fun fuel => cpulistParseLoop setsize fail fuel (some (item ++ ',' :: later)) stop
        set) result ↔
      Returns (fun fuel => cpulistParseLoop setsize fail fuel (some later)
        (some (left ++ ',' :: later)) (set ∪ (steps a b s).filter (· < 8 * setsize)))
        result := by
  have htoken : nexttoken (some (',' :: later)) ',' = some later :=
    nexttoken_append List.not_mem_nil
  rw [round_walks hcomma (.inr ⟨later, rfl⟩) hreads hwalk, htoken]

theorem round_unfit {c : ℕ} (hcomma : ',' ∉ item) (hend : RangeEnd tail)
    (hreads : Reads item a b s left) (hpos : 1 ≤ s) (hs : s < 2 ^ 32) (hlast : b < 2 ^ 32)
    (hmem : c ∈ steps a b s) (hmax : 8 * setsize ≤ c) :
    ∃ set', Returns (fun fuel => cpulistParseLoop setsize true fuel (some (item ++ tail)) stop
      set) (2, set') := by
  have hsize : (2 : ℕ) ^ 32 < ulongSize := by decide
  have hle : a ≤ b := by
    have := mem_steps.mp hmem
    omega
  have hstride : toUint s = s := Nat.mod_eq_of_lt hs
  have hitem := cpulistItem_reads hreads hcomma hend (by omega) (by omega) (by omega)
    (by omega)
  unfold keptItem at hitem
  rw [hstride, show toUint a = a from Nat.mod_eq_of_lt (by omega),
    show toUint b = b from Nat.mod_eq_of_lt hlast] at hitem
  obtain ⟨set', hwalk⟩ := cpulistWalk_unfit hpos hlast hmem hmax set
  exact ⟨set', (cpulistParse_round hitem hle).mpr ⟨_, hwalk, rfl⟩⟩

theorem round_refused (hcomma : ',' ∉ item) (hend : RangeEnd tail) (hbad : RefusedHere item) :
    Returns (fun fuel => cpulistParseLoop setsize fail fuel (some (item ++ tail)) stop set)
      result ↔ result = (1, set) := by
  apply cpulistParse_refused
  intro kept hitem
  obtain ⟨a, b, s, left, hreads, ha, hb, hs, hpos, rfl⟩ := reads_of_cpulistItem hitem hcomma hend
  rcases hbad a b s left hreads with hbig | hbig | hbig | rfl | ⟨hlt, hsmall⟩
  · omega
  · omega
  · omega
  · exact absurd rfl hpos
  · change toUint b < toUint a
    unfold toUint
    rw [Nat.mod_eq_of_lt hsmall, Nat.mod_eq_of_lt (lt_trans hlt hsmall)]
    exact hlt

/-- The result is the one that the grammar gives to the text. -/
structure ParsedList (max : ℕ) (fail : Bool) (text : List Char) (set : Finset ℕ)
    (result : ℤ × Finset ℕ) : Prop where
  answers : Answers max fail text result.1
  selected : result.1 = 0 → ∀ cpus, Listed text cpus →
    result.2 = set ∪ cpus.filter (· < max)

/-- An orderly text is parsed as the grammar says.  The induction is on its
items. -/
theorem Orderly.returns (horderly : Orderly (8 * setsize) fail text)
    (stop : Option (List Char)) (set : Finset ℕ) :
    ∃ result, Returns (fun fuel => cpulistParseLoop setsize fail fuel (some text) stop set)
      result ∧ ParsedList (8 * setsize) fail text set result := by
  induction horderly generalizing stop set with
  | @last text a b s hdenotes hwalk =>
      refine ⟨_, (round_last hdenotes.comma_not_mem hdenotes.reads hwalk).mpr rfl, ?_, ?_⟩
      · rw [if_pos rfl]
        exact answers_last hdenotes hwalk.le hwalk.pos hwalk.fits
      · intro _ cpus hlisted
        rw [← List.append_nil text] at hlisted
        obtain ⟨a', b', s', hdenotes', -, -, hcpus⟩ := hlisted.inv hdenotes.comma_not_mem (.inl rfl)
        obtain ⟨rfl, rfl, rfl⟩ := hdenotes.unique hdenotes'
        rcases hcpus with ⟨-, rfl⟩ | ⟨later, cpus', hnil, -⟩
        · rfl
        · cases hnil
  | @more item later a b s hdenotes hwalk _ ih =>
      obtain ⟨result, hreturns, hanswers, hselected⟩ :=
        ih (some ([] ++ ',' :: later)) (set ∪ (steps a b s).filter (· < 8 * setsize))
      refine ⟨result, (round_more hdenotes.comma_not_mem hdenotes.reads hwalk).mpr hreturns,
        (answers_more hdenotes hwalk.le hwalk.pos hwalk.fits).mpr hanswers, ?_⟩
      intro hzero cpus hlisted
      obtain ⟨cpus', hlater, rfl⟩ := (listed_more hdenotes hwalk.le hwalk.pos).mp hlisted
      rw [hselected hzero cpus' hlater, union_assoc, filter_union]
  | @unfit item tail a b s c hdenotes hpos hs hlast hfail hmem hmax hend =>
      subst hfail
      obtain ⟨set', hreturns⟩ := round_unfit hdenotes.comma_not_mem hend hdenotes.reads hpos hs
        hlast hmem hmax
      have hle : a ≤ b := by
        have := mem_steps.mp hmem
        omega
      refine ⟨_, hreturns, answers_unfit hdenotes hle hpos hmem hmax hend, ?_⟩
      intro hzero
      cases hzero
  | refused hcomma hend hbad hrefused =>
      refine ⟨_, (round_refused hcomma hend hrefused).mpr rfl,
        (answers_refused hcomma hend hbad).mpr rfl, ?_⟩
      intro hzero
      cases hzero
  | @leftover item left a b s hcomma hbad hreads hwalk hleft =>
      refine ⟨_, (round_last hcomma hreads hwalk).mpr rfl, ?_, ?_⟩
      · rw [if_neg hleft, ← List.append_nil item]
        exact (answers_refused hcomma (.inl rfl) fun a b s h => absurd h (hbad a b s)).mpr rfl
      · intro hzero
        simp [hleft] at hzero

end Rounds

/-- On an orderly text the parser returns what the grammar says. -/
theorem cpulist_parse_exact (text : List Char) (setsize : ℕ) (fail : Bool)
    (horderly : Orderly (8 * setsize) fail text) :
    ∃ result, Returns (fun fuel => cpulistParse fuel text setsize fail) result ∧
      ParsedList (8 * setsize) fail text ∅ result :=
  horderly.returns none ∅

/-- The list `0-3:2,5` for a set of one byte. -/
theorem cpulist_parse_exact_two_items :
    Orderly (8 * 1) true "0-3:2,5".toList ∧
    ∃ result, Returns (fun fuel => cpulistParse fuel "0-3:2,5".toList 1 true) result ∧
      ParsedList (8 * 1) true "0-3:2,5".toList ∅ result := by
  have hitem : Denotes "0-3:2".toList 0 3 2 :=
    .strided (isNumber_toDigits 0) (isNumber_toDigits 3) (isNumber_toDigits 2)
  have hlast : Denotes "5".toList 5 5 1 := .single (isNumber_toDigits 5)
  have horderly : Orderly (8 * 1) true "0-3:2,5".toList :=
    .more hitem ⟨by decide, by decide, by decide, by decide +kernel, by decide +kernel⟩
      (.last hlast ⟨by decide, by decide, by decide, by decide +kernel, by decide +kernel⟩)
  exact ⟨horderly, cpulist_parse_exact "0-3:2,5".toList 1 true horderly⟩

/-- Characters behind a number are passed over, and a large number becomes
another CPU. -/
theorem cpulist_parse_accepts_more :
    (cpulistParse 5 "0x,1".toList 128 true = some (0, {0, 1}) ∧
      ∀ cpus, ¬ Listed "0x,1".toList cpus) ∧
    cpulistParse 5 "4294967296".toList 128 true = some (0, {0}) ∧
      Listed "4294967296".toList {4294967296} := by
  refine ⟨⟨by decide +kernel, ?_⟩, by decide +kernel, ?_⟩
  · intro cpus hlisted
    have hcomma : ',' ∉ "0x".toList := by decide
    obtain ⟨a, b, s, hdenotes, -⟩ := hlisted.inv hcomma (.inr ⟨"1".toList, rfl⟩)
    have hchar := hdenotes.chars 'x' (by decide)
    revert hchar
    decide
  · have hnumber : IsNumber "4294967296".toList 4294967296 := isNumber_toDigits 4294967296
    have hlisted := Listed.last (Denotes.single hnumber) (le_refl _) (le_refl 1)
    rwa [steps, Finset.Icc_self, Finset.filter_singleton, if_pos (by simp)] at hlisted

end WaycaScheduler
