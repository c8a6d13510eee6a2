import WaycaScheduler.CpuLists

/-!
# The interrupts of a configuration line

The deployer reads the line `irq_bind=irq@cpu irq@cpu` into a table of twenty
rows.  It looks for the next `@` and from there for the next blank, and writes a
row each time.  Nothing bounds the rows, and a search for an `@` that finds
nothing is followed.
-/

namespace WaycaScheduler

open CText

def MAX_IRQS_BIND : ℕ := 20

/-- The rows of `irq_bind`. -/
abbrev PairTable := ℕ → ℤ × ℤ

/-- What the function does wrong when it does not return. -/
inductive PairFault where
  | missingAt
  | rowOutside
deriving DecidableEq

/-- The loop over the pairs of a line, row `i` next. -/
def cfgStrtopairLoop (i : ℕ) (p : List Char) (pair : PairTable) :
    Except PairFault (ℤ × PairTable) :=
  match _ : strchr p '@' with
  | none => .error .missingAt
  | some q =>
      if MAX_IRQS_BIND ≤ i then .error .rowOutside
      else
        let pair := Function.update pair i
          (toInt (strtoul 0 p).value, toInt (strtoul 0 q.tail).value)
        match hblank : strchr q.tail ' ' with
        | none => .ok (0, pair)
        | some p => cfgStrtopairLoop (i + 1) p.tail pair
termination_by p.length
decreasing_by
  have hq := strchr_length_le ‹strchr _ '@' = some q›
  have hp := strchr_length_le hblank
  have hpos := List.length_pos_iff.mpr hp.1
  rw [List.length_tail] at hp ⊢
  omega

def cfgStrtopair (buf : List Char) (pair : PairTable) : Except PairFault (ℤ × PairTable) :=
  match strchr buf '=' with
  | none => .ok (-1, pair)
  | some p => cfgStrtopairLoop 0 p.tail pair

/-! ## Lists of pairs -/

def LineEnd (tail : List Char) : Prop :=
  tail = [] ∨ tail = ['\n']

/-- Items `irq@cpu` separated by single blanks. -/
inductive PairItems : List Char → List (ℕ × ℕ) → Prop
  | last {first second tail : List Char} {irq cpu : ℕ} :
      IsNumber first irq → IsNumber second cpu → LineEnd tail →
      PairItems (first ++ '@' :: (second ++ tail)) [(irq, cpu)]
  | more {first second later : List Char} {irq cpu : ℕ} {items : List (ℕ × ℕ)} :
      IsNumber first irq → IsNumber second cpu → PairItems later items →
      PairItems (first ++ '@' :: (second ++ ' ' :: later)) ((irq, cpu) :: items)

/-- The text behind the equals sign as a list of pairs. -/
def PairList (text : List Char) (items : List (ℕ × ℕ)) : Prop :=
  (LineEnd text ∧ items = []) ∨ PairItems text items

/-- The rows of the table are the pairs, and later rows are as before. -/
structure HoldsPairs (pair pair' : PairTable) (items : List (ℕ × ℕ)) : Prop where
  length : items.length ≤ MAX_IRQS_BIND
  rows : ∀ (i irq cpu : ℕ), items[i]? = some (irq, cpu) →
    pair' i = ((irq : ℤ), (cpu : ℤ))
  unchanged : ∀ i, items.length ≤ i → pair' i = pair i

/-- The function stays inside the table and follows no missing `@`, and it
returns a negative value or has read a list of pairs. -/
def ReadsPairs (buf : List Char) (pair : PairTable) : Prop :=
  ∃ ret pair', cfgStrtopair buf pair = .ok (ret, pair') ∧
    (ret < 0 ∨ ∃ before text items, buf = before ++ '=' :: text ∧ '=' ∉ before ∧
      PairList text items ∧ HoldsPairs pair pair' items)

/-- There is no `=`, or one to twenty pairs of numbers of an `int` behind it. -/
def PairLine (buf : List Char) : Prop :=
  '=' ∉ buf ∨ ∃ before text items, buf = before ++ '=' :: text ∧ '=' ∉ before ∧
    PairItems text items ∧ items.length ≤ MAX_IRQS_BIND ∧
    ∀ item ∈ items, item.1 < 2 ^ 31 ∧ item.2 < 2 ^ 31

/-! ## The rows that are written -/

def stored (number : ℕ) : ℤ := toInt (min number (ulongSize - 1))

def storeRows : ℕ → List (ℕ × ℕ) → PairTable → PairTable
  | _, [], pair => pair
  | i, (irq, cpu) :: items, pair =>
      storeRows (i + 1) items (Function.update pair i (stored irq, stored cpu))

section Rows

variable {i j : ℕ} {items : List (ℕ × ℕ)} {pair : PairTable}

theorem storeRows_before (hj : j < i) : storeRows i items pair j = pair j := by
  induction items generalizing i pair with
  | nil => rfl
  | cons item items ih =>
      rw [storeRows, ih (by omega), Function.update_of_ne (by omega)]

theorem storeRows_behind (hj : i + items.length ≤ j) : storeRows i items pair j = pair j := by
  induction items generalizing i pair with
  | nil => rfl
  | cons item items ih =>
      rw [List.length_cons] at hj
      rw [storeRows, ih (by omega), Function.update_of_ne (by omega)]

theorem storeRows_row {irq cpu : ℕ} (hitem : items[j]? = some (irq, cpu)) :
    storeRows i items pair (i + j) = (stored irq, stored cpu) := by
  induction items generalizing i j pair with
  | nil => cases hitem
  | cons item items ih =>
      cases j with
      | zero =>
          cases hitem
          rw [storeRows, storeRows_before (by omega)]
          exact Function.update_self i _ pair
      | succ j =>
          rw [storeRows, ← Nat.add_assoc, Nat.add_right_comm]
          exact ih hitem

theorem stored_eq_iff {number : ℕ} : stored number = (number : ℤ) ↔ number < 2 ^ 31 := by
  have hsize : ulongSize = 2 ^ 64 := rfl
  constructor
  · intro hstored
    have hbounds := toInt_bounds (min number (ulongSize - 1))
    unfold stored at hstored
    omega
  · intro hlt
    rw [stored, min_eq_left (by omega), toInt_natCast hlt]

theorem holdsPairs_storeRows (hlength : items.length ≤ MAX_IRQS_BIND) :
    HoldsPairs pair (storeRows 0 items pair) items ↔
      ∀ item ∈ items, item.1 < 2 ^ 31 ∧ item.2 < 2 ^ 31 := by
  constructor
  · intro hholds item hmem
    obtain ⟨j, hj⟩ := List.getElem?_of_mem hmem
    have hrow : storeRows 0 items pair (0 + j) = _ := storeRows_row hj
    rw [Nat.zero_add, hholds.rows j item.1 item.2 hj, Prod.mk.injEq] at hrow
    exact ⟨stored_eq_iff.mp hrow.1.symm, stored_eq_iff.mp hrow.2.symm⟩
  · intro hsmall
    refine ⟨hlength, ?_, ?_⟩
    · intro j irq cpu hj
      have hrow : storeRows 0 items pair (0 + j) = _ := storeRows_row hj
      obtain ⟨hirq, hcpu⟩ := hsmall (irq, cpu) (List.mem_of_getElem? hj)
      rw [Nat.zero_add] at hrow
      rw [hrow, stored_eq_iff.mpr hirq, stored_eq_iff.mpr hcpu]
    · intro j hj
      exact storeRows_behind (by omega)

end Rows

section Loop

variable {i : ℕ} {text : List Char} {items : List (ℕ × ℕ)} {pair : PairTable}

theorem LineEnd.noDigit {tail : List Char} (hend : LineEnd tail) : NoDigit tail := by
  rcases hend with rfl | rfl
  · trivial
  · rfl

theorem cfgStrtopairLoop_item {first second rest : List Char} {irq cpu : ℕ}
    (hfirst : IsNumber first irq) (hsecond : IsNumber second cpu) (hrest : NoDigit rest) :
    cfgStrtopairLoop i (first ++ '@' :: (second ++ rest)) pair =
      if MAX_IRQS_BIND ≤ i then .error .rowOutside
      else
        match strchr rest ' ' with
        | none => .ok (0, Function.update pair i (stored irq, stored cpu))
        | some p =>
            cfgStrtopairLoop (i + 1) p.tail (Function.update pair i (stored irq, stored cpu)) := by
  have hat : strchr (first ++ '@' :: (second ++ rest)) '@' = some ('@' :: (second ++ rest)) :=
    strchr_append (hfirst.not_mem rfl)
  have hblank : strchr (second ++ rest) ' ' = strchr rest ' ' :=
    strchr_append_right (hsecond.not_mem rfl)
  have hirq := hfirst.strtoul_value (noDigit_cons rfl (second ++ rest) : NoDigit ('@' :: _)) 0
  have hcpu := hsecond.strtoul_value hrest 0
  rw [cfgStrtopairLoop]
  split
  next hnone =>
    rw [hat] at hnone
    cases hnone
  next q hq =>
    rw [hat] at hq
    cases hq
    simp only [List.tail_cons, hirq, hcpu]
    split
    next => rfl
    next =>
      split
      next hnone =>
        rw [hblank] at hnone
        rw [hnone]
        rfl
      next p hp =>
        rw [hblank] at hp
        rw [hp]
        rfl

theorem cfgStrtopairLoop_items (hitems : PairItems text items) :
    cfgStrtopairLoop i text pair = if MAX_IRQS_BIND < i + items.length then .error .rowOutside
      else .ok (0, storeRows i items pair) := by
  induction hitems generalizing i pair with
  | @last first second tail irq cpu hfirst hsecond hend =>
      have hblank : strchr tail ' ' = none := by
        rcases hend with rfl | rfl
        · rfl
        · rfl
      rw [cfgStrtopairLoop_item hfirst hsecond hend.noDigit, hblank]
      exact if_congr Nat.lt_succ_iff.symm rfl rfl
  | @more first second later irq cpu items hfirst hsecond _ ih =>
      have hblank : strchr (' ' :: later) ' ' = some (' ' :: later) :=
        strchr_append List.not_mem_nil
      rw [cfgStrtopairLoop_item hfirst hsecond (noDigit_cons rfl later), hblank]
      dsimp only
      rw [List.tail_cons, ih, List.length_cons, storeRows]
      split
      next hfull => rw [if_pos (by omega)]
      next =>
        have hsum : i + 1 + items.length = i + (items.length + 1) := by omega
        rw [hsum]

theorem cfgStrtopairLoop_missing (hmissing : '@' ∉ text) :
    cfgStrtopairLoop i text pair = .error .missingAt := by
  rw [cfgStrtopairLoop]
  split
  next => rfl
  next q hq =>
    rw [strchr_eq_none hmissing] at hq
    cases hq

theorem cfgStrtopairLoop_ret {ret : ℤ} {pair' : PairTable}
    (hloop : cfgStrtopairLoop i text pair = .ok (ret, pair')) : ret = 0 := by
  induction hlength : text.length using Nat.strong_induction_on generalizing i text pair with
  | _ length ih =>
      rw [cfgStrtopairLoop] at hloop
      split at hloop
      next => cases hloop
      next q hq =>
        split at hloop
        next => cases hloop
        next =>
          dsimp only at hloop
          split at hloop
          next =>
            cases hloop
            rfl
          next p hp =>
            have hq := strchr_length_le hq
            have hp := strchr_length_le hp
            have hpos := List.length_pos_iff.mpr hp.1
            apply ih p.tail.length _ hloop rfl
            rw [List.length_tail] at hp ⊢
            omega

end Loop

/-- The line is read exactly and inside the table if it has no `=` or a list of
pairs that fits. -/
theorem irq_pairs_read_iff (buf : List Char) (pair : PairTable) :
    ReadsPairs buf pair ↔ PairLine buf := by
  by_cases hequals : '=' ∈ buf
  · obtain ⟨before, text, rfl, hbefore⟩ := List.eq_append_cons_of_mem hequals
    have hloop : cfgStrtopair (before ++ '=' :: text) pair = cfgStrtopairLoop 0 text pair := by
      rw [cfgStrtopair, strchr_append hbefore]
      rfl
    have hbehind : ∀ {before' text' : List Char},
        before ++ '=' :: text = before' ++ '=' :: text' → '=' ∉ before' → text = text' := by
      intro before' text' hsame hbefore'
      have hfound : strchr (before ++ '=' :: text) '=' = some ('=' :: text) :=
        strchr_append hbefore
      rw [hsame, strchr_append hbefore'] at hfound
      cases hfound
      rfl
    constructor
    · rintro ⟨ret, pair', hrun, hnegative | ⟨before', text', items, hbuf, hbefore', hlist, hholds⟩⟩
      · rw [hloop] at hrun
        have hzero := cfgStrtopairLoop_ret hrun
        omega
      · cases hbehind hbuf hbefore'
        rw [hloop] at hrun
        rcases hlist with ⟨hend, -⟩ | hitems
        · have hmissing : '@' ∉ text := by
            rcases hend with rfl | rfl
            · exact List.not_mem_nil
            · decide
          rw [cfgStrtopairLoop_missing hmissing] at hrun
          cases hrun
        · have hlength := hholds.length
          rw [cfgStrtopairLoop_items hitems, if_neg (by omega)] at hrun
          cases hrun
          exact .inr ⟨before, text, items, rfl, hbefore, hitems, hlength,
            (holdsPairs_storeRows hlength).mp hholds⟩
    · rintro (hnone | ⟨before', text', items, hbuf, hbefore', hitems, hlength, hsmall⟩)
      · exact absurd hequals hnone
      · cases hbehind hbuf hbefore'
        refine ⟨0, storeRows 0 items pair, ?_, .inr ⟨before, text, items, rfl, hbefore,
          .inr hitems, (holdsPairs_storeRows hlength).mpr hsmall⟩⟩
        rw [hloop, cfgStrtopairLoop_items hitems, if_neg (by omega)]
  · have hnone : cfgStrtopair buf pair = .ok (-1, pair) := by
      rw [cfgStrtopair, strchr_eq_none hequals]
    exact iff_of_true ⟨-1, pair, hnone, .inl (by decide)⟩ (.inl hequals)

/-- A line without an `@`, and one whose first item has none. -/
theorem irq_pairs_follow_missing_at :
    cfgStrtopair "irq_bind=5".toList (fun _ => (-1, -1)) = .error .missingAt ∧
    ∃ pair', cfgStrtopair "irq_bind=5 6@7".toList (fun _ => (-1, -1)) = .ok (0, pair') ∧
      pair' 0 = (5, 7) := by
  constructor
  · exact cfgStrtopairLoop_missing (by decide)
  · have hat : strchr "5 6@7".toList '@' = some "@7".toList := by decide
    have hblank : strchr "@7".toList.tail ' ' = none := by decide
    have hvalues : (toInt (strtoul 0 "5 6@7".toList).value,
        toInt (strtoul 0 "@7".toList.tail).value) = (5, 7) := by decide
    refine ⟨Function.update (fun _ => (-1, -1)) 0 (5, 7), ?_, Function.update_self 0 _ _⟩
    change cfgStrtopairLoop 0 "5 6@7".toList _ = _
    rw [cfgStrtopairLoop]
    split
    next hnone =>
      rw [hat] at hnone
      cases hnone
    next q hq =>
      rw [hat] at hq
      cases hq
      rw [if_neg (by decide), hvalues]
      split
      next => rfl
      next p hp =>
        rw [hblank] at hp
        cases hp

end WaycaScheduler
