import WaycaScheduler.CpuLists
import WaycaScheduler.Library.Fallible
import WaycaScheduler.Library.Fuelled

/-!
# When the list parsers end

A round of either parser reads one item and walks along its CPUs.  The texts
get shorter from round to round, so a parser runs on for ever only inside a
round.  The walk of `list_to_mask` stands still with a stride of zero.  The
number of the walk of `cpulist_parse` wraps around, and may never leave the
range.
-/

namespace WaycaScheduler

open CText Fallible Fuelled

variable {x a : ℕ} {rest p : List Char} {item : CpulistItem}

/-! ## The walk along a range of `list_to_mask` -/

section MaskRange

variable {last stride cpusetsize : ℕ} {i : ℤ} {mask : Finset ℕ}

theorem maskRangeLoop_eq_loop (last stride cpusetsize fuel : ℕ) (i : ℤ) (mask : Finset ℕ) :
    maskRangeLoop last stride cpusetsize fuel i mask =
      loop (fun state => if toUlong state.1 ≤ last then none else some state.2)
        (fun state => (toInt (toUlong state.1 + stride),
          cpuSetS (toUlong state.1) cpusetsize state.2)) fuel (i, mask) := by
  induction fuel generalizing i mask with
  | zero => rfl
  | succ fuel ih =>
      rw [maskRangeLoop, loop]
      split
      next hle => rw [Option.none_or, ih]
      next hgt => rw [Option.some_or]

theorem maskRangeLoop_steady :
    Steady fun fuel => maskRangeLoop last stride cpusetsize fuel i mask := by
  simp only [maskRangeLoop_eq_loop]
  exact loop_steady (i, mask)

/-- The loop over the item does not move and never reaches its end. -/
def ListItem.standsStill (item : ListItem) : Prop :=
  item.stride = 0 ∧ toUlong (toInt item.start) ≤ item.last

theorem toUlong_of_le (hlast : last < 2 ^ 31) (hle : toUlong (toInt x) ≤ last) :
    ∃ y : ℕ, toInt x = y ∧ y ≤ last := by
  have hbounds := toInt_bounds x
  have hsize : ulongSize = 2 ^ 64 := rfl
  unfold toUlong at hle
  rw [hsize] at hle
  refine ⟨(toInt x).toNat, ?_, ?_⟩
  · omega
  · omega

theorem maskRangeLoop_stands (hlast : last < 2 ^ 31) (hx : x ≤ last) (fuel : ℕ) :
    maskRangeLoop last 0 cpusetsize fuel (x : ℤ) mask = none := by
  have hulong : toUlong (x : ℤ) = x := by
    apply toUlong_natCast
    have hsize : ulongSize = 2 ^ 64 := rfl
    omega
  induction fuel generalizing mask with
  | zero => rfl
  | succ fuel ih =>
      rw [maskRangeLoop, hulong, if_pos hx, Nat.add_zero, toInt_natCast (by omega)]
      exact ih

/-- Below 2^31 the walk ends unless it stands still. -/
theorem maskRange_ends_iff {start : ℕ} (hlast : last < 2 ^ 31) (hstride : stride < 2 ^ 30) :
    (∃ result, Returns (fun fuel => maskRangeLoop last stride cpusetsize fuel (toInt start) mask)
      result) ↔ ¬ (stride = 0 ∧ toUlong (toInt start) ≤ last) := by
  constructor
  · rintro ⟨result, fuel, hrun⟩ ⟨rfl, hle⟩
    obtain ⟨x, hx, hxlast⟩ := toUlong_of_le hlast hle
    dsimp only at hrun
    rw [hx, maskRangeLoop_stands hlast hxlast] at hrun
    cases hrun
  · intro hmoves
    by_cases hle : toUlong (toInt start) ≤ last
    · obtain ⟨x, hx, hxlast⟩ := toUlong_of_le hlast hle
      have hpos : 1 ≤ stride := Nat.one_le_iff_ne_zero.mpr fun hzero => hmoves ⟨hzero, hle⟩
      rw [hx]
      exact ⟨_, _, maskRangeLoop_eq hlast hstride hpos hxlast (Nat.lt_succ_self _) mask⟩
    · exact ⟨mask, 1, if_neg hle⟩

end MaskRange

/-! ## The rounds of `list_to_mask` -/

/-- The texts at which a round starts, when the rounds before accept their
items. -/
inductive RoundAt (crInTotal : ℤ) : List Char → List Char → Prop
  | here (text : List Char) : RoundAt crInTotal text text
  | later {text later place : List Char} {char : Char} :
      ¬ (readListItem text).bad crInTotal → (readListItem text).rest = char :: later →
      RoundAt crInTotal later place → RoundAt crInTotal text place

/-- No round that accepts its item stands still. -/
def ListEnds (crInTotal : ℤ) (text : List Char) : Prop :=
  ∀ place, RoundAt crInTotal text place → ¬ (readListItem place).bad crInTotal →
    ¬ (readListItem place).standsStill

section Rounds

variable {crInTotal : ℤ} {cpusetsize : ℕ} {text : List Char} {mask : Finset ℕ}
  {perror : ℤ → ℤ}

theorem strtoul_rest_length (errno : ℤ) (text : List Char) :
    (strtoul errno text).rest.length ≤ text.length := by
  have hsign : ∀ rest, (readSign rest).2.length ≤ rest.length := by
    intro rest
    unfold readSign
    split <;> simp
  have hread : ((readSign (text.dropWhile isSpace)).2.dropWhile Char.isDigit).length ≤
      text.length := by
    apply le_trans (List.dropWhile_sublist _).length_le
    exact le_trans (hsign _) (List.dropWhile_sublist _).length_le
  unfold strtoul
  dsimp only
  split
  next => exact le_refl _
  next =>
    split
    next => exact hread
    next => exact hread

theorem skipChar_length {char : Char} {text : List Char} (hskip : skipChar char text = some rest) :
    rest.length < text.length := by
  cases text with
  | nil => cases hskip
  | cons next later =>
      rw [skipChar] at hskip
      split at hskip
      next =>
        cases hskip
        exact Nat.lt_succ_self _
      next => cases hskip

theorem readListItem_rest_length (text : List Char) :
    (readListItem text).rest.length ≤ text.length := by
  have hstart := strtoul_rest_length 0 text
  unfold readListItem
  dsimp only
  split
  next => exact hstart
  next s hs =>
    have hlast := strtoul_rest_length (strtoul 0 text).errno s
    have hskip := skipChar_length hs
    split
    next =>
      dsimp only
      omega
    next s' hs' =>
      have hstride := strtoul_rest_length (strtoul (strtoul 0 text).errno s).errno s'
      have hskip' := skipChar_length hs'
      dsimp only
      omega

theorem listToMaskLoop_steady (text : List Char) (mask : Finset ℕ) :
    Steady fun fuel => listToMaskLoop perror crInTotal cpusetsize fuel text mask := by
  intro fuel
  induction fuel generalizing text mask with
  | zero =>
      intro result hrun
      cases hrun
  | succ fuel ih =>
      intro result hrun
      dsimp only at hrun ⊢
      rw [listToMaskLoop] at hrun ⊢
      split
      next hbad =>
        rw [if_pos hbad] at hrun
        exact hrun
      next hgood =>
        rw [if_neg hgood] at hrun
        obtain ⟨middle, hmiddle, hrest⟩ := Option.bind_eq_some_iff.mp hrun
        refine Option.bind_eq_some_iff.mpr ⟨middle, maskRangeLoop_steady fuel middle hmiddle, ?_⟩
        cases hitem : (readListItem text).rest with
        | nil =>
            rw [hitem] at hrest
            exact hrest
        | cons char later =>
            rw [hitem] at hrest
            exact ih later middle result hrest

section Step

variable {result : ℤ × Finset ℕ}

theorem listToMask_refused (hbad : (readListItem text).bad crInTotal) :
    Returns (fun fuel => listToMaskLoop perror crInTotal cpusetsize fuel text mask) result ↔
      result = (-perror (readListItem text).errno, mask) := by
  apply returns_done _ rfl
  intro fuel
  rw [listToMaskLoop, if_pos hbad]

/-- Behind an item the next round begins, unless the text ends there. -/
theorem listToMask_good (hgood : ¬ (readListItem text).bad crInTotal) :
    Returns (fun fuel => listToMaskLoop perror crInTotal cpusetsize fuel text mask) result ↔
      ∃ middle, Returns (fun fuel => maskRangeLoop (readListItem text).last
        (readListItem text).stride cpusetsize fuel (toInt (readListItem text).start) mask)
        middle ∧
      match (readListItem text).rest with
      | [] => result = (0, middle)
      | _ :: later =>
          Returns (fun fuel => listToMaskLoop perror crInTotal cpusetsize fuel later middle)
            result := by
  rw [returns_next (fun fuel => by rw [listToMaskLoop, if_neg hgood]) rfl]
  cases (readListItem text).rest with
  | nil =>
      refine (returns_bind maskRangeLoop_steady fun middle => steady_some).trans ?_
      simp only [returns_some]
  | cons char later =>
      exact returns_bind maskRangeLoop_steady fun middle => listToMaskLoop_steady later middle

end Step

theorem ListItem.good_bounds {n : ℕ} {item : ListItem} (hn : n < 2 ^ 31)
    (hgood : ¬ item.bad n) : item.last < 2 ^ 31 ∧ item.stride < 2 ^ 30 := by
  have hsize : ulongSize = 2 ^ 64 := rfl
  have hhalf : toUlong ((n : ℤ).tdiv 2) = n / 2 := toUlong_natCast (by omega : n / 2 < ulongSize)
  have htotal : toUlong (n : ℤ) = n := toUlong_natCast (by omega)
  unfold ListItem.bad at hgood
  rw [hhalf, htotal] at hgood
  omega

/-- A round with an item of the grammar adds its CPUs, as far as the set has them. -/
theorem listToMask_item {n a b s : ℕ} {item tail : List Char} {result : ℤ × Finset ℕ}
    (hn : n < 2 ^ 31) (hdenotes : Denotes item a b s) (hend : RangeEnd tail) (hle : a ≤ b)
    (hlt : b < n) (hpos : 1 ≤ s) (hstride : s < n / 2)
    (hlater : match tail with
      | [] => result = (0, mask ∪ (steps a b s).filter (· < 8 * cpusetsize))
      | _ :: later => Returns (fun fuel => listToMaskLoop perror n cpusetsize fuel later
          (mask ∪ (steps a b s).filter (· < 8 * cpusetsize))) result) :
    Returns (fun fuel => listToMaskLoop perror n cpusetsize fuel (item ++ tail) mask) result := by
  cases tail with
  | nil =>
      rw [hlater]
      exact ⟨n + 2, listToMaskLoop_item hdenotes hend hn hle hlt hpos hstride (by omega)⟩
  | cons char later =>
      obtain ⟨fuel, hrun⟩ := hlater
      have hlong := (listToMaskLoop_steady later _).of_le (Nat.le_add_right fuel (n + 1)) hrun
      refine ⟨fuel + (n + 1) + 1, Eq.trans ?_ hlong⟩
      exact listToMaskLoop_item hdenotes hend hn hle hlt hpos hstride (by omega)

theorem listEnds_of_bad (hbad : (readListItem text).bad crInTotal) :
    ListEnds crInTotal text := by
  intro place hround hgood
  cases hround with
  | here => exact absurd hbad hgood
  | later hfirst _ _ => exact absurd hbad hfirst

theorem listEnds_iff_of_good (hgood : ¬ (readListItem text).bad crInTotal) :
    ListEnds crInTotal text ↔ ¬ (readListItem text).standsStill ∧
      ∀ char later, (readListItem text).rest = char :: later → ListEnds crInTotal later := by
  constructor
  · intro hends
    refine ⟨hends text (.here text) hgood, ?_⟩
    intro char later hrest place hround
    exact hends place (.later hgood hrest hround)
  · intro hends place hround hplace
    cases hround with
    | here => exact hends.1
    | later _ hrest hlater => exact hends.2 _ _ hrest place hlater hplace

/-- The rounds end exactly if none of them stands still.  The induction is on
the length of the text. -/
theorem listToMask_ends_iff {n : ℕ} (hn : n < 2 ^ 31) (text : List Char) (mask : Finset ℕ) :
    (∃ result, Returns (fun fuel => listToMaskLoop perror n cpusetsize fuel text mask) result) ↔
      ListEnds n text := by
  induction hlength : text.length using Nat.strong_induction_on generalizing text mask with
  | _ length ih =>
      by_cases hbad : (readListItem text).bad n
      · apply iff_of_true _ (listEnds_of_bad hbad)
        exact ⟨_, (listToMask_refused hbad).mpr rfl⟩
      · obtain ⟨hlast, hstride⟩ := ListItem.good_bounds hn hbad
        have hwalk : (∃ middle, Returns (fun fuel => maskRangeLoop (readListItem text).last
            (readListItem text).stride cpusetsize fuel (toInt (readListItem text).start) mask)
            middle) ↔ ¬ (readListItem text).standsStill := maskRange_ends_iff hlast hstride
        rw [listEnds_iff_of_good hbad, ← hwalk]
        cases hrest : (readListItem text).rest with
        | nil =>
            simp only [listToMask_good hbad, hrest]
            constructor
            · rintro ⟨result, middle, hmiddle, -⟩
              exact ⟨⟨middle, hmiddle⟩, nofun⟩
            · rintro ⟨⟨middle, hmiddle⟩, -⟩
              exact ⟨_, middle, hmiddle, rfl⟩
        | cons char later =>
            have hshorter : later.length < length := by
              have hle := readListItem_rest_length text
              rw [hrest, List.length_cons] at hle
              omega
            have hlater := fun middle => ih later.length hshorter later middle rfl
            simp only [listToMask_good hbad, hrest]
            constructor
            · rintro ⟨result, middle, hmiddle, hresult⟩
              refine ⟨⟨middle, hmiddle⟩, ?_⟩
              intro char' later' hsame
              cases hsame
              exact (hlater middle).mp ⟨result, hresult⟩
            · rintro ⟨⟨middle, hmiddle⟩, hends⟩
              obtain ⟨result, hresult⟩ := (hlater middle).mpr (hends char later rfl)
              exact ⟨result, middle, hmiddle, hresult⟩

end Rounds

/-! ## The walk along a range of `cpulist_parse` -/

/-- The largest `unsigned int` that a stride leads to from a number. -/
def topReached (a s : ℕ) : ℕ :=
  2 ^ 32 - s.gcd (2 ^ 32) + a % s.gcd (2 ^ 32)

theorem toUint_le_topReached (a s k : ℕ) : toUint (a + k * s) ≤ topReached a s := by
  unfold toUint topReached
  obtain ⟨count, hcount⟩ := Nat.gcd_dvd_right s (2 ^ 32)
  obtain ⟨times, htimes⟩ := Nat.gcd_dvd_left s (2 ^ 32)
  generalize s.gcd (2 ^ 32) = g at hcount htimes
  have hsame : (a + k * s) % 2 ^ 32 % g = a % g := by
    rw [Nat.mod_mod_of_dvd _ ⟨count, hcount⟩, htimes, mul_left_comm, Nat.add_mul_mod_self_left]
  have hlt : (a + k * s) % 2 ^ 32 < g * count := by
    rw [← hcount]
    exact Nat.mod_lt _ (by decide)
  have hquotient : (a + k * s) % 2 ^ 32 / g < count := Nat.div_lt_of_lt_mul hlt
  have hsplit := Nat.div_add_mod ((a + k * s) % 2 ^ 32) g
  rw [hsame] at hsplit
  have hle : g * ((a + k * s) % 2 ^ 32 / g) + g ≤ 2 ^ 32 := by
    calc g * ((a + k * s) % 2 ^ 32 / g) + g = g * ((a + k * s) % 2 ^ 32 / g + 1) := by ring
      _ ≤ g * count := Nat.mul_le_mul_left g hquotient
      _ = 2 ^ 32 := hcount.symm
  omega

theorem exists_toUint_eq_topReached {s : ℕ} (ha : a < 2 ^ 32) (hpos : 1 ≤ s) (hs : s < 2 ^ 32) :
    ∃ k, toUint (a + k * s) = topReached a s := by
  have hle : s.gcd (2 ^ 32) ≤ s := Nat.gcd_le_left _ hpos
  have hlt : s.gcd (2 ^ 32) < 2 ^ 32 := lt_of_le_of_lt hle hs
  have hpositive : 0 < s.gcd (2 ^ 32) := Nat.gcd_pos_of_pos_left _ hpos
  obtain ⟨m, -, hm⟩ := Nat.exists_mul_mod_eq_gcd hlt
  obtain ⟨count, hcount⟩ := Nat.gcd_dvd_right s (2 ^ 32)
  unfold toUint topReached
  generalize s.gcd (2 ^ 32) = g at *
  have hquotient : a / g < count := Nat.div_lt_of_lt_mul (hcount ▸ ha)
  have hsplit := Nat.div_add_mod a g
  have hrest := Nat.mod_lt a hpositive
  have hsum : g * (a / g) + g * (count - 1 - a / g) + g = 2 ^ 32 := by
    rw [← Nat.mul_add, ← Nat.mul_succ, hcount]
    congr 1
    omega
  have htop : a + g * (count - 1 - a / g) = 2 ^ 32 - g + a % g := by omega
  refine ⟨m * (count - 1 - a / g), ?_⟩
  have hstride : s * m ≡ g [MOD 2 ^ 32] := by
    rw [Nat.ModEq, hm, Nat.mod_eq_of_lt hlt]
  have hreached : a + m * (count - 1 - a / g) * s ≡ a + g * (count - 1 - a / g) [MOD 2 ^ 32] := by
    apply Nat.ModEq.add_left
    rw [mul_right_comm, mul_comm m s]
    exact hstride.mul_right _
  rw [hreached, htop, Nat.mod_eq_of_lt (by omega)]

section CpulistRange

variable {b s setsize : ℕ} {fail : Bool}

def cpulistStop (b setsize : ℕ) (fail : Bool) (state : ℕ × Finset ℕ) : Option (ℤ × Finset ℕ) :=
  if state.1 ≤ b then
    if fail && decide (8 * setsize ≤ state.1) then some (2, state.2) else none
  else some (0, state.2)

def cpulistNext (s setsize : ℕ) (state : ℕ × Finset ℕ) : ℕ × Finset ℕ :=
  (toUint (state.1 + s), cpuSetS state.1 setsize state.2)

theorem cpulistRangeLoop_eq_loop (fuel a : ℕ) (set : Finset ℕ) :
    cpulistRangeLoop b s setsize fail fuel a set =
      loop (cpulistStop b setsize fail) (cpulistNext s setsize) fuel (a, set) := by
  induction fuel generalizing a set with
  | zero => rfl
  | succ fuel ih =>
      rw [cpulistRangeLoop, loop, cpulistStop]
      split
      next hle =>
        split
        next hhigh => rw [Option.some_or]
        next hfits => rw [Option.none_or, ih, cpulistNext]
      next hgt => rw [Option.some_or]

theorem cpulistRangeLoop_steady (a : ℕ) (set : Finset ℕ) :
    Steady fun fuel => cpulistRangeLoop b s setsize fail fuel a set := by
  simp only [cpulistRangeLoop_eq_loop]
  exact loop_steady (a, set)

theorem cpulistNext_iterate (ha : a < 2 ^ 32) (set : Finset ℕ) (k : ℕ) :
    ((cpulistNext s setsize)^[k] (a, set)).1 = toUint (a + k * s) := by
  induction k with
  | zero =>
      rw [Nat.zero_mul, Nat.add_zero, toUint, Nat.mod_eq_of_lt ha]
      rfl
  | succ k ih =>
      rw [Function.iterate_succ_apply', cpulistNext, ih]
      unfold toUint
      rw [Nat.mod_add_mod, Nat.succ_mul, Nat.add_assoc]

theorem cpulistStop_ne_none {state : ℕ × Finset ℕ} :
    cpulistStop b setsize fail state ≠ none ↔
      b < state.1 ∨ (fail = true ∧ 8 * setsize ≤ state.1) := by
  unfold cpulistStop
  split
  next hle =>
    cases fail with
    | false => simp [hle]
    | true =>
        by_cases hhigh : 8 * setsize ≤ state.1
        · simp [hhigh]
        · simp [hhigh, hle]
  next hgt => simp [not_le.mp hgt]

/-- With wrapping the walk ends if it can get past the end, or out of the set. -/
theorem cpulistRange_ends_iff (ha : a < 2 ^ 32) (hpos : 1 ≤ s) (hs : s < 2 ^ 32) (set : Finset ℕ) :
    (∃ result, Returns (fun fuel => cpulistRangeLoop b s setsize fail fuel a set) result) ↔
      b < topReached a s ∨ (fail = true ∧ 8 * setsize ≤ topReached a s) := by
  simp only [cpulistRangeLoop_eq_loop, loop_ends_iff, cpulistStop_ne_none, cpulistNext_iterate ha]
  constructor
  · rintro ⟨k, habove | ⟨hfail, hhigh⟩⟩
    · exact .inl (lt_of_lt_of_le habove (toUint_le_topReached a s k))
    · exact .inr ⟨hfail, le_trans hhigh (toUint_le_topReached a s k)⟩
  · intro htop
    obtain ⟨k, hk⟩ := exists_toUint_eq_topReached ha hpos hs
    exact ⟨k, by rwa [hk]⟩

end CpulistRange

/-! ## The rounds of `cpulist_parse` -/

def CpulistItem.Overflows (item : CpulistItem) (setsize : ℕ) : Prop :=
  ∃ k, 8 * setsize ≤ toUint (item.a + k * item.s) ∧
    ∀ j ≤ k, toUint (item.a + j * item.s) ≤ item.b

/-- The texts at which a round starts, when the rounds before accept their
items. -/
inductive ParsesAt (setsize : ℕ) (fail : Bool) : List Char → List Char → Prop
  | here (text : List Char) : ParsesAt setsize fail text text
  | later {text later place : List Char} {item : CpulistItem} :
      cpulistItem text = some item → item.a ≤ item.b →
      ¬ (fail = true ∧ item.Overflows setsize) → nexttoken (some text) ',' = some later →
      ParsesAt setsize fail later place → ParsesAt setsize fail text place

/-- The walk of every range that is read leads above its end or to a number
that does not fit. -/
def CpulistEnds (setsize : ℕ) (fail : Bool) (text : List Char) : Prop :=
  ∀ place item, ParsesAt setsize fail text place → cpulistItem place = some item →
    item.a ≤ item.b → item.b < topReached item.a item.s ∨
      (fail = true ∧ 8 * setsize ≤ topReached item.a item.s)

section CpulistRounds

variable {setsize : ℕ} {fail : Bool} {text : List Char} {set : Finset ℕ}

theorem nextnumber_lt (hnumber : nextnumber p = .ok (x, rest)) :
    x < 2 ^ 32 := by
  cases p with
  | nil => cases hnumber
  | cons char later =>
      rw [nextnumber] at hnumber
      split at hnumber
      next => cases hnumber
      next =>
        dsimp only at hnumber
        split at hnumber
        next => cases hnumber
        next =>
          split at hnumber
          next => cases hnumber
          next =>
            cases hnumber
            exact Nat.mod_lt _ (by decide)

theorem cpulistItem_bounds (hitem : cpulistItem p = some item) :
    item.a < 2 ^ 32 ∧ 1 ≤ item.s ∧ item.s < 2 ^ 32 := by
  obtain ⟨⟨a, rest⟩, hfirst, hitem⟩ := Option.bind_eq_some_iff.mp hitem
  have ha := nextnumber_lt (ok_of_toOption hfirst)
  have hone : 1 < 2 ^ 32 := by decide
  dsimp only at hitem
  split at hitem
  next =>
    cases hitem
    exact ⟨ha, le_refl 1, hone⟩
  next =>
    obtain ⟨⟨b, rest⟩, hlast, hitem⟩ := Option.bind_eq_some_iff.mp hitem
    dsimp only at hitem
    split at hitem
    next =>
      cases hitem
      exact ⟨ha, le_refl 1, hone⟩
    next =>
      obtain ⟨⟨s, rest⟩, hstride, hitem⟩ := Option.bind_eq_some_iff.mp hitem
      dsimp only at hitem
      split at hitem
      next => cases hitem
      next hs =>
        cases hitem
        exact ⟨ha, Nat.one_le_iff_ne_zero.mpr hs, nextnumber_lt (ok_of_toOption hstride)⟩

theorem nexttoken_length {text later : List Char} {sep : Char}
    (htoken : nexttoken (some text) sep = some later) : later.length < text.length := by
  obtain ⟨found, hfound, rfl⟩ := Option.map_eq_some_iff.mp htoken
  obtain ⟨hne, hle⟩ := strchr_length_le hfound
  have hpos := List.length_pos_iff.mpr hne
  rw [List.length_tail]
  omega

theorem cpulistParseLoop_steady (place stop : Option (List Char)) (set : Finset ℕ) :
    Steady fun fuel => cpulistParseLoop setsize fail fuel place stop set := by
  intro fuel
  induction fuel generalizing place stop set with
  | zero =>
      intro result hrun
      cases hrun
  | succ fuel ih =>
      intro result hrun
      cases place with
      | none => exact hrun
      | some text =>
          dsimp only at hrun ⊢
          rw [cpulistParseLoop] at hrun ⊢
          cases hitem : cpulistItem text with
          | none =>
              rw [hitem] at hrun
              exact hrun
          | some item =>
              rw [hitem] at hrun
              dsimp only at hrun ⊢
              split
              next hempty =>
                rw [if_pos hempty] at hrun
                exact hrun
              next hrange =>
                rw [if_neg hrange] at hrun
                obtain ⟨middle, hmiddle, hrest⟩ := Option.bind_eq_some_iff.mp hrun
                refine Option.bind_eq_some_iff.mpr
                  ⟨middle, cpulistRangeLoop_steady item.a set fuel middle hmiddle, ?_⟩
                split
                next hcode =>
                  rw [if_pos hcode] at hrest
                  exact hrest
                next hcode =>
                  rw [if_neg hcode] at hrest
                  exact ih _ _ _ result hrest

theorem le_of_cpulistStop_eq_none {b : ℕ} {state : ℕ × Finset ℕ}
    (hgo : cpulistStop b setsize fail state = none) :
    state.1 ≤ b ∧ ¬ (fail = true ∧ 8 * setsize ≤ state.1) := by
  have hstop := mt cpulistStop_ne_none.mpr (not_not.mpr hgo)
  rw [not_or, not_lt] at hstop
  exact hstop

theorem cpulistWalk_code {item : CpulistItem} {result : ℤ × Finset ℕ} (ha : item.a < 2 ^ 32)
    (hwalk : Returns (fun fuel => cpulistRangeLoop item.b item.s setsize fail fuel item.a set)
      result) : result.1 ≠ 0 ↔ fail = true ∧ item.Overflows setsize := by
  simp only [cpulistRangeLoop_eq_loop] at hwalk
  obtain ⟨k, hbefore, hstop⟩ := returns_loop.mp hwalk
  have hpassed : ∀ j < k, toUint (item.a + j * item.s) ≤ item.b ∧
      ¬ (fail = true ∧ 8 * setsize ≤ toUint (item.a + j * item.s)) := by
    intro j hj
    have hgo := le_of_cpulistStop_eq_none (hbefore j hj)
    rwa [cpulistNext_iterate ha] at hgo
  unfold cpulistStop at hstop
  rw [cpulistNext_iterate ha] at hstop
  split at hstop
  next hle =>
    split at hstop
    next hhigh =>
      cases hstop
      rw [Bool.and_eq_true, decide_eq_true_eq] at hhigh
      refine iff_of_true two_ne_zero ⟨hhigh.1, k, hhigh.2, ?_⟩
      intro j hj
      rcases Nat.lt_or_eq_of_le hj with hlt | rfl
      · exact (hpassed j hlt).1
      · exact hle
    next => cases hstop
  next hgt =>
    cases hstop
    refine iff_of_false (not_not.mpr rfl) ?_
    rintro ⟨hfail, m, hhigh, hrange⟩
    rcases Nat.lt_or_ge m k with hlt | hge
    · exact (hpassed m hlt).2 ⟨hfail, hhigh⟩
    · exact hgt (hrange k hge)

section Step

variable {stop : Option (List Char)} {result : ℤ × Finset ℕ}

theorem cpulistParse_refused (hitem : ∀ item, cpulistItem text = some item → item.b < item.a) :
    Returns (fun fuel => cpulistParseLoop setsize fail fuel (some text) stop set) result ↔
      result = (1, set) := by
  apply returns_done _ rfl
  intro fuel
  rw [cpulistParseLoop]
  cases hread : cpulistItem text with
  | none => rfl
  | some item => exact if_pos (not_le.mpr (hitem item hread))

theorem cpulistParse_finished :
    Returns (fun fuel => cpulistParseLoop setsize fail fuel none stop set) result ↔
      result = (if stop.any (· ≠ []) then 1 else 0, set) := by
  apply returns_done _ rfl
  intro fuel
  rw [cpulistParseLoop]

theorem cpulistParse_round (hitem : cpulistItem text = some item) (hrange : item.a ≤ item.b) :
    Returns (fun fuel => cpulistParseLoop setsize fail fuel (some text) stop set) result ↔
      ∃ middle, Returns (fun fuel => cpulistRangeLoop item.b item.s setsize fail fuel item.a set)
        middle ∧ if middle.1 ≠ 0 then result = middle else
          Returns (fun fuel => cpulistParseLoop setsize fail fuel (nexttoken (some text) ',')
            (some item.rest) middle.2) result := by
  have hstep : ∀ fuel, cpulistParseLoop setsize fail (fuel + 1) (some text) stop set =
      (cpulistRangeLoop item.b item.s setsize fail fuel item.a set).bind fun middle =>
        if middle.1 ≠ 0 then some middle else
          cpulistParseLoop setsize fail fuel (nexttoken (some text) ',') (some item.rest)
            middle.2 := by
    intro fuel
    rw [cpulistParseLoop, hitem]
    exact if_neg (not_not.mpr hrange)
  rw [returns_next hstep rfl, returns_bind (cpulistRangeLoop_steady item.a set)]
  · apply exists_congr
    intro middle
    by_cases hcode : middle.1 ≠ 0
    · simp only [if_pos hcode, returns_some]
    · simp only [if_neg hcode]
  · intro middle
    split
    next => exact steady_some
    next => exact cpulistParseLoop_steady _ _ _

end Step

theorem cpulistEnds_of_refused (hitem : ∀ item, cpulistItem text = some item → item.b < item.a) :
    CpulistEnds setsize fail text := by
  intro place item hround hplace hrange
  cases hround with
  | here => exact absurd hrange (not_le.mpr (hitem item hplace))
  | later hfirst hle _ _ _ => exact absurd hle (not_le.mpr (hitem _ hfirst))

theorem cpulistEnds_iff_of_item (hitem : cpulistItem text = some item) (hrange : item.a ≤ item.b) :
    CpulistEnds setsize fail text ↔ (item.b < topReached item.a item.s ∨
        (fail = true ∧ 8 * setsize ≤ topReached item.a item.s)) ∧
      (¬ (fail = true ∧ item.Overflows setsize) →
        ∀ later, nexttoken (some text) ',' = some later → CpulistEnds setsize fail later) := by
  constructor
  · intro hends
    refine ⟨hends text item (.here text) hitem hrange, ?_⟩
    intro hfits later htoken place other hround
    exact hends place other (.later hitem hrange hfits htoken hround)
  · rintro ⟨hwalk, hlater⟩ place other hround hplace hle
    cases hround with
    | here =>
        cases hitem.symm.trans hplace
        exact hwalk
    | later hfirst _ hfits htoken hround =>
        cases hitem.symm.trans hfirst
        exact hlater hfits _ htoken place other hround hplace hle

/-- The rounds end exactly if the walk of each of them does.  The induction is
on the length of the text. -/
theorem cpulistParse_ends_iff (text : List Char) (stop : Option (List Char)) (set : Finset ℕ) :
    (∃ result, Returns (fun fuel => cpulistParseLoop setsize fail fuel (some text) stop set)
      result) ↔ CpulistEnds setsize fail text := by
  induction hlength : text.length using Nat.strong_induction_on generalizing text stop set with
  | _ length ih =>
      by_cases hrefused : ∀ item, cpulistItem text = some item → item.b < item.a
      · apply iff_of_true _ (cpulistEnds_of_refused hrefused)
        exact ⟨_, (cpulistParse_refused hrefused).mpr rfl⟩
      · push Not at hrefused
        obtain ⟨item, hitem, hrange⟩ := hrefused
        obtain ⟨ha, hpos, hs⟩ := cpulistItem_bounds hitem
        rw [cpulistEnds_iff_of_item hitem hrange, ← cpulistRange_ends_iff ha hpos hs set]
        simp only [cpulistParse_round hitem hrange]
        have hlater : ∀ middle : ℤ × Finset ℕ,
            (∃ result, Returns (fun fuel => cpulistParseLoop setsize fail fuel
              (nexttoken (some text) ',') (some item.rest) middle.2) result) ↔
            ∀ later, nexttoken (some text) ',' = some later → CpulistEnds setsize fail later := by
          intro middle
          cases htoken : nexttoken (some text) ',' with
          | none =>
              apply iff_of_true
              · exact ⟨_, cpulistParse_finished.mpr rfl⟩
              · intro later hsome
                cases hsome
          | some later =>
              have hshorter : later.length < length := hlength ▸ nexttoken_length htoken
              rw [ih later.length hshorter later _ _ rfl]
              simp
        constructor
        · rintro ⟨result, middle, hwalk, hrest⟩
          refine ⟨⟨middle, hwalk⟩, ?_⟩
          intro hfits
          rw [← cpulistWalk_code ha hwalk] at hfits
          rw [if_neg hfits] at hrest
          exact (hlater middle).mp ⟨result, hrest⟩
        · rintro ⟨⟨middle, hwalk⟩, hrest⟩
          by_cases hcode : middle.1 ≠ 0
          · exact ⟨middle, middle, hwalk, by rw [if_pos hcode]⟩
          · rw [cpulistWalk_code ha hwalk] at hcode
            obtain ⟨result, hresult⟩ := (hlater middle).mpr (hrest hcode)
            rw [← cpulistWalk_code ha hwalk] at hcode
            exact ⟨result, middle, hwalk, by rwa [if_neg hcode]⟩

end CpulistRounds

/-- Both parsers end on a text exactly if no range that `list_to_mask` accepts
has a stride of zero and no range that `cpulist_parse` reads reaches the top of
the numbers that its stride leads to. -/
theorem list_parsers_end_iff {perror : ℤ → ℤ} {n : ℕ} (hn : n < 2 ^ 31) (text : List Char)
    (setsize : ℕ) (fail : Bool) :
    ((∃ result, Returns (fun fuel => listToMask perror n fuel text setsize) result) ∧
      ∃ result, Returns (fun fuel => cpulistParse fuel text setsize fail) result) ↔
    ListEnds n text ∧ CpulistEnds setsize fail text := by
  unfold listToMask cpulistParse
  rw [listToMask_ends_iff hn, cpulistParse_ends_iff]

/-- Both parsers return the CPUs of `0-3:2,5` on 8 CPUs, so no walk of them stands still. -/
theorem list_parsers_end_iff_eight :
    Returns (fun fuel => listToMask errnoKept (8 : ℕ) fuel "0-3:2,5".toList 128) (0, {0, 2, 5}) ∧
      Returns (fun fuel => cpulistParse fuel "0-3:2,5".toList 128 true) (0, {0, 2, 5}) ∧
      ListEnds (8 : ℕ) "0-3:2,5".toList ∧ CpulistEnds 128 true "0-3:2,5".toList := by
  have hmask : Returns (fun fuel => listToMask errnoKept (8 : ℕ) fuel "0-3:2,5".toList 128)
      (0, {0, 2, 5}) := ⟨10, by decide +kernel⟩
  have hparse : Returns (fun fuel => cpulistParse fuel "0-3:2,5".toList 128 true)
      (0, {0, 2, 5}) := ⟨10, by decide +kernel⟩
  exact ⟨hmask, hparse, (list_parsers_end_iff (by decide) "0-3:2,5".toList 128 true).mp
    ⟨⟨_, hmask⟩, ⟨_, hparse⟩⟩⟩

theorem list_parsers_may_not_end :
    (∀ perror fuel, listToMask perror 8 fuel "0-1:0".toList 128 = none) ∧
    ∀ fuel, cpulistParse fuel "4294967295".toList 128 false = none := by
  constructor
  · have hitem : readListItem "0-1:0".toList = ⟨0, 1, 0, [], 0⟩ := by decide
    intro perror fuel
    rw [Option.eq_none_iff_forall_ne_some]
    intro result hrun
    have hends : ListEnds (8 : ℕ) "0-1:0".toList :=
      (listToMask_ends_iff (by decide) _ ∅).mp ⟨result, fuel, hrun⟩
    have hmoves := hends _ (.here _)
    rw [hitem] at hmoves
    exact hmoves (by decide) ⟨rfl, by decide⟩
  · have hitem : cpulistItem "4294967295".toList = some ⟨4294967295, 4294967295, 1, []⟩ := by
      decide
    intro fuel
    rw [Option.eq_none_iff_forall_ne_some]
    intro result hrun
    have hends := (cpulistParse_ends_iff _ none ∅).mp ⟨result, fuel, hrun⟩
    have hwalk := hends _ _ (.here _) hitem (le_refl _)
    revert hwalk
    decide

end WaycaScheduler
