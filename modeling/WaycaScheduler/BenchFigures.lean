import WaycaScheduler.LibraryState

/-!
# The figures of the memory benchmark

`measure_memory_latency` and `measure_memory_bandwidth` in
`tools/wayca-memory-bench/wayca-memory-bench.c` run the benchmark a number of
times and divide the time that has elapsed by the number of runs that
succeeded.  One variable takes the results of all runs, error codes included,
and goes on from one stream test to the next.  A sum that does not fit a
`long int` has no value.
-/

namespace WaycaScheduler

variable {results times : List ℤ} {elapsed carried : ℤ}

def LONG_MAX : ℤ := 2 ^ 63 - 1

def LONG_MIN : ℤ := -2 ^ 63

def FitsLong (x : ℤ) : Prop := LONG_MIN ≤ x ∧ x ≤ LONG_MAX

instance (x : ℤ) : Decidable (FitsLong x) := inferInstanceAs (Decidable (_ ∧ _))

structure Figure where
  timeElapsed : ℤ
  iter : ℕ
deriving DecidableEq

/-- The loop over the iterations, on the results of `do_bench` in order. -/
def sampleLoop : Figure → List ℤ → Option Figure
  | figure, [] => some figure
  | figure, result :: rest =>
      if FitsLong (figure.timeElapsed + result) then
        if figure.timeElapsed + result ≤ 0 then
          sampleLoop ⟨figure.timeElapsed + result, figure.iter⟩ rest
        else sampleLoop ⟨figure.timeElapsed + result, figure.iter + 1⟩ rest
      else none

def reported (figure : Figure) : Except ℤ Figure :=
  if figure.iter = 0 then .error (-EINVAL) else .ok figure

def measureMemoryLatency (iteration : ℕ) (doBench : ℕ → ℤ) : Option (Except ℤ Figure) :=
  (sampleLoop ⟨0, 0⟩ ((List.range iteration).map doBench)).map reported

/-- `bench_fs` -/
inductive StreamTest where
  | copy
  | scale
  | add
  | triad
deriving DecidableEq

def benchFs : List StreamTest := [.copy, .scale, .add, .triad]

/-- The loop over the stream tests from a time that has elapsed: the figures
that are printed and the return value. -/
def bandwidthLoop (results : StreamTest → List ℤ) :
    ℤ → List StreamTest → Option (List Figure × ℤ)
  | _, [] => some ([], 0)
  | timeElapsed, test :: tests =>
      (sampleLoop ⟨timeElapsed, 0⟩ (results test)).bind fun figure =>
        match reported figure with
        | .error ret => some ([], ret)
        | .ok figure =>
            (bandwidthLoop results figure.timeElapsed tests).map fun later =>
              (figure :: later.1, later.2)

/-- The time of one stream test is carried over to the next. -/
def measureMemoryBandwidth (iteration : ℕ) (doBench : StreamTest → ℕ → ℤ) :
    Option (List Figure × ℤ) :=
  bandwidthLoop (fun test => (List.range iteration).map (doBench test)) 0 benchFs

/-! ## The figures of a test of its own -/

/-- The figure of a test from its own positive results. -/
def ownFigure (results : List ℤ) : Figure where
  timeElapsed := (results.filter (0 < ·)).sum
  iter := (results.filter (0 < ·)).length

/-- The figures of the tests up to the first one without a success. -/
def ownFigures (results : StreamTest → List ℤ) : List StreamTest → List Figure × ℤ
  | [] => ([], 0)
  | test :: tests =>
      match reported (ownFigure (results test)) with
      | .error ret => ([], ret)
      | .ok figure => (figure :: (ownFigures results tests).1, (ownFigures results tests).2)

/-- The results are times, after a first one that takes back what was carried
over and zeros. -/
def TimesAtEnd (carried : ℤ) (results : List ℤ) : Prop :=
  ∃ zeros times, (∀ time ∈ times, 0 < time) ∧
    (carried = 0 ∧ results = times ∨
      results = -carried :: (List.replicate zeros 0 ++ times))

/-- The results of a test that come out as its own figure when some time was
carried over. -/
def Undisturbed (carried : ℤ) (results : List ℤ) : Prop :=
  FitsLong (carried + results.sum) ∧
    if ∃ result ∈ results, 0 < result then TimesAtEnd carried results
    else ∀ first ∈ results.head?, carried + first ≤ 0

/-- Each test that is reached is undisturbed by the time carried into it. -/
def AllUndisturbed (results : StreamTest → List ℤ) : ℤ → List StreamTest → Prop
  | _, [] => True
  | carried, test :: tests =>
      Undisturbed carried (results test) ∧
        ((∃ result ∈ results test, 0 < result) →
          AllUndisturbed results (ownFigure (results test)).timeElapsed tests)

/-! ## What the loop computes -/

def timesPositive : ℤ → List ℤ → ℕ
  | _, [] => 0
  | elapsed, result :: rest =>
      (if 0 < elapsed + result then 1 else 0) + timesPositive (elapsed + result) rest

def FitsAll : ℤ → List ℤ → Prop
  | _, [] => True
  | elapsed, result :: rest => FitsLong (elapsed + result) ∧ FitsAll (elapsed + result) rest

/-- The loop adds up all results and counts the positive sums. -/
theorem sampleLoop_iff {figure final : Figure} :
    sampleLoop figure results = some final ↔ FitsAll figure.timeElapsed results ∧
        final = ⟨figure.timeElapsed + results.sum,
          figure.iter + timesPositive figure.timeElapsed results⟩ := by
  induction results generalizing figure with
  | nil => simp [sampleLoop, FitsAll, timesPositive, eq_comm]
  | cons result rest ih =>
      rw [sampleLoop, FitsAll, timesPositive, List.sum_cons, ← add_assoc]
      split
      next hfits =>
        split
        next hle =>
          rw [ih, if_neg (not_lt.mpr hle), Nat.zero_add]
          simp [hfits]
        next hgt =>
          rw [ih, if_pos (not_le.mp hgt), ← Nat.add_assoc]
          simp [hfits]
      next hbad => simp [hbad]

theorem FitsAll.sum (hstart : FitsLong elapsed) (hfits : FitsAll elapsed results) :
    FitsLong (elapsed + results.sum) := by
  induction results generalizing elapsed with
  | nil => simpa using hstart
  | cons result rest ih =>
      rw [List.sum_cons, ← add_assoc]
      exact ih hfits.1 hfits.2

/-! ## Results of one sign -/

theorem sum_nonneg_of_times (htimes : ∀ time ∈ times, 0 < time) :
    0 ≤ times.sum :=
  List.sum_nonneg fun time htime => (htimes time htime).le

theorem fitsAll_of_times (hstart : 0 ≤ elapsed) (htimes : ∀ time ∈ times, 0 < time)
    (hsum : elapsed + times.sum ≤ LONG_MAX) : FitsAll elapsed times := by
  induction times generalizing elapsed with
  | nil => trivial
  | cons time rest ih =>
      have htime := htimes time (List.mem_cons_self ..)
      have hrest : ∀ time ∈ rest, 0 < time :=
        fun other hother => htimes other (List.mem_cons_of_mem _ hother)
      have hnonneg := sum_nonneg_of_times hrest
      rw [List.sum_cons] at hsum
      have hmin : LONG_MIN ≤ 0 := by decide
      exact ⟨⟨by omega, by omega⟩, ih (by omega) hrest (by omega)⟩

theorem timesPositive_of_times (hstart : 0 ≤ elapsed) (htimes : ∀ time ∈ times, 0 < time) :
    timesPositive elapsed times = times.length := by
  induction times generalizing elapsed with
  | nil => rfl
  | cons time rest ih =>
      have htime := htimes time (List.mem_cons_self ..)
      have hlater : 0 ≤ elapsed + time := by omega
      have hrest := ih hlater fun other hother => htimes other (List.mem_cons_of_mem _ hother)
      rw [timesPositive, if_pos (by omega), hrest, List.length_cons, Nat.add_comm]

theorem zeros_then (zeros : ℕ) (times : List ℤ) :
    (FitsAll 0 times → FitsAll 0 (List.replicate zeros 0 ++ times)) ∧
      timesPositive 0 (List.replicate zeros 0 ++ times) = timesPositive 0 times := by
  induction zeros with
  | zero => exact ⟨fun hfits => hfits, rfl⟩
  | succ zeros ih =>
      have hzero : FitsLong 0 := by decide
      rw [List.replicate_succ, List.cons_append]
      constructor
      · intro hfits
        rw [FitsAll, add_zero]
        exact ⟨hzero, ih.1 hfits⟩
      · rw [timesPositive, add_zero, if_neg (lt_irrefl 0), Nat.zero_add]
        exact ih.2

theorem sum_nonpos_of_errors (hnone : ∀ result ∈ results, result ≤ 0) :
    results.sum ≤ 0 := by
  induction results with
  | nil => exact le_refl 0
  | cons result rest ih =>
      rw [List.sum_cons]
      exact add_nonpos (hnone result (List.mem_cons_self ..))
        (ih fun other hother => hnone other (List.mem_cons_of_mem _ hother))

theorem fitsAll_of_nonpos (hstart : elapsed ≤ LONG_MAX) (hnone : ∀ result ∈ results, result ≤ 0)
    (hsum : LONG_MIN ≤ elapsed + results.sum) :
    FitsAll elapsed results := by
  induction results generalizing elapsed with
  | nil => trivial
  | cons result rest ih =>
      have hresult := hnone result (List.mem_cons_self ..)
      have hrest : ∀ result ∈ rest, result ≤ 0 :=
        fun other hother => hnone other (List.mem_cons_of_mem _ hother)
      have hnonpos := sum_nonpos_of_errors hrest
      rw [List.sum_cons] at hsum
      exact ⟨⟨by omega, by omega⟩, ih (by omega) hrest (by omega)⟩

theorem timesPositive_of_nonpos (hnone : ∀ result ∈ results, result ≤ 0) :
    timesPositive elapsed results = 0 ↔ ∀ first ∈ results.head?, elapsed + first ≤ 0 := by
  induction results generalizing elapsed with
  | nil => simp [timesPositive]
  | cons result rest ih =>
      have hresult := hnone result (List.mem_cons_self ..)
      have hrest : ∀ result ∈ rest, result ≤ 0 :=
        fun other hother => hnone other (List.mem_cons_of_mem _ hother)
      rw [timesPositive, Nat.add_eq_zero_iff, ih hrest]
      simp only [List.head?_cons, Option.mem_some_iff, forall_eq']
      constructor
      · rintro ⟨hfirst, -⟩
        by_contra hpos
        rw [if_pos (by omega)] at hfirst
        cases hfirst
      · intro hfirst
        refine ⟨if_neg (by omega), ?_⟩
        intro second hsecond
        have := hrest second (List.mem_of_mem_head? hsecond)
        omega

/-! ## Results of both signs -/

def lostTime (results : List ℤ) : ℤ := (results.filter (· ≤ 0)).sum

theorem lostTime_nonpos (results : List ℤ) : lostTime results ≤ 0 :=
  sum_nonpos_of_errors fun _ hresult => of_decide_eq_true (List.mem_filter.mp hresult).2

theorem ownFigure_cons_time {result : ℤ} (hresult : 0 < result) (rest : List ℤ) :
    ownFigure (result :: rest) =
        ⟨result + (ownFigure rest).timeElapsed, (ownFigure rest).iter + 1⟩ ∧
      lostTime (result :: rest) = lostTime rest := by
  simp [ownFigure, lostTime, hresult, not_le.mpr hresult]

theorem ownFigure_cons_error {result : ℤ} (hresult : result ≤ 0) (rest : List ℤ) :
    ownFigure (result :: rest) = ownFigure rest ∧
      lostTime (result :: rest) = result + lostTime rest := by
  simp [ownFigure, lostTime, hresult, not_lt.mpr hresult]

theorem sum_eq_own_add_lost (results : List ℤ) :
    results.sum = (ownFigure results).timeElapsed + lostTime results := by
  induction results with
  | nil => rfl
  | cons result rest ih =>
      rw [List.sum_cons, ih]
      rcases lt_or_ge 0 result with htime | herror
      · obtain ⟨hown, hlost⟩ := ownFigure_cons_time htime rest
        rw [hown, hlost]
        ring
      · obtain ⟨hown, hlost⟩ := ownFigure_cons_error herror rest
        rw [hown, hlost]
        ring

theorem ownFigure_iter_eq_zero : (ownFigure results).iter = 0 ↔ ∀ result ∈ results, result ≤ 0 := by
  simp [ownFigure, List.filter_eq_nil_iff]

theorem ownFigure_iter_ne_zero : (ownFigure results).iter ≠ 0 ↔ ∃ result ∈ results, 0 < result := by
  rw [Ne, ownFigure_iter_eq_zero]
  simp

theorem ownFigure_iter_le (results : List ℤ) : (ownFigure results).iter ≤ results.length :=
  List.length_filter_le _ _

theorem ownFigure_of_times (htimes : ∀ time ∈ times, 0 < time) :
    ownFigure times = ⟨times.sum, times.length⟩ := by
  have hall : times.filter (0 < ·) = times :=
    List.filter_eq_self.mpr fun time htime => decide_eq_true (htimes time htime)
  unfold ownFigure
  rw [hall]

theorem timesPositive_of_ahead (hahead : 0 < elapsed + lostTime results) :
    timesPositive elapsed results = results.length := by
  induction results generalizing elapsed with
  | nil => rfl
  | cons result rest ih =>
      have hlost := lostTime_nonpos rest
      have hlater : 0 < elapsed + result + lostTime rest := by
        rcases lt_or_ge 0 result with htime | herror
        · rw [(ownFigure_cons_time htime rest).2] at hahead
          omega
        · rw [(ownFigure_cons_error herror rest).2] at hahead
          omega
      rw [timesPositive, if_pos (by omega), ih hlater, List.length_cons, Nat.add_comm]

theorem ownFigure_iter_le_timesPositive (hlevel : elapsed + lostTime results = 0) :
    (ownFigure results).iter ≤ timesPositive elapsed results := by
  induction results generalizing elapsed with
  | nil => exact le_refl _
  | cons result rest ih =>
      rw [timesPositive]
      rcases lt_or_ge 0 result with htime | herror
      · obtain ⟨hown, hlost⟩ := ownFigure_cons_time htime rest
        have hnonpos := lostTime_nonpos rest
        have hle := ownFigure_iter_le rest
        rw [hlost] at hlevel
        rw [hown, timesPositive_of_ahead (by omega), if_pos (by omega), Nat.add_comm]
        exact Nat.add_le_add_left hle 1
      · obtain ⟨hown, hlost⟩ := ownFigure_cons_error herror rest
        have hlater : elapsed + result + lostTime rest = 0 := by omega
        have hrest := ih hlater
        rw [hown]
        omega

theorem timesAtEnd_of_timesPositive (hlevel : elapsed + lostTime results = 0)
    (hcount : timesPositive elapsed results = (ownFigure results).iter) :
    TimesAtEnd elapsed results := by
  induction results generalizing elapsed with
  | nil =>
      have hzero : elapsed = 0 := by simpa [lostTime] using hlevel
      exact ⟨0, [], by simp, .inl ⟨hzero, rfl⟩⟩
  | cons result rest ih =>
      have hnonpos := lostTime_nonpos rest
      rw [timesPositive] at hcount
      rcases lt_or_ge 0 result with htime | herror
      · obtain ⟨hown, hlost⟩ := ownFigure_cons_time htime rest
        rw [hlost] at hlevel
        rw [hown, if_pos (by omega), timesPositive_of_ahead (by omega)] at hcount
        have hall : (rest.filter (0 < ·)).length = rest.length := by
          simp only [ownFigure] at hcount
          omega
        have htimes : ∀ time ∈ result :: rest, 0 < time := by
          intro time hmem
          rcases List.mem_cons.mp hmem with rfl | hmem
          · exact htime
          · exact of_decide_eq_true (List.length_filter_eq_length_iff.mp hall time hmem)
        have hnone : lostTime rest = 0 := by
          have hempty : rest.filter (· ≤ 0) = [] := by
            apply List.filter_eq_nil_iff.mpr
            intro time hmem
            have := htimes time (List.mem_cons_of_mem _ hmem)
            simpa using this
          rw [lostTime, hempty, List.sum_nil]
        exact ⟨0, result :: rest, htimes, .inl ⟨by omega, rfl⟩⟩
      · obtain ⟨hown, hlost⟩ := ownFigure_cons_error herror rest
        have hlater : elapsed + result + lostTime rest = 0 := by omega
        have hge := ownFigure_iter_le_timesPositive hlater
        rw [hown] at hcount
        have hback : elapsed + result = 0 := by
          by_contra hne
          rw [if_pos (by omega)] at hcount
          omega
        rw [hback] at hcount hlater
        obtain ⟨zeros, times, htimes, hshape⟩ := ih hlater (by simpa using hcount)
        have hresult : result = -elapsed := by omega
        rcases hshape with ⟨-, rfl⟩ | rfl
        · exact ⟨0, rest, htimes, .inr (by rw [hresult]; rfl)⟩
        · refine ⟨zeros + 1, times, htimes, .inr ?_⟩
          rw [hresult, neg_zero, List.replicate_succ, List.cons_append]

theorem TimesAtEnd.sampleLoop (hcarried : 0 ≤ carried) (hfits : FitsLong (carried + results.sum))
    (hshape : TimesAtEnd carried results) :
    sampleLoop ⟨carried, 0⟩ results = some (ownFigure results) := by
  obtain ⟨zeros, times, htimes, ⟨rfl, rfl⟩ | rfl⟩ := hshape
  · rw [zero_add] at hfits
    rw [ownFigure_of_times htimes, sampleLoop_iff]
    refine ⟨fitsAll_of_times (le_refl 0) htimes (by rw [zero_add]; exact hfits.2), ?_⟩
    rw [timesPositive_of_times (le_refl 0) htimes, zero_add, Nat.zero_add]
  · have hown : ownFigure (-carried :: (List.replicate zeros 0 ++ times)) = ownFigure times := by
      rw [(ownFigure_cons_error (neg_nonpos.mpr hcarried) _).1]
      simp [ownFigure]
    have hback : carried + -carried = 0 := by ring
    have hsum : (-carried :: (List.replicate zeros 0 ++ times)).sum = -carried + times.sum := by
      simp
    rw [hsum, ← add_assoc, hback, zero_add] at hfits
    have hzeros := zeros_then zeros times
    rw [hown, ownFigure_of_times htimes, sampleLoop_iff, hsum]
    refine ⟨⟨?_, ?_⟩, ?_⟩
    · rw [hback]
      decide
    · rw [hback]
      exact hzeros.1 (fitsAll_of_times (le_refl 0) htimes (by rw [zero_add]; exact hfits.2))
    · rw [timesPositive, hback, hzeros.2, timesPositive_of_times (le_refl 0) htimes,
        if_neg (lt_irrefl 0), Nat.zero_add, Nat.zero_add, ← add_assoc, hback, zero_add]

/-! ## The figures that are printed -/

theorem reported_eq_error {figure : Figure} : reported figure = .error (-EINVAL) ↔
    figure.iter = 0 := by
  unfold reported
  split
  next hzero => simp [hzero]
  next hsome => simp [hsome]

theorem reported_eq_ok {figure printed : Figure} : reported figure = .ok printed ↔
    figure.iter ≠ 0 ∧ figure = printed := by
  unfold reported
  split
  next hzero => simp [hzero]
  next hsome => simp [hsome]

theorem reported_own_iff (hcarried : 0 ≤ carried) (hmax : carried ≤ LONG_MAX) :
    (∃ figure, sampleLoop ⟨carried, 0⟩ results = some figure ∧
        reported figure = reported (ownFigure results)) ↔
      Undisturbed carried results := by
  have hstart : FitsLong carried := ⟨le_trans (by decide) hcarried, hmax⟩
  unfold Undisturbed
  by_cases hany : ∃ result ∈ results, 0 < result
  · have hiter : (ownFigure results).iter ≠ 0 := ownFigure_iter_ne_zero.mpr hany
    have hown : reported (ownFigure results) = .ok (ownFigure results) := if_neg hiter
    rw [if_pos hany, hown]
    constructor
    · rintro ⟨figure, hloop, hreport⟩
      obtain ⟨-, rfl⟩ := reported_eq_ok.mp hreport
      obtain ⟨hfits, hfigure⟩ := sampleLoop_iff.mp hloop
      have htime := congrArg Figure.timeElapsed hfigure
      have hcount := congrArg Figure.iter hfigure
      have hsum := sum_eq_own_add_lost results
      dsimp only at htime hcount hfits
      rw [Nat.zero_add] at hcount
      exact ⟨hfits.sum hstart, timesAtEnd_of_timesPositive (by omega) hcount.symm⟩
    · rintro ⟨hfits, hshape⟩
      exact ⟨_, hshape.sampleLoop hcarried hfits, hown⟩
  · have hnone : ∀ result ∈ results, result ≤ 0 := by
      intro result hresult
      exact not_lt.mp fun hpos => hany ⟨result, hresult, hpos⟩
    have hown : reported (ownFigure results) = .error (-EINVAL) :=
      reported_eq_error.mpr (ownFigure_iter_eq_zero.mpr hnone)
    rw [if_neg hany, hown, ← timesPositive_of_nonpos hnone]
    constructor
    · rintro ⟨figure, hloop, hreport⟩
      obtain ⟨hfits, rfl⟩ := sampleLoop_iff.mp hloop
      have hzero := reported_eq_error.mp hreport
      exact ⟨hfits.sum hstart, by simpa using hzero⟩
    · rintro ⟨hfits, hzero⟩
      refine ⟨_, sampleLoop_iff.mpr ⟨fitsAll_of_nonpos hmax hnone hfits.1, rfl⟩, ?_⟩
      rw [reported_eq_error, Nat.zero_add]
      exact hzero

theorem latency_own_iff (iteration : ℕ) (doBench : ℕ → ℤ) :
    measureMemoryLatency iteration doBench =
        some (reported (ownFigure ((List.range iteration).map doBench))) ↔
      Undisturbed 0 ((List.range iteration).map doBench) := by
  unfold measureMemoryLatency
  rw [← reported_own_iff (le_refl 0) (by decide), Option.map_eq_some_iff]

theorem bandwidthLoop_cons_iff {results : StreamTest → List ℤ} {test : StreamTest}
    {tests : List StreamTest} {out : List Figure × ℤ} :
    bandwidthLoop results carried (test :: tests) = some out ↔
      ∃ figure, sampleLoop ⟨carried, 0⟩ (results test) = some figure ∧
        (figure.iter = 0 ∧ out = ([], -EINVAL) ∨
          figure.iter ≠ 0 ∧ ∃ later, bandwidthLoop results figure.timeElapsed tests = some later ∧
            out = (figure :: later.1, later.2)) := by
  rw [bandwidthLoop, Option.bind_eq_some_iff]
  apply exists_congr
  intro figure
  apply and_congr_right
  intro _
  by_cases hiter : figure.iter = 0
  · simp [reported, hiter, eq_comm]
  · simp [reported, hiter, eq_comm]

theorem bandwidthLoop_own_iff (results : StreamTest → List ℤ) (hcarried : 0 ≤ carried)
    (hmax : carried ≤ LONG_MAX) (tests : List StreamTest) :
    bandwidthLoop results carried tests = some (ownFigures results tests) ↔
      AllUndisturbed results carried tests := by
  induction tests generalizing carried with
  | nil => simp [bandwidthLoop, ownFigures, AllUndisturbed]
  | cons test tests ih =>
      rw [bandwidthLoop_cons_iff, ownFigures, AllUndisturbed, ← reported_own_iff hcarried hmax]
      by_cases hany : ∃ result ∈ results test, 0 < result
      · have hiter : (ownFigure (results test)).iter ≠ 0 := ownFigure_iter_ne_zero.mpr hany
        have hown : reported (ownFigure (results test)) = .ok (ownFigure (results test)) :=
          if_neg hiter
        have hlater : sampleLoop ⟨carried, 0⟩ (results test) = some (ownFigure (results test)) →
            (bandwidthLoop results (ownFigure (results test)).timeElapsed tests =
              some (ownFigures results tests) ↔
              AllUndisturbed results (ownFigure (results test)).timeElapsed tests) := by
          intro hloop
          obtain ⟨hfits, hfigure⟩ := sampleLoop_iff.mp hloop
          have hsum := hfits.sum ⟨le_trans (by decide) hcarried, hmax⟩
          apply ih
          · apply List.sum_nonneg
            intro time htime
            exact (of_decide_eq_true (List.mem_filter.mp htime).2 : 0 < time).le
          · rw [hfigure]
            exact hsum.2
        rw [hown]
        constructor
        · rintro ⟨figure, hloop, ⟨-, hout⟩ | ⟨hsome, later, hrest, hout⟩⟩
          · cases hout
          · obtain ⟨⟨rfl, hprinted⟩, hret⟩ := by simpa using hout
            have hboth : later = ownFigures results tests := Prod.ext hprinted.symm hret.symm
            rw [hboth, hlater hloop] at hrest
            exact ⟨⟨_, hloop, hown⟩, fun _ => hrest⟩
        · rintro ⟨⟨figure, hloop, hreport⟩, hrest⟩
          obtain ⟨-, rfl⟩ := reported_eq_ok.mp hreport
          exact ⟨_, hloop, .inr ⟨hiter, _, (hlater hloop).mpr (hrest hany), rfl⟩⟩
      · have hnone : (ownFigure (results test)).iter = 0 :=
          not_not.mp fun hsome => hany (ownFigure_iter_ne_zero.mp hsome)
        have hown : reported (ownFigure (results test)) = .error (-EINVAL) := if_pos hnone
        rw [hown]
        constructor
        · rintro ⟨figure, hloop, ⟨hzero, -⟩ | ⟨-, later, -, hout⟩⟩
          · exact ⟨⟨figure, hloop, reported_eq_error.mpr hzero⟩, fun hsome => absurd hsome hany⟩
          · cases hout
        · rintro ⟨⟨figure, hloop, hreport⟩, -⟩
          exact ⟨figure, hloop, .inl ⟨reported_eq_error.mp hreport, rfl⟩⟩

/-- A figure is the sum and the number of the successes of its own test, and a
test fails when it has none, exactly when the results are undisturbed. -/
theorem figures_own_iff_undisturbed (iteration : ℕ) :
    (∀ doBench : ℕ → ℤ,
      measureMemoryLatency iteration doBench =
          some (reported (ownFigure ((List.range iteration).map doBench))) ↔
        Undisturbed 0 ((List.range iteration).map doBench)) ∧
      ∀ doBench : StreamTest → ℕ → ℤ,
        measureMemoryBandwidth iteration doBench =
            some (ownFigures (fun test => (List.range iteration).map (doBench test)) benchFs) ↔
          AllUndisturbed (fun test => (List.range iteration).map (doBench test)) 0 benchFs := by
  refine ⟨latency_own_iff iteration, ?_⟩
  intro doBench
  exact bandwidthLoop_own_iff _ (le_refl 0) (by decide) benchFs

/-- An error code before a time is taken off the time, and the second stream
test is charged with the time of the first one. -/
theorem figures_take_over :
    measureMemoryLatency 2 ([-22, 100].getD · 0) = some (.ok ⟨78, 1⟩) ∧
      reported (ownFigure ((List.range 2).map ([-22, 100].getD · 0))) = .ok ⟨100, 1⟩ ∧
      measureMemoryBandwidth 1 (fun _ _ => 100) =
        some ([⟨100, 1⟩, ⟨200, 1⟩, ⟨300, 1⟩, ⟨400, 1⟩], 0) ∧
      ownFigures (fun _ => (List.range 1).map fun _ => 100) benchFs =
        ([⟨100, 1⟩, ⟨100, 1⟩, ⟨100, 1⟩, ⟨100, 1⟩], 0) := by
  refine ⟨?_, ?_, ?_, ?_⟩
  · decide
  · decide
  · decide
  · decide

end WaycaScheduler
