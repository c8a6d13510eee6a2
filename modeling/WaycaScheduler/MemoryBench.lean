import WaycaScheduler.Library.Fuelled
import WaycaScheduler.Library.PointerTrail

/-!
# The pointer chain of the latency benchmark

The benchmark writes a chain of links into a buffer and measures how long it
takes to follow it.  In random order each link is drawn, and a place that is
taken is left by going forward in steps of the stride.  The search does not go
back to the start of the buffer, and the place that the link starts from does
not yet count as taken.  As long as the draws do not come back to an earlier
place, neither matters.
-/

namespace WaycaScheduler

open Fuelled PointerTrail

def MiB : ℕ := 1024 * 1024

/-- `sizeof(LATENCY_TYPE)` -/
def latencyBytes : ℕ := 8

def TOTAL_BUFFER_CNT : ℕ := 3

/-- The options that the chain depends on. -/
structure BenchOptions where
  stride : ℕ
  bufSz : ℕ
  pageSize : ℕ
  randomAccess : Bool

/-- `seed = (A * seed + B) % M`, where `M` is two to the 31. -/
def lcgSeed (seed : ℕ) : ℕ := (1103515245 * seed + 12345) % 2 ^ 31

namespace BenchOptions

variable (b : BenchOptions)

/-- The value that follows from the seed.  There is none for a division by
zero. -/
def lcgPrng (seed : ℕ) : Option ℕ :=
  if b.randomAccess = false then some b.stride
  else if b.pageSize / b.stride = 0 then none
  else some (seed % (b.pageSize / b.stride) * b.stride + MiB)

def fixStride : ℕ := b.stride

def prng (seed : ℕ) : Option ℕ :=
  if b.randomAccess then b.lcgPrng seed else some b.fixStride

def len : ℕ := b.bufSz / latencyBytes

def words : ℕ := TOTAL_BUFFER_CNT * b.bufSz / latencyBytes

end BenchOptions

section Program

variable (b : BenchOptions)

/-- `while (list[next] != -1)`.  There is no value for a read behind the
buffers. -/
def freePlaceLoop (list : ℕ → ℤ) : ℕ → ℕ → Option ℕ
  | 0, _ => none
  | fuel + 1, next =>
      if b.words ≤ next then none
      else if list next ≠ -1 then
        freePlaceLoop list fuel (next + b.stride / latencyBytes % b.len)
      else some next

/-- `while (resident--)`, with the seeds that the generator goes through. -/
def circularListLoop (seeds : ℕ → ℕ) (fuel : ℕ) : ℕ → ℕ → ℕ → (ℕ → ℤ) → Option (ℕ → ℤ)
  | 0, _, pos, list => some (Function.update list pos 0)
  | resident + 1, drawn, pos, list => do
      let draw ← b.prng (seeds drawn)
      let next ← freePlaceLoop b list fuel ((pos + draw / latencyBytes) % b.len)
      circularListLoop seeds fuel resident (drawn + 1) next (Function.update list pos next)

/-- `init_circular_list` on the buffers that `alloc_buffers` has filled. -/
def initCircularList (seeds : ℕ → ℕ) (fuel : ℕ) : Option (ℕ → ℤ) :=
  circularListLoop b seeds fuel (b.bufSz / b.stride - 1) 0 0 fun _ => -1

end Program

/-! ## One full cycle -/

/-- All links are inside the buffer and lead through all elements and back. -/
structure FullCycle (b : BenchOptions) (list : ℕ → ℤ) : Prop where
  inside : ∀ pos, list pos ≠ -1 → 0 ≤ list pos ∧ list pos < b.len
  cycle : Cycle (fun pos => (list pos).toNat) 0 (b.bufSz / b.stride)

/-- The bytes that a value of the generator stands for in random order. -/
def BenchOptions.drawnBytes (b : BenchOptions) (value : ℕ) : ℕ :=
  value % (b.pageSize / b.stride) * b.stride + MiB

/-- The order is sequential, or nothing is drawn, or a stride is not longer than
a page and no draws that follow each other add up to whole buffers. -/
def NeverReturns (b : BenchOptions) (seeds : ℕ → ℕ) : Prop :=
  b.randomAccess = false ∨ b.bufSz = b.stride ∨
    (b.stride ≤ b.pageSize ∧ ∀ j < b.bufSz / b.stride, ∀ i < j,
      ¬ b.bufSz ∣ ∑ k ∈ Finset.Ico i j, b.drawnBytes (seeds k))

section Places

variable {b : BenchOptions} {draws : ℕ → ℕ}

/-- The places that the draws lead to when each of them is free. -/
def placeAfter (b : BenchOptions) (draws : ℕ → ℕ) : ℕ → ℕ
  | 0 => 0
  | j + 1 => (placeAfter b draws j + draws j / latencyBytes) % b.len

theorem placeAfter_eq_sum (j : ℕ) :
    placeAfter b draws j = (∑ k ∈ Finset.range j, draws k / latencyBytes) % b.len := by
  induction j with
  | zero => rw [placeAfter, Finset.sum_range_zero, Nat.zero_mod]
  | succ j ih => rw [placeAfter, ih, Finset.sum_range_succ, Nat.mod_add_mod]

/-- Two places are the same if the draws between them add up to whole buffers. -/
theorem placeAfter_eq_iff {i j : ℕ} (haligned : ∀ k, latencyBytes ∣ draws k)
    (hbuffer : b.bufSz = latencyBytes * b.len) (hij : i ≤ j) :
    placeAfter b draws i = placeAfter b draws j ↔
      b.bufSz ∣ ∑ k ∈ Finset.Ico i j, draws k := by
  have hbytes : ∑ k ∈ Finset.Ico i j, draws k =
      latencyBytes * ∑ k ∈ Finset.Ico i j, draws k / latencyBytes := by
    rw [Finset.mul_sum]
    apply Finset.sum_congr rfl
    intro k _
    exact (Nat.mul_div_cancel' (haligned k)).symm
  have hsplit : ∑ k ∈ Finset.range j, draws k / latencyBytes =
      ∑ k ∈ Finset.range i, draws k / latencyBytes +
        ∑ k ∈ Finset.Ico i j, draws k / latencyBytes := by
    rw [Finset.sum_range_add_sum_Ico _ hij]
  rw [placeAfter_eq_sum, placeAfter_eq_sum, hbytes, hbuffer,
    Nat.mul_dvd_mul_iff_left (by decide), hsplit]
  exact Nat.left_modEq_add_iff

end Places

def link (place : ℕ) : ℤ := place

section Run

variable {b : BenchOptions} {seeds draws : ℕ → ℕ} {places : ℕ → ℕ}

theorem link_ne_free (place : ℕ) : link place ≠ -1 := by
  unfold link
  omega

theorem record_eq_free_iff {j p : ℕ} :
    record link (fun _ => -1) places j p = -1 ↔ ∀ i < j, places i ≠ p := by
  constructor
  · rintro hfree i hi rfl
    have hchosen : ∃ i' ≤ j, record link (fun _ => -1) places j (places i) = link (places i') :=
      record_chosen hi
    obtain ⟨i', -, hrecord⟩ := hchosen
    rw [hrecord] at hfree
    exact link_ne_free _ hfree
  · exact record_of_ne

/-- With one pass for each search, the run ends if no draw leads to an earlier
place.  The induction is on the links that are missing. -/
theorem circularListLoop_one {resident : ℕ} (drawn : ℕ) (result : ℕ → ℤ) (hlen : 0 < b.len)
    (hwords : b.len ≤ b.words)
    (hdraws : ∀ j < resident, b.prng (seeds (drawn + j)) = some (draws (drawn + j))) :
    circularListLoop b seeds 1 resident drawn (placeAfter b draws drawn)
        (record link (fun _ => -1) (placeAfter b draws) drawn) = some result ↔
      (∀ j < resident, ∀ i < drawn + j,
        placeAfter b draws i ≠ placeAfter b draws (drawn + j + 1)) ∧
      close link (fun _ => -1) (placeAfter b draws) (drawn + resident) = result := by
  induction resident generalizing drawn with
  | zero =>
      rw [circularListLoop, Option.some.injEq]
      constructor
      · intro hresult
        exact ⟨fun j hj => absurd hj (Nat.not_lt_zero j), hresult⟩
      · exact And.right
  | succ resident ih =>
      have hlater : ∀ j < resident,
          b.prng (seeds (drawn + 1 + j)) = some (draws (drawn + 1 + j)) := by
        intro j hj
        rw [Nat.add_assoc, Nat.add_comm 1]
        exact hdraws (j + 1) (Nat.succ_lt_succ hj)
      have hinside : ¬ b.words ≤ placeAfter b draws (drawn + 1) :=
        not_le.mpr (lt_of_lt_of_le (Nat.mod_lt _ hlen) hwords)
      have hnext : circularListLoop b seeds 1 (resident + 1) drawn (placeAfter b draws drawn)
          (record link (fun _ => -1) (placeAfter b draws) drawn) =
          (freePlaceLoop b (record link (fun _ => -1) (placeAfter b draws) drawn) 1
            (placeAfter b draws (drawn + 1))).bind fun next =>
              circularListLoop b seeds 1 resident (drawn + 1) next
                (Function.update (record link (fun _ => -1) (placeAfter b draws) drawn)
                  (placeAfter b draws drawn) next) := by
        have hdraw : b.prng (seeds drawn) = some (draws drawn) := hdraws 0 (Nat.succ_pos resident)
        rw [circularListLoop, hdraw]
        rfl
      rw [hnext, freePlaceLoop, if_neg hinside]
      split
      next htaken =>
        rw [ne_eq, record_eq_free_iff] at htaken
        constructor
        · intro hrun
          cases hrun
        · rintro ⟨hfree, -⟩
          exact absurd (hfree 0 (Nat.succ_pos resident)) htaken
      next hfree =>
        rw [not_not, record_eq_free_iff] at hfree
        rw [Option.bind_some]
        refine (ih (drawn + 1) hlater).trans ?_
        rw [Nat.add_right_comm drawn 1 resident]
        apply and_congr_left'
        constructor
        · intro hothers j hj
          cases j with
          | zero => exact hfree
          | succ j =>
              rw [← Nat.add_assoc, Nat.add_right_comm]
              exact hothers j (Nat.lt_of_succ_lt_succ hj)
        · intro hall j hj
          have hlink := hall (j + 1) (Nat.succ_lt_succ hj)
          rwa [← Nat.add_assoc, Nat.add_right_comm] at hlink

end Run

section Chain

variable {b : BenchOptions} {seeds draws places : ℕ → ℕ}

structure Lengths (b : BenchOptions) : Prop where
  count : b.bufSz / b.stride = b.bufSz / b.stride - 1 + 1
  buffer : b.bufSz = latencyBytes * b.len
  whole : b.bufSz = b.bufSz / b.stride * b.stride
  len : 0 < b.len
  words : b.len ≤ b.words

theorem lengths (hpos : 0 < b.stride) (haligned : latencyBytes ∣ b.stride)
    (hwhole : b.stride ∣ b.bufSz) (hmin : b.stride ≤ b.bufSz) : Lengths b := by
  have hcount : 0 < b.bufSz / b.stride := Nat.div_pos hmin hpos
  have hbuffer : b.bufSz = latencyBytes * b.len :=
    (Nat.mul_div_cancel' (haligned.trans hwhole)).symm
  refine ⟨by omega, hbuffer, (Nat.div_mul_cancel hwhole).symm, ?_, ?_⟩
  · apply Nat.pos_of_ne_zero
    intro hempty
    rw [hempty, Nat.mul_zero] at hbuffer
    omega
  · unfold BenchOptions.len BenchOptions.words
    apply Nat.div_le_div_right
    exact Nat.le_mul_of_pos_left _ (by decide)

/-- The chain through places inside the buffer is a full cycle exactly if they are
different ones. -/
theorem fullCycle_close_iff (hlengths : Lengths b) (hfirst : places 0 = 0)
    (hinside : ∀ j, places j < b.len) :
    FullCycle b (close link (fun _ => -1) places (b.bufSz / b.stride - 1)) ↔
      ∀ i ≤ b.bufSz / b.stride - 1, ∀ j ≤ b.bufSz / b.stride - 1,
        places i = places j → i = j := by
  constructor
  · intro hfull
    have hcycle := hfull.cycle
    rw [hlengths.count, ← hfirst] at hcycle
    exact distinct_of_cycle Int.toNat_natCast hcycle
  · intro hdistinct
    constructor
    · intro pos hlink
      by_cases hchosen : ∃ j ≤ b.bufSz / b.stride - 1, places j = pos
      · obtain ⟨j, hj, rfl⟩ := hchosen
        have hpoints : ∃ i ≤ b.bufSz / b.stride - 1,
            close link (fun _ => -1) places (b.bufSz / b.stride - 1) (places j) =
              link (places i) := close_chosen hj
        obtain ⟨i, -, hvalue⟩ := hpoints
        have := hinside i
        rw [hvalue]
        unfold link
        omega
      · push Not at hchosen
        exact absurd (close_of_ne hchosen) hlink
    · rw [hlengths.count, ← hfirst]
      exact cycle_of_distinct Int.toNat_natCast hdistinct

/-- Without a second pass of a search, the run gives a full cycle exactly if no
draws that follow each other add up to whole buffers. -/
theorem fullCycle_one_iff (draws : ℕ → ℕ) (hlengths : Lengths b)
    (haligned : ∀ k, latencyBytes ∣ draws k)
    (hdraws : ∀ j < b.bufSz / b.stride - 1, b.prng (seeds j) = some (draws j)) :
    (∃ list, initCircularList b seeds 1 = some list ∧ FullCycle b list) ↔
      ∀ j < b.bufSz / b.stride, ∀ i < j, ¬ b.bufSz ∣ ∑ k ∈ Finset.Ico i j, draws k := by
  have hrun : ∀ list, initCircularList b seeds 1 = some list ↔
      (∀ j < b.bufSz / b.stride - 1, ∀ i < j,
        placeAfter b draws i ≠ placeAfter b draws (j + 1)) ∧
      close link (fun _ => -1) (placeAfter b draws) (b.bufSz / b.stride - 1) = list := by
    intro list
    have hloop := circularListLoop_one 0 list hlengths.len hlengths.words
      (by simpa only [Nat.zero_add] using hdraws)
    simp only [Nat.zero_add] at hloop
    exact hloop
  have hinside : ∀ j, placeAfter b draws j < b.len := by
    intro j
    rw [placeAfter_eq_sum]
    exact Nat.mod_lt _ hlengths.len
  have hcount := hlengths.count
  simp only [hrun]
  constructor
  · rintro ⟨_, ⟨-, rfl⟩, hfull⟩ j hj i hi hwhole
    have hdistinct := (fullCycle_close_iff hlengths rfl hinside).mp hfull
    have hsame := (placeAfter_eq_iff haligned hlengths.buffer hi.le).mpr hwhole
    exact hi.ne (hdistinct i (by omega) j (by omega) hsame)
  · intro hnever
    have hdiffer : ∀ j < b.bufSz / b.stride, ∀ i < j,
        placeAfter b draws i ≠ placeAfter b draws j := by
      intro j hj i hi hsame
      exact hnever j hj i hi ((placeAfter_eq_iff haligned hlengths.buffer hi.le).mp hsame)
    refine ⟨_, ⟨?_, rfl⟩, (fullCycle_close_iff hlengths rfl hinside).mpr ?_⟩
    · intro j hj i hi
      exact hdiffer (j + 1) (by omega) i (by omega)
    · intro i hi j hj hsame
      rcases lt_trichotomy i j with hlt | heq | hlt
      · exact absurd hsame (hdiffer j (by omega) i hlt)
      · exact heq
      · exact absurd hsame.symm (hdiffer i (by omega) j hlt)

theorem sequential_never_returns (hlengths : Lengths b) (hpos : 0 < b.stride) :
    ∀ j < b.bufSz / b.stride, ∀ i < j, ¬ b.bufSz ∣ ∑ _k ∈ Finset.Ico i j, b.stride := by
  intro j hj i hi hwhole
  rw [Finset.sum_const, Nat.card_Ico, smul_eq_mul, hlengths.whole,
    Nat.mul_dvd_mul_iff_right hpos] at hwhole
  have := Nat.le_of_dvd (by omega) hwhole
  omega

theorem prng_random (hrandom : b.randomAccess = true) (seed : ℕ) :
    b.prng seed = if b.pageSize / b.stride = 0 then none else some (b.drawnBytes seed) := by
  rw [BenchOptions.prng, hrandom, if_pos rfl, BenchOptions.lcgPrng, hrandom,
    if_neg (by decide : ¬ true = false)]
  rfl

theorem drawnBytes_aligned (haligned : latencyBytes ∣ b.stride) (value : ℕ) :
    latencyBytes ∣ b.drawnBytes value :=
  Nat.dvd_add (haligned.mul_left _) (by decide)

/-- The list is a full cycle exactly if no draw returns to a place used. -/
theorem neverReturns_iff (hlengths : Lengths b) (hpos : 0 < b.stride)
    (haligned : latencyBytes ∣ b.stride) :
    (∃ list, initCircularList b seeds 1 = some list ∧ FullCycle b list) ↔
      NeverReturns b seeds := by
  unfold NeverReturns
  have hcount := hlengths.count
  by_cases halone : b.bufSz = b.stride
  · -- nothing is drawn
    have hone : b.bufSz / b.stride = 1 := by
      rw [halone, Nat.div_self hpos]
    rw [fullCycle_one_iff (fun _ => b.stride) hlengths (fun _ => haligned)
      (by omega)]
    constructor
    · intro _
      exact .inr (.inl halone)
    · intro _ j hj i hi
      omega
  cases horder : b.randomAccess with
  | false =>
      rw [fullCycle_one_iff (fun _ => b.stride) hlengths (fun _ => haligned)]
      · exact ⟨fun _ => .inl rfl, fun _ => sequential_never_returns hlengths hpos⟩
      · intro j _
        rw [BenchOptions.prng, horder]
        rfl
  | true =>
      by_cases hpage : b.stride ≤ b.pageSize
      · rw [fullCycle_one_iff (fun k => b.drawnBytes (seeds k)) hlengths
          fun k => drawnBytes_aligned haligned (seeds k)]
        · simp [halone, hpage]
        · intro j _
          rw [prng_random horder, if_neg (Nat.div_pos hpage hpos).ne']
      · constructor
        · rintro ⟨list, hrun, -⟩
          obtain ⟨resident, hresident⟩ : ∃ resident, b.bufSz / b.stride - 1 = resident + 1 := by
            apply Nat.exists_eq_succ_of_ne_zero
            intro hnone
            apply halone
            rw [hlengths.whole, hcount, hnone, Nat.zero_add, Nat.one_mul]
          rw [initCircularList, hresident, circularListLoop, prng_random horder,
            if_pos (Nat.div_eq_of_lt (not_le.mp hpage))] at hrun
          cases hrun
        · rintro (hfalse | hone | ⟨hfits, -⟩)
          · cases hfalse
          · exact absurd hone halone
          · exact absurd hfits hpage

/-- The chain is one full cycle if the draws do not come back.  If they do, a
search goes on from a place that is taken, or there is no full cycle. -/
theorem circular_list_full_cycle_unless_returning (hpos : 0 < b.stride)
    (haligned : latencyBytes ∣ b.stride)
    (hwhole : b.stride ∣ b.bufSz) (hmin : b.stride ≤ b.bufSz) (seeds : ℕ → ℕ) :
    (NeverReturns b seeds →
      ∃ list, Returns (fun fuel => initCircularList b seeds fuel) list ∧ FullCycle b list) ∧
    (¬ NeverReturns b seeds →
      ∀ list, initCircularList b seeds 1 = some list → ¬ FullCycle b list) := by
  rw [← neverReturns_iff (lengths hpos haligned hwhole hmin) hpos haligned]
  constructor
  · rintro ⟨list, hrun, hfull⟩
    exact ⟨list, ⟨1, hrun⟩, hfull⟩
  · intro hreturns list hrun hfull
    exact hreturns ⟨list, hrun, hfull⟩

end Chain

theorem circular_list_full_cycle_two_elements :
    (0 < 64 ∧ latencyBytes ∣ 64 ∧ 64 ∣ 128 ∧ 64 ≤ 128) ∧
    (∃ list, Returns (fun fuel => initCircularList ⟨64, 128, 4096, true⟩ (fun _ => 1) fuel) list ∧
      FullCycle ⟨64, 128, 4096, true⟩ list) ∧
    ∀ list, initCircularList ⟨64, 128, 4096, true⟩ (fun _ => 0) 1 = some list →
      ¬ FullCycle ⟨64, 128, 4096, true⟩ list := by
  have hhalf := circular_list_full_cycle_unless_returning (b := ⟨64, 128, 4096, true⟩)
    (by decide) (by decide) (by decide) (by decide)
  refine ⟨by decide, (hhalf fun _ => 1).1 (.inr (.inr (by decide))), (hhalf fun _ => 0).2 ?_⟩
  rintro (hfalse | hone | ⟨-, hnever⟩)
  · cases hfalse
  · cases hone
  · exact absurd hnever (by decide)

/-- A stride of two pages is divided by.  With eight elements in a page and the
generator started at second 1700000003, a link leads to word 512 behind the
buffer, and the chain is back after seven links. -/
theorem circular_list_leaves_buffer :
    (∀ fuel, initCircularList ⟨8192, 16384, 4096, true⟩ (fun _ => 0) fuel = none) ∧
    (initCircularList ⟨512, 4096, 4096, true⟩ (fun i => lcgSeed^[i + 1] 1700000003) 9).map
        (fun list => (list 128, (fun pos => (list pos).toNat)^[7] 0)) =
      some (((⟨512, 4096, 4096, true⟩ : BenchOptions).len : ℤ), 0) := by
  constructor
  · intro fuel
    rfl
  · decide +kernel

end WaycaScheduler
