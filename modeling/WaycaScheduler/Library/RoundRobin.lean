import Mathlib.Algebra.BigOperators.Group.Finset.Basic
import Mathlib.Algebra.BigOperators.Ring.Finset
import Mathlib.Algebra.Order.BigOperators.Group.Finset
import Mathlib.Data.Finset.Card
import Mathlib.Tactic

/-!
# Filling a pool of cells round by round

A pool hands out cells of a fixed finite set.  Within a round no cell is
handed out twice; when every cell has been handed out the round is counted
and the next one begins.  `Books` relates the pool to the number of takers each
cell has, which is one of the two integers next to the average.
-/

namespace RoundRobin

variable {Cell : Type*} [DecidableEq Cell]

/-- The cells used in this round and the number of the rounds before. -/
structure Pool (Cell : Type*) where
  used : Finset Cell
  rounds : ℤ

/-- The round is complete when the last cell is taken. -/
def Pool.take (cells : Finset Cell) (pool : Pool Cell) (cell : Cell) : Pool Cell :=
  if insert cell pool.used = cells then ⟨∅, pool.rounds + 1⟩
  else ⟨insert cell pool.used, pool.rounds⟩

/-- A release at the start of a round goes back into the round before. -/
def Pool.release (cells : Finset Cell) (pool : Pool Cell) (cell : Cell) : Pool Cell :=
  if pool.used = ∅ then ⟨cells.erase cell, pool.rounds - 1⟩
  else ⟨pool.used.erase cell, pool.rounds⟩

/-- The takers of every cell are the counted rounds and the current use. -/
structure Books (cells : Finset Cell) (pool : Pool Cell) (takers : Cell → ℕ) : Prop where
  used_subset : pool.used ⊆ cells
  used_ne : pool.used ≠ cells
  takers_eq : ∀ cell ∈ cells,
    (takers cell : ℤ) = pool.rounds + if cell ∈ pool.used then 1 else 0

variable {cells : Finset Cell} {pool : Pool Cell} {takers after : Cell → ℕ} {cell : Cell}

theorem books_start (hcells : cells.Nonempty) :
    Books cells ⟨∅, 0⟩ (fun _ => 0) := by
  refine ⟨Finset.empty_subset _, ?_, ?_⟩
  · exact fun h => hcells.ne_empty h.symm
  · intro cell _
    simp

section

variable (hbooks : Books cells pool takers)

include hbooks

theorem Books.congr (hsame : ∀ x ∈ cells, after x = takers x) :
    Books cells pool after := by
  refine ⟨hbooks.used_subset, hbooks.used_ne, ?_⟩
  intro x hx
  rw [hsame x hx]
  exact hbooks.takers_eq x hx

theorem Books.take (hmem : cell ∈ cells) (hfree : cell ∉ pool.used)
    (hafter : ∀ x ∈ cells, after x = takers x + if x = cell then 1 else 0) :
    Books cells (pool.take cells cell) after := by
  have hsubset : insert cell pool.used ⊆ cells := Finset.insert_subset hmem hbooks.used_subset
  unfold Pool.take
  split
  next hfull =>
    refine ⟨Finset.empty_subset _, ?_, ?_⟩
    · intro hempty
      rw [← hempty] at hmem
      simp at hmem
    · intro x hx
      rw [hafter x hx]
      push_cast
      rw [hbooks.takers_eq x hx]
      rw [← hfull] at hx
      by_cases heq : x = cell
      · subst x
        simp [hfree]
      · have hused : x ∈ pool.used := by simpa [heq] using hx
        simp [heq, hused]
  next hpartial =>
    refine ⟨hsubset, hpartial, ?_⟩
    intro x hx
    rw [hafter x hx]
    push_cast
    rw [hbooks.takers_eq x hx]
    by_cases heq : x = cell
    · subst x
      simp [hfree]
    · simp [heq]

theorem Books.release (hmem : cell ∈ cells) (hcurrent : pool.used = ∅ ∨ cell ∈ pool.used)
    (hafter : ∀ x ∈ cells, takers x = after x + if x = cell then 1 else 0) :
    Books cells (pool.release cells cell) after := by
  have htakers : ∀ x ∈ cells, (after x : ℤ) =
      pool.rounds + (if x ∈ pool.used then 1 else 0) - if x = cell then 1 else 0 := by
    intro x hx
    have hcount := hbooks.takers_eq x hx
    rw [hafter x hx] at hcount
    push_cast at hcount
    omega
  unfold Pool.release
  split
  next hempty =>
    refine ⟨Finset.erase_subset _ _, ?_, ?_⟩
    · exact fun h => Finset.erase_eq_self.mp h hmem
    · intro x hx
      rw [htakers x hx, hempty]
      by_cases heq : x = cell <;> simp [heq, hx]
  next hnonempty =>
    have hused : cell ∈ pool.used := hcurrent.resolve_left hnonempty
    refine ⟨(Finset.erase_subset _ _).trans hbooks.used_subset, ?_, ?_⟩
    · intro h
      rw [← h] at hmem
      simp at hmem
    · intro x hx
      rw [htakers x hx]
      by_cases heq : x = cell
      · subst x
        simp [hused]
      · simp [heq]

theorem Books.sum_takers :
    ((∑ x ∈ cells, takers x : ℕ) : ℤ) = pool.rounds * cells.card + pool.used.card := by
  have hinter : cells ∩ pool.used = pool.used := Finset.inter_eq_right.mpr hbooks.used_subset
  push_cast
  rw [Finset.sum_congr rfl hbooks.takers_eq, Finset.sum_add_distrib, Finset.sum_const,
    nsmul_eq_mul, Finset.sum_ite_mem, hinter]
  simp [mul_comm]

end

theorem ceil_div_of_started_round
    {size started rounds : ℕ} (hstarted : 0 < started) (hlt : started < size) :
    (started + size * rounds + size - 1) / size = rounds + 1 := by
  have hsplit : started + size * rounds + size - 1 = (started - 1) + size * (rounds + 1) := by
    rw [Nat.mul_succ]
    omega
  rw [hsplit, Nat.add_mul_div_left _ _ (by omega), Nat.div_eq_of_lt (by omega)]
  omega

/-- With the books kept, the number of rounds is the quotient of the takers by
the cells, and every cell has the floor or the ceiling of the average. -/
theorem Books.balanced
    (hbooks : Books cells pool takers) {total : ℕ} (htotal : ∑ x ∈ cells, takers x = total) :
    pool.rounds = total / cells.card ∧ ∀ x ∈ cells, takers x = total / cells.card ∨
        takers x = (total + cells.card - 1) / cells.card := by
  have hlt : pool.used.card < cells.card :=
    Finset.card_lt_card (Finset.ssubset_iff_subset_ne.mpr ⟨hbooks.used_subset, hbooks.used_ne⟩)
  have hsum : (total : ℤ) = pool.used.card + cells.card * pool.rounds := by
    rw [← htotal, hbooks.sum_takers]
    ring
  have hrounds : pool.rounds = (total : ℤ) / cells.card := by
    rw [hsum, Int.add_mul_ediv_left _ _ (by omega),
      Int.ediv_eq_zero_of_lt (by omega) (by exact_mod_cast hlt)]
    simp
  have hround : pool.rounds = ((total / cells.card : ℕ) : ℤ) := by
    rw [hrounds]
    simp
  refine ⟨hrounds, ?_⟩
  intro x hx
  have hcount := hbooks.takers_eq x hx
  rw [hround] at hcount
  by_cases hused : x ∈ pool.used
  · right
    have hstarted : 0 < pool.used.card := Finset.card_pos.mpr ⟨x, hused⟩
    have hnat : total = pool.used.card + cells.card * (total / cells.card) := by
      rw [hround] at hsum
      exact_mod_cast hsum
    have hceil : (total + cells.card - 1) / cells.card = total / cells.card + 1 := by
      conv_lhs => rw [hnat]
      exact ceil_div_of_started_round hstarted hlt
    rw [hceil]
    rw [if_pos hused] at hcount
    exact_mod_cast hcount
  · left
    rw [if_neg hused, add_zero] at hcount
    exact_mod_cast hcount

/-! ## Runs that hand out cells -/

section Serve

variable {Server Request Answer : Type*}

def serve (step : Server → Request → Option (Server × Answer)) (server : Server) :
    List Request → Option (Server × List Answer)
  | [] => some (server, [])
  | request :: rest =>
      (step server request).bind fun served =>
        (serve step served.1 rest).map fun later => (later.1, served.2 :: later.2)

section

variable {step : Server → Request → Option (Server × Answer)} {server : Server}
  (Inv : Server → Prop) (Good : Answer → Prop) (poolOf : Server → Pool Cell)
  (cellOf : Answer → Cell)
  (hstep : ∀ server request, Inv server → (poolOf server).used ⊆ cells →
    (poolOf server).used ≠ cells → ∃ after answer, step server request = some (after, answer) ∧
      Inv after ∧ Good answer ∧ cellOf answer ∈ cells ∧ cellOf answer ∉ (poolOf server).used ∧
      poolOf after = (poolOf server).take cells (cellOf answer))
  (requests : List Request) (hinv : Inv server)

include Inv Good poolOf cellOf hstep requests hinv

theorem serve_books (hbooks : Books cells (poolOf server) takers) :
    ∃ final answers, serve step server requests = some (final, answers) ∧
      answers.length = requests.length ∧ Inv final ∧
      (∀ answer ∈ answers, Good answer ∧ cellOf answer ∈ cells) ∧
      Books cells (poolOf final)
        fun cell => takers cell + (answers.map cellOf).count cell := by
  induction requests generalizing server takers with
  | nil =>
      refine ⟨server, [], rfl, rfl, hinv, by simp, ?_⟩
      simpa using hbooks
  | cons request rest ih =>
      obtain ⟨after, answer, hserved, hafter, hgood, hmem, hfree, hpool⟩ :=
        hstep server request hinv hbooks.used_subset hbooks.used_ne
      have hnext : Books cells (poolOf after)
          fun cell => takers cell + if cell = cellOf answer then 1 else 0 := by
        rw [hpool]
        exact hbooks.take hmem hfree fun _ _ => rfl
      obtain ⟨final, answers, hrun, hlength, hfinal, hall, hlater⟩ := ih hafter hnext
      refine ⟨final, answer :: answers, ?_, by simp [hlength], hfinal, ?_, ?_⟩
      · simp [serve, hserved, hrun]
      · intro other hother
        rcases List.mem_cons.mp hother with rfl | hother
        · exact ⟨hgood, hmem⟩
        · exact hall other hother
      · refine hlater.congr ?_
        intro cell _
        rw [List.map_cons, List.count_cons]
        by_cases hcell : cellOf answer = cell
        · simp [hcell]
          omega
        · simp [hcell, Ne.symm hcell]

theorem serve_balanced (hcells : cells.Nonempty) (hstart : poolOf server = ⟨∅, 0⟩) :
    ∃ final answers, serve step server requests = some (final, answers) ∧
      answers.length = requests.length ∧ Inv final ∧ (∀ answer ∈ answers, Good answer) ∧
      (poolOf final).rounds = requests.length / cells.card ∧
      ∀ cell ∈ cells, answers.countP (fun answer => cellOf answer = cell) =
            requests.length / cells.card ∨
          answers.countP (fun answer => cellOf answer = cell) =
            (requests.length + cells.card - 1) / cells.card := by
  have hbooks : Books cells (poolOf server) fun _ => 0 := by
    rw [hstart]
    exact books_start hcells
  obtain ⟨final, answers, hrun, hlength, hfinal, hall, hlater⟩ :=
    serve_books Inv Good poolOf cellOf hstep requests hinv hbooks
  have hcount : Books cells (poolOf final) fun cell => (answers.map cellOf).count cell :=
    hlater.congr fun _ _ => (Nat.zero_add _).symm
  have hsum : ∑ cell ∈ cells, (answers.map cellOf).count cell = requests.length := by
    have hmem : ∀ cell ∈ (↑(answers.map cellOf) : Multiset Cell), cell ∈ cells := by
      intro cell hcell
      obtain ⟨answer, hanswer, rfl⟩ := List.mem_map.mp (Multiset.mem_coe.mp hcell)
      exact (hall answer hanswer).2
    have hcard := Multiset.sum_count_eq_card hmem
    simpa [hlength] using hcard
  obtain ⟨hrounds, hbalanced⟩ := hcount.balanced hsum
  refine ⟨final, answers, hrun, hlength, hfinal, fun answer h => (hall answer h).1, hrounds, ?_⟩
  intro cell hcell
  have hsame : (answers.map cellOf).count cell =
      answers.countP fun answer => cellOf answer = cell := by
    rw [List.count, List.countP_map]
    rfl
  rw [← hsame]
  exact hbalanced cell hcell

end

end Serve

end RoundRobin
