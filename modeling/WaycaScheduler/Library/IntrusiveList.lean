import Mathlib.Data.List.Nodup
import Mathlib.Data.Set.Finite.Lattice
import Mathlib.Logic.Function.Basic
import Mathlib.Tactic

/-!
# Intrusive singly linked lists

A list is given by a head link and a map from each cell to the link it
carries; the null link is `none`.  `Linked next head cells` says that
following the links from the head visits exactly `cells`, in order.  The walks
carry fuel, and each comes with the theorem that enough fuel for the chain
gives its value.
-/

namespace IntrusiveList

open Function

variable {Cell State : Type*}
variable {next : Cell → Option Cell} {head : Option Cell} {body : State → Cell → Option State}
  {cells : List Cell} {fuel : ℕ} {state : State}

variable {cell : Cell} {rest before : List Cell} {final : State}

def Linked (next : Cell → Option Cell) : Option Cell → List Cell → Prop
  | head, [] => head = none
  | head, cell :: rest => head = some cell ∧ Linked next (next cell) rest

@[simp] theorem linked_nil :
    Linked next head [] ↔ head = none := Iff.rfl

@[simp] theorem linked_cons :
    Linked next head (cell :: rest) ↔ head = some cell ∧ Linked next (next cell) rest := Iff.rfl

theorem Linked.unique {first second : List Cell}
    (hfirst : Linked next head first) (hsecond : Linked next head second) :
    first = second := by
  induction first generalizing head second with
  | nil =>
      cases second with
      | nil => rfl
      | cons cell rest =>
          rw [linked_nil.mp hfirst] at hsecond
          simp at hsecond
  | cons cell rest ih =>
      cases second with
      | nil =>
          rw [linked_nil.mp hsecond] at hfirst
          simp at hfirst
      | cons other tail =>
          obtain ⟨hhead, hrest⟩ := hfirst
          obtain ⟨hother, htail⟩ := hsecond
          have hsame : cell = other := by
            rw [hhead] at hother
            simpa using hother
          subst other
          rw [ih hrest htail]

theorem Linked.suffix {after : List Cell}
    (hlinked : Linked next head (before ++ cell :: after)) :
    Linked next (some cell) (cell :: after) := by
  induction before generalizing head with
  | nil =>
      obtain ⟨_, hafter⟩ := hlinked
      exact ⟨rfl, hafter⟩
  | cons other rest ih => exact ih hlinked.2

section

variable {next : Cell → Option Cell} {head : Option Cell} {cells : List Cell}
  (hlinked : Linked next head cells)

include hlinked

theorem Linked.nodup : cells.Nodup := by
  induction cells generalizing head with
  | nil => exact List.nodup_nil
  | cons cell rest ih =>
      obtain ⟨hhead, hrest⟩ := hlinked
      refine List.nodup_cons.mpr ⟨?_, ih hrest⟩
      intro hmem
      obtain ⟨before, after, hsplit⟩ := List.append_of_mem hmem
      have hinner : Linked next (some cell) (cell :: after) := by
        rw [hsplit] at hrest
        exact hrest.suffix
      have houter : Linked next (some cell) (cell :: rest) := ⟨rfl, hrest⟩
      have hlength := congrArg List.length (hinner.unique houter)
      rw [hsplit] at hlength
      simp at hlength
      omega

theorem Linked.congr {other : Cell → Option Cell} (hsame : ∀ cell ∈ cells, other cell = next cell) :
    Linked other head cells := by
  induction cells generalizing head with
  | nil => exact hlinked
  | cons cell rest ih =>
      obtain ⟨hhead, hrest⟩ := hlinked
      refine ⟨hhead, ?_⟩
      rw [hsame cell (by simp)]
      exact ih hrest (fun x hx => hsame x (by simp [hx]))

theorem Linked.head_mem (hhead : head = some cell) : cell ∈ cells := by
  cases cells with
  | nil =>
      rw [linked_nil.mp hlinked] at hhead
      simp at hhead
  | cons first rest =>
      have hfirst := hlinked.1
      rw [hhead] at hfirst
      simp [Option.some.inj hfirst]

end

/-! ## Walks along a chain -/

def search [DecidableEq Cell] (next : Cell → Option Cell) (target : Cell) :
    ℕ → Option Cell → Option Bool
  | _, none => some false
  | 0, some _ => none
  | fuel + 1, some cell =>
      if cell = target then some true else search next target fuel (next cell)

theorem search_eq [DecidableEq Cell]
    (hlinked : Linked next head cells) (target : Cell)
    (hfuel : cells.length ≤ fuel) :
    search next target fuel head = some (decide (target ∈ cells)) := by
  induction cells generalizing head fuel with
  | nil =>
      rw [linked_nil.mp hlinked]
      simp [search]
  | cons cell rest ih =>
      obtain ⟨rfl, hrest⟩ := hlinked
      cases fuel with
      | zero => simp at hfuel
      | succ fuel =>
          have hrec := ih hrest (by simpa using hfuel)
          by_cases heq : cell = target
          · simp [search, heq]
          · have hne : target ≠ cell := fun h => heq h.symm
            simp [search, heq, hne, hrec]

def lastFrom (next : Cell → Option Cell) : ℕ → Cell → Option Cell
  | 0, _ => none
  | fuel + 1, cell =>
      match next cell with
      | none => some cell
      | some after => lastFrom next fuel after

theorem lastFrom_eq (hlinked : Linked next (next cell) rest)
    (hfuel : rest.length < fuel) :
    lastFrom next fuel cell = some ((cell :: rest).getLast (by simp)) := by
  induction rest generalizing cell fuel with
  | nil =>
      cases fuel with
      | zero => simp at hfuel
      | succ fuel => simp [lastFrom, linked_nil.mp hlinked]
  | cons after rest ih =>
      cases fuel with
      | zero => simp at hfuel
      | succ fuel =>
          have hrec := ih hlinked.2 (by simpa using hfuel)
          simp [lastFrom, hlinked.1, hrec]

def findPrev [DecidableEq Cell] (next : Cell → Option Cell) (target : Cell) :
    ℕ → Option Cell → Option (Option Cell)
  | _, none => some none
  | 0, some _ => none
  | fuel + 1, some cell =>
      if next cell = some target then some (some cell)
      else findPrev next target fuel (next cell)

theorem findPrev_eq [DecidableEq Cell]
    {target : Cell}
    (hlinked : Linked next head cells) (hmem : target ∈ cells)
    (hhead : head ≠ some target) (hfuel : cells.length ≤ fuel) :
    ∃ before prev after, cells = before ++ prev :: target :: after ∧
      findPrev next target fuel head = some (some prev) := by
  induction cells generalizing head fuel with
  | nil => simp at hmem
  | cons cell rest ih =>
      obtain ⟨rfl, hrest⟩ := hlinked
      have hne : target ≠ cell := fun h => hhead (by rw [h])
      have hmemRest : target ∈ rest := by simpa [hne] using hmem
      cases fuel with
      | zero => simp at hfuel
      | succ fuel =>
          by_cases hnext : next cell = some target
          · cases rest with
            | nil => simp at hmemRest
            | cons second tail =>
                have hsecond : second = target := by
                  have h := hrest.1
                  rw [hnext] at h
                  exact (Option.some.inj h).symm
                subst second
                exact ⟨[], cell, tail, rfl, by simp [findPrev, hnext]⟩
          · obtain ⟨before, prev, after, hsplit, hfind⟩ :=
              ih hrest hmemRest hnext (by simpa using hfuel)
            exact ⟨cell :: before, prev, after, by simp [hsplit], by simp [findPrev, hnext, hfind]⟩

/-! ## Adding and removing a cell -/

theorem Linked.append_last [DecidableEq Cell]
    {last : Cell} (hlinked : Linked next head (before ++ [last])) (hfresh : cell ∉ before ++ [last])
    (hfree : next cell = none) :
    Linked (update next last (some cell)) head (before ++ [last, cell]) := by
  induction before generalizing head with
  | nil =>
      have hne : cell ≠ last := by simpa using hfresh
      have hlast := hlinked.1
      simp [hlast, update_of_ne hne, hfree]
  | cons first rest ih =>
      have hnodup := hlinked.nodup
      obtain ⟨hhead, hrest⟩ := hlinked
      have hfirst : first ≠ last := by
        intro h
        subst h
        simp at hnodup
      refine ⟨hhead, ?_⟩
      rw [update_of_ne hfirst]
      exact ih hrest (fun hmem => hfresh (List.mem_cons_of_mem _ hmem))

theorem Linked.remove_head [DecidableEq Cell]
    (hlinked : Linked next (some cell) (cell :: rest)) :
    Linked (update next cell none) (next cell) rest := by
  have hnodup := hlinked.nodup
  refine hlinked.2.congr ?_
  intro x hx
  have hne : x ≠ cell := by
    intro h
    subst h
    simp at hnodup
    exact hnodup.1 hx
  exact update_of_ne hne none next

theorem Linked.remove_inner [DecidableEq Cell]
    {before after : List Cell} {prev cell : Cell}
    (hlinked : Linked next head (before ++ prev :: cell :: after)) :
    Linked (update (update next prev (next cell)) cell none) head (before ++ prev :: after) := by
  induction before generalizing head with
  | nil =>
      have hnodup := hlinked.nodup
      obtain ⟨hhead, hcell, hafter⟩ := hlinked
      simp only [List.nil_append, List.nodup_cons, List.mem_cons, not_or] at hnodup
      obtain ⟨⟨hprevCell, hprevAfter⟩, hcellAfter, _⟩ := hnodup
      refine ⟨hhead, ?_⟩
      rw [update_of_ne hprevCell, update_self]
      refine hafter.congr ?_
      intro x hx
      have hxcell : x ≠ cell := fun h => hcellAfter (h ▸ hx)
      have hxprev : x ≠ prev := fun h => hprevAfter (h ▸ hx)
      rw [update_of_ne hxcell, update_of_ne hxprev]
  | cons first rest ih =>
      have hnodup := hlinked.nodup
      obtain ⟨hhead, hrest⟩ := hlinked
      have hnotMem : first ∉ rest ++ prev :: cell :: after := (List.nodup_cons.mp hnodup).1
      have hprev : first ≠ prev := fun h => hnotMem (by simp [h])
      have hcell : first ≠ cell := fun h => hnotMem (by simp [h])
      refine ⟨hhead, ?_⟩
      rw [update_of_ne hcell, update_of_ne hprev]
      exact ih hrest

/-! ## Loops over a chain -/

/-- Run the body on every cell of the chain, reading each link after the body
has run on its cell. -/
def forEach (next : State → Cell → Option Cell) (body : State → Cell → Option State) :
    ℕ → Option Cell → State → Option State
  | _, none, state => some state
  | 0, some _, _ => none
  | fuel + 1, some cell, state =>
      (body state cell).bind fun after =>
        forEach next body fuel (next after cell) after

theorem forEach_keeps {next : State → Cell → Option Cell}
    {Inv : State → Prop}
    (hbody : ∀ state cell after, Inv state → body state cell = some after → Inv after)
    (hinv : Inv state)
    (hrun : forEach next body fuel head state = some final) : Inv final := by
  induction fuel generalizing head state with
  | zero =>
      cases head with
      | none =>
          simp only [forEach, Option.some.injEq] at hrun
          exact hrun ▸ hinv
      | some cell => simp [forEach] at hrun
  | succ fuel ih =>
      cases head with
      | none =>
          simp only [forEach, Option.some.injEq] at hrun
          exact hrun ▸ hinv
      | some cell =>
          simp only [forEach] at hrun
          obtain ⟨after, hstep, hrest⟩ := Option.bind_eq_some_iff.mp hrun
          exact ih (hbody state cell after hinv hstep) hrest

theorem foldlM_keeps (Inv : State → Prop)
    (hbody : ∀ state cell after, cell ∈ cells → Inv state → body state cell = some after →
      Inv after)
    (hinv : Inv state)
    (hrun : cells.foldlM body state = some final) : Inv final := by
  induction cells generalizing state with
  | nil =>
      simp only [List.foldlM_nil, Option.pure_def, Option.some.injEq] at hrun
      exact hrun ▸ hinv
  | cons cell rest ih =>
      rw [List.foldlM_cons] at hrun
      obtain ⟨after, hstep, hrest⟩ := Option.bind_eq_some_iff.mp hrun
      refine ih ?_ (hbody state cell after (by simp) hinv hstep) hrest
      exact fun before c later hmem => hbody before c later (List.mem_cons_of_mem _ hmem)

theorem foldlM_returns (Inv : State → Prop)
    (hbody : ∀ state cell, cell ∈ cells → Inv state →
      ∃ after, body state cell = some after ∧ Inv after)
    (hinv : Inv state) :
    ∃ final, cells.foldlM body state = some final ∧ Inv final := by
  induction cells generalizing state with
  | nil => exact ⟨state, rfl, hinv⟩
  | cons cell rest ih =>
      obtain ⟨after, hstep, hafter⟩ := hbody state cell List.mem_cons_self hinv
      obtain ⟨final, hrest, hfinal⟩ :=
        ih (fun before c hc => hbody before c (List.mem_cons_of_mem cell hc)) hafter
      refine ⟨final, ?_, hfinal⟩
      rw [List.foldlM_cons, hstep]
      exact hrest

theorem forEach_eq_foldlM {next : State → Cell → Option Cell}
    {links : Cell → Option Cell}
    (hbody : ∀ state cell after, next state = links → body state cell = some after →
      next after = links)
    (hlinks : next state = links) (hlinked : Linked links head cells)
    (hfuel : cells.length ≤ fuel) :
    forEach next body fuel head state = cells.foldlM body state := by
  induction cells generalizing fuel head state with
  | nil =>
      rw [linked_nil.mp hlinked]
      cases fuel <;> rfl
  | cons cell rest ih =>
      obtain ⟨rfl, hrest⟩ := hlinked
      cases fuel with
      | zero => simp at hfuel
      | succ fuel =>
          simp only [forEach, List.foldlM_cons]
          cases hstep : body state cell with
          | none => rfl
          | some after =>
              have hafter := hbody state cell after hlinks hstep
              simp only [Option.bind_some, Option.bind_eq_bind]
              rw [hafter]
              exact ih hafter hrest (by simpa using hfuel)

theorem forEach_mono {next : State → Cell → Option Cell} {body wider : State → Cell → Option State}
    (hwider : ∀ state cell after, body state cell = some after → wider state cell = some after)
    (hrun : forEach next body fuel head state = some final) :
    forEach next wider fuel head state = some final := by
  induction fuel generalizing head state with
  | zero =>
      cases head with
      | none => exact hrun
      | some cell => simp [forEach] at hrun
  | succ fuel ih =>
      cases head with
      | none => exact hrun
      | some cell =>
          simp only [forEach] at hrun ⊢
          obtain ⟨after, hstep, hrest⟩ := Option.bind_eq_some_iff.mp hrun
          rw [hwider state cell after hstep]
          exact ih hrest

/-! ## The calls a loop makes -/

/-- The loop comes to the cell, in the state it has then.  Whether it ends is
left open. -/
inductive Visits (next : State → Cell → Option Cell) (body : State → Cell → State → Prop) :
    Option Cell → State → Cell → State → Prop
  | here (cell : Cell) (state : State) : Visits next body (some cell) state cell state
  | later {cell target : Cell} {state after final : State} (hbody : body state cell after)
      (hrest : Visits next body (next after cell) after target final) :
      Visits next body (some cell) state target final

section Visits

variable {next : State → Cell → Option Cell} {body : State → Cell → State → Prop}
  {links : Cell → Option Cell} (Inv : State → Prop) {cells : List Cell}

section

variable {state : State} (hlinks : ∀ state, Inv state → next state = links)
variable {head : Option Cell}

include hlinks

/-- A loop whose body leaves the links alone comes to cells of the chain only,
in states that have what every body run keeps. -/
theorem Visits.keeps
    (hbody : ∀ state cell after, cell ∈ cells → Inv state → body state cell after → Inv after)
    {target : Cell} (hvisits : Visits next body head state target final)
    (hlinked : Linked links head cells) (hinv : Inv state) : target ∈ cells ∧ Inv final := by
  induction hvisits generalizing cells with
  | here cell state => exact ⟨hlinked.head_mem rfl, hinv⟩
  | @later cell target state after final hstep _ ih =>
      cases cells with
      | nil => exact absurd (linked_nil.mp hlinked) (Option.some_ne_none cell)
      | cons first rest =>
          obtain ⟨hhead, hrest⟩ := hlinked
          rw [← Option.some.inj hhead] at hbody hrest ⊢
          have hafter := hbody state cell after List.mem_cons_self hinv hstep
          rw [← congrFun (hlinks after hafter) cell] at hrest
          obtain ⟨hmem, hfinal⟩ := ih (fun before c later hc => hbody before c later
            (List.mem_cons_of_mem cell hc)) hrest hafter
          exact ⟨List.mem_cons_of_mem cell hmem, hfinal⟩

theorem finite_visits
    (hbody : ∀ state cell after, cell ∈ cells → Inv state → body state cell after → Inv after)
    (hfunction : ∀ state cell first second, body state cell first → body state cell second →
      first = second)
    (hlinked : Linked links head cells) (hinv : Inv state) :
    {call : State × Cell | Visits next body head state call.2 call.1}.Finite := by
  induction cells generalizing head state with
  | nil =>
      rw [linked_nil.mp hlinked]
      refine Set.finite_empty.subset ?_
      intro call hcall
      cases hcall
  | cons cell rest ih =>
      obtain ⟨rfl, hrest⟩ := hlinked
      have hlater : {call : State × Cell | ∃ after, body state cell after ∧
          Visits next body (next after cell) after call.2 call.1}.Finite := by
        by_cases hreturns : ∃ after, body state cell after
        · obtain ⟨after, hafter⟩ := hreturns
          have hkept := hbody state cell after List.mem_cons_self hinv hafter
          rw [← congrFun (hlinks after hkept) cell] at hrest
          refine Set.Finite.subset (ih (fun before c later hc => hbody before c later
            (List.mem_cons_of_mem cell hc)) hrest hkept) ?_
          rintro call ⟨other, hother, hvisits⟩
          rw [hfunction state cell other after hother hafter] at hvisits
          exact hvisits
        · refine Set.finite_empty.subset ?_
          rintro call ⟨after, hafter, -⟩
          exact hreturns ⟨after, hafter⟩
      refine (hlater.insert (state, cell)).subset ?_
      rintro ⟨final, target⟩ hvisits
      cases hvisits with
      | here => exact Set.mem_insert _ _
      | later hstep hmore => exact Set.mem_insert_of_mem _ ⟨_, hstep, hmore⟩

theorem forEach_returns {run : State → Cell → Option State}
    (hrun : ∀ state cell after, cell ∈ cells → Inv state → run state cell = some after →
      Inv after ∧ body state cell after)
    {fuel : ℕ} (hlinked : Linked links head cells)
    (hfuel : cells.length ≤ fuel) (hinv : Inv state)
    (hcalls : ∀ cell before, Visits next body head state cell before →
      ∃ after, run before cell = some after) :
    ∃ final, forEach next run fuel head state = some final := by
  induction cells generalizing fuel head state with
  | nil =>
      rw [linked_nil.mp hlinked]
      cases fuel <;> exact ⟨state, rfl⟩
  | cons cell rest ih =>
      obtain ⟨rfl, hrest⟩ := hlinked
      cases fuel with
      | zero => exact absurd hfuel (Nat.not_succ_le_zero _)
      | succ fuel =>
          obtain ⟨after, hafter⟩ := hcalls cell state (.here cell state)
          obtain ⟨hkept, hbody⟩ := hrun state cell after List.mem_cons_self hinv hafter
          rw [← congrFun (hlinks after hkept) cell] at hrest
          obtain ⟨final, hfinal⟩ := ih (fun before c later hc => hrun before c later
            (List.mem_cons_of_mem cell hc)) hrest (Nat.le_of_succ_le_succ hfuel) hkept
            fun c before hvisits => hcalls c before (.later hbody hvisits)
          exact ⟨final, by simp only [forEach, hafter, Option.bind_some, hfinal]⟩

end

end Visits

end IntrusiveList
