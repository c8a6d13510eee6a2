import Mathlib.Tactic

/-!
# Circular doubly linked lists

A ring is given by the `next` and `prev` pointers of its cells and by the cell
it is entered at.  `Ring` says that following `next` from the first cell of a
list visits the list and comes back to the first cell, with `prev` the inverse.
Inserting before the entry appends to the list and unlinking the entry removes
the first cell, so the ring is a queue.
-/

namespace CircularList

variable {Cell : Type*}

structure Pointers (Cell : Type*) where
  next : Cell → Cell
  prev : Cell → Cell

namespace Pointers

variable [DecidableEq Cell] (pointers : Pointers Cell)

def setNext (cell target : Cell) : Pointers Cell :=
  { pointers with next := Function.update pointers.next cell target }

def setPrev (cell target : Cell) : Pointers Cell :=
  { pointers with prev := Function.update pointers.prev cell target }

def alone (cell : Cell) : Pointers Cell :=
  (pointers.setNext cell cell).setPrev cell cell

def insertBefore (entry cell : Cell) : Pointers Cell :=
  let before := pointers.prev entry
  ((((pointers.setPrev entry cell).setNext cell entry).setPrev cell before).setNext
    before cell)

def unlink (cell : Cell) : Pointers Cell :=
  let after := pointers.next cell
  let before := pointers.prev cell
  (pointers.setPrev after before).setNext before after

end Pointers

def Chain (pointers : Pointers Cell) : Cell → List Cell → Cell → Prop
  | cell, [], target => pointers.next cell = target ∧ pointers.prev target = cell
  | cell, after :: rest, target =>
      pointers.next cell = after ∧ pointers.prev after = cell ∧
        Chain pointers after rest target

/-- The cells of a list in a circle, each once. -/
def Ring (pointers : Pointers Cell) : List Cell → Prop
  | [] => True
  | entry :: rest => (entry :: rest).Nodup ∧ Chain pointers entry rest entry

variable {pointers other : Pointers Cell} {cell target entry : Cell} {rest : List Cell}

theorem Chain.prev_target (hchain : Chain pointers cell rest target) :
    pointers.prev target = (cell :: rest).getLast (List.cons_ne_nil cell rest) := by
  induction rest generalizing cell with
  | nil => exact hchain.2
  | cons after rest ih => exact ih hchain.2.2

theorem Chain.redirect
    {goal : Cell} (hchain : Chain pointers cell rest target) (hnodup : (cell :: rest).Nodup)
    (hgoal : goal ∉ rest)
    (hnext : ∀ x ∈ cell :: rest, x ≠ pointers.prev target → other.next x = pointers.next x)
    (hprev : ∀ x ∈ rest, other.prev x = pointers.prev x)
    (hlast : other.next (pointers.prev target) = goal)
    (hback : other.prev goal = pointers.prev target) : Chain other cell rest goal := by
  induction rest generalizing cell with
  | nil =>
      rw [hchain.2] at hlast hback
      exact ⟨hlast, hback⟩
  | cons after rest ih =>
      obtain ⟨hnotin, hrest⟩ := List.nodup_cons.mp hnodup
      have hne : cell ≠ pointers.prev target := by
        rw [hchain.2.2.prev_target]
        intro heq
        exact hnotin (heq ▸ List.getLast_mem _)
      refine ⟨(hnext cell (by simp) hne).trans hchain.1,
        (hprev after (by simp)).trans hchain.2.1, ?_⟩
      apply ih hchain.2.2 hrest (fun hmem => hgoal (List.mem_cons_of_mem after hmem))
      · intro x hx
        exact hnext x (List.mem_cons_of_mem cell hx)
      · intro x hx
        exact hprev x (List.mem_cons_of_mem after hx)

theorem Chain.append
    (hchain : Chain pointers cell rest entry) (hnext : pointers.next entry = target)
    (hprev : pointers.prev target = entry) : Chain pointers cell (rest ++ [entry]) target := by
  induction rest generalizing cell with
  | nil => exact ⟨hchain.1, hchain.2, hnext, hprev⟩
  | cons after rest ih => exact ⟨hchain.1, hchain.2.1, ih hchain.2.2⟩

theorem Chain.walk (hchain : Chain pointers cell rest target) :
    (List.range (rest.length + 1)).map (fun i => pointers.next^[i] cell) = cell :: rest ∧
      pointers.next^[rest.length + 1] cell = target := by
  induction rest generalizing cell with
  | nil => exact ⟨rfl, hchain.1⟩
  | cons after rest ih =>
      obtain ⟨hvisits, hend⟩ := ih hchain.2.2
      constructor
      · rw [List.length_cons, List.range_succ_eq_map, List.map_cons, List.map_map, ← hvisits]
        simp [Function.comp_def, hchain.1]
      · rw [List.length_cons, Function.iterate_succ_apply, hchain.1]
        exact hend

theorem Chain.prev_next (hchain : Chain pointers cell rest target) :
    ∀ x ∈ cell :: rest, pointers.next x ∈ target :: rest ∧ pointers.prev (pointers.next x) = x := by
  induction rest generalizing cell with
  | nil =>
      intro x hx
      rw [List.mem_singleton.mp hx, hchain.1]
      exact ⟨List.mem_cons_self, hchain.2⟩
  | cons after rest ih =>
      intro x hx
      rcases List.mem_cons.mp hx with rfl | hlater
      · rw [hchain.1]
        exact ⟨by simp, hchain.2.1⟩
      · obtain ⟨hmem, hback⟩ := ih hchain.2.2 x hlater
        refine ⟨?_, hback⟩
        rcases List.mem_cons.mp hmem with hend | hin
        · exact hend ▸ List.mem_cons_self
        · exact List.mem_cons_of_mem target (List.mem_cons_of_mem after hin)

theorem Chain.next_prev (hchain : Chain pointers cell rest target) :
    ∀ x ∈ target :: rest, pointers.prev x ∈ cell :: rest ∧ pointers.next (pointers.prev x) = x := by
  induction rest generalizing cell with
  | nil =>
      intro x hx
      rw [List.mem_singleton.mp hx, hchain.2]
      exact ⟨List.mem_cons_self, hchain.1⟩
  | cons after rest ih =>
      intro x hx
      have hcases : x = after ∨ x ∈ target :: rest := by
        rcases List.mem_cons.mp hx with rfl | hin
        · exact .inr List.mem_cons_self
        · exact (List.mem_cons.mp hin).imp_right (List.mem_cons_of_mem target)
      rcases hcases with rfl | hlater
      · rw [hchain.2.1]
        exact ⟨List.mem_cons_self, hchain.1⟩
      · obtain ⟨hmem, hforth⟩ := ih hchain.2.2 x hlater
        exact ⟨List.mem_cons_of_mem cell hmem, hforth⟩

theorem Ring.walk (hring : Ring pointers (entry :: rest)) :
    (List.range (rest.length + 1)).map (fun i => pointers.next^[i] entry) = entry :: rest ∧
      pointers.next^[rest.length + 1] entry = entry :=
  hring.2.walk

theorem Ring.inverse {cells : List Cell} (hring : Ring pointers cells) (hcell : cell ∈ cells) :
    (pointers.next cell ∈ cells ∧ pointers.prev (pointers.next cell) = cell) ∧
      pointers.prev cell ∈ cells ∧ pointers.next (pointers.prev cell) = cell := by
  cases cells with
  | nil => exact absurd hcell List.not_mem_nil
  | cons entry rest => exact ⟨hring.2.prev_next cell hcell, hring.2.next_prev cell hcell⟩

theorem ring_alone [DecidableEq Cell] (pointers : Pointers Cell) (cell : Cell) :
    Ring (pointers.alone cell) [cell] := by
  simp [Ring, Chain, Pointers.alone, Pointers.setNext, Pointers.setPrev]

theorem Ring.next_eq_self_iff (hring : Ring pointers (entry :: rest)) :
    pointers.next entry = entry ↔ rest = [] := by
  cases rest with
  | nil => simpa using hring.2.1
  | cons after rest =>
      have hne : after ≠ entry := by
        intro heq
        exact (List.nodup_cons.mp hring.1).1 (heq ▸ List.mem_cons_self)
      simp [hring.2.1, hne]

theorem Ring.insertBefore
    [DecidableEq Cell] (hring : Ring pointers (entry :: rest)) (hnew : cell ∉ entry :: rest) :
    Ring (pointers.insertBefore entry cell) (entry :: rest ++ [cell]) := by
  obtain ⟨hnodup, hchain⟩ := hring
  have hlast : pointers.prev entry ∈ entry :: rest := by
    rw [hchain.prev_target]
    exact List.getLast_mem _
  have hcell : cell ≠ pointers.prev entry := fun heq => hnew (heq ▸ hlast)
  have hentry : cell ≠ entry := fun heq => hnew (heq ▸ List.mem_cons_self)
  refine ⟨?_, ?_⟩
  · apply List.Nodup.append hnodup (List.nodup_singleton cell)
    exact List.disjoint_singleton.mpr hnew
  · have hled : Chain (pointers.insertBefore entry cell) entry rest cell := by
      apply hchain.redirect hnodup (fun hmem => hnew (List.mem_cons_of_mem entry hmem))
      · intro x hx hne
        have hxcell : x ≠ cell := fun heq => hnew (heq ▸ hx)
        simp [Pointers.insertBefore, Pointers.setNext, Pointers.setPrev, hne, hxcell]
      · intro x hx
        have hxcell : x ≠ cell := fun heq => hnew (heq ▸ List.mem_cons_of_mem entry hx)
        have hxentry : x ≠ entry := fun heq => (List.nodup_cons.mp hnodup).1 (heq ▸ hx)
        simp [Pointers.insertBefore, Pointers.setNext, Pointers.setPrev, hxcell, hxentry]
      · simp [Pointers.insertBefore, Pointers.setNext, Pointers.setPrev]
      · simp [Pointers.insertBefore, Pointers.setNext, Pointers.setPrev]
    apply hled.append
    · simp [Pointers.insertBefore, Pointers.setNext, Pointers.setPrev, hcell]
    · simp [Pointers.insertBefore, Pointers.setNext, Pointers.setPrev, hentry.symm]

theorem Ring.unlink
    [DecidableEq Cell] {after : Cell} (hring : Ring pointers (entry :: after :: rest)) :
    pointers.next entry = after ∧ Ring (pointers.unlink entry) (after :: rest) := by
  obtain ⟨hnodup, hfirst, hback, hchain⟩ := hring
  obtain ⟨hnotin, hrest⟩ := List.nodup_cons.mp hnodup
  refine ⟨hfirst, hrest, ?_⟩
  apply hchain.redirect hrest (List.nodup_cons.mp hrest).1
  · intro x hx hne
    simp [Pointers.unlink, Pointers.setNext, Pointers.setPrev, hne]
  · intro x hx
    have hxafter : x ≠ after := fun heq => (List.nodup_cons.mp hrest).1 (heq ▸ hx)
    simp [Pointers.unlink, Pointers.setNext, Pointers.setPrev, hfirst, hxafter]
  · simp [Pointers.unlink, Pointers.setNext, Pointers.setPrev, hfirst]
  · simp [Pointers.unlink, Pointers.setNext, Pointers.setPrev, hfirst]

end CircularList
