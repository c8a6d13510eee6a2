import WaycaScheduler.Library.IntrusiveList

/-!
# Owners with intrusive member lists

Every owner keeps the first link and the length of a list of cells; every
cell keeps the link to the next cell of its list and a back pointer to the
owner.  `WellLinked` ties the four maps together: the chain of an owner lists
exactly the live cells that point back to it, the counter is the length of the
chain, and a live cell that belongs to no owner carries the null link.
-/

namespace OwnedLists

open IntrusiveList Function

variable {Owner Cell : Type*}

/-- Lists of cells, one for each owner, as fields of the cells and the owners. -/
@[ext] structure Links (Owner Cell : Type*) where
  first : Owner → Option Cell
  count : Owner → ℤ
  siblings : Cell → Option Cell
  owner : Cell → Option Owner

section Operations

variable [DecidableEq Owner] [DecidableEq Cell]

def Links.addToTail (links : Links Owner Cell) (fuel : ℕ) (owner : Owner) (cell : Cell) :
    Option (Links Owner Cell) :=
  match links.first owner with
  | none => some { links with first := Function.update links.first owner (some cell) }
  | some head =>
      (lastFrom links.siblings fuel head).map fun tail =>
        { links with siblings := Function.update links.siblings tail (some cell) }

/-- Take the cell out of the list of the owner; a cell that is not on the list
stays where it is. -/
def Links.unlink (links : Links Owner Cell) (fuel : ℕ) (owner : Owner) (cell : Cell) :
    Option (Links Owner Cell) :=
  if links.first owner = some cell then
    some { links with
      first := Function.update links.first owner (links.siblings cell)
      siblings := Function.update links.siblings cell none }
  else
    (findPrev links.siblings cell fuel (links.first owner)).map fun found =>
      match found with
      | none => links
      | some prev =>
          { links with
            siblings :=
              Function.update (Function.update links.siblings prev (links.siblings cell))
                cell none }

def Links.addCount (links : Links Owner Cell) (owner : Owner) (amount : ℤ) :
    Links Owner Cell :=
  { links with count := Function.update links.count owner (links.count owner + amount) }

def Links.setOwner (links : Links Owner Cell) (cell : Cell) (owner : Option Owner) :
    Links Owner Cell :=
  { links with owner := Function.update links.owner cell owner }

def Links.insert (links : Links Owner Cell) (fuel : ℕ) (owner : Owner) (cell : Cell) :
    Option (Links Owner Cell) :=
  ((links.addCount owner 1).addToTail fuel owner cell).map
    (·.setOwner cell (some owner))

def Links.remove (links : Links Owner Cell) (fuel : ℕ) (owner : Owner) (cell : Cell) :
    Option (Links Owner Cell) :=
  (links.unlink fuel owner cell).map fun unlinked =>
    (unlinked.setOwner cell none).addCount owner (-1)

end Operations

/-- The list of an owner has its live cells, and the counter counts them. -/
structure WellLinked (live : Cell → Prop) (liveOwner : Owner → Prop)
    (links : Links Owner Cell) : Prop where
  chain : ∀ owner, liveOwner owner → ∃ cells,
    Linked links.siblings (links.first owner) cells ∧
      (cells.length : ℤ) = links.count owner ∧
      ∀ cell, cell ∈ cells ↔ live cell ∧ links.owner cell = some owner
  free : ∀ cell, live cell → links.owner cell = none → links.siblings cell = none
  owner_live : ∀ cell owner, live cell → links.owner cell = some owner → liveOwner owner

/-- Lists of distinct live cells are no longer than the fuel. -/
def Capacity (live : Cell → Prop) (fuel : ℕ) : Prop :=
  ∀ cells : List Cell, cells.Nodup → (∀ cell ∈ cells, live cell) → cells.length ≤ fuel

variable {live : Cell → Prop} {liveOwner : Owner → Prop} {links : Links Owner Cell}
  {fuel : ℕ} {owner : Owner} {cell : Cell}

theorem WellLinked.cells (hlinks : WellLinked live liveOwner links) (hcap : Capacity live fuel)
    (howner : liveOwner owner) :
    ∃ cells, Linked links.siblings (links.first owner) cells ∧ cells.length ≤ fuel ∧
      (cells.length : ℤ) = links.count owner ∧
      ∀ cell, cell ∈ cells ↔ live cell ∧ links.owner cell = some owner := by
  obtain ⟨cells, hlinked, hcount, hmem⟩ := hlinks.chain owner howner
  exact ⟨cells, hlinked, hcap cells hlinked.nodup (fun c hc => ((hmem c).mp hc).1), hcount, hmem⟩

theorem WellLinked.search_eq [DecidableEq Cell]
    (hlinks : WellLinked live liveOwner links) (hcap : Capacity live fuel)
    (howner : liveOwner owner) (hcell : live cell) :
    ∃ found, search links.siblings cell fuel (links.first owner) = some found ∧
      (found = true ↔ links.owner cell = some owner) := by
  obtain ⟨cells, hlinked, hlength, -, hmem⟩ := hlinks.cells hcap howner
  refine ⟨decide (cell ∈ cells), IntrusiveList.search_eq hlinked cell hlength, ?_⟩
  rw [decide_eq_true_iff, hmem cell]
  exact ⟨fun h => h.2, fun h => ⟨hcell, h⟩⟩

theorem WellLinked.count_eq_zero_iff
    (hlinks : WellLinked live liveOwner links) (howner : liveOwner owner) :
    links.count owner = 0 ↔ ∀ cell, live cell → links.owner cell ≠ some owner := by
  obtain ⟨cells, -, hcount, hmem⟩ := hlinks.chain owner howner
  rw [← hcount]
  constructor
  · intro hzero other hother heq
    have hnil : cells = [] := by simpa using hzero
    have hin := (hmem other).mpr ⟨hother, heq⟩
    simp [hnil] at hin
  · intro hnone
    have hnil : cells = [] := by
      apply List.eq_nil_iff_forall_not_mem.mpr
      intro other hin
      obtain ⟨hlive, heq⟩ := (hmem other).mp hin
      exact hnone other hlive heq
    simp [hnil]

/-! ## Cells and owners that come and go -/

section Lifetime

variable {live' : Cell → Prop} {liveOwner' : Owner → Prop} {after : Links Owner Cell}

theorem WellLinked.add_cell [DecidableEq Cell]
    (hlinks : WellLinked live liveOwner links) (hdead : ¬ live cell)
    (hlive : ∀ c, live' c ↔ live c ∨ c = cell)
    (hfirst : after.first = links.first) (hcount : after.count = links.count)
    (hsiblings : after.siblings = update links.siblings cell none)
    (howner : after.owner = update links.owner cell none) :
    WellLinked live' liveOwner after := by
  refine ⟨?_, ?_, ?_⟩
  · intro o ho
    obtain ⟨cells, hlinked, hlength, hmem⟩ := hlinks.chain o ho
    have hfresh : cell ∉ cells := fun hin => hdead ((hmem cell).mp hin).1
    refine ⟨cells, ?_, ?_, ?_⟩
    · rw [hfirst, hsiblings]
      refine hlinked.congr ?_
      intro c hc
      have hne : c ≠ cell := fun h => hfresh (h ▸ hc)
      exact update_of_ne hne _ _
    · rw [hcount]
      exact hlength
    · intro c
      rw [hmem c, hlive c, howner]
      by_cases hc : c = cell
      · subst c
        simp [hdead]
      · simp [hc]
  · intro c hc hnone
    rw [hsiblings]
    by_cases heq : c = cell
    · simp [heq]
    · rw [howner, update_of_ne heq] at hnone
      rw [update_of_ne heq]
      exact hlinks.free c (((hlive c).mp hc).resolve_right heq) hnone
  · intro c o hc ho
    rw [howner] at ho
    have hne : c ≠ cell := by
      intro h
      subst h
      simp at ho
    rw [update_of_ne hne] at ho
    exact hlinks.owner_live c o (((hlive c).mp hc).resolve_right hne) ho

theorem WellLinked.drop_cell
    (hlinks : WellLinked live liveOwner links) (hfree : links.owner cell = none)
    (hlive : ∀ c, live' c ↔ live c ∧ c ≠ cell) :
    WellLinked live' liveOwner links := by
  refine ⟨?_, ?_, ?_⟩
  · intro o ho
    obtain ⟨cells, hlinked, hlength, hmem⟩ := hlinks.chain o ho
    refine ⟨cells, hlinked, hlength, ?_⟩
    intro c
    rw [hmem c, hlive c]
    by_cases hc : c = cell
    · subst c
      simp [hfree]
    · simp [hc]
  · exact fun c hc hnone => hlinks.free c ((hlive c).mp hc).1 hnone
  · exact fun c o hc ho => hlinks.owner_live c o ((hlive c).mp hc).1 ho

theorem WellLinked.add_owner [DecidableEq Owner]
    (hlinks : WellLinked live liveOwner links) (hdead : ¬ liveOwner owner)
    (hlive : ∀ o, liveOwner' o ↔ liveOwner o ∨ o = owner)
    (hfirst : after.first = update links.first owner none)
    (hcount : after.count = update links.count owner 0)
    (hsiblings : after.siblings = links.siblings) (howner : after.owner = links.owner) :
    WellLinked live liveOwner' after := by
  refine ⟨?_, ?_, ?_⟩
  · intro o ho
    by_cases heq : o = owner
    · subst o
      refine ⟨[], by simp [hfirst], by simp [hcount], ?_⟩
      intro c
      rw [howner]
      simp only [List.not_mem_nil, false_iff, not_and]
      exact fun hc hpoint => hdead (hlinks.owner_live c owner hc hpoint)
    · obtain ⟨cells, hlinked, hlength, hmem⟩ :=
        hlinks.chain o (((hlive o).mp ho).resolve_right heq)
      refine ⟨cells, ?_, ?_, ?_⟩
      · rw [hfirst, hsiblings, update_of_ne heq]
        exact hlinked
      · rw [hcount, update_of_ne heq]
        exact hlength
      · intro c
        rw [howner]
        exact hmem c
  · intro c hc hnone
    rw [howner] at hnone
    rw [hsiblings]
    exact hlinks.free c hc hnone
  · intro c o hc ho
    rw [howner] at ho
    exact (hlive o).mpr (.inl (hlinks.owner_live c o hc ho))

theorem WellLinked.drop_owner (hlinks : WellLinked live liveOwner links) (howner : liveOwner owner)
    (hempty : links.count owner = 0)
    (hlive : ∀ o, liveOwner' o ↔ liveOwner o ∧ o ≠ owner) :
    WellLinked live liveOwner' links := by
  refine ⟨?_, hlinks.free, ?_⟩
  · exact fun o ho => hlinks.chain o ((hlive o).mp ho).1
  · intro c o hc ho
    refine (hlive o).mpr ⟨hlinks.owner_live c o hc ho, ?_⟩
    intro heq
    subst heq
    exact (hlinks.count_eq_zero_iff howner).mp hempty c hc ho

end Lifetime

section Rewrite

variable [DecidableEq Owner] [DecidableEq Cell] {after : Links Owner Cell}

/-! ## Rewriting one chain -/

/-- What `insert` and `remove` write, for the chain they find and the one they
leave. -/
structure Rewritten (links after : Links Owner Cell) (owner : Owner) (cell : Cell)
    (cells left : List Cell) (amount : ℤ) (target : Option Owner) : Prop where
  chain : Linked after.siblings (after.first owner) left
  count : after.count = update links.count owner (links.count owner + amount)
  owner_eq : after.owner = update links.owner cell target
  first_other : ∀ other, other ≠ owner → after.first other = links.first other
  siblings_other : ∀ other, other ∉ cells → after.siblings other = links.siblings other

theorem Rewritten.wellLinked {cells left : List Cell} {amount : ℤ} {target : Option Owner}
    (hwritten : Rewritten links after owner cell cells left amount target)
    (hlinks : WellLinked live liveOwner links) (howner : liveOwner owner) (hcell : live cell)
    (hmem : ∀ c, c ∈ cells ↔ live c ∧ links.owner c = some owner)
    (hleft : ∀ c, c ∈ left ↔ if c = cell then target = some owner else c ∈ cells)
    (hlength : (left.length : ℤ) = links.count owner + amount)
    (hsource : ∀ other, links.owner cell = some other → other = owner)
    (htarget : ∀ other, target = some other → other = owner)
    (hnull : target = none → after.siblings cell = none) :
    WellLinked live liveOwner after := by
  have hother : ∀ c, links.owner c ≠ some owner → after.siblings c = links.siblings c :=
    fun c hne => hwritten.siblings_other c fun hin => hne ((hmem c).mp hin).2
  refine ⟨?_, ?_, ?_⟩
  · intro other hlive
    by_cases heq : other = owner
    · subst other
      refine ⟨left, hwritten.chain, by rw [hlength, hwritten.count, update_self], ?_⟩
      intro c
      rw [hwritten.owner_eq, hleft c]
      by_cases hc : c = cell
      · simp [hc, hcell]
      · simp [hc, hmem c]
    · obtain ⟨others, hothers, hcount, hothersMem⟩ := hlinks.chain other hlive
      refine ⟨others, ?_, by rw [hcount, hwritten.count, update_of_ne heq], ?_⟩
      · rw [hwritten.first_other other heq]
        refine hothers.congr fun c hc => hother c ?_
        rw [((hothersMem c).mp hc).2]
        exact fun hsame => heq (Option.some.inj hsame)
      · intro c
        rw [hwritten.owner_eq, hothersMem c]
        by_cases hc : c = cell
        · subst c
          rw [update_self]
          exact and_congr_right fun _ => iff_of_false (heq ∘ hsource other) (heq ∘ htarget other)
        · rw [update_of_ne hc]
  · intro c hc hnone
    rw [hwritten.owner_eq] at hnone
    by_cases heq : c = cell
    · subst c
      exact hnull (by rwa [update_self] at hnone)
    · rw [update_of_ne heq] at hnone
      rw [hother c (by simp [hnone])]
      exact hlinks.free c hc hnone
  · intro c o hc ho
    rw [hwritten.owner_eq] at ho
    by_cases heq : c = cell
    · rw [heq, update_self] at ho
      exact htarget o ho ▸ howner
    · rw [update_of_ne heq] at ho
      exact hlinks.owner_live c o hc ho

/-! ## Inserting a free cell -/

theorem insert_spec {cells : List Cell} (hlinked : Linked links.siblings (links.first owner) cells)
    (hlength : cells.length ≤ fuel) (hfresh : cell ∉ cells)
    (hfree : links.siblings cell = none) :
    ∃ after, links.insert fuel owner cell = some after ∧
      Rewritten links after owner cell cells (cells ++ [cell]) 1 (some owner) := by
  cases cells with
  | nil =>
      have hfirst : links.first owner = none := linked_nil.mp hlinked
      refine ⟨_, by simp [Links.insert, Links.addToTail, Links.addCount, hfirst]; rfl, ?_⟩
      refine ⟨?_, rfl, rfl, ?_, ?_⟩
      · simp [Links.setOwner, hfree]
      · intro other hne
        exact update_of_ne hne _ _
      · intro other _
        rfl
  | cons head rest =>
      obtain ⟨hfirst, hrest⟩ := hlinked
      have hlast := lastFrom_eq hrest (by simpa using hlength)
      set last := (head :: rest).getLast (by simp) with hlastDef
      have hsplit : head :: rest = (head :: rest).dropLast ++ [last] :=
        (List.dropLast_append_getLast _).symm
      have hchain : Linked links.siblings (links.first owner)
          ((head :: rest).dropLast ++ [last]) := by
        rw [← hsplit]
        exact ⟨hfirst, hrest⟩
      have hlastMem : last ∈ head :: rest := List.getLast_mem _
      refine ⟨_, by simp [Links.insert, Links.addToTail, Links.addCount, hfirst, hlast]; rfl, ?_⟩
      refine ⟨?_, rfl, rfl, ?_, ?_⟩
      · have happend := hchain.append_last (by rwa [← hsplit]) hfree
        have hshape : head :: rest ++ [cell] = (head :: rest).dropLast ++ [last, cell] := by
          conv_lhs => rw [hsplit]
          simp
        rw [hshape]
        exact happend
      · intro other _
        rfl
      · intro other hother
        have hne : other ≠ last := fun h => hother (h ▸ hlastMem)
        exact update_of_ne hne _ _

omit [DecidableEq Owner] [DecidableEq Cell] in
theorem WellLinked.not_mem_of_free {cells : List Cell} (hfree : links.owner cell = none)
    (hmem : ∀ c, c ∈ cells ↔ live c ∧ links.owner c = some owner) : cell ∉ cells := by
  simp [hmem cell, hfree]

theorem WellLinked.insert (hlinks : WellLinked live liveOwner links) (hcap : Capacity live fuel)
    (howner : liveOwner owner) (hcell : live cell) (hfree : links.owner cell = none) :
    ∃ after, links.insert fuel owner cell = some after ∧ WellLinked live liveOwner after ∧
      after.owner = update links.owner cell (some owner) ∧
      after.count = update links.count owner (links.count owner + 1) := by
  obtain ⟨cells, hlinked, hlength, hcount, hmem⟩ := hlinks.cells hcap howner
  obtain ⟨after, hinsert, hwritten⟩ := insert_spec hlinked hlength
    (WellLinked.not_mem_of_free hfree hmem) (hlinks.free cell hcell hfree)
  refine ⟨after, hinsert, ?_, hwritten.owner_eq, hwritten.count⟩
  refine hwritten.wellLinked hlinks howner hcell hmem ?_ (by simp [hcount]) (by simp [hfree])
    (fun other hsame => (Option.some.inj hsame).symm) nofun
  intro c
  by_cases hc : c = cell
  · simp [hc]
  · simp [hc]

/-! ## Removing a listed cell -/

/-- The cell is taken out, and the others keep their order. -/
theorem remove_spec {cells : List Cell} (hlinked : Linked links.siblings (links.first owner) cells)
    (hlength : cells.length ≤ fuel) (hmem : cell ∈ cells) :
    ∃ after, links.remove fuel owner cell = some after ∧ after.siblings cell = none ∧
      Rewritten links after owner cell cells (cells.erase cell) (-1) none := by
  by_cases hfirst : links.first owner = some cell
  · cases cells with
    | nil => simp at hmem
    | cons head rest =>
        have hhead : head = cell := by
          have h := hlinked.1
          rw [hfirst] at h
          exact (Option.some.inj h).symm
        subst head
        have hchain : Linked links.siblings (some cell) (cell :: rest) := ⟨rfl, hlinked.2⟩
        refine ⟨_, by simp [Links.remove, Links.unlink, hfirst]; rfl, ?_⟩
        refine ⟨update_self _ _ _, ?_, rfl, rfl, ?_, ?_⟩
        · simpa [Links.addCount, Links.setOwner] using hchain.remove_head
        · intro other hne
          exact update_of_ne hne _ _
        · intro other hother
          have hne : other ≠ cell := fun h => hother (by simp [h])
          exact update_of_ne hne _ _
  · obtain ⟨before, prev, rest, hsplit, hfind⟩ :=
      findPrev_eq hlinked hmem hfirst hlength
    have hnodup := hlinked.nodup
    rw [hsplit] at hlinked
    refine ⟨_, by simp [Links.remove, Links.unlink, hfirst, hfind]; rfl, ?_⟩
    refine ⟨update_self _ _ _, ?_, rfl, rfl, ?_, ?_⟩
    · have herase : cells.erase cell = before ++ prev :: rest := by
        rw [hsplit] at hnodup ⊢
        have hbefore : cell ∉ before := by
          intro hin
          have := (List.nodup_append.mp hnodup).2.2 cell hin cell (by simp)
          exact this rfl
        have hprev : prev ≠ cell := by
          intro h
          subst h
          have := (List.nodup_append.mp hnodup).2.1
          simp at this
        rw [List.erase_append_right _ hbefore, List.erase_cons_tail (by simpa using hprev)]
        simp
      rw [herase]
      exact hlinked.remove_inner
    · intro other _
      rfl
    · intro other hother
      have hcell : other ≠ cell := fun h => hother (h ▸ hmem)
      have hprev : other ≠ prev := by
        intro h
        apply hother
        rw [hsplit, h]
        simp
      change update (update _ _ _) _ _ other = _
      rw [update_of_ne hcell, update_of_ne hprev]

theorem WellLinked.remove (hlinks : WellLinked live liveOwner links) (hcap : Capacity live fuel)
    (hcell : live cell) (hlisted : links.owner cell = some owner) :
    ∃ after, links.remove fuel owner cell = some after ∧ WellLinked live liveOwner after ∧
      after.owner = update links.owner cell none ∧
      after.count = update links.count owner (links.count owner - 1) := by
  have howner := hlinks.owner_live cell owner hcell hlisted
  obtain ⟨cells, hlinked, hlength, hcount, hmem⟩ := hlinks.cells hcap howner
  have hin : cell ∈ cells := (hmem cell).mpr ⟨hcell, hlisted⟩
  obtain ⟨after, hremove, hnull, hwritten⟩ := remove_spec hlinked hlength hin
  refine ⟨after, hremove, ?_, hwritten.owner_eq, hwritten.count⟩
  refine hwritten.wellLinked hlinks howner hcell hmem ?_ ?_ ?_ nofun fun _ => hnull
  · intro c
    rw [hlinked.nodup.mem_erase_iff]
    by_cases hc : c = cell
    · simp [hc]
    · simp [hc]
  · have hpos : 0 < cells.length := List.length_pos_of_mem hin
    rw [List.length_erase_of_mem hin, ← hcount]
    omega
  · intro other hother
    exact Option.some.inj (hother.symm.trans hlisted)

theorem WellLinked.remove_insert
    (hlinks : WellLinked live liveOwner links) (hcap : Capacity live fuel)
    (howner : liveOwner owner) (hcell : live cell) (hfree : links.owner cell = none)
    (hinsert : links.insert fuel owner cell = some after) :
    after.remove fuel owner cell = some links := by
  obtain ⟨cells, hlinked, hlength, hcount, hmem⟩ := hlinks.cells hcap howner
  have hnull := hlinks.free cell hcell hfree
  have hfresh := WellLinked.not_mem_of_free hfree hmem
  have hlive : ∀ c ∈ cells ++ [cell], live c := by
    intro c hc
    rcases List.mem_append.mp hc with hc | hc
    · exact ((hmem c).mp hc).1
    · simpa [List.mem_singleton.mp hc] using hcell
  obtain ⟨final, hspec, hwritten⟩ := insert_spec hlinked hlength hfresh hnull
  have hsame : final = after := Option.some.inj (hspec.symm.trans hinsert)
  subst hsame
  have hbound : (cells ++ [cell]).length ≤ fuel := hcap _ hwritten.chain.nodup hlive
  have hlast : cell ∈ cells ++ [cell] := by simp
  obtain ⟨back, hremove, hself, hback⟩ := remove_spec hwritten.chain hbound hlast
  rw [hremove]
  have herase : (cells ++ [cell]).erase cell = cells := by
    rw [List.erase_append_right _ hfresh]
    simp
  have hbackChain := hback.chain
  rw [herase] at hbackChain
  have hsiblings : back.siblings = links.siblings := by
    funext c
    by_cases hc : c = cell
    · rw [hc, hself, hnull]
    · by_cases hin : c ∈ cells
      · obtain ⟨front, tail, hsplit⟩ := List.append_of_mem hin
        have h1 := hbackChain
        have h2 := hlinked
        rw [hsplit] at h1 h2
        have h3 := h1.suffix.2
        have h4 := h2.suffix.2
        cases tail with
        | nil => rw [linked_nil.mp h3, linked_nil.mp h4]
        | cons second rest => rw [h3.1, h4.1]
      · rw [hback.siblings_other c (by simp [hc, hin]), hwritten.siblings_other c hin]
  have hfirst : back.first = links.first := by
    funext o
    by_cases ho : o = owner
    · subst o
      cases cells with
      | nil => rw [linked_nil.mp hbackChain, linked_nil.mp hlinked]
      | cons head rest => rw [hbackChain.1, hlinked.1]
    · rw [hback.first_other o ho, hwritten.first_other o ho]
  have hcounts : back.count = links.count := by
    rw [hback.count, hwritten.count]
    funext o
    by_cases ho : o = owner
    · subst o
      simp
    · simp [ho]
  have howners : back.owner = links.owner := by
    rw [hback.owner_eq, hwritten.owner_eq]
    funext c
    by_cases hc : c = cell
    · subst c
      simp [hfree]
    · simp [hc]
  exact congrArg some (Links.ext hfirst hcounts hsiblings howners)

end Rewrite

end OwnedLists
