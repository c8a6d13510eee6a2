import Mathlib.Tactic
import Mathlib.Data.Finset.Card

/-!
# Tables filled on first sight

Elements are scanned one after another.  An element may have a class, and the
table gets a record for a class when the first element of it is met.  Beside
the table, containers are marked with the places of the records.  When the
classes nest in the containers, a container is marked with exactly the classes
it has elements of.  Where the elements are scanned in their order, the record
of a class is made for its least element.
-/

namespace KeyedTable

open Finset

variable {ρ κ α ι : Type*} {key : ρ → κ} {table : List ρ} {k other : κ} {new : ρ}
  {classOf : α → Option κ} {container : α → Option ι} {seen : Finset α} {element : α}
  {marks : ι → Finset ℕ}

/-! ## The table of the classes that have been met -/

/-- The table has one record for each class of the elements seen. -/
structure Tabulates (key : ρ → κ) (classOf : α → Option κ) (seen : Finset α)
    (table : List ρ) : Prop where
  nodup : (table.map key).Nodup
  mem_iff : ∀ k, k ∈ table.map key ↔ ∃ element ∈ seen, classOf element = some k

theorem Tabulates.empty : Tabulates key classOf ∅ [] := ⟨List.nodup_nil, fun k => by simp⟩

theorem Tabulates.mem (htable : Tabulates key classOf seen table) (helement : element ∈ seen)
    (hclass : classOf element = some k) : k ∈ table.map key :=
  (htable.mem_iff k).mpr ⟨element, helement, hclass⟩

/-- The record at place `i` was made for the first element of its class, and the
place is marked in the container of that element alone. -/
structure Marked [LE α] (key : ρ → κ) (classOf : α → Option κ) (container : α → Option ι)
    (seen : Finset α) (table : List ρ) (marks : ι → Finset ℕ) : Prop where
  creator : ∀ i record, table[i]? = some record → ∃ element ∈ seen,
    classOf element = some (key record) ∧ (∀ box, i ∈ marks box ↔ container element = some box) ∧
      ∀ other ∈ seen, classOf other = some (key record) → element ≤ other
  lt_length : ∀ box, ∀ i ∈ marks box, i < table.length

theorem Marked.empty [LE α] : Marked key classOf container seen [] fun _ => ∅ := ⟨nofun, nofun⟩

theorem Marked.insert [LE α] [DecidableEq α]
    (hmarked : Marked key classOf container seen table marks)
    (hlast : ∀ other ∈ seen, other ≤ element) :
    Marked key classOf container (insert element seen) table marks := by
  refine ⟨fun i record hrecord => ?_, hmarked.lt_length⟩
  obtain ⟨creator, hseen, hclass, hbox, hfirst⟩ := hmarked.creator i record hrecord
  refine ⟨creator, mem_insert_of_mem hseen, hclass, hbox, fun other hother hsame => ?_⟩
  rcases mem_insert.mp hother with rfl | hother
  · exact hlast creator hseen
  · exact hfirst other hother hsame

/-- When the classes nest in the containers, a container is marked with the
classes of its elements. -/
theorem Marked.mem_iff [LE α] (hmarked : Marked key classOf container seen table marks)
    (hnested : ∀ first ∈ seen, ∀ second ∈ seen, ∀ k, classOf first = some k →
      classOf second = some k → container first = container second)
    {i : ℕ} {record : ρ} (hrecord : table[i]? = some record) (box : ι) :
    i ∈ marks box ↔
      ∃ element ∈ seen, classOf element = some (key record) ∧ container element = some box := by
  obtain ⟨creator, hseen, hclass, hbox, -⟩ := hmarked.creator i record hrecord
  rw [hbox]
  constructor
  · intro hcontainer
    exact ⟨creator, hseen, hclass, hcontainer⟩
  · rintro ⟨element, helement, hother, hcontainer⟩
    rw [hnested creator hseen element helement _ hclass hother]
    exact hcontainer

theorem Tabulates.skip [DecidableEq α] (htable : Tabulates key classOf seen table)
    (hclass : classOf element = none) : Tabulates key classOf (insert element seen) table := by
  refine ⟨htable.nodup, fun k => ?_⟩
  rw [htable.mem_iff, exists_mem_insert, hclass]
  simp

theorem Tabulates.congr {other : List ρ} (htable : Tabulates key classOf seen table)
    (hkeys : other.map key = table.map key) : Tabulates key classOf seen other := by
  constructor
  · rw [hkeys]
    exact htable.nodup
  · rw [hkeys]
    exact htable.mem_iff

theorem Marked.congr [LE α] {other : List ρ}
    (hmarked : Marked key classOf container seen table marks)
    (hkeys : other.map key = table.map key) :
    Marked key classOf container seen other marks := by
  have hlength : other.length = table.length := by
    have hmapped := congrArg List.length hkeys
    rwa [List.length_map, List.length_map] at hmapped
  constructor
  · intro i record hrecord
    have hkey : (table.map key)[i]? = some (key record) := by
      rw [← hkeys, List.getElem?_map, hrecord, Option.map_some]
    rw [List.getElem?_map] at hkey
    obtain ⟨original, horiginal, hsame⟩ := Option.map_eq_some_iff.mp hkey
    rw [← hsame]
    exact hmarked.creator i original horiginal
  · rw [hlength]
    exact hmarked.lt_length

variable [DecidableEq κ]

def place (key : ρ → κ) (table : List ρ) (k : κ) : ℕ :=
  table.findIdx fun record => key record = k

theorem place_congr {other : List ρ} (hkeys : other.map key = table.map key) (k : κ) :
    place key other k = place key table k := by
  have hplace : ∀ table : List ρ, place key table k = (table.map key).findIdx (· = k) := by
    intro table
    rw [List.findIdx_map]
    rfl
  rw [hplace, hplace, hkeys]

theorem place_lt_iff : place key table k < table.length ↔ k ∈ table.map key := by
  unfold place
  rw [List.findIdx_lt_length, List.mem_map]
  simp only [decide_eq_true_eq]

theorem place_le : place key table k ≤ table.length := List.findIdx_le_length

theorem place_eq_length (hnew : k ∉ table.map key) : place key table k = table.length :=
  le_antisymm place_le (not_lt.mp fun hlt => hnew (place_lt_iff.mp hlt))

theorem record_at_place (hmem : k ∈ table.map key) :
    ∃ record, table[place key table k]? = some record ∧ key record = k := by
  have hlt := place_lt_iff.mpr hmem
  refine ⟨table[place key table k], List.getElem?_eq_getElem hlt, ?_⟩
  exact of_decide_eq_true (List.findIdx_getElem (w := hlt))

theorem place_injective (hmem : k ∈ table.map key) (hother : other ∈ table.map key)
    (hplace : place key table k = place key table other) : k = other := by
  obtain ⟨record, hrecord, hkey⟩ := record_at_place hmem
  obtain ⟨found, hfound, hfoundKey⟩ := record_at_place hother
  rw [hplace, hfound] at hrecord
  rw [← hkey, ← hfoundKey, Option.some.inj hrecord]

theorem place_of_record {record : ρ} {i : ℕ} (hnodup : (table.map key).Nodup)
    (hrecord : table[i]? = some record) : place key table (key record) = i := by
  obtain ⟨hi, hget⟩ := List.getElem?_eq_some_iff.mp hrecord
  have hmem : key record ∈ table.map key := by
    rw [← hget]
    exact List.mem_map_of_mem (List.getElem_mem hi)
  obtain ⟨found, hfound, hkey⟩ := record_at_place hmem
  have hplace := (List.getElem?_eq_some_iff.mp hfound).1
  apply (List.getElem?_inj (by rwa [List.length_map]) hnodup).mp
  rw [List.getElem?_map, List.getElem?_map, hfound, hrecord, Option.map_some, Option.map_some, hkey]

theorem place_eq_iff {record : ρ} {i : ℕ} (hnodup : (table.map key).Nodup)
    (hmem : k ∈ table.map key) (hrecord : table[i]? = some record) :
    place key table k = i ↔ k = key record := by
  constructor
  · rintro rfl
    obtain ⟨found, hfound, hkey⟩ := record_at_place hmem
    rw [← hkey, Option.some.inj (hfound.symm.trans hrecord)]
  · rintro rfl
    exact place_of_record hnodup hrecord

/-! ## Entering a record -/

def enter (key : ρ → κ) (table : List ρ) (k : κ) (new : ρ) : List ρ :=
  if place key table k = table.length then table ++ [new] else table

theorem enter_known (hmem : k ∈ table.map key) : enter key table k new = table :=
  if_neg (place_lt_iff.mpr hmem).ne

theorem enter_new (hnew : k ∉ table.map key) : enter key table k new = table ++ [new] :=
  if_pos (place_eq_length hnew)

theorem place_enter_known (hmem : other ∈ table.map key) :
    place key (enter key table k new) other = place key table other := by
  unfold enter
  split
  next =>
    have hlt := place_lt_iff.mpr hmem
    unfold place at hlt ⊢
    rw [List.findIdx_append, if_pos hlt]
  next => rfl

theorem mem_enter (hkey : key new = k) :
    other ∈ (enter key table k new).map key ↔ other = k ∨ other ∈ table.map key := by
  by_cases hmem : k ∈ table.map key
  · rw [enter_known hmem]
    constructor
    · exact .inr
    · rintro (rfl | hother)
      · exact hmem
      · exact hother
  · rw [enter_new hmem, List.map_append, List.mem_append, List.map_singleton,
      List.mem_singleton, hkey, or_comm]

theorem place_enter (hkey : key new = k) :
    place key (enter key table k new) k = place key table k := by
  by_cases hmem : k ∈ table.map key
  · exact place_enter_known hmem
  · have hlength := place_eq_length hmem
    rw [enter_new hmem, hlength]
    unfold place at hlength ⊢
    rw [List.findIdx_append, if_neg (by omega)]
    simp [hkey]

theorem of_mem_enter {record : ρ} (hrecord : record ∈ enter key table k new) :
    record ∈ table ∨ k ∉ table.map key ∧ record = new := by
  by_cases hmem : k ∈ table.map key
  · rw [enter_known hmem] at hrecord
    exact .inl hrecord
  · rw [enter_new hmem, List.mem_append, List.mem_singleton] at hrecord
    exact hrecord.imp_right fun hnew => ⟨hmem, hnew⟩

/-! ## Meeting an element -/

def meet (key : ρ → κ) (table : List ρ) (met : Option κ) (new : κ → ρ) : List ρ :=
  match met with
  | none => table
  | some k => enter key table k (new k)

variable {met : Option κ} {newFor : κ → ρ}

theorem of_mem_meet {record : ρ} (hrecord : record ∈ meet key table met newFor) :
    record ∈ table ∨ ∃ k, met = some k ∧ k ∉ table.map key ∧ record = newFor k := by
  cases met with
  | none => exact .inl hrecord
  | some k =>
      rcases of_mem_enter hrecord with hold | hnew
      · exact .inl hold
      · exact .inr ⟨k, rfl, hnew⟩

theorem meet_known (hknown : ∀ k, met = some k → k ∈ table.map key) :
    meet key table met newFor = table := by
  cases met with
  | none => rfl
  | some k => exact enter_known (hknown k rfl)

theorem length_meet_le (key : ρ → κ) (table : List ρ) (met : Option κ) (new : κ → ρ) :
    (meet key table met new).length ≤ table.length + 1 := by
  cases met with
  | none => exact Nat.le_succ _
  | some k =>
      unfold meet enter
      dsimp only
      split
      next => rw [List.length_append, List.length_singleton]
      next => exact Nat.le_succ _

variable [DecidableEq α]

theorem Tabulates.meet (htable : Tabulates key classOf seen table)
    (hkey : ∀ k, key (newFor k) = k) :
    Tabulates key classOf (insert element seen) (meet key table (classOf element) newFor) := by
  cases hclass : classOf element with
  | none => exact htable.skip hclass
  | some k =>
      change Tabulates key classOf (insert element seen) (KeyedTable.enter key table k (newFor k))
      constructor
      · by_cases hmem : k ∈ table.map key
        · rw [enter_known hmem]
          exact htable.nodup
        · rw [enter_new hmem, List.map_append, List.map_singleton, hkey]
          exact htable.nodup.append (List.nodup_singleton k) (by simpa using hmem)
      · intro other
        rw [mem_enter (hkey k), htable.mem_iff, exists_mem_insert, hclass,
          Option.some.injEq, eq_comm]

/-- The classes of the elements met so far stay at their places, and that of
the new element is where the search ended. -/
theorem Tabulates.place_meet (htable : Tabulates key classOf seen table)
    (hkey : ∀ k, key (newFor k) = k) {other : α} (hother : other ∈ insert element seen) :
    (classOf other).map (place key (KeyedTable.meet key table (classOf element) newFor)) =
      (classOf other).map (place key table) := by
  cases hclass : classOf other with
  | none => rfl
  | some k =>
      rw [Option.map_some, Option.map_some]
      congr 1
      cases hmet : classOf element with
      | none => rfl
      | some first =>
          change place key (KeyedTable.enter key table first (newFor first)) k = place key table k
          rcases mem_insert.mp hother with rfl | hseen
          · rw [hclass] at hmet
            cases hmet
            exact place_enter (hkey k)
          · exact place_enter_known (htable.mem hseen hclass)

variable [DecidableEq ι]

def markNew (key : ρ → κ) (table : List ρ) (met : Option κ) (box : Option ι)
    (marks : ι → Finset ℕ) (other : ι) : Finset ℕ :=
  if met.map (place key table) = some table.length ∧ box = some other then
    insert table.length (marks other)
  else marks other

theorem markNew_known (hknown : ∀ k, met = some k → k ∈ table.map key) (box : Option ι) :
    markNew key table met box marks = marks := by
  funext other
  apply if_neg
  rintro ⟨hplace, -⟩
  obtain ⟨k, hmet, hlength⟩ := Option.map_eq_some_iff.mp hplace
  exact (place_lt_iff.mpr (hknown k hmet)).ne hlength

theorem markNew_new (hnew : k ∉ table.map key) (box : Option ι) (other : ι) :
    markNew key table (some k) box marks other =
      if box = some other then insert table.length (marks other) else marks other := by
  unfold markNew
  rw [Option.map_some, place_eq_length hnew]
  simp

section Scan

variable [Preorder α] (htable : Tabulates key classOf seen table)
  (hmarked : Marked key classOf container seen table marks)

include htable hmarked

theorem Marked.append (hclass : classOf element = some (key new))
    (hnew : key new ∉ table.map key) (hlast : ∀ other ∈ seen, other ≤ element) :
    Marked key classOf container (Insert.insert element seen) (table ++ [new])
      (markNew key table (some (key new)) (container element) marks) := by
  constructor
  · intro i record hrecord
    rcases lt_trichotomy i table.length with hlt | rfl | hgt
    · rw [List.getElem?_append_left hlt] at hrecord
      obtain ⟨creator, hseen, hcreator, hbox, hfirst⟩ :=
        (hmarked.insert hlast).creator i record hrecord
      refine ⟨creator, hseen, hcreator, fun box => ?_, hfirst⟩
      rw [← hbox box, markNew_new hnew]
      split
      next =>
        rw [mem_insert]
        exact or_iff_right hlt.ne
      next => rfl
    · rw [List.getElem?_append_right le_rfl, Nat.sub_self] at hrecord
      cases hrecord
      refine ⟨element, mem_insert_self element seen, hclass, fun box => ?_, ?_⟩
      · have hfree : table.length ∉ marks box := fun hmark =>
          (hmarked.lt_length box _ hmark).ne rfl
        rw [markNew_new hnew]
        split
        next hbox => exact iff_of_true (mem_insert_self _ _) hbox
        next hbox => exact iff_of_false hfree hbox
      · intro other hother hsame
        rcases mem_insert.mp hother with rfl | hseen
        · exact le_rfl
        · exact absurd (htable.mem hseen hsame) hnew
    · have hlength : (table ++ [new]).length ≤ i := by
        rw [List.length_append, List.length_singleton]
        omega
      rw [List.getElem?_eq_none hlength] at hrecord
      cases hrecord
  · intro box i hmark
    rw [List.length_append, List.length_singleton]
    rw [markNew_new hnew] at hmark
    split at hmark
    next =>
      rcases mem_insert.mp hmark with rfl | hold
      · exact Nat.lt_succ_self _
      · exact Nat.lt_succ_of_lt (hmarked.lt_length box i hold)
    next => exact Nat.lt_succ_of_lt (hmarked.lt_length box i hmark)

theorem Marked.meet (hkey : ∀ k, key (newFor k) = k) (hlast : ∀ other ∈ seen, other ≤ element) :
    Marked key classOf container (Insert.insert element seen)
      (KeyedTable.meet key table (classOf element) newFor)
      (markNew key table (classOf element) (container element) marks) := by
  have hwider := hmarked.insert hlast
  cases hclass : classOf element with
  | none =>
      rw [markNew_known (nofun)]
      exact hwider
  | some k =>
      change Marked key classOf container _ (KeyedTable.enter key table k (newFor k)) _
      by_cases hmem : k ∈ table.map key
      · have hknown : ∀ other, some k = some other → other ∈ table.map key := by
          rintro other ⟨⟩
          exact hmem
        rw [enter_known hmem, markNew_known hknown]
        exact hwider
      · rw [enter_new hmem]
        have hclassNew : classOf element = some (key (newFor k)) := by rw [hkey, hclass]
        have hfresh : key (newFor k) ∉ table.map key := by rwa [hkey]
        have happend := Marked.append htable hmarked hclassNew hfresh hlast
        rwa [hkey] at happend

end Scan

end KeyedTable
