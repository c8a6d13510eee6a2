import Mathlib.Data.List.Basic
import Mathlib.Tactic

/-!
# Forests of first children and next siblings

An ordered tree in memory: a node points to its first child and to its next
sibling.  The place of a node is the way to it from the first root, down to a
first child or across to a next sibling.
-/

namespace SiblingForest

/-- Nodes linked to their first child and their next sibling. -/
inductive Forest (α : Type*) where
  | nil
  | node (label : α) (children next : Forest α)
deriving DecidableEq

inductive Move where
  | down
  | across
deriving DecidableEq

variable {place : List Move}

variable {α : Type*} {p q : α → Bool}

variable {f : Forest α}

namespace Forest

def size : Forest α → ℕ
  | nil => 0
  | node _ children next => children.size + next.size + 1

/-- Every node in the order of the document, each with its ancestors, the node
itself first. -/
def trails : Forest α → List (List α)
  | nil => []
  | node label children next =>
      [label] :: (children.trails.map (· ++ [label]) ++ next.trails)

/-- The way to the first node that meets the condition, children before siblings. -/
def find (p : α → Bool) : Forest α → Option (List Move)
  | nil => none
  | node label children next =>
      if p label then some []
      else ((children.find p).map (Move.down :: ·)).or ((next.find p).map (Move.across :: ·))

def remove : List Move → Forest α → Forest α
  | _, nil => nil
  | [], node _ _ next => next
  | .down :: place, node label children next => node label (children.remove place) next
  | .across :: place, node label children next => node label children (next.remove place)

/-- The forest without the nodes that meet the condition and what is below them. -/
def prune (p : α → Bool) : Forest α → Forest α
  | nil => nil
  | node label children next =>
      if p label then next.prune p else node label (children.prune p) (next.prune p)

/-! ## What pruning leaves -/

theorem trails_prune (f : Forest α) :
    (f.prune p).trails = f.trails.filter fun trail => trail.all fun label => !p label := by
  induction f with
  | nil => rfl
  | node label children next ihChildren ihNext =>
      have hbelow : ∀ trails : List (List α),
          (trails.map (· ++ [label])).filter (fun trail => trail.all fun label => !p label) =
            if p label then []
            else (trails.filter fun trail => trail.all fun label => !p label).map
              (· ++ [label]) := by
        intro trails
        rw [List.filter_map]
        split
        next hmatch =>
          rw [List.filter_eq_nil_iff.mpr, List.map_nil]
          intro trail _
          simp [hmatch]
        next hother =>
          apply congrArg
          apply List.filter_congr
          intro trail _
          simp [hother]
      rw [prune, trails, List.filter_cons, List.filter_append, hbelow, ← ihChildren, ← ihNext]
      by_cases hmatch : p label
      · simp [hmatch]
      · simp [hmatch, trails]

theorem prune_prune (f : Forest α) :
    (f.prune p).prune q = f.prune fun label => p label || q label := by
  induction f with
  | nil => rfl
  | node label children next ihChildren ihNext =>
      by_cases hp : p label
      · simp [prune, hp, ihNext]
      · by_cases hq : q label
        · simp [prune, hp, hq, ihNext]
        · simp [prune, hp, hq, ihChildren, ihNext]

theorem prune_none (f : Forest α) : (f.prune fun _ => false) = f := by
  induction f with
  | nil => rfl
  | node label children next ihChildren ihNext => simp [prune, ihChildren, ihNext]

theorem size_prune_le (f : Forest α) : (f.prune p).size ≤ f.size := by
  induction f with
  | nil => exact le_refl _
  | node label children next ihChildren ihNext =>
      simp only [prune]
      split
      · simp only [size]
        omega
      · simp only [size]
        omega

/-! ## Removing the first match -/

theorem prune_of_find_none (hfind : f.find p = none) : f.prune p = f := by
  induction f with
  | nil => rfl
  | node label children next ihChildren ihNext =>
      rw [find] at hfind
      split at hfind
      next => cases hfind
      next hother =>
        obtain ⟨hchildren, hnext⟩ := Option.or_eq_none_iff.mp hfind
        rw [prune, if_neg hother, ihChildren (Option.map_eq_none_iff.mp hchildren),
          ihNext (Option.map_eq_none_iff.mp hnext)]

theorem find_node_cases {label : α} {children next : Forest α}
    (hfind : (node label children next).find p = some place) :
    (p label = true ∧ place = []) ∨ p label = false ∧
        ((∃ below, children.find p = some below ∧ place = .down :: below) ∨
          ∃ behind, next.find p = some behind ∧ place = .across :: behind) := by
  rw [find] at hfind
  split at hfind
  next hmatch => exact .inl ⟨hmatch, (Option.some.inj hfind).symm⟩
  next hother =>
    refine .inr ⟨Bool.eq_false_iff.mpr hother, ?_⟩
    rcases Option.or_eq_some_iff.mp hfind with hdown | ⟨-, hacross⟩
    · obtain ⟨below, hbelow, heq⟩ := Option.map_eq_some_iff.mp hdown
      exact .inl ⟨below, hbelow, heq.symm⟩
    · obtain ⟨behind, hbehind, heq⟩ := Option.map_eq_some_iff.mp hacross
      exact .inr ⟨behind, hbehind, heq.symm⟩

theorem prune_remove (hfind : f.find p = some place) : (f.remove place).prune p = f.prune p := by
  induction f generalizing place with
  | nil => cases hfind
  | node label children next ihChildren ihNext =>
      rcases find_node_cases hfind with
        ⟨hmatch, rfl⟩ | ⟨hother, ⟨below, hbelow, rfl⟩ | ⟨behind, hbehind, rfl⟩⟩
      · simp [remove, prune, hmatch]
      · simp [remove, prune, hother, ihChildren hbelow]
      · simp [remove, prune, hother, ihNext hbehind]

theorem size_remove (hfind : f.find p = some place) : (f.remove place).size < f.size := by
  induction f generalizing place with
  | nil => cases hfind
  | node label children next ihChildren ihNext =>
      rcases find_node_cases hfind with
        ⟨-, rfl⟩ | ⟨-, ⟨below, hbelow, rfl⟩ | ⟨behind, hbehind, rfl⟩⟩
      · simp only [remove, size]
        omega
      · have := ihChildren hbelow
        simp only [remove, size]
        omega
      · have := ihNext hbehind
        simp only [remove, size]
        omega

theorem remove_node {label : α} {children next : Forest α} (hother : p label = false)
    (hfind : (node label children next).find p = some place) :
    place ≠ [] ∧ ∃ children' next',
      (node label children next).remove place = node label children' next' := by
  rcases find_node_cases hfind with
    ⟨hmatch, -⟩ | ⟨-, ⟨below, -, rfl⟩ | ⟨behind, -, rfl⟩⟩
  · rw [hother] at hmatch
    cases hmatch
  · exact ⟨List.cons_ne_nil _ _, _, _, rfl⟩
  · exact ⟨List.cons_ne_nil _ _, _, _, rfl⟩

end Forest

end SiblingForest
