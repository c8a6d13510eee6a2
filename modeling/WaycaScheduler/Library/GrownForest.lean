import WaycaScheduler.Library.SiblingForest

/-!
# Forests grown from their roots

A forest is grown when every node is given its children and these are then
given theirs.  Nodes are told apart by a key.  Where the keys of the children
follow from the key of the parent, the ways from the roots to the nodes that
match are those of the keys.
-/

namespace SiblingForest

variable {α κ : Type*}

def Forest.trailsOf (p : α → Bool) : Forest α → List (List α)
  | .nil => []
  | .node label children next =>
      (if p label then [[label]] else []) ++
        ((children.trailsOf p).map (· ++ [label]) ++ next.trailsOf p)

/-- Every root is expanded to a label and to children, and the children are
grown in the same way. -/
inductive Grown (expands : α → α → List α → Prop) : List α → Forest α → Prop
  | nil : Grown expands [] .nil
  | node {root label : α} {children rest : List α} {below next : Forest α}
      (hexpands : expands root label children) (hbelow : Grown expands children below)
      (hnext : Grown expands rest next) :
      Grown expands (root :: rest) (.node label below next)

section Ways

variable (children : κ → List κ) (p : κ → Bool)

/-- The ways from a key to the keys that match below it, the matching one first. -/
def ways : ℕ → κ → List (List κ)
  | 0, _ => []
  | depth + 1, k =>
      (if p k then [[k]] else []) ++ ((children k).flatMap (ways depth)).map (· ++ [k])

variable {children p} {depth : ℕ} {k : κ} {way : List κ}

theorem mem_ways_succ : way ∈ ways children p (depth + 1) k ↔ (p k = true ∧ way = [k]) ∨
      ∃ child ∈ children k, ∃ below ∈ ways children p depth child, way = below ++ [k] := by
  rw [ways, List.mem_append, List.mem_map]
  constructor
  · rintro (hown | ⟨below, hbelow, rfl⟩)
    · split at hown
      next hmatch => exact .inl ⟨hmatch, List.mem_singleton.mp hown⟩
      next => cases hown
    · obtain ⟨child, hchild, hway⟩ := List.mem_flatMap.mp hbelow
      exact .inr ⟨child, hchild, below, hway, rfl⟩
  · rintro (⟨hmatch, rfl⟩ | ⟨child, hchild, below, hbelow, rfl⟩)
    · left
      rw [if_pos hmatch]
      exact List.mem_singleton_self _
    · exact .inr ⟨below, List.mem_flatMap.mpr ⟨child, hchild, hbelow⟩, rfl⟩

theorem holds_of_mem_ways {Holds : κ → Prop} (hmatch : ∀ k, p k = true → Holds k)
    (hparent : ∀ k, ∀ child ∈ children k, Holds child → Holds k)
    (hway : way ∈ ways children p depth k) : Holds k := by
  induction depth generalizing k way with
  | zero => cases hway
  | succ depth ih =>
      rcases mem_ways_succ.mp hway with ⟨hown, -⟩ | ⟨child, hchild, below, hbelow, -⟩
      · exact hmatch k hown
      · exact hparent k child hchild (ih hbelow)

theorem flatMap_eq_of_unique {β : Type*} {list : List κ} {only : κ} {f : κ → List β}
    (hnodup : list.Nodup) (honly : only ∈ list)
    (hothers : ∀ other ∈ list, other ≠ only → f other = []) : list.flatMap f = f only := by
  induction list with
  | nil => cases honly
  | cons first rest ih =>
      obtain ⟨hfirst, hrest⟩ := List.nodup_cons.mp hnodup
      rw [List.flatMap_cons]
      rcases List.mem_cons.mp honly with rfl | hlater
      · have hnone : rest.flatMap f = [] := by
          rw [List.flatMap_eq_nil_iff]
          intro other hother
          apply hothers other (List.mem_cons_of_mem _ hother)
          rintro rfl
          exact hfirst hother
        rw [hnone, List.append_nil]
      · have hne : first ≠ only := by
          rintro rfl
          exact hfirst hlater
        rw [hothers first List.mem_cons_self hne, List.nil_append]
        exact ih hrest hlater fun other hother => hothers other (List.mem_cons_of_mem _ hother)

variable (children p) in
/-- A way on which every key has one child for which the predicate holds. -/
inductive OnlyWay (Holds : κ → Prop) : κ → List κ → Prop
  | leaf {k : κ} (hmatch : p k = true) (hnone : children k = []) : OnlyWay Holds k [k]
  | step {k child : κ} {way : List κ} (hother : p k = false) (hnodup : (children k).Nodup)
      (hchild : child ∈ children k)
      (honly : ∀ other ∈ children k, Holds other → other = child)
      (hbelow : OnlyWay Holds child way) : OnlyWay Holds k (way ++ [k])

theorem OnlyWay.ways_eq {Holds : κ → Prop} (hmatch : ∀ k, p k = true → Holds k)
    (hparent : ∀ k, ∀ child ∈ children k, Holds child → Holds k)
    (honly : OnlyWay children p Holds k way) (hdepth : way.length ≤ depth) :
    ways children p depth k = [way] := by
  induction honly generalizing depth with
  | leaf hown hnone =>
      obtain ⟨below, rfl⟩ : ∃ below, depth = below + 1 := ⟨depth - 1, by simp at hdepth; omega⟩
      simp [ways, hown, hnone]
  | @step k child way hother hnodup hchild hunique hbelow ih =>
      rw [List.length_append, List.length_singleton] at hdepth
      obtain ⟨below, rfl⟩ : ∃ below, depth = below + 1 := ⟨depth - 1, by omega⟩
      have hothers : ∀ other ∈ children k, other ≠ child → ways children p below other = [] := by
        intro other hmem hne
        rw [List.eq_nil_iff_forall_not_mem]
        intro found hfound
        exact hne (hunique other hmem (holds_of_mem_ways hmatch hparent hfound))
      rw [ways, flatMap_eq_of_unique hnodup hchild hothers, ih (by omega), hother]
      simp

end Ways

/-- The ways to the nodes of a grown forest are the ways of their keys.  Keys that
are not relevant have no relevant children and do not match. -/
theorem Grown.trailsOf_keys {expands : α → α → List α → Prop} {roots : List α}
    {forest : Forest α} (key : α → κ) {children : κ → List κ} {p relevant : κ → Bool}
    {height : κ → ℕ} {depth : ℕ}
    (hexpands : ∀ root label kids, expands root label kids → key label = key root ∧
      (kids.map key).filter relevant = children (key root))
    (hrelevant : ∀ k, p k = true → relevant k = true)
    (hirrelevant : ∀ k, relevant k = false → children k = [])
    (hheight : ∀ k, ∀ child ∈ children k, height child < height k)
    (hgrown : Grown expands roots forest)
    (hdepth : ∀ k ∈ (roots.map key).filter relevant, height k < depth) :
    (forest.trailsOf fun label => p (key label)).map (List.map key) =
      ((roots.map key).filter relevant).flatMap (ways children p depth) := by
  induction hgrown generalizing depth with
  | nil => rfl
  | @node root label kids rest below next hroot hbelow hnext ihBelow ihNext =>
      obtain ⟨hkey, hkids⟩ := hexpands root label kids hroot
      have hbelowKeys : ∀ smaller, height (key root) ≤ smaller →
          (below.trailsOf fun label => p (key label)).map (List.map key) =
            (children (key root)).flatMap (ways children p smaller) := by
        intro smaller hsmaller
        rw [← hkids]
        apply ihBelow
        intro child hchild
        rw [hkids] at hchild
        exact (hheight _ child hchild).trans_le hsmaller
      have hsplit : ∀ trails : List (List α), (trails.map (· ++ [label])).map (List.map key) =
          (trails.map (List.map key)).map (· ++ [key root]) := by
        intro trails
        simp [List.map_map, Function.comp_def, hkey]
      simp only [Forest.trailsOf, List.map_append, hsplit, List.map_cons, List.filter_cons]
      rw [List.map_cons, List.filter_cons] at hdepth
      cases hcase : relevant (key root) with
      | true =>
          rw [hcase, if_pos rfl] at hdepth
          have hroot := hdepth (key root) List.mem_cons_self
          obtain ⟨smaller, rfl⟩ : ∃ smaller, depth = smaller + 1 := ⟨depth - 1, by omega⟩
          rw [ihNext fun k hk => hdepth k (List.mem_cons_of_mem _ hk),
            hbelowKeys smaller (by omega), if_pos rfl, List.flatMap_cons, ways]
          simp only [hkey]
          split
          · simp [hkey]
          · simp
      | false =>
          rw [hcase, if_neg Bool.false_ne_true] at hdepth
          have hother : p (key label) = false := by
            rw [hkey, Bool.eq_false_iff]
            intro hmatch
            rw [hrelevant _ hmatch] at hcase
            cases hcase
          rw [ihNext hdepth, hbelowKeys _ le_rfl, hirrelevant _ hcase]
          simp [hother]

end SiblingForest
