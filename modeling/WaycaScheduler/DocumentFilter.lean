import WaycaScheduler.Library.SiblingForest

/-!
# Filtering an imported document

`xml_find_node`, `xml_delete_special_node` and the filters of
`xml_import_topo_info` in `tools/wayca-sc-info/wayca_sc_topo.c`.  A document
is the forest of its top-level nodes, and the root element is the first of
them that is an element.  `xmlUnlinkNode` with `xmlFreeNode` takes a node with
its subtree out; a search that starts at a root that was freed has no result.
-/

namespace WaycaScheduler

open SiblingForest

variable {children next : Forest XmlNode} {delNode : String} {root : XmlNode}

/-- `xmlElementType`, as far as the filter tells the types apart. -/
inductive XmlElementType where
  | element
  | other
deriving DecidableEq

/-- The fields of `xmlNode` beside the pointers. -/
structure XmlNode where
  type : XmlElementType
  name : String
  properties : List (String × String)
  content : Option String
deriving DecidableEq

/-- The comparison of `xml_find_node`. -/
def isNamed (nodeName : String) (node : XmlNode) : Bool :=
  decide (node.type = .element ∧ node.name = nodeName)

def xmlFindNode (lastNode : Forest XmlNode) (nodeName : String) : Option (List Move) :=
  lastNode.find (isNamed nodeName)

/-- The search starts again from the root after every removal. -/
def deleteSpecialNodeLoop (delNode : String) : ℕ → Forest XmlNode → Option (Forest XmlNode)
  | 0, _ => none
  | fuel + 1, rootNode =>
      match xmlFindNode rootNode delNode with
      | none => some rootNode
      | some [] => none
      | some (move :: place) =>
          deleteSpecialNodeLoop delNode fuel (rootNode.remove (move :: place))

/-- `xml_delete_special_node`; `xmlDocGetRootElement` passes over the
top-level nodes that are not elements. -/
def xmlDeleteSpecialNode (delNode : String) (fuel : ℕ) :
    Forest XmlNode → Option (Forest XmlNode)
  | .nil => some .nil
  | .node label children next =>
      if label.type = .element then
        deleteSpecialNodeLoop delNode fuel (.node label children next)
      else (xmlDeleteSpecialNode delNode fuel next).map (.node label children)

/-! ## One filter -/

/-- One removal for each turn ends in the pruned tree. -/
theorem deleteSpecialNodeLoop_eq {fuel : ℕ}
    (hroot : isNamed delNode root = false)
    (hfuel : (Forest.node root children next).size < fuel) :
    deleteSpecialNodeLoop delNode fuel (.node root children next) =
      some ((Forest.node root children next).prune (isNamed delNode)) := by
  induction fuel generalizing children next with
  | zero => exact absurd hfuel (Nat.not_lt_zero _)
  | succ fuel ih =>
      cases hfind : xmlFindNode (.node root children next) delNode with
      | none => rw [deleteSpecialNodeLoop, hfind, Forest.prune_of_find_none hfind]
      | some place =>
          obtain ⟨hplace, children', next', hremove⟩ := Forest.remove_node hroot hfind
          have hsize := Forest.size_remove hfind
          have hprune := Forest.prune_remove hfind
          cases place with
          | nil => exact absurd rfl hplace
          | cons move place =>
              simp only [deleteSpecialNodeLoop, hfind]
              rw [hremove] at hsize hprune ⊢
              rw [ih (by omega), hprune]

def withProlog (prolog : List (XmlNode × Forest XmlNode)) (rest : Forest XmlNode) :
    Forest XmlNode :=
  prolog.foldr (fun entry rest => .node entry.1 entry.2 rest) rest

theorem xmlDeleteSpecialNode_eq {prolog : List (XmlNode × Forest XmlNode)}
    {fuel : ℕ}
    (hprolog : ∀ entry ∈ prolog, entry.1.type ≠ .element)
    (helement : root.type = .element) (hname : root.name ≠ delNode)
    (hfuel : (Forest.node root children next).size < fuel) :
    xmlDeleteSpecialNode delNode fuel (withProlog prolog (.node root children next)) =
      some (withProlog prolog ((Forest.node root children next).prune (isNamed delNode))) := by
  induction prolog with
  | nil =>
      have hroot : isNamed delNode root = false := decide_eq_false fun hboth => hname hboth.2
      simp only [withProlog, List.foldr_nil, xmlDeleteSpecialNode, helement, if_true]
      exact deleteSpecialNodeLoop_eq hroot hfuel
  | cons entry prolog ih =>
      have hentry : entry.1.type ≠ .element := hprolog entry (List.mem_cons_self ..)
      have hrest := ih fun other hother => hprolog other (List.mem_cons_of_mem _ hother)
      unfold withProlog at hrest ⊢
      simp only [List.foldr_cons, xmlDeleteSpecialNode, hentry, if_false]
      rw [hrest, Option.map_some]

/-- The deletion ends, whatever matches lie beside or inside one another, and
leaves the document without the subtrees of that name: the nodes that are left
are those with no such element among themselves and their ancestors, in the
order they were in and under the ancestors they had. -/
theorem delete_special_node_prunes
    {delNode : String} {prolog : List (XmlNode × Forest XmlNode)} {root : XmlNode}
    {children next : Forest XmlNode}
    (hprolog : ∀ entry ∈ prolog, entry.1.type ≠ .element)
    (helement : root.type = .element) (hname : root.name ≠ delNode) :
    ∃ kept : Forest XmlNode,
      (∀ fuel > (Forest.node root children next).size,
        xmlDeleteSpecialNode delNode fuel (withProlog prolog (.node root children next)) =
          some (withProlog prolog kept)) ∧
        kept = (Forest.node root children next).prune (isNamed delNode) ∧
        (∀ trail ∈ kept.trails, ∀ node ∈ trail,
          ¬ (node.type = .element ∧ node.name = delNode)) ∧
        kept.trails = (Forest.node root children next).trails.filter fun trail =>
          trail.all fun node => !isNamed delNode node := by
  have htrails := Forest.trails_prune (p := isNamed delNode) (Forest.node root children next)
  refine ⟨_, ?_, rfl, ?_, htrails⟩
  · intro fuel hfuel
    exact xmlDeleteSpecialNode_eq hprolog helement hname hfuel
  · intro trail htrail node hnode hnamed
    rw [htrails] at htrail
    have hall := List.all_eq_true.mp (List.mem_filter.mp htrail).2 node hnode
    have hmatch : isNamed delNode node = true := decide_eq_true hnamed
    rw [hmatch] at hall
    cases hall

def elementOf (name : String) (children next : Forest XmlNode) : Forest XmlNode :=
  .node ⟨.element, name, [], none⟩ children next

/-- One match inside another and one behind it. -/
theorem delete_special_node_prunes_nested :
    ∃ kept : Forest XmlNode,
      (∀ fuel > 5, xmlDeleteSpecialNode "IRQ" fuel
          (elementOf "System" (elementOf "IRQ" (elementOf "IRQ" .nil .nil)
            (elementOf "IRQ" .nil (elementOf "Package" .nil .nil))) .nil) = some kept) ∧
        kept = elementOf "System" (elementOf "Package" .nil .nil) .nil := by
  obtain ⟨kept, hdelete, hkept, -⟩ := @delete_special_node_prunes "IRQ" []
    ⟨.element, "System", [], none⟩
    (elementOf "IRQ" (elementOf "IRQ" .nil .nil)
      (elementOf "IRQ" .nil (elementOf "Package" .nil .nil))) .nil
    (fun entry hentry => absurd hentry List.not_mem_nil) rfl (by decide)
  exact ⟨kept, hdelete, hkept.trans (by decide)⟩

/-! ## The filters of an import -/

/-- `if (!output) xml_delete_special_node(doc, name)` -/
def deleteUnless (output : Bool) (delNode : String) (fuel : ℕ) (doc : Forest XmlNode) :
    Option (Forest XmlNode) :=
  if output then some doc else xmlDeleteSpecialNode delNode fuel doc

/-- What `xml_import_topo_info` makes of the document that it has read. -/
def xmlImportTopoInfo (outputIrq outputDev : Bool) (fuel : ℕ) (doc : Forest XmlNode) :
    Option (Forest XmlNode) := do
  let doc ← deleteUnless outputIrq "IRQ" fuel doc
  let doc ← deleteUnless outputDev "SMMUDEV" fuel doc
  deleteUnless outputDev "PCIDEV" fuel doc

/-- The elements that the options leave out. -/
def isLeftOut (outputIrq outputDev : Bool) (node : XmlNode) : Bool :=
  (!outputIrq && isNamed "IRQ" node) || (!outputDev && isNamed "SMMUDEV" node) ||
    (!outputDev && isNamed "PCIDEV" node)

section Import

variable {prolog : List (XmlNode × Forest XmlNode)} {root : XmlNode}
  {children next : Forest XmlNode} {fuel : ℕ}

theorem deleteUnless_prune
    (output : Bool) {delNode : String} {p : XmlNode → Bool} (hkept : p root = false)
    (hprolog : ∀ entry ∈ prolog, entry.1.type ≠ .element)
    (helement : root.type = .element) (hname : root.name ≠ delNode)
    (hfuel : (Forest.node root children next).size < fuel) :
    deleteUnless output delNode fuel
        (withProlog prolog ((Forest.node root children next).prune p)) =
      some (withProlog prolog ((Forest.node root children next).prune fun node =>
        p node || (!output && isNamed delNode node))) := by
  cases output with
  | true => simp [deleteUnless]
  | false =>
      have hsize := Forest.size_prune_le (p := p) (Forest.node root children next)
      simp only [deleteUnless, Bool.not_false, Bool.true_and, ← Forest.prune_prune]
      simp only [Forest.prune, hkept, Bool.false_eq_true, if_false] at hsize ⊢
      exact xmlDeleteSpecialNode_eq hprolog helement hname (lt_of_le_of_lt hsize hfuel)

theorem xmlImportTopoInfo_eq
    (outputIrq outputDev : Bool) (hprolog : ∀ entry ∈ prolog, entry.1.type ≠ .element)
    (helement : root.type = .element) (hname : root.name ∉ ["IRQ", "SMMUDEV", "PCIDEV"])
    (hfuel : (Forest.node root children next).size < fuel) :
    xmlImportTopoInfo outputIrq outputDev fuel (withProlog prolog (.node root children next)) =
      some (withProlog prolog
        ((Forest.node root children next).prune (isLeftOut outputIrq outputDev))) := by
  simp only [List.mem_cons, List.not_mem_nil, or_false, not_or] at hname
  obtain ⟨hirq, hsmmu, hpci⟩ := hname
  have hrootIrq : isNamed "IRQ" root = false := decide_eq_false fun hboth => hirq hboth.2
  have hrootSmmu : isNamed "SMMUDEV" root = false := decide_eq_false fun hboth => hsmmu hboth.2
  have hirqs := deleteUnless_prune outputIrq (p := fun _ => false) rfl hprolog helement hirq
    hfuel
  have hsmmus := deleteUnless_prune outputDev
    (p := fun node => !outputIrq && isNamed "IRQ" node) (by simp [hrootIrq])
    hprolog helement hsmmu hfuel
  have hpcis := deleteUnless_prune outputDev
    (p := fun node => (!outputIrq && isNamed "IRQ" node) ||
      (!outputDev && isNamed "SMMUDEV" node)) (by simp [hrootIrq, hrootSmmu])
    hprolog helement hpci hfuel
  simp only [Forest.prune_none, Bool.false_or] at hirqs
  unfold xmlImportTopoInfo
  simp only [hirqs, hsmmus, hpcis, Option.bind_eq_bind, Option.bind_some]
  rfl

/-- An import ends with the nodes that have no element of a name left out among
themselves and their ancestors, and the import of what it leaves changes nothing. -/
theorem import_leaves_wanted_elements
    (outputIrq outputDev : Bool) (hprolog : ∀ entry ∈ prolog, entry.1.type ≠ .element)
    (helement : root.type = .element) (hname : root.name ∉ ["IRQ", "SMMUDEV", "PCIDEV"]) :
    ∃ kept : Forest XmlNode,
      kept.trails = ((Forest.node root children next).trails.filter fun trail =>
        trail.all fun node => !isLeftOut outputIrq outputDev node) ∧
      ∀ fuel > (Forest.node root children next).size,
        xmlImportTopoInfo outputIrq outputDev fuel
            (withProlog prolog (.node root children next)) = some (withProlog prolog kept) ∧
          xmlImportTopoInfo outputIrq outputDev fuel (withProlog prolog kept) =
            some (withProlog prolog kept) := by
  have hroot : isLeftOut outputIrq outputDev root = false := by
    simp only [List.mem_cons, List.not_mem_nil, or_false, not_or] at hname
    simp [isLeftOut, isNamed, hname]
  have hsize := Forest.size_prune_le (p := isLeftOut outputIrq outputDev)
    (Forest.node root children next)
  have hagain := Forest.prune_prune (p := isLeftOut outputIrq outputDev)
    (q := isLeftOut outputIrq outputDev) (Forest.node root children next)
  simp only [Bool.or_self] at hagain
  refine ⟨_, Forest.trails_prune _, ?_⟩
  intro fuel hfuel
  refine ⟨xmlImportTopoInfo_eq outputIrq outputDev hprolog helement hname hfuel, ?_⟩
  rw [Forest.prune, hroot, if_neg Bool.false_ne_true] at hsize hagain ⊢
  rw [xmlImportTopoInfo_eq outputIrq outputDev hprolog helement hname
    (lt_of_le_of_lt hsize hfuel), hagain]

end Import

/-- The device elements go with what is below them, and the interrupts stay. -/
theorem import_leaves_wanted_elements_devices :
    ∃ kept : Forest XmlNode, kept.trails.length = 2 ∧
      ∀ fuel > 4, xmlImportTopoInfo true false fuel (elementOf "System"
        (elementOf "PCIDEV" (elementOf "IRQ" .nil .nil) (elementOf "IRQ" .nil .nil)) .nil) =
          some kept := by
  obtain ⟨kept, htrails, himport⟩ := @import_leaves_wanted_elements []
    ⟨.element, "System", [], none⟩
    (elementOf "PCIDEV" (elementOf "IRQ" .nil .nil) (elementOf "IRQ" .nil .nil)) .nil true false
    (fun entry hentry => absurd hentry List.not_mem_nil) rfl (by decide)
  refine ⟨kept, ?_, fun fuel hfuel => (himport fuel hfuel).1⟩
  rw [htrails]
  decide

end WaycaScheduler
