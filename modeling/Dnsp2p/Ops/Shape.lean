import Dnsp2p.Library.BinaryTree
import Dnsp2p.Ops.RbTree

/-!
# Nodes in memory as a binary tree

The nodes behind the root pointer represent a binary tree of addresses when the
child pointers are the roots of the subtrees and every parent pointer is the
label above.  All nodes are red: the colours are never maintained, and this is
the reason why erasing a node never rebalances.
-/

namespace Dnsp2p.Ops

open BinTree

/-! ## Representation -/

/-- The nodes of a subtree below `parent`. -/
def Links (nodes : Memory RbNode) (parent : Option Nat) : BinTree Nat → Prop
  | .nil => True
  | .node left address right =>
      nodes.cell address = some ⟨parent, right.root, left.root, .red⟩ ∧
        Links nodes (some address) left ∧ Links nodes (some address) right

namespace RbTree

/-- The nodes around a hole, and the pointer `hole` that they have to it. -/
def Surrounds (t : RbTree) : List (Frame Nat) → Option Nat → Prop
  | [], hole => t.rbNode = hole
  | .left address right :: up, hole =>
      t.nodes.cell address = some ⟨parentOf up, right.root, hole, .red⟩ ∧
        Links t.nodes (some address) right ∧ Surrounds t up (some address)
  | .right left address :: up, hole =>
      t.nodes.cell address = some ⟨parentOf up, hole, left.root, .red⟩ ∧
        Links t.nodes (some address) left ∧ Surrounds t up (some address)

/-- The root pointer and the nodes represent a tree. -/
def Represents (t : RbTree) (tree : BinTree Nat) : Prop :=
  t.rbNode = tree.root ∧ Links t.nodes none tree

/-- A representation splits at every subtree. -/
theorem represents_plug_iff {t : RbTree} {context : List (Frame Nat)} {tree : BinTree Nat} :
    t.Represents (plug context tree) ↔
      t.Surrounds context tree.root ∧ Links t.nodes (parentOf context) tree := by
  induction context generalizing tree with
  | nil => rfl
  | cons frame up ih =>
      cases frame with
      | left address right =>
          rw [plug, ih]
          simp only [Surrounds, Links, parentOf, root_node]
          tauto
      | right left address =>
          rw [plug, ih]
          simp only [Surrounds, Links, parentOf, root_node]
          tauto

end RbTree

/-! ## Frames -/

/-- Only the nodes at some addresses changed, and no node appeared or disappeared. -/
structure Changed (old new : Memory RbNode) (addresses : List Nat) : Prop where
  frame : ∀ address ∉ addresses, new.cell address = old.cell address
  live : ∀ address, (new.cell address).isSome = (old.cell address).isSome

namespace Changed

theorem refl (nodes : Memory RbNode) (addresses : List Nat) : Changed nodes nodes addresses :=
  ⟨fun _ _ => rfl, fun _ => rfl⟩

theorem trans {first second third : Memory RbNode} {firsts seconds : List Nat}
    (one : Changed first second firsts) (two : Changed second third seconds) :
    Changed first third (firsts ++ seconds) where
  frame := by
    intro address apart
    rw [List.mem_append, not_or] at apart
    rw [two.frame address apart.2, one.frame address apart.1]
  live address := (two.live address).trans (one.live address)

theorem write {nodes : Memory RbNode} {address : Nat} {node : RbNode}
    (live : nodes.cell address = some node) (content : RbNode) :
    Changed nodes (nodes.write address content) [address] where
  frame other apart := Memory.write_cell_of_ne _ _ (by simpa using apart)
  live other := by
    rw [Memory.write_cell]
    split
    · next same => simp [same, live]
    · rfl

end Changed

theorem Links.congr {old new : Memory RbNode} {parent : Option Nat} {tree : BinTree Nat}
    (links : Links old parent tree)
    (same : ∀ address ∈ tree.inorder, new.cell address = old.cell address) :
    Links new parent tree := by
  induction tree generalizing parent with
  | nil => trivial
  | node left address right leftIh rightIh =>
      simp only [inorder_node, List.mem_append, List.mem_cons] at same
      exact ⟨(same address (by simp)).trans links.1,
        leftIh links.2.1 fun other mem => same other (.inl mem),
        rightIh links.2.2 fun other mem => same other (.inr (.inr mem))⟩

theorem RbTree.Surrounds.congr {old new : RbTree} {context : List (Frame Nat)} {hole : Option Nat}
    (surrounds : old.Surrounds context hole) (root : new.rbNode = old.rbNode)
    (same : ∀ address ∈ before context ++ after context,
      new.nodes.cell address = old.nodes.cell address) :
    new.Surrounds context hole := by
  induction context generalizing hole with
  | nil => exact root.trans surrounds
  | cons frame up ih =>
      cases frame with
      | left address right =>
          simp only [before, after, List.mem_append, List.mem_cons] at same
          exact ⟨(same address (by simp)).trans surrounds.1,
            surrounds.2.1.congr fun other mem => same other (by simp [mem]),
            ih surrounds.2.2 fun other mem => same other (by grind)⟩
      | right left address =>
          simp only [before, after, List.mem_append, List.mem_singleton] at same
          exact ⟨(same address (by simp)).trans surrounds.1,
            surrounds.2.1.congr fun other mem => same other (by simp [mem]),
            ih surrounds.2.2 fun other mem => same other (by grind)⟩

/-- All nodes of a subtree are live. -/
theorem Links.live {nodes : Memory RbNode} {parent : Option Nat} {tree : BinTree Nat}
    (links : Links nodes parent tree) :
    ∀ address ∈ tree.inorder, (nodes.cell address).isSome := by
  induction tree generalizing parent with
  | nil => simp
  | node left top right leftIh rightIh =>
      intro address mem
      rcases List.mem_append.mp mem with inLeft | inRest
      · exact leftIh links.2.1 address inLeft
      · rcases List.mem_cons.mp inRest with rfl | inRight
        · simp [links.1]
        · exact rightIh links.2.2 address inRight

/-- The root of a subtree lies in it. -/
theorem notMem_root {tree : BinTree Nat} {address : Nat} (apart : address ∉ tree.inorder) :
    address ∉ tree.root.toList :=
  fun top => apart (mem_of_root (Option.mem_toList.mp top))

/-- The label above a hole is one of those around it. -/
theorem notMem_parentOf {context : List (Frame Nat)} {address : Nat}
    (apart : address ∉ before context ++ after context) :
    address ∉ (parentOf context).toList := by
  cases context with
  | nil => simp [parentOf]
  | cons frame up =>
      cases frame <;> simp [parentOf] <;> rintro rfl <;> simp [before, after] at apart

/-! ## The single steps -/

namespace RbTree

variable {t : RbTree}

theorem read_of_cell {address : Nat} {node : RbNode} (live : t.nodes.cell address = some node) :
    t.read (some address) = .ok node := by
  simp [read, live]

theorem update_of_cell {address : Nat} {node : RbNode} (live : t.nodes.cell address = some node)
    (change : RbNode → RbNode) :
    t.update (some address) change =
      .ok { t with nodes := t.nodes.write address (change node) } := by
  simp [update, live]

/-- Giving a subtree another parent. -/
theorem setParent_root {parent : Option Nat} {tree : BinTree Nat}
    (links : Links t.nodes parent tree) (distinct : tree.inorder.Nodup) (next : Option Nat) :
    ∃ nodes, t.setParent tree.root next = .ok { t with nodes } ∧ Links nodes next tree ∧
      Changed t.nodes nodes tree.root.toList := by
  cases tree with
  | nil => exact ⟨t.nodes, rfl, trivial, .refl _ _⟩
  | node left address right =>
      rcases links with ⟨cell, leftLinks, rightLinks⟩
      rw [inorder_node, List.nodup_append, List.nodup_cons] at distinct
      refine ⟨_, by simp [setParent, update_of_cell cell], ⟨Memory.write_cell_self _ _ _, ?_, ?_⟩,
        .write cell _⟩
      · refine leftLinks.congr fun other mem => Memory.write_cell_of_ne _ _ ?_
        exact distinct.2.2 other mem address List.mem_cons_self
      · refine rightLinks.congr fun other mem => Memory.write_cell_of_ne _ _ ?_
        exact fun same => distinct.2.1.1 (same ▸ mem)

/-- The link that holds the pointer to a hole. -/
def linkOf : List (Frame Nat) → Link
  | [] => .root
  | .left address _ :: _ => .child address .left
  | .right _ address :: _ => .child address .right

theorem follow_hole {context : List (Frame Nat)} {hole : Option Nat}
    (surrounds : t.Surrounds context hole) : t.follow (linkOf context) = .ok hole := by
  cases context with
  | nil => exact congrArg _ surrounds
  | cons frame up => cases frame <;> simp [linkOf, follow, read_of_cell surrounds.1, RbNode.child]

/-- Hanging another child into a hole. -/
theorem assign_hole {context : List (Frame Nat)} {hole : Option Nat}
    (surrounds : t.Surrounds context hole) (distinct : (before context ++ after context).Nodup)
    (child : Option Nat) :
    ∃ next, t.assign (linkOf context) child = .ok next ∧ next.Surrounds context child ∧
      Changed t.nodes next.nodes (parentOf context).toList := by
  cases context with
  | nil => exact ⟨_, rfl, rfl, .refl _ _⟩
  | cons frame up =>
      cases frame with
      | left address right =>
          rcases surrounds with ⟨cell, links, outer⟩
          simp only [before, after] at distinct
          refine ⟨{ t with nodes := t.nodes.write address ⟨parentOf up, right.root, child, .red⟩ },
            update_of_cell cell _, ⟨Memory.write_cell_self _ _ _, ?_, ?_⟩, .write cell _⟩
          · refine links.congr fun other mem => Memory.write_cell_of_ne _ _ ?_
            grind
          · refine outer.congr rfl fun other mem => Memory.write_cell_of_ne _ _ ?_
            grind
      | right left address =>
          rcases surrounds with ⟨cell, links, outer⟩
          simp only [before, after] at distinct
          refine ⟨{ t with nodes := t.nodes.write address ⟨parentOf up, child, left.root, .red⟩ },
            update_of_cell cell _, ⟨Memory.write_cell_self _ _ _, ?_, ?_⟩, .write cell _⟩
          · refine links.congr fun other mem => Memory.write_cell_of_ne _ _ ?_
            grind
          · refine outer.congr rfl fun other mem => Memory.write_cell_of_ne _ _ ?_
            grind

/-- The comparison with the left link tells on which side a node hangs. -/
theorem replaceChild_hole {context : List (Frame Nat)} {node : Nat}
    (surrounds : t.Surrounds context (some node)) (apart : node ∉ before context)
    (child : Option Nat) :
    t.replaceChild .left (parentOf context) (some node) child =
      t.assign (linkOf context) child := by
  cases context with
  | nil => rfl
  | cons frame up =>
      cases frame with
      | left address right =>
          simp [replaceChild, assign, linkOf, parentOf, read_of_cell surrounds.1, RbNode.child]
      | right left address =>
          have other : left.root ≠ some node := by
            intro same
            have := mem_of_root same
            simp [before, this] at apart
          simp [replaceChild, assign, linkOf, parentOf, read_of_cell surrounds.1, RbNode.child,
            Side.mirror, other]

/-! ## Linking -/

/-- A new node without children hangs into a hole. -/
theorem rbLinkNode_hole {context : List (Frame Nat)} {node : Nat}
    (surrounds : t.Surrounds context none) (live : (t.nodes.cell node).isSome)
    (distinct : (before context ++ node :: after context).Nodup) :
    ∃ next, t.rbLinkNode (some node) (parentOf context) (linkOf context) = .ok next ∧
      next.Represents (plug context (.node .nil node .nil)) ∧
      ∀ address, (next.nodes.cell address).isSome = (t.nodes.cell address).isSome := by
  rcases Option.isSome_iff_exists.mp live with ⟨stale, cell⟩
  let fresh : RbNode := ⟨parentOf context, none, none, .red⟩
  have written : Changed t.nodes (t.nodes.write node fresh) [node] := .write cell _
  have outer : RbTree.Surrounds { t with nodes := t.nodes.write node fresh } context none := by
    refine surrounds.congr rfl fun address mem => written.frame address ?_
    grind
  rcases assign_hole outer (by grind) (some node) with ⟨next, assigned, hung, changed⟩
  refine ⟨next, ?_, represents_plug_iff.mpr ⟨hung, ?_, trivial, trivial⟩, ?_⟩
  · simp only [rbLinkNode, update_of_cell cell, ok_bind]
    exact assigned
  · rw [changed.frame node (notMem_parentOf (by grind))]
    exact Memory.write_cell_self _ _ _
  · intro address
    rw [changed.live, written.live]

/-! ## Erasing -/

/-- A node with at most one child is replaced by that child. -/
theorem unlink_hole {context : List (Frame Nat)} {node : Nat} {child : BinTree Nat}
    (surrounds : t.Surrounds context (some node)) (links : Links t.nodes (some node) child)
    (distinct : (before context ++ node :: child.inorder ++ after context).Nodup) :
    ∃ next, t.unlink (some node) child.root (parentOf context) = .ok next ∧
      next.Represents (plug context child) ∧
      Changed t.nodes next.nodes (child.root.toList ++ (parentOf context).toList) := by
  obtain ⟨nodes, parentSet, childLinks, childChanged⟩ :=
    setParent_root links (by grind) (parentOf context)
  have outer : RbTree.Surrounds { t with nodes } context (some node) := by
    refine surrounds.congr rfl fun address mem => childChanged.frame address (notMem_root ?_)
    grind
  rcases assign_hole outer (by grind) child.root with ⟨next, assigned, surrounds', changed⟩
  refine ⟨next, ?_, represents_plug_iff.mpr ⟨surrounds', ?_⟩, childChanged.trans changed⟩
  · rw [unlink, parentSet, ok_bind, replaceChild_hole outer (by grind), assigned]
  · refine childLinks.congr fun address mem => changed.frame address (notMem_parentOf ?_)
    grind

/-- The loop over left links ends at the first node of the traversal. -/
theorem leftmost_eq {parent : Option Nat} {tree : BinTree Nat} (links : Links t.nodes parent tree)
    (inner : tree ≠ .nil) {fuel : Nat} (enough : tree.inorder.length ≤ fuel) :
    ∃ context node right, tree = plug context (.node .nil node right) ∧ before context = [] ∧
      t.leftmost fuel tree.root = .ok (some node) := by
  induction tree generalizing parent fuel with
  | nil => exact absurd rfl inner
  | node left address right leftIh =>
      rcases links with ⟨cell, leftLinks, _⟩
      rw [inorder_node, List.length_append, List.length_cons] at enough
      obtain ⟨fuel, rfl⟩ : ∃ less, fuel = less + 1 := ⟨fuel - 1, by omega⟩
      cases leftRoot : left.root with
      | none =>
          obtain rfl := root_eq_none_iff.mp leftRoot
          exact ⟨[], address, right, rfl, rfl, by simp [leftmost, read_of_cell cell]⟩
      | some top =>
          have leftInner : left ≠ .nil := fun empty => by simp [empty] at leftRoot
          have less : left.inorder.length ≤ fuel := by omega
          obtain ⟨context, node, child, rfl, first, walk⟩ :=
            leftIh leftLinks leftInner less
          refine ⟨context ++ [.left address right], node, child, ?_, ?_, ?_⟩
          · rw [plug_append]
            rfl
          · rw [before_append, first]
            rfl
          · rw [leftRoot] at walk
            simp [leftmost, read_of_cell cell, leftRoot, walk]

/-- A detached node takes the place of a node with two children. -/
theorem takePlace_hole {context : List (Frame Nat)} {left right : BinTree Nat} {old node : Nat}
    (represents : t.Represents (plug context (.node left old right)))
    (live : (t.nodes.cell node).isSome) (inner : left ≠ .nil)
    (distinct : (before context ++ left.inorder ++ node :: old :: right.inorder ++
      after context).Nodup) :
    ∃ next, t.takePlace (some old) (some node) = .ok next ∧
      next.Represents (plug context (.node left node right)) ∧
      ∀ address, (next.nodes.cell address).isSome = (t.nodes.cell address).isSome := by
  rcases represents_plug_iff.mp represents with ⟨surrounds, oldCell, leftLinks, rightLinks⟩
  rcases Option.isSome_iff_exists.mp live with ⟨stale, nodeCell⟩
  let copy : RbNode := ⟨parentOf context, right.root, left.root, .red⟩
  -- the copy of the old node
  have copied : Changed t.nodes (t.nodes.write node copy) [node] := .write nodeCell _
  have surroundsCopy : RbTree.Surrounds { t with nodes := t.nodes.write node copy } context
      (some old) := by
    refine surrounds.congr rfl fun address mem => copied.frame address ?_
    grind
  -- the link from above
  obtain ⟨hung, assigned, surroundsHung, hungChanged⟩ :=
    assign_hole surroundsCopy (by grind) (some node)
  have untouched : ∀ address ∉ node :: (before context ++ after context),
      hung.nodes.cell address = t.nodes.cell address := by
    intro address apart
    rw [hungChanged.frame address (notMem_parentOf (by grind)), copied.frame address (by grind)]
  have hungNode : hung.nodes.cell node = some copy := by
    rw [hungChanged.frame node (notMem_parentOf (by grind))]
    exact Memory.write_cell_self _ _ _
  have hungOld : hung.nodes.cell old = some copy := (untouched old (by grind)).trans oldCell
  have leftHung : Links hung.nodes (some old) left :=
    leftLinks.congr fun address mem => untouched address (by grind)
  -- the parent pointers below
  obtain ⟨nodes, leftSet, leftDone, leftChanged⟩ :=
    setParent_root leftHung (by grind) (some node)
  have oldCell' : nodes.cell old = some copy :=
    (leftChanged.frame old (notMem_root (by grind))).trans hungOld
  have rightHung : Links nodes (some old) right := by
    apply rightLinks.congr
    intro address mem
    rw [leftChanged.frame address (notMem_root (by grind)), untouched address (by grind)]
  obtain ⟨last, rightSet, rightDone, rightChanged⟩ :=
    setParent_root (t := { hung with nodes }) rightHung (by grind) (some node)
  have kept : ∀ address ∉ left.inorder ++ right.inorder,
      last.cell address = hung.nodes.cell address := by
    intro address apart
    rw [rightChanged.frame address (notMem_root (by grind)),
      leftChanged.frame address (notMem_root (by grind))]
  refine ⟨{ hung with nodes := last }, ?_, represents_plug_iff.mpr ⟨?_, ?_, ?_, rightDone⟩, ?_⟩
  · have leftUpdate : hung.update left.root (fun n => { n with rbParent := some node }) =
        .ok { hung with nodes } := by
      cases left with
      | nil => exact absurd rfl inner
      | node => exact leftSet
    change t.nodes.cell old = some copy at oldCell
    simp only [takePlace, read_of_cell oldCell, update_of_cell nodeCell, ok_bind, copy]
    rw [replaceChild_hole surroundsCopy (by grind), assigned]
    simp only [ok_bind, read_of_cell hungOld, copy]
    rw [leftUpdate]
    simp only [ok_bind, read_of_cell (t := { hung with nodes }) oldCell', copy]
    exact rightSet
  · exact surroundsHung.congr rfl fun address mem => kept address (by grind)
  · exact (kept node (by grind)).trans hungNode
  · exact leftDone.congr fun address mem => rightChanged.frame address (notMem_root (by grind))
  · intro address
    rw [rightChanged.live, leftChanged.live, hungChanged.live, copied.live]

/-- Without colours nothing is rebalanced. -/
@[simp]
theorem recolor_red (t : RbTree) (child parent : Option Nat) :
    t.recolor .red child parent = .ok t :=
  rfl

/-- Erasing a node with two children removes its successor from the right subtree
and puts it in the place of the node. -/
theorem eraseInner_plug {context : List (Frame Nat)} {left right : BinTree Nat} {old : Nat}
    (represents : t.Represents (plug context (.node left old right)))
    (leftInner : left ≠ .nil) (rightInner : right ≠ .nil)
    (distinct : (plug context (.node left old right)).inorder.Nodup) :
    ∃ next tree, t.eraseInner (some old) right.root = .ok next ∧ next.Represents tree ∧
      tree.inorder = before context ++ left.inorder ++ right.inorder ++ after context ∧
      ∀ address, (next.nodes.cell address).isSome = (t.nodes.cell address).isSome := by
  have rightLinks := (represents_plug_iff.mp represents).2.2.2
  have fuelled : right.inorder.length ≤ t.nodes.bound + 1 := by
    have := Memory.length_le_bound (by simp at distinct; grind) rightLinks.live
    omega
  rcases leftmost_eq rightLinks rightInner fuelled with ⟨inner, node, child, rfl, first, walk⟩
  have whole : plug context (.node left old (plug inner (.node .nil node child))) =
      plug (inner ++ .right left old :: context) (.node .nil node child) := by
    rw [plug_append]
    rfl
  rw [whole] at represents distinct
  rcases represents_plug_iff.mp represents with ⟨surrounds, nodeCell, _, childLinks⟩
  rw [inorder_plug, inorder_node, inorder_nil, List.nil_append] at distinct
  rcases unlink_hole surrounds childLinks distinct with ⟨unlinked, unlinkEq, spliced, changed⟩
  have unlinkedNode : unlinked.nodes.cell node = t.nodes.cell node := by
    apply changed.frame node
    rw [List.mem_append, not_or]
    exact ⟨notMem_root (by grind), notMem_parentOf (by grind)⟩
  rw [plug_append] at spliced
  simp only [before_append, after_append, before, after, first, List.append_nil] at distinct
  have spliced' : unlinked.Represents (plug context (.node left old (plug inner child))) := spliced
  have stillLive : (unlinked.nodes.cell node).isSome := by
    rw [unlinkedNode, nodeCell]
    rfl
  obtain ⟨next, placed, done, live⟩ :=
    takePlace_hole spliced' stillLive leftInner (by simp [first]; grind)
  refine ⟨next, _, ?_, done, by simp [first], fun address =>
    (live address).trans (changed.live address)⟩
  simp [eraseInner, walk, read_of_cell nodeCell, unlinkEq,
    read_of_cell (unlinkedNode.trans nodeCell), placed]

/-- `rb_erase` takes one node out of the traversal. -/
theorem rbErase_eq {tree : BinTree Nat} (represents : t.Represents tree)
    (distinct : tree.inorder.Nodup) {node : Nat} (mem : node ∈ tree.inorder) :
    ∃ next rest, t.rbErase (some node) = .ok next ∧ next.Represents rest ∧
      rest.inorder = tree.inorder.erase node ∧
      ∀ address, (next.nodes.cell address).isSome = (t.nodes.cell address).isSome := by
  rcases exists_plug mem with ⟨context, left, right, rfl⟩
  have split : (plug context (.node left node right)).inorder.erase node =
      before context ++ left.inorder ++ right.inorder ++ after context := by
    simp only [inorder_plug, inorder_node, List.append_assoc, List.cons_append] at distinct ⊢
    rw [← List.append_assoc, List.erase_append_right _ (by grind), List.erase_cons_head,
      List.append_assoc]
  rw [split]
  rcases represents_plug_iff.mp represents with ⟨surrounds, cell, leftLinks, rightLinks⟩
  by_cases leftNil : left = .nil
  · subst leftNil
    rw [inorder_plug, inorder_node, inorder_nil, List.nil_append] at distinct
    rcases unlink_hole surrounds rightLinks distinct with ⟨next, unlinked, done, changed⟩
    refine ⟨next, _, ?_, done, by simp, changed.live⟩
    simp [rbErase, read_of_cell cell, unlinked]
  · by_cases rightNil : right = .nil
    · subst rightNil
      obtain ⟨next, unlinked, done, changed⟩ := unlink_hole surrounds leftLinks
        (by simp at distinct; grind)
      refine ⟨next, _, ?_, done, by simp, changed.live⟩
      cases left with
      | nil => exact absurd rfl leftNil
      | node =>
          rw [root_node] at unlinked
          simp [rbErase, read_of_cell cell, unlinked]
    · rcases eraseInner_plug represents leftNil rightNil distinct with ⟨next, rest, erased, done⟩
      refine ⟨next, rest, ?_, done⟩
      cases left with
      | nil => exact absurd rfl leftNil
      | node =>
          cases right with
          | nil => exact absurd rfl rightNil
          | node => simpa [rbErase, read_of_cell cell] using erased

end RbTree

end Dnsp2p.Ops
