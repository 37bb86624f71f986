import Dnsp2p.Ops.Balance
import Dnsp2p.Ops.EraseColor
import Dnsp2p.Ops.InsertColor
import Dnsp2p.Ops.Neighbours
import Dnsp2p.Ops.Replacing

/-!
# The red-black tree library as a whole

What `rbtree.h` promises to a program that calls `rb_insert_color` after each
`rb_link_node`: in every run of insertions and removals the nodes form a red-black tree.
-/

namespace Dnsp2p.Ops

open BinTree

namespace RbTree

variable {t : RbTree}

/-! ## What a tree with colours shows -/

/-- The colour at the root, black if there is none. -/
def rootColor : BinTree Entry → Color
  | .nil => .black
  | .node _ entry _ => entry.color

theorem rootColor_eq_black {tree : BinTree Entry} (rootBlack : RootBlack Entry.Red tree) :
    rootColor tree = .black := by
  cases tree with
  | nil => rfl
  | node left entry right =>
      cases color : entry.color with
      | red => exact absurd color rootBlack
      | black => exact color

theorem Depicts.balanced {context : List (Frame Entry)} {tree : BinTree Entry} {n : Nat}
    (depicts : t.Depicts (plug context tree)) (balanced : tree.RedBlack Entry.Red n) :
    t.Balanced (tree.root.map Entry.address) (rootColor tree) n := by
  induction tree generalizing context n with
  | nil =>
      obtain rfl : n = 0 := balanced
      exact .nil
  | node left entry right leftIh rightIh =>
      have cell : t.nodes.cell entry.address = some _ :=
        Depicts.cell (show t.Depicts (plug context (join Side.left.mirrored left entry right))
          from depicts)
      have inLeft : t.Depicts (plug (.left entry right :: context) left) := depicts
      have inRight : t.Depicts (plug (.right left entry :: context) right) := depicts
      rcases balanced with ⟨red, leftBlack, rightBlack, leftBalanced, rightBalanced⟩ |
        ⟨black, n, rfl, leftBalanced, rightBalanced⟩
      · have leftDone := leftIh inLeft leftBalanced
        have rightDone := rightIh inRight rightBalanced
        rw [rootColor_eq_black leftBlack] at leftDone
        rw [rootColor_eq_black rightBlack] at rightDone
        rw [root_node, Option.map_some, rootColor, red]
        exact .red cell red leftDone rightDone
      · have isBlack : rootColor (.node left entry right) = .black := rootColor_eq_black black
        rw [isBlack]
        exact .black cell isBlack (leftIh inLeft leftBalanced) (rightIh inRight rightBalanced)

theorem traverse_plain (fuel : Nat) (pointer : Option Nat) :
    t.plain.traverse fuel pointer = t.traverse fuel pointer := by
  induction fuel generalizing pointer with
  | zero => rfl
  | succ fuel ih =>
      cases pointer with
      | none => rfl
      | some address =>
          simp only [traverse, read_plain]
          cases t.read (some address) with
          | error => rfl
          | ok node => simp [RbNode.plain, ih]

/-- A node of the shape is a node of the tree in red. -/
theorem exists_of_plain {address : Nat} {node : RbNode}
    (cell : t.plain.nodes.cell address = some node) :
    ∃ colored, t.nodes.cell address = some colored ∧ colored.plain = node := by
  rw [plain_cell, Option.map_eq_some_iff] at cell
  exact cell

theorem Consistent.of_plain {addresses : List Nat} (consistent : t.plain.Consistent addresses) :
    t.Consistent addresses where
  child := by
    intro address mem node cell side below hangs
    have plainCell : t.plain.nodes.cell address = some node.plain := by rw [plain_cell, cell]; rfl
    rcases consistent.child address mem _ plainCell side below (by rwa [RbNode.child_plain]) with
      ⟨inside, other, childNode, childCell, above⟩
    rcases exists_of_plain childCell with ⟨colored, coloredCell, rfl⟩
    rw [RbNode.child_plain] at other
    exact ⟨inside, other, colored, coloredCell, above⟩
  root := by
    intro address mem node cell
    have plainCell : t.plain.nodes.cell address = some node.plain := by rw [plain_cell, cell]; rfl
    have top := consistent.root address mem _ plainCell
    exact top
  parent := by
    intro address mem node cell above hangs
    have plainCell : t.plain.nodes.cell address = some node.plain := by rw [plain_cell, cell]; rfl
    rcases consistent.parent address mem _ plainCell above hangs with
      ⟨inside, parentNode, side, parentCell, hangs'⟩
    rcases exists_of_plain parentCell with ⟨colored, coloredCell, rfl⟩
    rw [RbNode.child_plain] at hangs'
    exact ⟨inside, colored, side, coloredCell, hangs'⟩

/-- The nodes of a red-black tree, as the links show them. -/
theorem Orders.redBlack {addresses : List Nat} (orders : t.Orders addresses) :
    t.RedBlack ∧ t.traverse (t.nodes.bound + 1) t.rbNode = .ok addresses ∧
      t.Consistent addresses := by
  rcases orders with ⟨tree, depicts, ⟨rootBlack, n, balanced⟩, rfl⟩
  have inTree : t.Depicts (plug [] tree) := depicts
  have hung := inTree.balanced balanced
  have room := depicts.length_le
  rw [rootColor_eq_black rootBlack, ← depicts.root] at hung
  rw [← inorder_map]
  refine ⟨⟨n, hung⟩, ?_, .of_plain (depicts.shape.consistent ?_)⟩
  · rw [depicts.root, ← root_map, ← traverse_plain]
    apply traverse_eq depicts.shape.2
    rw [inorder_map, List.length_map]
    omega
  · rw [inorder_map]
    exact depicts.distinct

/-! ## Runs -/

/-- A link of the tree that is NULL, with its parent and the nodes on either side of it. -/
inductive Gap (t : RbTree) : List Nat → List Nat → Option Nat → Link → Prop where
  | root (empty : t.rbNode = none) : Gap t [] [] none .root
  | left {front back : List Nat} {p : Nat} {node : RbNode} (cell : t.nodes.cell p = some node)
      (empty : node.rbLeft = none) : Gap t front (p :: back) (some p) (.child p .left)
  | right {front back : List Nat} {p : Nat} {node : RbNode} (cell : t.nodes.cell p = some node)
      (empty : node.rbRight = none) : Gap t (front ++ [p]) back (some p) (.child p .right)

/-- The trees of a program that links nodes where the tree has room for them and then calls
`rb_insert_color`, erases and replaces nodes of the tree, and else leaves its nodes alone, with
the nodes that should be in the tree. -/
inductive Reaches : RbTree → List Nat → Prop where
  | empty (nodes : Memory RbNode) : Reaches ⟨none, nodes⟩ []
  | insert {t linked next : RbTree} {front back : List Nat} {node : Nat} {parent : Option Nat}
      {link : Link} (reaches : Reaches t (front ++ back)) (gap : t.Gap front back parent link)
      (live : (t.nodes.cell node).isSome) (fresh : node ∉ front ++ back)
      (hung : t.rbLinkNode (some node) parent link = .ok linked)
      (colored : linked.rbInsertColor (some node) = .ok next) : Reaches next (front ++ node :: back)
  | erase {t next : RbTree} {addresses : List Nat} {node : Nat} (reaches : Reaches t addresses)
      (mem : node ∈ addresses) (erased : t.rbErase (some node) = .ok next) :
      Reaches next (addresses.erase node)
  | replace {t next : RbTree} {front back : List Nat} {victim rbnew : Nat}
      (reaches : Reaches t (front ++ victim :: back)) (live : (t.nodes.cell rbnew).isSome)
      (fresh : rbnew ∉ front ++ victim :: back)
      (replaced : t.rbReplaceNode (some victim) (some rbnew) = .ok next) :
      Reaches next (front ++ rbnew :: back)
  | elsewhere {t : RbTree} {addresses : List Nat} (reaches : Reaches t addresses)
      (nodes : Memory RbNode)
      (same : ∀ address ∈ addresses, nodes.cell address = t.nodes.cell address) :
      Reaches ⟨t.rbNode, nodes⟩ addresses

/-- A gap of a tree is a hole of it. -/
theorem Depicts.hole_of_gap {tree : BinTree Entry} (depicts : t.Depicts tree)
    {front back : List Nat} {parent : Option Nat} {link : Link}
    (gap : t.Gap front back parent link)
    (split : tree.inorder.map Entry.address = front ++ back) :
    ∃ context : List (Frame Entry), tree = plug context .nil ∧
      (before context).map Entry.address = front ∧ (after context).map Entry.address = back ∧
      (parentOf context).map Entry.address = parent ∧
      linkOf (context.map (Frame.map Entry.address)) = link := by
  cases gap with
  | root empty =>
      refine ⟨[], ?_, rfl, rfl, rfl, rfl⟩
      rw [depicts.root, Option.map_eq_none_iff] at empty
      exact root_eq_none_iff.mp empty
  | left cell empty =>
      rcases depicts.exists_node split with ⟨context, left, color, right, rfl, first, last⟩
      cases (read_of_cell cell).symm.trans depicts.read_node
      obtain rfl : left = .nil := root_eq_none_iff.mp (Option.map_eq_none_iff.mp empty)
      refine ⟨.left ⟨_, color⟩ right :: context, rfl, ?_, ?_, rfl, rfl⟩
      · rwa [inorder_nil, List.append_nil] at first
      · rw [after, List.cons_append, List.map_cons, last]
  | right cell empty =>
      rw [List.append_assoc, List.singleton_append] at split
      rcases depicts.exists_node split with ⟨context, left, color, right, rfl, first, last⟩
      cases (read_of_cell cell).symm.trans depicts.read_node
      obtain rfl : right = .nil := root_eq_none_iff.mp (Option.map_eq_none_iff.mp empty)
      refine ⟨.right left ⟨_, color⟩ :: context, rfl, ?_, ?_, rfl, rfl⟩
      · rw [before, List.map_append, first]
        rfl
      · rwa [inorder_nil, List.nil_append] at last

/-- A node is linked into a gap of a red-black tree and coloured. -/
theorem Orders.insert {front back : List Nat} (orders : t.Orders (front ++ back))
    {parent : Option Nat} {link : Link} (gap : t.Gap front back parent link) {node : Nat}
    (live : (t.nodes.cell node).isSome) (fresh : node ∉ front ++ back) :
    ∃ linked next, t.rbLinkNode (some node) parent link = .ok linked ∧
      linked.rbInsertColor (some node) = .ok next ∧ next.Orders (front ++ node :: back) := by
  rcases orders with ⟨tree, depicts, whole, split⟩
  rcases depicts.hole_of_gap gap split with ⟨context, rfl, rfl, rfl, rfl, rfl⟩
  refine depicts.insert whole live ?_
  intro other mem same
  apply fresh
  rw [← List.map_append, ← same]
  exact List.mem_map_of_mem mem

/-- Nothing else changes when the memory changes elsewhere. -/
theorem Orders.elsewhere {addresses : List Nat} (orders : t.Orders addresses)
    {nodes : Memory RbNode}
    (same : ∀ address ∈ addresses, nodes.cell address = t.nodes.cell address) :
    Orders ⟨t.rbNode, nodes⟩ addresses := by
  rcases orders with ⟨tree, depicts, whole, rfl⟩
  refine ⟨tree, ⟨⟨depicts.shape.1, depicts.shape.2.congr ?_⟩, depicts.distinct, ?_⟩, whole, rfl⟩
  · intro address mem
    rw [inorder_map] at mem
    rw [plain_cell, plain_cell, same address mem]
  · intro entry mem
    rw [RbTree.color, same _ (List.mem_map_of_mem mem)]
    exact depicts.color entry mem

theorem Reaches.orders {addresses : List Nat} (reaches : Reaches t addresses) :
    t.Orders addresses := by
  induction reaches with
  | empty nodes =>
      exact ⟨.nil, ⟨⟨rfl, trivial⟩, List.nodup_nil, by simp⟩, ⟨trivial, 0, rfl⟩, rfl⟩
  | insert reaches gap live fresh hung colored ih =>
      rcases ih.insert gap live fresh with ⟨_, _, hung', colored', orders⟩
      cases hung.symm.trans hung'
      cases colored.symm.trans colored'
      exact orders
  | erase reaches mem erased ih =>
      rcases ih.erase mem with ⟨_, erased', orders⟩
      cases erased.symm.trans erased'
      exact orders
  | replace reaches live fresh replaced ih =>
      rcases ih.replace live fresh with ⟨_, replaced', orders⟩
      cases replaced.symm.trans replaced'
      exact orders
  | elsewhere reaches nodes same ih => exact ih.elsewhere same

/-- In every run the tree is a red-black tree of the nodes that should be in it, in their order,
with consistent links, and the next call succeeds. -/
theorem reaches_redBlack {addresses : List Nat} (reaches : Reaches t addresses) :
    (t.RedBlack ∧ t.traverse (t.nodes.bound + 1) t.rbNode = .ok addresses ∧
      t.Consistent addresses) ∧
    (∀ front back parent link node, addresses = front ++ back → t.Gap front back parent link →
      (t.nodes.cell node).isSome → node ∉ addresses →
      ∃ linked next, t.rbLinkNode (some node) parent link = .ok linked ∧
        linked.rbInsertColor (some node) = .ok next ∧ Reaches next (front ++ node :: back)) ∧
    (∀ node ∈ addresses, ∃ next, t.rbErase (some node) = .ok next ∧
      Reaches next (addresses.erase node)) ∧
    ∀ front victim back rbnew, addresses = front ++ victim :: back →
      (t.nodes.cell rbnew).isSome → rbnew ∉ addresses →
      ∃ next, t.rbReplaceNode (some victim) (some rbnew) = .ok next ∧
        Reaches next (front ++ rbnew :: back) := by
  refine ⟨reaches.orders.redBlack, ?_, ?_, ?_⟩
  · rintro front back parent link node rfl gap live fresh
    rcases reaches.orders.insert gap live fresh with ⟨linked, next, hung, colored, _⟩
    exact ⟨linked, next, hung, colored, reaches.insert gap live fresh hung colored⟩
  · intro node mem
    rcases reaches.orders.erase mem with ⟨next, erased, _⟩
    exact ⟨next, erased, reaches.erase mem erased⟩
  · rintro front victim back rbnew rfl live fresh
    rcases reaches.orders.replace live fresh with ⟨next, replaced, _⟩
    exact ⟨next, replaced, reaches.replace live fresh replaced⟩

/-- Three nodes in memory. -/
def threeNodes : Memory RbNode :=
  ((Memory.empty.write 0 .zero).write 1 .zero).write 2 .zero

/-- Three nodes are added from left to right, which takes a rotation, and the first is erased. -/
theorem exists_reaches_three : ∃ t, Reaches t [1, 2] := by
  have none : Reaches ⟨none, threeNodes⟩ ([] ++ []) := .empty threeNodes
  have one : Reaches _ ([] ++ [0] ++ []) := none.insert (.root rfl) rfl nofun rfl rfl
  have two : Reaches _ ([] ++ [0] ++ [1] ++ []) :=
    one.insert (.right rfl rfl) rfl (by decide) rfl rfl
  have three : Reaches _ ([] ++ [0] ++ [1] ++ [2]) :=
    two.insert (.right rfl rfl) rfl (by decide) rfl rfl
  exact ⟨_, three.erase (by decide : 0 ∈ _) rfl⟩

theorem reaches_redBlack_three :
    ∃ t, Reaches t [1, 2] ∧ t.RedBlack ∧
      t.traverse (t.nodes.bound + 1) t.rbNode = .ok [1, 2] ∧ t.Consistent [1, 2] := by
  rcases exists_reaches_three with ⟨t, reaches⟩
  exact ⟨t, reaches, (reaches_redBlack reaches).1⟩

/-- In every run `rb_first` and `rb_next` go through the nodes of the tree in their order, and
`rb_last` and `rb_prev` in the other one. -/
theorem reaches_walks {addresses : List Nat} (reaches : Reaches t addresses) :
    t.rbFirst = .ok addresses.head? ∧ t.rbLast = .ok addresses.getLast? ∧
      ∀ front node back, addresses = front ++ node :: back →
        t.rbNext (some node) = .ok back.head? ∧ t.rbPrev (some node) = .ok front.getLast? :=
  reaches.orders.walks

theorem reaches_walks_three :
    ∃ t, Reaches t [1, 2] ∧ t.rbFirst = .ok (some 1) ∧ t.rbNext (some 1) = .ok (some 2) ∧
      t.rbLast = .ok (some 2) ∧ t.rbPrev (some 2) = .ok (some 1) := by
  rcases exists_reaches_three with ⟨t, reaches⟩
  rcases reaches_walks reaches with ⟨first, last, between⟩
  exact ⟨t, reaches, first, (between [] 1 [2] rfl).1, last, (between [1] 2 [] rfl).2⟩

end RbTree

end Dnsp2p.Ops
