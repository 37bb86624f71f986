import Dnsp2p.Fault
import Dnsp2p.Library.Memory

/-!
# The red-black tree library

The functions of `rbtree.c` and `rbtree.h` that operations use, over nodes in a
memory.  A pointer to a node is an optional address.
-/

namespace Dnsp2p.Ops

/-- `RB_RED` and `RB_BLACK`. -/
inductive Color where
  | red
  | black
  deriving DecidableEq, Repr

/-- `struct rb_node`. -/
structure RbNode where
  rbParent : Option Nat
  rbRight : Option Nat
  rbLeft : Option Nat
  rbColor : Color
  deriving DecidableEq, Repr

/-- A node of zero bytes. -/
def RbNode.zero : RbNode :=
  ⟨none, none, none, .red⟩

/-- `struct rb_root` and the nodes. -/
structure RbTree where
  rbNode : Option Nat
  nodes : Memory RbNode

/-- The two children of a node. -/
inductive Side where
  | left
  | right
  deriving DecidableEq, Repr

/-- The other side. -/
def Side.mirror : Side → Side
  | .left => .right
  | .right => .left

namespace RbNode

/-- `rb_left` or `rb_right`. -/
def child (node : RbNode) : Side → Option Nat
  | .left => node.rbLeft
  | .right => node.rbRight

/-- Assign to `rb_left` or `rb_right`. -/
def setChild (node : RbNode) (child : Option Nat) : Side → RbNode
  | .left => { node with rbLeft := child }
  | .right => { node with rbRight := child }

end RbNode

namespace RbTree

variable (t : RbTree)

/-- Read the node behind a pointer. -/
def read : Option Nat → Except Fault RbNode
  | none => .error .nullPointer
  | some address => match t.nodes.cell address with
    | none => .error .useAfterFree
    | some node => .ok node

/-- Change the node behind a pointer. -/
def update (pointer : Option Nat) (change : RbNode → RbNode) : Except Fault RbTree :=
  match pointer with
  | none => .error .nullPointer
  | some address => match t.nodes.cell address with
    | none => .error .useAfterFree
    | some node => .ok { t with nodes := t.nodes.write address (change node) }

/-- `if (node) node->rb_parent = parent`. -/
def setParent (node parent : Option Nat) : Except Fault RbTree :=
  if node.isSome then t.update node fun n => { n with rbParent := parent } else .ok t

/-- `if (node) node->rb_color = color`. -/
def setColor (node : Option Nat) (color : Color) : Except Fault RbTree :=
  if node.isSome then t.update node fun n => { n with rbColor := color } else .ok t

/-- Put `child` where `node` hangs below `parent`: the link on `side` is compared
with `node`, and when it is another, the link on the other side is taken for it.
Without a parent the root is set. -/
def replaceChild (side : Side) (parent node child : Option Nat) : Except Fault RbTree :=
  match parent with
  | none => .ok { t with rbNode := child }
  | some _ => do
      let p ← t.read parent
      if p.child side = node then t.update parent fun n => n.setChild child side
      else t.update parent fun n => n.setChild child side.mirror

/-! ## Linking -/

/-- A `struct rb_node **`: the root pointer or a child pointer of a node. -/
inductive Link where
  | root
  | child (parent : Nat) (side : Side)
  deriving DecidableEq, Repr

/-- `*link`. -/
def follow : Link → Except Fault (Option Nat)
  | .root => .ok t.rbNode
  | .child parent side => do
      let n ← t.read (some parent)
      return n.child side

/-- `*link = node`. -/
def assign (link : Link) (node : Option Nat) : Except Fault RbTree :=
  match link with
  | .root => .ok { t with rbNode := node }
  | .child parent side => t.update (some parent) fun n => n.setChild node side

/-- `rb_link_node`. -/
def rbLinkNode (node parent : Option Nat) (link : Link) : Except Fault RbTree := do
  let t ← t.update node fun _ =>
    { rbParent := parent, rbColor := .red, rbLeft := none, rbRight := none }
  t.assign link node

/-! ## Erasing -/

/-- `__rb_rotate_left` for the side `left`, and its mirror image. -/
def rotate (side : Side) (node : Option Nat) : Except Fault RbTree := do
  let top := (← t.read node).child side.mirror
  let inner := (← t.read top).child side
  let t ← t.update node fun n => n.setChild inner side.mirror
  let t ← t.setParent inner node
  let t ← t.update top fun n => n.setChild node side
  let parent := (← t.read node).rbParent
  let t ← t.update top fun n => { n with rbParent := parent }
  let t ← t.replaceChild side parent node top
  t.update node fun n => { n with rbParent := top }

/-- `__rb_rotate_left`. -/
def rbRotateLeft (node : Option Nat) : Except Fault RbTree :=
  t.rotate .left node

/-- `__rb_rotate_right`. -/
def rbRotateRight (node : Option Nat) : Except Fault RbTree :=
  t.rotate .right node

/-- `!node || node->rb_color == RB_BLACK`. -/
def isBlack (node : Option Nat) : Except Fault Bool :=
  if node.isSome then do return (← t.read node).rbColor == .black else .ok true

/-- What one turn of the loop of `__rb_erase_color` leaves behind. -/
inductive Turn where
  | next (t : RbTree) (node parent : Option Nat)
  | done (t : RbTree) (node : Option Nat)

/-- The body of the loop of `__rb_erase_color`, for a node that hangs on `side`
of its parent. -/
def eraseColorTurn (side : Side) (parent : Option Nat) : Except Fault Turn := do
  let other := (← t.read parent).child side.mirror
  let (t, other) ←
    if (← t.read other).rbColor = .red then do
      let t ← t.update other fun n => { n with rbColor := .black }
      let t ← t.update parent fun n => { n with rbColor := .red }
      let t ← t.rotate side parent
      pure (t, (← t.read parent).child side.mirror)
    else pure (t, other)
  let o ← t.read other
  if (← t.isBlack o.rbLeft) && (← t.isBlack o.rbRight) then do
    let t ← t.update other fun n => { n with rbColor := .red }
    return .next t parent (← t.read parent).rbParent
  else do
    let (t, other) ←
      if ← t.isBlack (o.child side.mirror) then do
        let t ← t.setColor (o.child side) .black
        let t ← t.update other fun n => { n with rbColor := .red }
        let t ← t.rotate side.mirror other
        pure (t, (← t.read parent).child side.mirror)
      else pure (t, other)
    let p ← t.read parent
    let t ← t.update other fun n => { n with rbColor := p.rbColor }
    let t ← t.update parent fun n => { n with rbColor := .black }
    let t ← t.setColor ((← t.read other).child side.mirror) .black
    let t ← t.rotate side parent
    return .done t t.rbNode

/-- The loop of `__rb_erase_color`. -/
def eraseColorLoop : Nat → RbTree → Option Nat → Option Nat → Except Fault RbTree
  | 0, _, _, _ => .error .nonterminating
  | fuel + 1, t, node, parent => do
      if (← t.isBlack node) && node ≠ t.rbNode then
        let side := if (← t.read parent).rbLeft = node then Side.left else Side.right
        match ← t.eraseColorTurn side parent with
        | .next t node parent => eraseColorLoop fuel t node parent
        | .done t node => t.setColor node .black
      else t.setColor node .black

/-- `__rb_erase_color`. -/
def rbEraseColor (node parent : Option Nat) : Except Fault RbTree :=
  eraseColorLoop (t.nodes.bound + 1) t node parent

/-- `while ((left = node->rb_left) != NULL) node = left`. -/
def leftmost : Nat → Option Nat → Except Fault (Option Nat)
  | 0, _ => .error .nonterminating
  | fuel + 1, node => do
      match (← t.read node).rbLeft with
      | none => return node
      | some left => leftmost fuel (some left)

/-- Hang the child of a node with at most one child below the parent of the node. -/
def unlink (node child parent : Option Nat) : Except Fault RbTree := do
  let t ← t.setParent child parent
  t.replaceChild .left parent node child

/-- The end of `rb_erase`. -/
def recolor (color : Color) (child parent : Option Nat) : Except Fault RbTree :=
  if color = .black then t.rbEraseColor child parent else .ok t

/-- Put `node` into the place of `old`. -/
def takePlace (old node : Option Nat) : Except Fault RbTree := do
  let o ← t.read old
  let t ← t.update node fun _ => o
  let t ← t.replaceChild .left o.rbParent old node
  let t ← t.update (← t.read old).rbLeft fun n => { n with rbParent := node }
  t.setParent (← t.read old).rbRight node

/-- `rb_erase` of a node with two children: its successor is unlinked and then
takes its place. -/
def eraseInner (old right : Option Nat) : Except Fault RbTree := do
  let node ← t.leftmost (t.nodes.bound + 1) right
  let n ← t.read node
  let t ← t.unlink node n.rbRight n.rbParent
  let parent := if (← t.read node).rbParent = old then node else n.rbParent
  let t ← t.takePlace old node
  t.recolor n.rbColor n.rbRight parent

/-- `rb_erase`. -/
def rbErase (node : Option Nat) : Except Fault RbTree := do
  let n ← t.read node
  match n.rbLeft, n.rbRight with
  | none, child | child, none => do
      let t ← t.unlink node child n.rbParent
      t.recolor n.rbColor child n.rbParent
  | some _, some _ => t.eraseInner node n.rbRight

/-! ## Walking -/

/-- `rb_first`. -/
def rbFirst : Except Fault (Option Nat) :=
  if t.rbNode.isSome then t.leftmost (t.nodes.bound + 1) t.rbNode else .ok none

/-- The loop at the end of `rb_next`, and the parent of the node where it ends. -/
def climb : Nat → Option Nat → Except Fault (Option Nat)
  | 0, _ => .error .nonterminating
  | fuel + 1, node => do
      match (← t.read node).rbParent with
      | none => return none
      | some parent =>
          if node = (← t.read (some parent)).rbRight then climb fuel (some parent)
          else return some parent

/-- `rb_next`. -/
def rbNext (node : Option Nat) : Except Fault (Option Nat) := do
  match (← t.read node).rbRight with
  | some right => t.leftmost (t.nodes.bound + 1) (some right)
  | none => t.climb (t.nodes.bound + 1) node

end RbTree

end Dnsp2p.Ops
