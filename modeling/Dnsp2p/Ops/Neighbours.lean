import Dnsp2p.Ops.Coloring
import Dnsp2p.Ops.Teardown

/-!
# Walking in both directions

`rb_last` and `rb_prev` beside `rb_first` and `rb_next`.  A walk to the left is a walk to the
right in the mirror image of the tree.
-/

namespace Dnsp2p.Ops

namespace RbTree

variable (t : RbTree)

/-- `while (n->rb_right) n = n->rb_right`. -/
def rightmost : Nat → Option Nat → Except Fault (Option Nat)
  | 0, _ => .error .nonterminating
  | fuel + 1, n => do
      match (← t.read n).rbRight with
      | none => return n
      | some right => rightmost fuel (some right)

/-- `rb_last`. -/
def rbLast : Except Fault (Option Nat) :=
  if t.rbNode.isSome then t.rightmost (t.nodes.bound + 1) t.rbNode else .ok none

/-- The loop at the end of `rb_prev`, and the parent of the node where it ends. -/
def climbLeft : Nat → Option Nat → Except Fault (Option Nat)
  | 0, _ => .error .nonterminating
  | fuel + 1, node => do
      match (← t.read node).rbParent with
      | none => return none
      | some parent =>
          if node = (← t.read (some parent)).rbLeft then climbLeft fuel (some parent)
          else return some parent

/-- `rb_prev`. -/
def rbPrev (node : Option Nat) : Except Fault (Option Nat) := do
  match (← t.read node).rbLeft with
  | some left => t.rightmost (t.nodes.bound + 1) (some left)
  | none => t.climbLeft (t.nodes.bound + 1) node

end RbTree

open BinTree

/-! ## The mirror image -/

/-- The node with its children exchanged. -/
def RbNode.mirror (node : RbNode) : RbNode :=
  { node with rbRight := node.rbLeft, rbLeft := node.rbRight }

/-- The tree with the children of each node exchanged. -/
def RbTree.mirror (t : RbTree) : RbTree where
  rbNode := t.rbNode
  nodes := t.nodes.map RbNode.mirror

/-- The tree seen from behind. -/
def flip : BinTree Nat → BinTree Nat
  | .nil => .nil
  | .node left address right => .node (flip right) address (flip left)

@[simp]
theorem root_flip (tree : BinTree Nat) : (flip tree).root = tree.root := by
  cases tree <;> rfl

@[simp]
theorem inorder_flip (tree : BinTree Nat) : (flip tree).inorder = tree.inorder.reverse := by
  induction tree with
  | nil => rfl
  | node left address right leftIh rightIh => simp [flip, leftIh, rightIh]

theorem Links.mirror {nodes : Memory RbNode} {parent : Option Nat} {tree : BinTree Nat}
    (links : Links nodes parent tree) : Links (nodes.map RbNode.mirror) parent (flip tree) := by
  induction tree generalizing parent with
  | nil => trivial
  | node left address right leftIh rightIh =>
      rcases links with ⟨cell, leftLinks, rightLinks⟩
      refine ⟨?_, rightIh rightLinks, leftIh leftLinks⟩
      rw [Memory.map_cell, cell, Option.map_some, root_flip, root_flip]
      rfl

namespace RbTree

variable {t : RbTree}

theorem Represents.mirror {tree : BinTree Nat} (represents : t.Represents tree) :
    t.mirror.Represents (flip tree) :=
  ⟨represents.1.trans (root_flip tree).symm, represents.2.mirror⟩

theorem read_mirror (pointer : Option Nat) :
    t.mirror.read pointer = RbNode.mirror <$> t.read pointer := by
  cases pointer with
  | none => rfl
  | some address =>
      simp only [read, mirror, Memory.map_cell]
      cases t.nodes.cell address <;> rfl

theorem leftmost_mirror (fuel : Nat) (pointer : Option Nat) :
    t.mirror.leftmost fuel pointer = t.rightmost fuel pointer := by
  induction fuel generalizing pointer with
  | zero => rfl
  | succ fuel ih =>
      simp only [leftmost, rightmost, read_mirror]
      cases t.read pointer with
      | error => rfl
      | ok node =>
          cases right : node.rbRight with
          | none => simp [RbNode.mirror, right]
          | some child => simp [RbNode.mirror, right, ih]

theorem climb_mirror (fuel : Nat) (pointer : Option Nat) :
    t.mirror.climb fuel pointer = t.climbLeft fuel pointer := by
  induction fuel generalizing pointer with
  | zero => rfl
  | succ fuel ih =>
      simp only [climb, climbLeft, read_mirror]
      cases t.read pointer with
      | error => rfl
      | ok node =>
          cases above : node.rbParent with
          | none => simp [RbNode.mirror, above]
          | some parent =>
              simp only [Except.map_ok, ok_bind, RbNode.mirror, above]
              cases t.read (some parent) with
              | error => rfl
              | ok parentNode =>
                  simp only [Except.map_ok, ok_bind, ih]
                  rfl

theorem rbFirst_mirror : t.mirror.rbFirst = t.rbLast := by
  simp only [rbFirst, rbLast, leftmost_mirror]
  rfl

theorem rbNext_mirror (node : Option Nat) : t.mirror.rbNext node = t.rbPrev node := by
  simp only [rbNext, rbPrev, read_mirror]
  cases t.read node with
  | error => rfl
  | ok n =>
      cases left : n.rbLeft with
      | none =>
          simp only [Except.map_ok, ok_bind, RbNode.mirror, left]
          exact climb_mirror _ _
      | some child =>
          simp only [Except.map_ok, ok_bind, RbNode.mirror, left]
          exact leftmost_mirror _ _

/-! ## Colours do not matter -/

theorem climb_plain (fuel : Nat) (pointer : Option Nat) :
    t.plain.climb fuel pointer = t.climb fuel pointer := by
  induction fuel generalizing pointer with
  | zero => rfl
  | succ fuel ih =>
      simp only [climb, read_plain]
      cases t.read pointer with
      | error => rfl
      | ok node =>
          cases above : node.rbParent with
          | none => simp [RbNode.plain, above]
          | some parent =>
              simp only [Except.map_ok, ok_bind, RbNode.plain, above]
              cases t.read (some parent) with
              | error => rfl
              | ok parentNode =>
                  simp only [Except.map_ok, ok_bind, ih]
                  rfl

theorem rbFirst_plain : t.plain.rbFirst = t.rbFirst := by
  simp only [rbFirst, leftmost_plain]
  rfl

theorem rbNext_plain (node : Option Nat) : t.plain.rbNext node = t.rbNext node := by
  simp only [rbNext, read_plain]
  cases t.read node with
  | error => rfl
  | ok n =>
      cases right : n.rbRight with
      | none =>
          simp only [Except.map_ok, ok_bind, RbNode.plain, right]
          exact climb_plain _ _
      | some child =>
          simp only [Except.map_ok, ok_bind, RbNode.plain, right]
          exact leftmost_plain _ _

theorem mirror_plain : t.mirror.plain = t.plain.mirror := by
  simp only [mirror, plain, Memory.map, Option.map_map]
  rfl

/-! ## Neighbours in the traversal -/

theorem rbNext_of_split {tree : BinTree Nat} (represents : t.Represents tree)
    (distinct : tree.inorder.Nodup) (enough : tree.inorder.length ≤ t.nodes.bound)
    {front back : List Nat} {node : Nat} (split : tree.inorder = front ++ node :: back) :
    t.rbNext (some node) = .ok back.head? := by
  have mem : node ∈ tree.inorder := by simp [split]
  rcases exists_plug mem with ⟨context, left, right, rfl⟩
  have whole : (before context ++ left.inorder) ++ node :: (right.inorder ++ after context) =
      front ++ node :: back := by
    rw [← split]
    simp
  have apart := distinct
  rw [split, ← whole, List.nodup_middle, List.nodup_cons, List.mem_append, not_or] at apart
  rcases (List.append_cons_inj_of_notMem apart.1.1 apart.1.2).mp whole with ⟨_, _, rfl⟩
  exact rbNext_eq represents distinct enough

/-- In a red-black tree of nodes the walks to both sides follow the order of the nodes. -/
theorem Orders.walks {addresses : List Nat} (orders : t.Orders addresses) :
    t.rbFirst = .ok addresses.head? ∧ t.rbLast = .ok addresses.getLast? ∧
      ∀ front node back, addresses = front ++ node :: back →
        t.rbNext (some node) = .ok back.head? ∧ t.rbPrev (some node) = .ok front.getLast? := by
  rcases orders with ⟨tree, depicts, _, rfl⟩
  have shape := depicts.shape
  have behind := shape.mirror
  have distinct := depicts.distinct
  have room := depicts.length_le
  rw [← inorder_map] at distinct
  rw [← List.length_map Entry.address, ← inorder_map] at room
  rw [← mirror_plain] at behind
  have distinct' : (flip (tree.map Entry.address)).inorder.Nodup := by
    rwa [inorder_flip, List.nodup_reverse]
  have room' : (flip (tree.map Entry.address)).inorder.length ≤ t.nodes.bound := by
    rwa [inorder_flip, List.length_reverse]
  refine ⟨?_, ?_, ?_⟩
  · rw [← rbFirst_plain, rbFirst_eq shape (room.trans (Nat.le_succ _)), inorder_map]
  · rw [← rbFirst_mirror, ← rbFirst_plain, rbFirst_eq behind (room'.trans (Nat.le_succ _)),
      inorder_flip, inorder_map, List.head?_reverse]
  · intro front node back split
    rw [← inorder_map] at split
    constructor
    · rw [← rbNext_plain]
      exact rbNext_of_split shape distinct room split
    · have split' : (flip (tree.map Entry.address)).inorder =
          back.reverse ++ node :: front.reverse := by
        rw [inorder_flip, split, List.reverse_append, List.reverse_cons, List.append_assoc,
          List.singleton_append]
      rw [← rbNext_mirror, ← rbNext_plain, rbNext_of_split behind distinct' room' split',
        List.head?_reverse]

end RbTree

end Dnsp2p.Ops
