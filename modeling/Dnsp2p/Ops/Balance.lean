import Dnsp2p.Ops.Ledger

/-!
# Balance of the operation tree

`rbtree.h` asks for `rb_insert_color` after each `rb_link_node`, which keeps a
red-black tree and with it short ways to the leaves.  `f4op_add` only links: the
new node stays red, also at the root, and the tree is balanced only while it is
empty.
-/

namespace Dnsp2p.Ops

open BinTree

/-! ## What the insert protocol promises -/

namespace RbTree

/-- A pointer to a subtree with a root of some colour where no red node has a red
child and every way down passes the same number of black nodes. -/
inductive Balanced (t : RbTree) : Option Nat → Color → Nat → Prop where
  | nil : Balanced t none .black 0
  | red {address : Nat} {node : RbNode} {blacks : Nat}
      (cell : t.nodes.cell address = some node) (color : node.rbColor = .red)
      (left : Balanced t node.rbLeft .black blacks)
      (right : Balanced t node.rbRight .black blacks) : Balanced t (some address) .red blacks
  | black {address : Nat} {node : RbNode} {leftColor rightColor : Color} {blacks : Nat}
      (cell : t.nodes.cell address = some node) (color : node.rbColor = .black)
      (left : Balanced t node.rbLeft leftColor blacks)
      (right : Balanced t node.rbRight rightColor blacks) :
      Balanced t (some address) .black (blacks + 1)

/-- The invariant of a red-black tree. -/
def RedBlack (t : RbTree) : Prop :=
  ∃ blacks, t.Balanced t.rbNode .black blacks

end RbTree

namespace F4opCtx

variable (ctx : F4opCtx)

/-- The loop of `f4op_find`, and the number of nodes that it visits. -/
def findVisits (id : Field 20) : Nat → Option Nat → Except Fault (Nat × Option Nat)
  | 0, _ => .error .nonterminating
  | _ + 1, none => .ok (0, none)
  | fuel + 1, some n => do
      let comp := memcmp id.bytes (← ctx.read (some n)).id.bytes
      if comp < 0 then do
        let (visits, found) ← findVisits id fuel (← ctx.tree.read (some n)).rbLeft
        return (visits + 1, found)
      else if 0 < comp then do
        let (visits, found) ← findVisits id fuel (← ctx.tree.read (some n)).rbRight
        return (visits + 1, found)
      else return (1, some n)

/-- The loop of `f4op_add`, and the number of nodes that it visits. -/
def addVisits (id : Field 20) : Nat → RbTree.Link → Option Nat → Except Fault (Nat × Descent)
  | 0, _, _ => .error .nonterminating
  | fuel + 1, link, parent => do
      match ← ctx.tree.follow link with
      | none => return (0, .leaf parent link)
      | some p =>
          let comp := memcmp id.bytes (← ctx.read (some p)).id.bytes
          if comp < 0 then do
            let (visits, descent) ← addVisits id fuel (.child p .left) (some p)
            return (visits + 1, descent)
          else if 0 < comp then do
            let (visits, descent) ← addVisits id fuel (.child p .right) (some p)
            return (visits + 1, descent)
          else return (1, .found p)

/-- The tree is a red-black tree, and with `n` operations in it a search visits at
most `2 * log2 (n + 1)` nodes, here without the logarithm. -/
structure InBalance (ctx : F4opCtx) : Prop where
  redBlack : ctx.tree.RedBlack
  find : ∀ id addresses visits found,
    ctx.tree.traverse (ctx.tree.nodes.bound + 1) ctx.tree.rbNode = .ok addresses →
    ctx.findVisits id (ctx.tree.nodes.bound + 1) ctx.tree.rbNode = .ok (visits, found) →
    2 ^ visits ≤ (addresses.length + 1) ^ 2
  add : ∀ id addresses visits descent,
    ctx.tree.traverse (ctx.tree.nodes.bound + 1) ctx.tree.rbNode = .ok addresses →
    ctx.addVisits id (ctx.tree.nodes.bound + 1) .root none = .ok (visits, descent) →
    2 ^ visits ≤ (addresses.length + 1) ^ 2

variable {ctx}

/-- Counting does not change what the loop of `f4op_find` returns. -/
theorem findVisits_snd (id : Field 20) (fuel : Nat) (n : Option Nat) :
    Prod.snd <$> ctx.findVisits id fuel n = ctx.findLoop id fuel n := by
  induction fuel generalizing n with
  | zero => rfl
  | succ fuel ih =>
      cases n with
      | none => rfl
      | some n =>
          simp only [findVisits, findLoop, map_bind]
          congr 1
          funext op
          split
          · simp only [map_bind, ← ih]
            rfl
          · split
            · simp only [map_bind, ← ih]
              rfl
            · rfl

/-- Counting does not change what the loop of `f4op_add` returns. -/
theorem addVisits_snd (id : Field 20) (fuel : Nat) (link : RbTree.Link) (parent : Option Nat) :
    Prod.snd <$> ctx.addVisits id fuel link parent = ctx.addLoop id fuel link parent := by
  induction fuel generalizing link parent with
  | zero => rfl
  | succ fuel ih =>
      simp only [addVisits, addLoop, map_bind]
      congr 1
      funext p
      cases p with
      | none => rfl
      | some p =>
          simp only [map_bind]
          congr 1
          funext op
          split
          · rw [← ih]
            cases ctx.addVisits id fuel (.child p .left) (some p) <;> rfl
          · split
            · rw [← ih]
              cases ctx.addVisits id fuel (.child p .right) (some p) <;> rfl
            · rfl

end F4opCtx

/-! ## A red-black tree has short ways -/

namespace RbTree.Balanced

variable {t : RbTree} {pointer : Option Nat} {color : Color} {blacks : Nat}

/-- The traversal of a node is made of the traversals below it. -/
theorem traverse_some {address : Nat} {node : RbNode} (cell : t.nodes.cell address = some node)
    {fuel : Nat} {addresses : List Nat}
    (traversed : t.traverse fuel (some address) = .ok addresses) :
    ∃ less lefts rights, t.traverse less node.rbLeft = .ok lefts ∧
      t.traverse less node.rbRight = .ok rights ∧
      addresses.length + 1 = (lefts.length + 1) + (rights.length + 1) := by
  cases fuel with
  | zero => cases traversed
  | succ less =>
      rw [traverse, read_of_cell cell, ok_bind] at traversed
      rcases bind_eq_ok_iff.mp traversed with ⟨lefts, leftTraversed, traversed⟩
      rcases bind_eq_ok_iff.mp traversed with ⟨rights, rightTraversed, joined⟩
      cases joined
      refine ⟨less, lefts, rights, leftTraversed, rightTraversed, ?_⟩
      simp only [List.length_append, List.length_cons]
      omega

/-- A subtree has at least as many nodes as a complete one of its black nodes. -/
theorem two_pow_le (balanced : t.Balanced pointer color blacks) {fuel : Nat}
    {addresses : List Nat} (traversed : t.traverse fuel pointer = .ok addresses) :
    2 ^ blacks ≤ addresses.length + 1 := by
  induction balanced generalizing fuel addresses with
  | nil => simp
  | red cell _ _ _ leftIh rightIh =>
      rcases traverse_some cell traversed with ⟨less, lefts, rights, inLeft, inRight, sum⟩
      have below := leftIh inLeft
      omega
  | black cell _ _ _ leftIh rightIh =>
      rcases traverse_some cell traversed with ⟨less, lefts, rights, inLeft, inRight, sum⟩
      have leftBelow := leftIh inLeft
      have rightBelow := rightIh inRight
      rw [pow_succ]
      omega

/-- How many nodes a way down a subtree may have: there are no two red ones in a row. -/
def ways (blacks : Nat) : Color → Nat
  | .red => 2 * blacks + 1
  | .black => 2 * blacks

theorem ways_le (blacks : Nat) (color : Color) : ways blacks color ≤ 2 * blacks + 1 := by
  cases color <;> simp [ways]

end RbTree.Balanced

namespace F4opCtx

variable {ctx : F4opCtx}

/-- One more node is visited. -/
theorem visits_succ {α : Type} {rest : Except Fault (Nat × α)} {most : Nat}
    (returns : Returns rest fun result => result.1 ≤ most) :
    Returns (rest >>= fun result => .ok (result.1 + 1, result.2))
      fun result => result.1 ≤ most + 1 :=
  returns.bind fun _ short => .ok (Nat.succ_le_succ short)

/-- A way through a node is one longer than the ways below it. -/
theorem findVisits_node {id : Field 20} {address : Nat} {node : RbNode} {most : Nat}
    (cell : ctx.tree.nodes.cell address = some node)
    (left : ∀ fuel, Returns (ctx.findVisits id fuel node.rbLeft) fun result => result.1 ≤ most)
    (right : ∀ fuel, Returns (ctx.findVisits id fuel node.rbRight) fun result => result.1 ≤ most)
    (fuel : Nat) :
    Returns (ctx.findVisits id fuel (some address)) fun result => result.1 ≤ most + 1 := by
  cases fuel with
  | zero => exact .fault _ _
  | succ fuel =>
      rw [findVisits, RbTree.read_of_cell cell]
      apply Returns.bind_any
      intro op
      apply Returns.ite
      · exact visits_succ (left fuel)
      · apply Returns.ite
        · exact visits_succ (right fuel)
        · exact .ok (Nat.le_add_left 1 most)

/-- The loop of `f4op_find` visits no more nodes than a way down has. -/
theorem findVisits_le {pointer : Option Nat} {color : Color} {blacks : Nat}
    (balanced : ctx.tree.Balanced pointer color blacks) (id : Field 20) (fuel : Nat) :
    Returns (ctx.findVisits id fuel pointer) fun result =>
      result.1 ≤ RbTree.Balanced.ways blacks color := by
  induction balanced generalizing fuel with
  | nil =>
      cases fuel with
      | zero => exact .fault _ _
      | succ fuel => exact .ok (Nat.zero_le _)
  | red cell _ _ _ leftIh rightIh => exact findVisits_node cell leftIh rightIh fuel
  | black cell _ _ _ leftIh rightIh =>
      apply findVisits_node cell
      · intro less result returned
        exact (leftIh less result returned).trans (RbTree.Balanced.ways_le _ _)
      · intro less result returned
        exact (rightIh less result returned).trans (RbTree.Balanced.ways_le _ _)

/-- The loop of `f4op_add` visits the nodes that the loop of `f4op_find` visits. -/
theorem findVisits_of_addVisits {id : Field 20} {fuel : Nat} {link : RbTree.Link}
    {parent : Option Nat} {visits : Nat} {descent : Descent}
    (added : ctx.addVisits id fuel link parent = .ok (visits, descent)) :
    ∃ pointer found, ctx.tree.follow link = .ok pointer ∧
      ctx.findVisits id fuel pointer = .ok (visits, found) := by
  induction fuel generalizing link parent visits with
  | zero => cases added
  | succ fuel ih =>
      have below : ∀ p side visits, ctx.addVisits id fuel (.child p side) (some p) =
          .ok (visits, descent) → ∃ node found, ctx.tree.read (some p) = .ok node ∧
            ctx.findVisits id fuel (node.child side) = .ok (visits, found) := by
        intro p side visits further
        rcases ih further with ⟨pointer, found, hangs, count⟩
        rcases bind_eq_ok_iff.mp hangs with ⟨node, nodeRead, same⟩
        cases same
        exact ⟨node, found, nodeRead, count⟩
      rw [addVisits] at added
      rcases bind_eq_ok_iff.mp added with ⟨pointer, hangs, turn⟩
      cases pointer with
      | none =>
          cases turn
          exact ⟨none, none, hangs, rfl⟩
      | some p =>
          rcases bind_eq_ok_iff.mp turn with ⟨op, opRead, turn⟩
          refine ⟨some p, ?_⟩
          rw [findVisits, opRead, ok_bind]
          dsimp only at turn ⊢
          split at turn
          · next less =>
            rcases bind_eq_ok_iff.mp turn with ⟨⟨visits', _⟩, further, counted⟩
            cases counted
            rcases below p .left visits' further with ⟨node, found, nodeRead, count⟩
            rw [if_pos less, nodeRead, ok_bind, show node.rbLeft = node.child .left from rfl, count]
            exact ⟨found, hangs, rfl⟩
          · next notLess =>
            split at turn
            · next greater =>
              rcases bind_eq_ok_iff.mp turn with ⟨⟨visits', _⟩, further, counted⟩
              cases counted
              rcases below p .right visits' further with ⟨node, found, nodeRead, count⟩
              rw [if_neg notLess, if_pos greater, nodeRead, ok_bind,
                show node.rbRight = node.child .right from rfl, count]
              exact ⟨found, hangs, rfl⟩
            · next notGreater =>
              cases turn
              rw [if_neg notLess, if_neg notGreater]
              exact ⟨some p, hangs, rfl⟩

/-- With the red-black invariant the searches are short. -/
theorem inBalance_iff : ctx.InBalance ↔ ctx.tree.RedBlack := by
  constructor
  · exact InBalance.redBlack
  · intro redBlack
    have short : ∀ id addresses visits found,
        ctx.tree.traverse (ctx.tree.nodes.bound + 1) ctx.tree.rbNode = .ok addresses →
        ctx.findVisits id (ctx.tree.nodes.bound + 1) ctx.tree.rbNode = .ok (visits, found) →
        2 ^ visits ≤ (addresses.length + 1) ^ 2 := by
      intro id addresses visits found traversed count
      rcases redBlack with ⟨blacks, balanced⟩
      calc 2 ^ visits ≤ 2 ^ (2 * blacks) :=
            Nat.pow_le_pow_right (by omega) (findVisits_le balanced id _ _ count)
        _ = (2 ^ blacks) ^ 2 := by rw [Nat.mul_comm, pow_mul]
        _ ≤ (addresses.length + 1) ^ 2 := Nat.pow_le_pow_left (balanced.two_pow_le traversed) 2
    refine ⟨redBlack, short, fun id addresses visits descent traversed count => ?_⟩
    rcases findVisits_of_addVisits count with ⟨pointer, found, hangs, count⟩
    cases hangs
    exact short id addresses visits found traversed count

end F4opCtx

/-! ## The tree of the program -/

/-- A tree of red nodes is balanced only when it is empty. -/
theorem redBlack_iff_nil {t : RbTree} {tree : BinTree Nat} (represents : t.Represents tree) :
    t.RedBlack ↔ tree = .nil := by
  constructor
  · rintro ⟨blacks, balanced⟩
    rw [represents.1] at balanced
    cases tree with
    | nil => rfl
    | node left address right =>
        cases balanced with
        | black cell color =>
            cases represents.2.1.symm.trans cell
            cases color
  · rintro rfl
    exact ⟨0, represents.1 ▸ .nil⟩

namespace Describes

variable {ledger : Ledger} {ctx : F4opCtx} {tree : BinTree Nat}

theorem inBalance_iff_nil (describes : Describes ledger ctx tree) : ctx.InBalance ↔ tree = .nil :=
  F4opCtx.inBalance_iff.trans (redBlack_iff_nil describes.valid.represents)

/-- The context is in balance exactly when no operation is in the tree. -/
theorem inBalance_iff (describes : Describes ledger ctx tree) :
    ctx.InBalance ↔ ∀ id, ledger.holder id = none := by
  rw [describes.inBalance_iff_nil]
  constructor
  · rintro rfl id
    rw [Option.eq_none_iff_forall_ne_some]
    intro address held
    simpa using ((describes.holder id address).mp held).1
  · intro free
    rw [← root_eq_none_iff]
    cases top : tree.root with
    | none => rfl
    | some address =>
        rcases (describes.mem_iff address).mp (mem_of_root top) with ⟨id, held⟩
        simp [free] at held

end Describes

end Dnsp2p.Ops
