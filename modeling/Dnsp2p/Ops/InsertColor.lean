import Dnsp2p.Ops.Coloring

/-!
# Insertion into a red-black tree

`rb_insert_color`, which `rbtree.h` asks for after `rb_link_node`.
-/

namespace Dnsp2p.Ops

namespace RbTree

variable (t : RbTree)

/-- The last three lines of a branch of the loop of `rb_insert_color`. -/
def liftParent (side : Side) (parent gparent : Option Nat) : Except Fault RbTree := do
  let t ← t.update parent fun n => { n with rbColor := .black }
  let t ← t.update gparent fun n => { n with rbColor := .red }
  t.rotate side.mirror gparent

/-- The body of the loop of `rb_insert_color`, for a parent that hangs on `side` of
the grandparent: the tree and the node after it. -/
def insertColorTurn (side : Side) (node parent gparent : Option Nat) :
    Except Fault (RbTree × Option Nat) := do
  let uncle := (← t.read gparent).child side.mirror
  if !(← t.isBlack uncle) then do
    let t ← t.update uncle fun n => { n with rbColor := .black }
    let t ← t.update parent fun n => { n with rbColor := .black }
    let t ← t.update gparent fun n => { n with rbColor := .red }
    return (t, gparent)
  else do
    let (t, node, parent) ←
      if (← t.read parent).child side.mirror = node then do
        let t ← t.rotate side parent
        pure (t, parent, node)
      else pure (t, node, parent)
    return (← t.liftParent side parent gparent, node)

/-- The loop of `rb_insert_color`. -/
def insertColorLoop : Nat → RbTree → Option Nat → Except Fault RbTree
  | 0, _, _ => .error .nonterminating
  | fuel + 1, t, node => do
      let parent := (← t.read node).rbParent
      if ← t.isBlack parent then return t
      else do
        let gparent := (← t.read parent).rbParent
        let side := if parent = (← t.read gparent).rbLeft then Side.left else Side.right
        let (t, node) ← t.insertColorTurn side node parent gparent
        insertColorLoop fuel t node

/-- `rb_insert_color`. -/
def rbInsertColor (node : Option Nat) : Except Fault RbTree := do
  let t ← insertColorLoop (t.nodes.bound + 1) t node
  t.update t.rbNode fun n => { n with rbColor := .black }

/-! ## The loop -/

open BinTree

/-- The loop has come up to a red node, and all is well below it. -/
structure Rising (t : RbTree) (node : Nat) (context : List (Frame Entry)) (tree : BinTree Entry) :
    Prop where
  depicts : t.Depicts (plug context tree)
  root : tree.root = some ⟨node, .red⟩
  raised : Raised Entry.Red context tree

variable {t} {node : Nat} {context up : List (Frame Entry)} {tree beside uncle : BinTree Entry}
  {parent gparent : Entry}

/-- With a red uncle the loop goes on at the grandparent. -/
theorem Rising.turn_recolor {place side : Side}
    (rising : t.Rising node
      (.on place.mirrored parent beside :: .on side.mirrored gparent uncle :: up) tree)
    (red : parent.Red) (uncleRed : ¬ RootBlack Entry.Red uncle) :
    ∃ next tree', t.insertColorTurn side (some node) (some parent.address) (some gparent.address) =
        .ok (next, some gparent.address) ∧
      next.Rising gparent.address up tree' ∧
      (plug up tree').inorder.map Entry.address =
        (plug (.on place.mirrored parent beside :: .on side.mirrored gparent uncle :: up)
          tree).inorder.map Entry.address := by
  rcases exists_red_root side.mirrored uncleRed with ⟨near, other, far, rfl, otherRed⟩
  have depicts := rising.depicts
  rw [plug_on, plug_on] at depicts
  have gparentRead := depicts.read
  rw [← plug_on_not] at depicts
  have uncleKnown := depicts.isBlack_of_red otherRed
  rcases depicts.paint .black with ⟨first, uncleBlack, depicts⟩
  rw [plug_on_not, ← plug_on] at depicts
  rcases depicts.paint .black with ⟨second, parentBlack, depicts⟩
  rw [plug_on] at depicts
  rcases depicts.paint .red with ⟨third, gparentRed, depicts⟩
  refine ⟨third, _, ?_, ⟨depicts, root_join _ _ _ _, ?_⟩, ?_⟩
  · simp only [insertColorTurn, gparentRead, ok_bind, RbNode.child_far, root_join, Option.map_some,
      uncleKnown, Bool.not_false, if_true, uncleBlack, parentBlack, gparentRed, pure_eq_ok]
  · exact rising.raised.recolor red otherRed (not_red_black _) (not_red_black _) rfl
  · rw [plug_on, plug_on]
    cases place <;> cases side <;> simp [join, Side.mirrored]

/-- A parent on the outer side comes above the grandparent and is black then. -/
theorem Rising.lift {side : Side}
    (rising : t.Rising node
      (.on side.mirrored parent beside :: .on side.mirrored gparent uncle :: up) tree)
    (red : parent.Red) (uncleBlack : RootBlack Entry.Red uncle) :
    ∃ next context', t.liftParent side (some parent.address) (some gparent.address) = .ok next ∧
      next.Rising node context' tree ∧ BlackAbove Entry.Red context' ∧
      (plug context' tree).inorder.map Entry.address =
        (plug (.on side.mirrored parent beside :: .on side.mirrored gparent uncle :: up)
          tree).inorder.map Entry.address := by
  have depicts := rising.depicts
  rw [plug_on] at depicts
  rcases depicts.paint .black with ⟨first, parentBlack, depicts⟩
  rw [plug_on] at depicts
  rcases depicts.paint .red with ⟨second, gparentRed, depicts⟩
  rcases depicts.rotate_mirror with ⟨third, rotated, depicts⟩
  rw [← plug_on] at depicts
  refine ⟨third, _, ?_, ⟨depicts, rising.root, ?_⟩, ?_, ?_⟩
  · rw [liftParent, parentBlack, ok_bind, gparentRed, ok_bind, rotated]
  · exact rising.raised.outer red uncleBlack (not_red_black _) rfl
  · rw [blackAbove_cons, Frame.label_on]
    exact not_red_black _
  · rw [plug_on, plug_on, plug_on]
    cases side <;> simp [join, Side.mirrored]

/-- With a black uncle the loop comes below a black node. -/
theorem Rising.turn_lift {place side : Side}
    (rising : t.Rising node
      (.on place.mirrored parent beside :: .on side.mirrored gparent uncle :: up) tree)
    (red : parent.Red) (uncleBlack : RootBlack Entry.Red uncle) :
    ∃ next node' context' tree', t.insertColorTurn side (some node) (some parent.address)
        (some gparent.address) = .ok (next, some node') ∧
      next.Rising node' context' tree' ∧ BlackAbove Entry.Red context' ∧
      (plug context' tree').inorder.map Entry.address =
        (plug (.on place.mirrored parent beside :: .on side.mirrored gparent uncle :: up)
          tree).inorder.map Entry.address := by
  have depicts := rising.depicts
  rw [plug_on, plug_on] at depicts
  have gparentRead := depicts.read
  rw [← plug_on_not] at depicts
  have uncleKnown := depicts.isBlack_of_rootBlack uncleBlack
  rw [plug_on_not, ← plug_on] at depicts
  have parentRead := depicts.read
  by_cases outside : place = side
  · -- the tree hangs on the outer side
    subst outside
    have differ : ¬ beside.root.map Entry.address = some node := by
      intro same
      rw [(depicts.roots_apart (by rw [same, rising.root]; rfl)).1] at rising
      cases rising.root
    rcases rising.lift red uncleBlack with ⟨next, context', lifted, rising', above, same⟩
    refine ⟨next, node, context', tree, ?_, rising', above, same⟩
    simp only [insertColorTurn, gparentRead, parentRead, ok_bind, RbNode.child_far, uncleKnown,
      Bool.not_true, Bool.false_eq_true, if_false, differ, pure_eq_ok, lifted]
  · -- the tree hangs on the inner side, and a rotation exchanges it with its parent
    obtain rfl : place = side.mirror := by cases place <;> cases side <;> simp_all [Side.mirror]
    cases tree with
    | nil => cases rising.root
    | node left top right =>
        obtain rfl : top = ⟨node, .red⟩ := Option.some.inj rising.root
        rcases exists_join side.mirrored left ⟨node, .red⟩ right with ⟨near, far, same⟩
        rw [same] at rising depicts parentRead ⊢
        rw [Side.mirrored_mirror, join_not] at depicts
        have parentRead := depicts.read
        rcases depicts.rotate with ⟨first, rotated, depicts⟩
        rw [← plug_on] at depicts
        have raised := rising.raised
        rw [Side.mirrored_mirror] at raised
        have rising' : first.Rising parent.address
            (.on side.mirrored ⟨node, .red⟩ far :: .on side.mirrored gparent uncle :: up)
            (join side.mirrored beside parent near) := by
          refine ⟨depicts, ?_, raised.inner red rfl⟩
          rw [root_join, ← red]
        rcases rising'.lift rfl uncleBlack with ⟨next, context', lifted, rising'', above, same⟩
        refine ⟨next, parent.address, context', _, ?_, rising'', above, ?_⟩
        · simp only [insertColorTurn, gparentRead, parentRead, ok_bind, RbNode.child_far,
            uncleKnown, Bool.not_true, Bool.false_eq_true, if_false, root_join, Option.map_some,
            if_true, rotated, pure_eq_ok, lifted]
        · rw [same, plug_on, plug_on, plug_on, plug_on, Side.mirrored_mirror, join_not,
            inorder_plug, inorder_plug]
          cases side <;> simp [join, Side.mirrored]

/-- At the root or below a black node the loop ends. -/
theorem Rising.loop_done (rising : t.Rising node context tree)
    (above : context = [] ∨ BlackAbove Entry.Red context) (fuel : Nat) :
    insertColorLoop (fuel + 1) t (some node) = .ok t := by
  have depicts := rising.depicts
  cases tree with
  | nil => cases rising.root
  | node left top right =>
      obtain rfl : top = ⟨node, .red⟩ := Option.some.inj rising.root
      have nodeRead := depicts.read_node
      have known : t.isBlack ((parentOf context).map Entry.address) = .ok true := by
        rcases above with rfl | above
        · rfl
        · cases context with
          | nil => simp [BlackAbove, parentOf] at above
          | cons frame up =>
              rcases frame.exists_on with ⟨mirrored, same⟩
              rw [blackAbove_cons] at above
              rw [same, plug_on] at depicts
              have known := depicts.isBlack_of_rootBlack ((rootBlack_join _ _ _ _).mpr above)
              rwa [root_join, ← parentOf_cons frame up] at known
      rw [insertColorLoop, nodeRead, ok_bind]
      dsimp only
      rw [known, ok_bind, if_pos rfl]
      rfl

/-- Below a red node the loop takes a turn. -/
theorem Rising.loop_turn {place side : Side}
    (rising : t.Rising node
      (.on place.mirrored parent beside :: .on side.mirrored gparent uncle :: up) tree)
    (red : parent.Red) (fuel : Nat) :
    insertColorLoop (fuel + 1) t (some node) =
      t.insertColorTurn side (some node) (some parent.address) (some gparent.address) >>=
        fun next => insertColorLoop fuel next.1 next.2 := by
  have depicts := rising.depicts
  cases tree with
  | nil => cases rising.root
  | node left top right =>
      obtain rfl : top = ⟨node, .red⟩ := Option.some.inj rising.root
      have nodeRead := depicts.read_node
      rw [plug_on] at depicts
      have parentKnown := depicts.isBlack_of_red red
      have parentRead := depicts.read
      rw [plug_on] at depicts
      have gparentRead := depicts.read
      have differ : some parent.address ≠ uncle.root.map Entry.address := by
        intro same
        have apart := congrArg BinTree.root (depicts.roots_apart (by rw [root_join, ← same]; rfl)).1
        rw [root_join] at apart
        cases apart
      rw [insertColorLoop, nodeRead, ok_bind, parentOf_cons, Frame.label_on, Option.map_some]
      dsimp only
      rw [parentKnown, ok_bind, if_neg Bool.false_ne_true, parentRead, ok_bind,
        RbNode.rbParent_paired, parentOf_cons, Frame.label_on, Option.map_some, gparentRead,
        ok_bind, root_join, Option.map_some, RbNode.side_of_left _ _ _ _ _ differ]

/-- The loop ends with a tree in which only the root may be red. -/
theorem Rising.loop {fuel : Nat} (rising : t.Rising node context tree)
    (enough : context.length < fuel) :
    ∃ next tree' n, insertColorLoop fuel t (some node) = .ok next ∧ next.Depicts tree' ∧
      tree' ≠ .nil ∧ tree'.RedBlack Entry.Red n ∧
      tree'.inorder.map Entry.address = (plug context tree).inorder.map Entry.address := by
  induction fuel generalizing t node context tree with
  | zero => exact absurd enough (Nat.not_lt_zero _)
  | succ fuel ih =>
      have inner : tree ≠ .nil := by
        rintro rfl
        cases rising.root
      cases context with
      | nil =>
          rcases rising.raised with ⟨n, balanced, _⟩
          exact ⟨t, tree, n, rising.loop_done (.inl rfl) fuel, rising.depicts, inner, balanced, rfl⟩
      | cons frame up =>
          by_cases red : frame.label.Red
          · -- the parent is red, so there is a grandparent
            rcases frame.exists_on with ⟨mirrored, same⟩
            generalize frame.label = parent, frame.beside = beside at same red
            subst same
            rcases exists_mirrored mirrored with ⟨place, rfl⟩
            have above := rising.raised.gparent_black red
            cases up with
            | nil => simp [BlackAbove, parentOf] at above
            | cons frame up =>
                rcases frame.exists_on with ⟨mirrored, same⟩
                generalize frame.label = gparent, frame.beside = uncle at same
                subst same
                rcases exists_mirrored mirrored with ⟨side, rfl⟩
                rw [List.length_cons, List.length_cons] at enough
                have turn := rising.loop_turn red fuel
                by_cases uncleBlack : RootBlack Entry.Red uncle
                · rcases rising.turn_lift red uncleBlack with
                    ⟨next, node', context', tree', lifted, rising', above, addresses⟩
                  obtain ⟨less, rfl⟩ : ∃ less, fuel = less + 1 := ⟨fuel - 1, by omega⟩
                  rcases rising'.raised.done above with ⟨_, n, balanced⟩
                  have whole : tree' ≠ .nil := by
                    rintro rfl
                    cases rising'.root
                  refine ⟨next, _, n, ?_, rising'.depicts, plug_ne_nil whole _, balanced, addresses⟩
                  rw [turn, lifted, ok_bind]
                  exact rising'.loop_done (.inr above) less
                · rcases rising.turn_recolor red uncleBlack with
                    ⟨next, tree', recolored, rising', addresses⟩
                  rw [recolored, ok_bind] at turn
                  rcases ih rising' (by omega) with
                    ⟨last, tree'', n, looped, depicts, whole, balanced, addresses'⟩
                  exact ⟨last, tree'', n, turn.trans looped, depicts, whole, balanced,
                    addresses'.trans addresses⟩
          · have above : BlackAbove Entry.Red (frame :: up) := blackAbove_cons.mpr red
            rcases rising.raised.done above with ⟨_, n, balanced⟩
            exact ⟨t, _, n, rising.loop_done (.inr above) fuel, rising.depicts,
              plug_ne_nil inner _, balanced, rfl⟩

/-- A node that is linked into a hole of a red-black tree and then given to `rb_insert_color` is
part of a red-black tree. -/
theorem Depicts.insert {t : RbTree} {node : Nat} (depicts : t.Depicts (plug context .nil))
    (whole : IsRedBlack Entry.Red (plug context .nil)) (live : (t.nodes.cell node).isSome)
    (fresh : ∀ other ∈ before context ++ after context, other.address ≠ node) :
    ∃ linked next,
      t.rbLinkNode (some node) ((parentOf context).map Entry.address)
        (linkOf (context.map (Frame.map Entry.address))) = .ok linked ∧
      linked.rbInsertColor (some node) = .ok next ∧
      next.Orders ((before context).map Entry.address ++
        node :: (after context).map Entry.address) := by
  rcases depicts.link live fresh with ⟨linked, hung, depicts⟩
  have rising : linked.Rising node context (.node .nil ⟨node, .red⟩ .nil) :=
    ⟨depicts, rfl, .leaf whole rfl⟩
  have room := (length_add_le_plug context _).trans depicts.length_le
  rcases rising.loop (by omega : context.length < linked.nodes.bound + 1) with
    ⟨looped, tree, n, ran, depicts, inner, balanced, addresses⟩
  cases tree with
  | nil => exact absurd rfl inner
  | node left top right =>
      have rooted := depicts.root
      have depicts : looped.Depicts (plug [] (join Side.left.mirrored left top right)) := depicts
      rcases depicts.paint .black with ⟨next, painted, depicts⟩
      refine ⟨linked, next, hung, ?_, _, depicts, balanced.blacken (not_red_black _), ?_⟩
      · rw [rbInsertColor, ran, ok_bind, rooted]
        exact painted
      · simpa [join, Side.mirrored] using addresses

end RbTree

end Dnsp2p.Ops
