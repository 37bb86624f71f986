import Dnsp2p.Ops.Coloring

/-!
# Removal from a red-black tree

`rb_erase` and `__rb_erase_color` on a tree whose colours are maintained.
-/

namespace Dnsp2p.Ops

open BinTree

namespace RbTree

/-! ## The parts of a turn -/

section Parts

variable (t : RbTree) (side : Side) (parent other : Option Nat)

/-- The last branch of a turn: a sibling with a red far child comes above the parent. -/
def liftOther : Except Fault Turn := do
  let p ← t.read parent
  let t ← t.update other fun n => { n with rbColor := p.rbColor }
  let t ← t.update parent fun n => { n with rbColor := .black }
  let t ← t.setColor ((← t.read other).child side.mirror) .black
  let t ← t.rotate side parent
  return .done t t.rbNode

/-- A turn from the place on where the sibling is black. -/
def blackOther : Except Fault Turn := do
  let o ← t.read other
  if (← t.isBlack o.rbLeft) && (← t.isBlack o.rbRight) then do
    let t ← t.update other fun n => { n with rbColor := .red }
    return .next t parent (← t.read parent).rbParent
  else if ← t.isBlack (o.child side.mirror) then do
    let t ← t.setColor (o.child side) .black
    let t ← t.update other fun n => { n with rbColor := .red }
    let t ← t.rotate side.mirror other
    t.liftOther side parent ((← t.read parent).child side.mirror)
  else t.liftOther side parent other

/-- A turn first gets a black sibling. -/
theorem eraseColorTurn_eq : t.eraseColorTurn side parent = (do
    let other := (← t.read parent).child side.mirror
    if (← t.read other).rbColor = .red then do
      let t ← t.update other fun n => { n with rbColor := .black }
      let t ← t.update parent fun n => { n with rbColor := .red }
      let t ← t.rotate side parent
      t.blackOther side parent ((← t.read parent).child side.mirror)
    else t.blackOther side parent other) :=
  rfl

end Parts

/-- The loop has come up to a tree in which each way down is one black node short. -/
structure Sinking (t : RbTree) (context : List (Frame Entry)) (tree : BinTree Entry) : Prop where
  depicts : t.Depicts (plug context tree)
  lowered : Lowered Entry.Red context tree

variable {t : RbTree} {side : Side} {context up : List (Frame Entry)}
  {tree beside near far : BinTree Entry} {parent other : Entry}

/-- With a red far child of the sibling the loop ends. -/
theorem Sinking.liftOther
    (sinking : t.Sinking (.on side.mirrored parent (join side.mirrored near other far) :: up) tree)
    (rootBlack : RootBlack Entry.Red tree) (black : ¬ other.Red)
    (farRed : ¬ RootBlack Entry.Red far) :
    ∃ next, t.liftOther side (some parent.address) (some other.address) =
        .ok (.done next next.rbNode) ∧
      next.Orders ((plug (.on side.mirrored parent (join side.mirrored near other far) :: up)
        tree).inorder.map Entry.address) := by
  rcases exists_red_root side.mirrored farRed with ⟨first, outer, second, rfl, outerRed⟩
  have depicts := sinking.depicts
  rw [plug_on] at depicts
  have parentRead := depicts.read
  rw [← plug_on_not] at depicts
  rcases depicts.paint parent.color with ⟨one, otherPainted, depicts⟩
  rw [plug_on_not] at depicts
  rcases depicts.paint .black with ⟨two, parentBlack, depicts⟩
  rw [← plug_on_not] at depicts
  have otherRead := depicts.read
  rw [← plug_on_not] at depicts
  rcases depicts.paint .black with ⟨three, outerBlack, depicts⟩
  rw [plug_on_not, plug_on_not] at depicts
  rcases depicts.rotate with ⟨four, rotated, depicts⟩
  refine ⟨four, ?_, _, depicts, ?_, ?_⟩
  · rw [RbTree.liftOther, parentRead, ok_bind, RbNode.rbColor_paired, otherPainted, ok_bind,
      parentBlack, ok_bind, otherRead, ok_bind, RbNode.child_far, root_join, Option.map_some,
      setColor, if_pos Option.isSome_some, outerBlack, ok_bind, rotated]
    rfl
  · exact sinking.lowered.outer rootBlack black outerRed (not_red_black _) (not_red_black _) .rfl
  · rw [plug_on]
    cases side <;> simp [join, Side.mirrored]

/-- What a turn with a black sibling leaves. -/
theorem Sinking.blackOther
    (sinking : t.Sinking (.on side.mirrored parent (join side.mirrored near other far) :: up) tree)
    (rootBlack : RootBlack Entry.Red tree) (black : ¬ other.Red) :
    ∃ next, (∃ tree', t.blackOther side (some parent.address) (some other.address) =
          .ok (.next next (some parent.address) ((parentOf up).map Entry.address)) ∧
        next.Sinking up tree' ∧ tree'.root = some parent ∧
        (plug up tree').inorder.map Entry.address =
          (plug (.on side.mirrored parent (join side.mirrored near other far) :: up)
            tree).inorder.map Entry.address) ∨
      t.blackOther side (some parent.address) (some other.address) =
          .ok (.done next next.rbNode) ∧
        next.Orders ((plug (.on side.mirrored parent (join side.mirrored near other far) :: up)
          tree).inorder.map Entry.address) := by
  have depicts := sinking.depicts
  rw [plug_on, ← plug_on_not] at depicts
  have otherRead := depicts.read
  rcases depicts.bothBlack ((parentOf (.on (!side.mirrored) parent tree :: up)).map Entry.address)
    other.color with ⟨first, second, leftKnown, rightKnown, both_iff⟩
  by_cases both : RootBlack Entry.Red near ∧ RootBlack Entry.Red far
  · -- the sibling becomes red
    rcases depicts.paint .red with ⟨next, painted, depicts⟩
    rw [plug_on_not] at depicts
    have parentRead := depicts.read
    refine ⟨next, .inl ⟨_, ?_, ⟨depicts, sinking.lowered.higher rootBlack black both.1 both.2 rfl⟩,
      root_join _ _ _ _, ?_⟩⟩
    · rw [RbTree.blackOther, otherRead, ok_bind, leftKnown, ok_bind, rightKnown, ok_bind,
        if_pos (both_iff.mpr both), painted, ok_bind, parentRead, ok_bind, RbNode.rbParent_paired]
      rfl
    · rw [plug_on]
      cases side <;> simp [join, Side.mirrored]
  · by_cases farBlack : RootBlack Entry.Red far
    · -- the near child is red and comes into the place of the sibling
      rcases exists_red_root side.mirrored fun nearBlack => both ⟨nearBlack, farBlack⟩ with
        ⟨third, inner, fourth, rfl, innerRed⟩
      have farKnown : t.isBlack (far.root.map Entry.address) = .ok true := by
        have depicts := depicts
        rw [← plug_on_not] at depicts
        exact depicts.isBlack_of_rootBlack farBlack
      rw [← plug_on] at depicts
      rcases depicts.paint .black with ⟨one, innerBlack, depicts⟩
      rw [plug_on] at depicts
      rcases depicts.paint .red with ⟨two, otherRed, depicts⟩
      rcases depicts.rotate_mirror with ⟨three, rotated, depicts⟩
      rw [plug_on_not] at depicts
      have parentRead := depicts.read
      rw [← plug_on] at depicts
      have sinking' : three.Sinking (.on side.mirrored parent (join side.mirrored third
          ⟨inner.address, .black⟩ (join side.mirrored fourth ⟨other.address, .red⟩ far)) :: up)
          tree :=
        ⟨depicts, sinking.lowered.inner rootBlack black innerRed farBlack (not_red_black _) rfl⟩
      rcases sinking'.liftOther rootBlack (not_red_black _)
        (mt (rootBlack_join _ _ _ _).mp (not_not.mpr rfl)) with ⟨next, lifted, addresses⟩
      refine ⟨next, .inr ⟨?_, ?_⟩⟩
      · rw [RbTree.blackOther, otherRead, ok_bind, leftKnown, ok_bind, rightKnown, ok_bind,
          if_neg (mt both_iff.mp both), RbNode.child_far, farKnown, ok_bind, if_pos rfl,
          RbNode.child_near, root_join, Option.map_some, setColor, if_pos Option.isSome_some,
          innerBlack, ok_bind, otherRed, ok_bind, rotated, ok_bind, parentRead, ok_bind,
          RbNode.child_far, root_join, Option.map_some]
        exact lifted
      · convert addresses using 1
        rw [plug_on, plug_on]
        cases side <;> simp [join, Side.mirrored]
    · rcases sinking.liftOther rootBlack black farBlack with ⟨next, lifted, addresses⟩
      have farKnown : t.isBlack (far.root.map Entry.address) = .ok false := by
        rw [← plug_on_not] at depicts
        rw [depicts.isBlack, decide_eq_false farBlack]
      refine ⟨next, .inr ⟨?_, addresses⟩⟩
      rw [RbTree.blackOther, otherRead, ok_bind, leftKnown, ok_bind, rightKnown, ok_bind,
        if_neg (mt both_iff.mp both), RbNode.child_far, farKnown, ok_bind,
        if_neg Bool.false_ne_true]
      exact lifted

/-- What a turn leaves: the loop goes on at a parent, or it has ended. -/
theorem Sinking.turn
    (sinking : t.Sinking (.on side.mirrored parent beside :: up) tree)
    (rootBlack : RootBlack Entry.Red tree) :
    ∃ next, (∃ up' tree', t.eraseColorTurn side (some parent.address) =
          .ok (.next next (tree'.root.map Entry.address) ((parentOf up').map Entry.address)) ∧
        next.Sinking up' tree' ∧ (up'.length ≤ up.length ∨ ¬ RootBlack Entry.Red tree') ∧
        (plug up' tree').inorder.map Entry.address =
          (plug (.on side.mirrored parent beside :: up) tree).inorder.map Entry.address) ∨
      t.eraseColorTurn side (some parent.address) = .ok (.done next next.rbNode) ∧
        next.Orders
          ((plug (.on side.mirrored parent beside :: up) tree).inorder.map Entry.address) := by
  rcases sinking.lowered.sibling rootBlack with ⟨near, other, far, rfl⟩
  have depicts := sinking.depicts
  rw [plug_on] at depicts
  have parentRead := depicts.read
  rw [← plug_on_not] at depicts
  have otherRead := depicts.read
  rw [root_join, Option.map_some] at parentRead
  by_cases otherRed : other.Red
  · -- a rotation puts a black sibling into the place of the red one
    have isRed : other.color = .red := otherRed
    rcases sinking.lowered.redSibling rootBlack otherRed
      (rfl : Entry.Red ⟨parent.address, .red⟩) (not_red_black other.address) with
      ⟨lowered, nearBlack⟩
    rcases depicts.paint .black with ⟨one, otherBlack, depicts⟩
    rw [plug_on_not] at depicts
    rcases depicts.paint .red with ⟨two, parentRed, depicts⟩
    rcases depicts.rotate with ⟨three, rotated, depicts⟩
    rw [← plug_on] at depicts
    have parentRead' := depicts.read
    rw [← plug_on] at depicts
    rcases lowered.sibling rootBlack with ⟨first, next, second, rfl⟩
    rw [root_join, Option.map_some] at parentRead'
    have sinking' : three.Sinking _ tree := ⟨depicts, lowered⟩
    have turned : t.eraseColorTurn side (some parent.address) =
        three.blackOther side (some parent.address) (some next.address) := by
      rw [eraseColorTurn_eq, parentRead, ok_bind]
      dsimp only
      rw [RbNode.child_far, otherRead, ok_bind, RbNode.rbColor_paired, if_pos isRed, otherBlack,
        ok_bind, parentRed, ok_bind, rotated, ok_bind, parentRead', ok_bind, RbNode.child_far]
    have addresses : (plug (.on side.mirrored ⟨parent.address, .red⟩
        (join side.mirrored first next second) :: .on side.mirrored ⟨other.address, .black⟩ far ::
          up) tree).inorder.map Entry.address =
        (plug (.on side.mirrored parent (join side.mirrored (join side.mirrored first next second)
          other far) :: up) tree).inorder.map Entry.address := by
      rw [plug_on, plug_on, plug_on]
      cases side <;> simp [join, Side.mirrored]
    rw [turned, ← addresses]
    rcases sinking'.blackOther rootBlack ((rootBlack_join _ _ _ _).mp nearBlack) with
      ⟨last, ⟨tree', ran, sinking'', root, same⟩ | ended⟩
    · refine ⟨last, .inl ⟨_, tree', ?_, sinking'', .inr ?_, same⟩⟩
      · rw [ran, root]
        rfl
      · cases tree' with
        | nil => cases root
        | node =>
            cases root
            exact not_not.mpr rfl
    · exact ⟨last, .inr ended⟩
  · have turned : t.eraseColorTurn side (some parent.address) =
        t.blackOther side (some parent.address) (some other.address) := by
      rw [eraseColorTurn_eq, parentRead, ok_bind]
      dsimp only
      rw [RbNode.child_far, otherRead, ok_bind, RbNode.rbColor_paired]
      exact if_neg otherRed
    rw [turned]
    rcases sinking.blackOther rootBlack otherRed with
      ⟨last, ⟨tree', ran, sinking', root, same⟩ | ended⟩
    · refine ⟨last, .inl ⟨up, tree', ?_, sinking', .inl (Nat.le_refl _), same⟩⟩
      rw [ran, root]
      rfl
    · exact ⟨last, .inr ended⟩

/-- What is left of the tree is painted black at its root. -/
theorem Orders.paintRoot {addresses : List Nat} (orders : t.Orders addresses) :
    ∃ next, t.setColor t.rbNode .black = .ok next ∧ next.Orders addresses := by
  rcases orders with ⟨tree, depicts, ⟨rootBlack, n, balanced⟩, same⟩
  cases tree with
  | nil =>
      refine ⟨t, ?_, .nil, depicts, ⟨rootBlack, n, balanced⟩, same⟩
      rw [depicts.root]
      rfl
  | node left top right =>
      have rooted := depicts.root
      have depicts : t.Depicts (plug [] (join Side.left.mirrored left top right)) := depicts
      rcases depicts.paint .black with ⟨next, painted, depicts⟩
      refine ⟨next, ?_, _, depicts, balanced.blacken (not_red_black _), ?_⟩
      · rw [rooted, setColor]
        exact painted
      · rw [← same]
        simp [join, Side.mirrored]

/-- The loop ends with a red-black tree. -/
theorem Sinking.loop {fuel : Nat} (sinking : t.Sinking context tree)
    (enough : context.length < fuel ∨ 0 < fuel ∧ ¬ RootBlack Entry.Red tree) :
    ∃ next, eraseColorLoop fuel t (tree.root.map Entry.address)
        ((parentOf context).map Entry.address) = .ok next ∧
      next.Orders ((plug context tree).inorder.map Entry.address) := by
  induction fuel generalizing t context tree with
  | zero => omega
  | succ fuel ih =>
      have known := sinking.depicts.isBlack
      by_cases rootBlack : RootBlack Entry.Red tree
      · rw [decide_eq_true rootBlack] at known
        cases context with
        | nil =>
            have whole : t.Orders ((plug [] tree).inorder.map Entry.address) :=
              ⟨tree, sinking.depicts, sinking.lowered.whole rootBlack, rfl⟩
            rcases whole.paintRoot with ⟨next, painted, orders⟩
            refine ⟨next, ?_, orders⟩
            have top : tree.root.map Entry.address = t.rbNode := sinking.depicts.root.symm
            rw [eraseColorLoop, known, ok_bind, if_neg (by simp [top]), top, painted]
        | cons frame up =>
            rcases frame.exists_on with ⟨mirrored, same⟩
            generalize frame.label = parent, frame.beside = beside at same
            subst same
            rcases exists_mirrored mirrored with ⟨side, rfl⟩
            have depicts := sinking.depicts
            have apart := depicts.root_ne
            rw [plug_on] at depicts
            have parentRead := depicts.read
            have differ : tree.root.map Entry.address ≠ beside.root.map Entry.address := by
              intro same
              rcases sinking.lowered.sibling rootBlack with ⟨near, other, far, rfl⟩
              have missing := congrArg BinTree.root (depicts.roots_apart same).2
              rw [root_join] at missing
              cases missing
            rw [parentOf_cons, Frame.label_on, Option.map_some, eraseColorLoop, known, ok_bind,
              if_pos (by simpa using apart), parentRead, ok_bind]
            dsimp only
            rw [RbNode.side_of_rbLeft _ _ _ _ _ differ]
            rcases sinking.turn rootBlack with
              ⟨next, ⟨up', tree', ran, sinking', short, same⟩ | ⟨ran, orders⟩⟩
            · rw [ran, ok_bind, ← same]
              refine ih sinking' ?_
              rw [List.length_cons] at enough
              by_cases rootBlack' : RootBlack Entry.Red tree'
              · have shorter := short.resolve_right (not_not.mpr rootBlack')
                have room := enough.resolve_right fun red => red.2 rootBlack
                exact .inl (by omega)
              · have room := enough.resolve_right fun red => red.2 rootBlack
                exact .inr ⟨by omega, rootBlack'⟩
            · rw [ran, ok_bind]
              exact orders.paintRoot
      · rw [decide_eq_false rootBlack] at known
        rcases exists_red_root false rootBlack with ⟨left, top, right, rfl, red⟩
        have depicts : t.Depicts (plug context (join Side.left.mirrored left top right)) :=
          sinking.depicts
        rcases depicts.paint .black with ⟨next, painted, depicts⟩
        refine ⟨next, ?_, _, depicts, sinking.lowered.repaint red (not_red_black _), ?_⟩
        · rw [eraseColorLoop, known, ok_bind, if_neg (by simp), root_join, Option.map_some,
            setColor, if_pos Option.isSome_some]
          exact painted
        · simp [join, Side.mirrored]

/-! ## Erasing -/

/-- The end of `rb_erase` puts the tree in order. -/
theorem Depicts.recolor {color : Color} (depicts : t.Depicts (plug context tree))
    (red : color = .red → IsRedBlack Entry.Red (plug context tree))
    (black : color = .black → Lowered Entry.Red context tree) :
    ∃ next, t.recolor color (tree.root.map Entry.address)
        ((parentOf context).map Entry.address) = .ok next ∧
      next.Orders ((plug context tree).inorder.map Entry.address) := by
  cases color with
  | red => exact ⟨t, rfl, _, depicts, red rfl, rfl⟩
  | black =>
      have room := (length_add_le_plug context tree).trans depicts.length_le
      have sinking : t.Sinking context tree := ⟨depicts, black rfl⟩
      exact sinking.loop (.inl (by omega : context.length < t.nodes.bound + 1))

/-- A node without one of its children is erased. -/
theorem Depicts.eraseOuter {child : BinTree Entry} {entry : Entry}
    (depicts : t.Depicts (plug context (join side.mirrored .nil entry child)))
    (whole : IsRedBlack Entry.Red (plug context (join side.mirrored .nil entry child))) :
    ∃ unlinked next, t.unlink (some entry.address) (child.root.map Entry.address)
        ((parentOf context).map Entry.address) = .ok unlinked ∧
      unlinked.recolor entry.color (child.root.map Entry.address)
        ((parentOf context).map Entry.address) = .ok next ∧
      next.Orders ((plug context child).inorder.map Entry.address) := by
  rcases depicts.unlink with ⟨unlinked, ran, depicts, _⟩
  have red (isRed : entry.color = .red) : IsRedBlack Entry.Red (plug context child) :=
    Lowered.unneeded whole isRed
  have black (isBlack : entry.color = .black) : Lowered Entry.Red context child :=
    Lowered.start whole (Entry.not_red isBlack)
  rcases depicts.recolor red black with ⟨next, recolored, orders⟩
  exact ⟨unlinked, next, ran, recolored, orders⟩

/-- The loop over left links ends at the first node. -/
theorem Depicts.leftmost {parent : Option Nat} {tree : BinTree Nat}
    (links : Links t.plain.nodes parent tree) {first : Nat} {rest : List Nat}
    (inorder : tree.inorder = first :: rest) {fuel : Nat} (enough : tree.inorder.length ≤ fuel) :
    t.leftmost fuel tree.root = .ok (some first) := by
  have inner : tree ≠ .nil := by
    rintro rfl
    cases inorder
  rcases leftmost_eq links inner enough with ⟨around, node, right, rfl, none, walk⟩
  rw [inorder_plug, none] at inorder
  cases inorder
  rwa [leftmost_plain] at walk

/-- A node with two children is erased: its successor takes its place and its colour. -/
theorem Depicts.eraseInner {left right : BinTree Entry} {entry : Entry}
    (depicts : t.Depicts (plug context (.node left entry right)))
    (whole : IsRedBlack Entry.Red (plug context (.node left entry right)))
    (leftInner : left ≠ .nil) (rightInner : right ≠ .nil) :
    ∃ next, t.eraseInner (some entry.address) (right.root.map Entry.address) = .ok next ∧
      next.Orders ((before context ++ left.inorder ++ right.inorder ++ after context).map
        Entry.address) := by
  rcases exists_leftmost rightInner with ⟨inner, succ, child, rfl, none⟩
  -- the successor is found
  have walk : t.leftmost (t.nodes.bound + 1)
      ((plug inner (.node .nil succ child)).root.map Entry.address) = .ok (some succ.address) := by
    have links := depicts.shape
    rw [map_plug, represents_plug_iff] at links
    have inorder : ((plug inner (.node .nil succ child)).map Entry.address).inorder =
        succ.address :: (child.inorder ++ after inner).map Entry.address := by
      rw [inorder_map, inorder_plug, none]
      rfl
    have room := (length_add_le_plug context _).trans depicts.length_le
    rw [← root_map]
    refine Depicts.leftmost links.2.2.2 inorder ?_
    rw [inorder_map, List.length_map]
    rw [inorder_node, List.length_append, List.length_cons] at room
    omega
  -- and unlinked
  have nested (top : Entry) (tree : BinTree Entry) :
      plug context (.node left top (plug inner tree)) =
        plug (inner ++ .on true top left :: context) tree := by
    rw [plug_append, plug_on]
    rfl
  -- the parent that the loop starts from is the one after the exchange
  have parents : (if (parentOf (inner ++ .on true entry left :: context)).map Entry.address =
        some entry.address then some succ.address
      else (parentOf (inner ++ .on true entry left :: context)).map Entry.address) =
      (parentOf (inner ++ .on true ⟨succ.address, entry.color⟩ left :: context)).map
        Entry.address := by
    cases inner with
    | nil => exact if_pos rfl
    | cons frame inner =>
        have depicts : t.Depicts (plug context (join Side.left.mirrored left entry
          (plug (frame :: inner) (.node .nil succ child)))) := depicts
        have differ : frame.label.address ≠ entry.address := by
          apply depicts.apart
          have mem := label_mem frame inner
          rw [inorder_plug]
          simp only [List.mem_append] at mem ⊢
          tauto
        simp [differ]
  rw [nested] at depicts whole
  have depicts : t.Depicts (plug (inner ++ .on true entry left :: context)
    (join Side.left.mirrored .nil succ child)) := depicts
  have succRead := depicts.read_node
  have succLive : (t.nodes.cell succ.address).isSome := by rw [depicts.cell]; rfl
  rcases depicts.unlink with ⟨unlinked, ran, depicts', kept⟩
  have again : unlinked.read (some succ.address) = t.read (some succ.address) := by
    rw [RbTree.read, RbTree.read, kept]
  have fresh : ∀ other ∈ (plug context (.node left entry (plug inner child))).inorder,
      other.address ≠ succ.address := by
    intro other mem
    rw [nested] at mem
    apply depicts.apart other
    simpa using (inorder_plug_perm _ _).mem_iff.mp mem
  -- it takes the place of the node
  rw [← nested] at depicts'
  rcases depicts'.takePlace (by rwa [kept]) leftInner fresh with ⟨placed, took, depicts''⟩
  rw [nested] at depicts''
  have whole : IsRedBlack Entry.Red (plug (inner ++ .on true entry left :: context)
    (join false .nil succ child)) := whole
  have same : Entry.Red entry ↔ Entry.Red ⟨succ.address, entry.color⟩ := .rfl
  have red (isRed : succ.color = .red) : IsRedBlack Entry.Red
      (plug (inner ++ .on true ⟨succ.address, entry.color⟩ left :: context) child) :=
    .relabel same (Lowered.unneeded whole isRed)
  have black (isBlack : succ.color = .black) : Lowered Entry.Red
      (inner ++ .on true ⟨succ.address, entry.color⟩ left :: context) child :=
    .relabel same (Lowered.start whole (Entry.not_red isBlack))
  rcases depicts''.recolor red black with ⟨next, recolored, orders⟩
  refine ⟨next, ?_, ?_⟩
  · rw [RbTree.eraseInner, walk, ok_bind, succRead, ok_bind]
    dsimp only
    rw [ran, ok_bind, again, succRead, ok_bind]
    dsimp only
    rw [took, ok_bind, parents]
    exact recolored
  · convert orders using 1
    simp [before_append, after_append, none, Frame.on, before, after]

/-- `rb_erase` takes one node out of a red-black tree. -/
theorem Orders.erase {addresses : List Nat} (orders : t.Orders addresses) {node : Nat}
    (mem : node ∈ addresses) :
    ∃ next, t.rbErase (some node) = .ok next ∧ next.Orders (addresses.erase node) := by
  rcases orders with ⟨tree, depicts, whole, rfl⟩
  rcases List.mem_map.mp mem with ⟨entry, entryMem, rfl⟩
  rcases exists_plug entryMem with ⟨context, left, right, rfl⟩
  have entryRead := depicts.read_node
  have rest : ((plug context (.node left entry right)).inorder.map Entry.address).erase
      entry.address = (before context ++ left.inorder ++ right.inorder ++ after context).map
        Entry.address := by
    have distinct := depicts.distinct
    simp only [inorder_plug, inorder_node, List.append_assoc, List.cons_append, List.map_append,
      List.map_cons] at distinct ⊢
    rw [← List.append_assoc, List.erase_append_right _ (by grind), List.erase_cons_head,
      List.append_assoc]
  rw [rest]
  cases left with
  | nil =>
      have depicts : t.Depicts (plug context (join Side.left.mirrored .nil entry right)) := depicts
      rcases depicts.eraseOuter whole with ⟨unlinked, next, ran, recolored, orders⟩
      refine ⟨next, ?_, by simpa using orders⟩
      rw [rbErase, entryRead, ok_bind]
      simp only [root_nil, Option.map_none, ran, ok_bind]
      exact recolored
  | node leftLeft leftTop leftRight =>
      cases right with
      | nil =>
          have depicts : t.Depicts (plug context (join Side.right.mirrored .nil entry
            (.node leftLeft leftTop leftRight))) := depicts
          rcases depicts.eraseOuter whole with ⟨unlinked, next, ran, recolored, orders⟩
          refine ⟨next, ?_, by simpa using orders⟩
          rw [rbErase, entryRead, ok_bind]
          dsimp only [root_node, root_nil, Option.map_some, Option.map_none] at ran ⊢
          rw [ran]
          exact recolored
      | node =>
          rcases depicts.eraseInner whole (by simp) (by simp) with ⟨next, ran, orders⟩
          refine ⟨next, ?_, orders⟩
          rw [rbErase, entryRead, ok_bind]
          exact ran

end RbTree

end Dnsp2p.Ops
