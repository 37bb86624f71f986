import Dnsp2p.Ops.Coloring

/-!
# Replacing a node

`rb_replace_node` puts a node of the caller into the place of one of the tree.
-/

namespace Dnsp2p.Ops

open BinTree

namespace RbTree

/-- `rb_replace_node`. -/
def rbReplaceNode (t : RbTree) (victim rbnew : Option Nat) : Except Fault RbTree := do
  let parent := (← t.read victim).rbParent
  let t ← t.replaceChild .left parent victim rbnew
  let t ← t.setParent (← t.read victim).rbLeft rbnew
  let t ← t.setParent (← t.read victim).rbRight rbnew
  let v ← t.read victim
  t.update rbnew fun _ => v

variable {t : RbTree}

/-- In a tree of red nodes another node takes the place of one of the tree. -/
theorem rbReplaceNode_hole {context : List (Frame Nat)} {left right : BinTree Nat}
    {victim rbnew : Nat} (represents : t.Represents (plug context (.node left victim right)))
    (live : (t.nodes.cell rbnew).isSome)
    (distinct : (before context ++ left.inorder ++ rbnew :: victim :: right.inorder ++
      after context).Nodup) :
    ∃ next, t.rbReplaceNode (some victim) (some rbnew) = .ok next ∧
      next.Represents (plug context (.node left rbnew right)) := by
  rcases represents_plug_iff.mp represents with ⟨surrounds, victimCell, leftLinks, rightLinks⟩
  change t.nodes.cell victim = some _ at victimCell
  -- the link from above
  obtain ⟨hung, assigned, surroundsHung, hungChanged⟩ :=
    assign_hole surrounds (by grind) (some rbnew)
  have untouched : ∀ address ∉ before context ++ after context,
      hung.nodes.cell address = t.nodes.cell address :=
    fun address apart => hungChanged.frame address (notMem_parentOf apart)
  have hungVictim := (untouched victim (by grind)).trans victimCell
  -- the parent pointers below
  obtain ⟨first, leftSet, leftDone, leftChanged⟩ := setParent_root
    (leftLinks.congr fun address mem => untouched address (by grind)) (by grind) (some rbnew)
  have firstVictim := (leftChanged.frame victim (notMem_root (by grind))).trans hungVictim
  have rightHung : Links first (some victim) right := by
    apply rightLinks.congr
    intro address mem
    rw [leftChanged.frame address (notMem_root (by grind)), untouched address (by grind)]
  obtain ⟨second, rightSet, rightDone, rightChanged⟩ :=
    setParent_root (t := { hung with nodes := first }) rightHung (by grind) (some rbnew)
  have secondVictim := (rightChanged.frame victim (notMem_root (by grind))).trans firstVictim
  have kept : ∀ address ∉ left.inorder ++ right.inorder,
      second.cell address = hung.nodes.cell address := by
    intro address apart
    rw [rightChanged.frame address (notMem_root (by grind)),
      leftChanged.frame address (notMem_root (by grind))]
  -- the copy
  have newLive : (second.cell rbnew).isSome := by
    rw [kept rbnew (by grind), untouched rbnew (by grind)]
    exact live
  rcases Option.isSome_iff_exists.mp newLive with ⟨stale, newCell⟩
  have copied : Changed second (second.write rbnew ⟨parentOf context, right.root, left.root, .red⟩)
      [rbnew] := .write newCell _
  refine ⟨{ hung with nodes := second.write rbnew _ }, ?_,
    represents_plug_iff.mpr ⟨?_, Memory.write_cell_self _ _ _, ?_, ?_⟩⟩
  · rw [rbReplaceNode, read_of_cell victimCell, ok_bind]
    dsimp only
    rw [replaceChild_hole surrounds (by grind), assigned, ok_bind, read_of_cell hungVictim, ok_bind]
    dsimp only
    rw [leftSet, ok_bind, read_of_cell (t := { hung with nodes := first }) firstVictim, ok_bind]
    dsimp only
    rw [rightSet, ok_bind, read_of_cell (t := { hung with nodes := second }) secondVictim, ok_bind,
      update_of_cell (t := { hung with nodes := second }) newCell]
  · refine surroundsHung.congr rfl fun address mem => ?_
    rw [copied.frame address (by grind), kept address (by grind)]
  · refine leftDone.congr fun address mem => ?_
    rw [copied.frame address (by grind), rightChanged.frame address (notMem_root (by grind))]
  · exact rightDone.congr fun address mem => copied.frame address (by grind)

/-- The node that comes takes the colour of the node that goes. -/
theorem Shadows.rbReplaceNode (t : RbTree) (victim rbnew : Nat) :
    Shadows (t.rbReplaceNode (some victim) (some rbnew))
      (t.plain.rbReplaceNode (some victim) (some rbnew))
      fun other => if other = rbnew then t.color victim else t.color other := by
  apply read
  intro v _
  apply (replaceChild t _ _ _ _).bind
  intro first firstColor
  apply read
  intro v _
  apply (setParent first _ _).bind
  intro second secondColor
  apply read
  intro v _
  apply (setParent second _ _).bind
  intro third thirdColor
  apply read
  intro v reads
  have known : t.color victim = some v.rbColor := by
    rw [← firstColor, ← secondColor, ← thirdColor, RbTree.color]
    cases cell : third.nodes.cell victim with
    | none => simp [RbTree.read, cell] at reads
    | some node =>
        cases (read_of_cell cell).symm.trans reads
        rfl
  rw [known, ← firstColor, ← secondColor, ← thirdColor]
  exact overwrite third rbnew v

/-- A node of a red-black tree is replaced by one that is in no tree. -/
theorem Orders.replace {front back : List Nat} {victim rbnew : Nat}
    (orders : t.Orders (front ++ victim :: back)) (live : (t.nodes.cell rbnew).isSome)
    (fresh : rbnew ∉ front ++ victim :: back) :
    ∃ next, t.rbReplaceNode (some victim) (some rbnew) = .ok next ∧
      next.Orders (front ++ rbnew :: back) := by
  rcases orders with ⟨tree, depicts, whole, split⟩
  rcases depicts.exists_node split with ⟨context, left, color, right, rfl, rfl, rfl⟩
  have shape := depicts.shape
  have distinct := depicts.distinct
  rw [← split] at fresh
  rw [map_plug] at shape
  have distinct' : (before (context.map (Frame.map Entry.address)) ++
      (left.map Entry.address).inorder ++ rbnew :: victim :: (right.map Entry.address).inorder ++
        after (context.map (Frame.map Entry.address))).Nodup := by
    rw [before_map, after_map, inorder_map, inorder_map]
    simp only [inorder_plug, inorder_node, List.map_append, List.map_cons] at fresh distinct
    grind
  have plainLive : (t.plain.nodes.cell rbnew).isSome := by rwa [plain_cell, Option.isSome_map]
  rcases rbReplaceNode_hole shape plainLive distinct' with ⟨plain, replaced, shape'⟩
  have shadows := Shadows.rbReplaceNode t victim rbnew
  rw [replaced] at shadows
  rcases shadows.exists_ok with ⟨next, returned, rfl, colors⟩
  have depicts : t.Depicts (plug context (join Side.left.mirrored left ⟨victim, color⟩ right)) :=
    depicts
  have known : t.color victim = some color :=
    depicts.color ⟨victim, color⟩ ((inorder_around_perm _ _ _ _ _).mem_iff.mpr List.mem_cons_self)
  have renewed : next.Depicts
      (plug context (join Side.left.mirrored left ⟨rbnew, color⟩ right)) := by
    apply depicts.renew
    · rwa [map_plug]
    · intro other mem same
      apply fresh
      refine List.mem_map.mpr ⟨other, ?_, same⟩
      exact (inorder_around_perm context false left _ right).mem_iff.mpr
        (List.mem_cons_of_mem _ mem)
    · rw [colors, known]
  rcases isRedBlack_plug_iff.mp whole with ⟨n, balanced, fits, place⟩
  refine ⟨next, returned, _, renewed, isRedBlack_plug_iff.mpr ⟨n, balanced, fits, place⟩, ?_⟩
  simp [join, Side.mirrored]

end RbTree

end Dnsp2p.Ops
