import Dnsp2p.Library.RedBlack
import Dnsp2p.Ops.Shape

/-!
# Rotations in memory

`__rb_rotate_left` and its mirror image on a represented tree: the node and its child on the
other side change places, and the traversal stays as it is.
-/

namespace Dnsp2p.Ops

open BinTree

/-- Whether near is on the right. -/
def Side.mirrored : Side → Bool
  | .left => false
  | .right => true

@[simp]
theorem Side.mirrored_mirror (side : Side) : side.mirror.mirrored = !side.mirrored := by
  cases side <;> rfl

theorem exists_mirrored (mirrored : Bool) : ∃ side : Side, side.mirrored = mirrored := by
  cases mirrored with
  | false => exact ⟨.left, rfl⟩
  | true => exact ⟨.right, rfl⟩

namespace RbNode

/-- The node with a child near to a side and one far from it. -/
def paired (side : Side) (parent near far : Option Nat) (color : Color) : RbNode :=
  match side with
  | .left => ⟨parent, far, near, color⟩
  | .right => ⟨parent, near, far, color⟩

section Paired

variable (side : Side) (parent near far child : Option Nat) (color : Color)

@[simp]
theorem child_near : (paired side parent near far color).child side = near := by
  cases side <;> rfl

@[simp]
theorem child_far : (paired side parent near far color).child side.mirror = far := by
  cases side <;> rfl

@[simp]
theorem setChild_near :
    (paired side parent near far color).setChild child side =
      paired side parent child far color := by
  cases side <;> rfl

@[simp]
theorem setChild_far :
    (paired side parent near far color).setChild child side.mirror =
      paired side parent near child color := by
  cases side <;> rfl

@[simp]
theorem rbParent_paired : (paired side parent near far color).rbParent = parent := by
  cases side <;> rfl

@[simp]
theorem rbColor_paired : (paired side parent near far color).rbColor = color := by
  cases side <;> rfl

theorem setParent_paired (next : Option Nat) :
    ({ paired side parent near far color with rbParent := next } : RbNode) =
      paired side next near far color := by
  cases side <;> rfl

/-- The comparison with the left link tells the side. -/
theorem side_of_left (differ : near ≠ far) :
    (if near = (paired side parent near far color).rbLeft then Side.left else Side.right) =
      side := by
  cases side with
  | left => exact if_pos rfl
  | right => exact if_neg differ

theorem side_of_rbLeft (differ : near ≠ far) :
    (if (paired side parent near far color).rbLeft = near then Side.left else Side.right) =
      side := by
  cases side with
  | left => exact if_pos rfl
  | right => exact if_neg differ.symm

end Paired

end RbNode

theorem links_join {nodes : Memory RbNode} {parent : Option Nat} (side : Side)
    {near far : BinTree Nat} {address : Nat} :
    Links nodes parent (join side.mirrored near address far) ↔
      nodes.cell address = some (.paired side parent near.root far.root .red) ∧
        Links nodes (some address) near ∧ Links nodes (some address) far := by
  cases side with
  | left => rfl
  | right => simp only [join, Side.mirrored, Links, RbNode.paired, and_comm]

namespace RbTree

variable {t : RbTree}

/-- The comparison with either link tells on which side a node hangs. -/
theorem replaceChild_side {context : List (Frame Nat)} {node : Nat}
    (surrounds : t.Surrounds context (some node))
    (apart : node ∉ before context ++ after context) (side : Side) (child : Option Nat) :
    t.replaceChild side (parentOf context) (some node) child =
      t.assign (linkOf context) child := by
  have elsewhere : ∀ {tree : BinTree Nat}, node ∉ tree.inorder → tree.root ≠ some node :=
    fun apart same => apart (mem_of_root same)
  rcases List.mem_append.not.mp apart with away
  rw [not_or] at away
  cases context with
  | nil => rfl
  | cons frame up =>
      cases frame with
      | left address right =>
          have other : right.root ≠ some node := elsewhere fun mem => away.2 (by simp [after, mem])
          cases side <;>
            simp [replaceChild, assign, linkOf, parentOf, read_of_cell surrounds.1, RbNode.child,
              Side.mirror, other]
      | right left address =>
          have other : left.root ≠ some node := elsewhere fun mem => away.1 (by simp [before, mem])
          cases side <;>
            simp [replaceChild, assign, linkOf, parentOf, read_of_cell surrounds.1, RbNode.child,
              Side.mirror, other]

/-- The node comes between its child far from a side and the subtree between them. -/
theorem rotate_hole {context : List (Frame Nat)} (side : Side) {near inner outer : BinTree Nat}
    {node top : Nat}
    (represents : t.Represents
      (plug context (join side.mirrored near node (join side.mirrored inner top outer))))
    (distinct : (plug context
      (join side.mirrored near node (join side.mirrored inner top outer))).inorder.Nodup) :
    ∃ next, t.rotate side (some node) = .ok next ∧
      next.Represents
        (plug context (join side.mirrored (join side.mirrored near node inner) top outer)) := by
  rcases represents_plug_iff.mp represents with ⟨surrounds, links⟩
  rw [root_join] at surrounds
  rcases (links_join side).mp links with ⟨nodeCell, nearLinks, topLinks⟩
  rcases (links_join side).mp topLinks with ⟨topCell, innerLinks, outerLinks⟩
  rw [root_join] at nodeCell
  replace distinct := ((inorder_plug_perm _ _).trans
    (.append_right _ ((inorder_join_perm _ _ _ _).trans
      (.cons _ (.append_left _ (inorder_join_perm _ _ _ _)))))).nodup_iff.mp distinct
  -- the subtree in the middle gets a new parent
  let lower : RbNode := .paired side (parentOf context) near.root inner.root .red
  have lowered : Changed t.nodes (t.nodes.write node lower) [node] := .write nodeCell _
  have innerLow : Links (t.nodes.write node lower) (some top) inner :=
    innerLinks.congr fun address mem => lowered.frame address (by grind)
  obtain ⟨nodes, innerSet, innerDone, innerChanged⟩ :=
    setParent_root (t := { t with nodes := t.nodes.write node lower }) innerLow (by grind)
      (some node)
  have nodeCell' : nodes.cell node = some lower := by
    rw [innerChanged.frame node (notMem_root (by grind))]
    exact Memory.write_cell_self _ _ _
  have topCell' : nodes.cell top = some (.paired side (some node) inner.root outer.root .red) := by
    rw [innerChanged.frame top (notMem_root (by grind)), lowered.frame top (by grind)]
    exact topCell
  -- the child comes above the node
  let upper : RbNode := .paired side (parentOf context) (some node) outer.root .red
  have raised : Changed nodes (nodes.write top upper) [top] := .write topCell' _
  have surroundsHigh : RbTree.Surrounds { t with nodes := nodes.write top upper } context
      (some node) := by
    refine surrounds.congr rfl fun address mem => ?_
    rw [raised.frame address (by grind), innerChanged.frame address (notMem_root (by grind)),
      lowered.frame address (by grind)]
  obtain ⟨hung, assigned, surroundsHung, hungChanged⟩ :=
    assign_hole surroundsHigh (by grind) (some top)
  have kept : ∀ address ∉ before context ++ after context,
      hung.nodes.cell address = (nodes.write top upper).cell address :=
    fun address apart => hungChanged.frame address (notMem_parentOf apart)
  have nodeHung : hung.nodes.cell node = some lower := by
    rw [kept node (by grind), raised.frame node (by grind), nodeCell']
  -- the node gets its new parent
  let below : RbNode := .paired side (some top) near.root inner.root .red
  have settled : Changed hung.nodes (hung.nodes.write node below) [node] := .write nodeHung _
  have cells : ∀ address ∈ near.inorder ++ inner.inorder ++ outer.inorder,
      (hung.nodes.write node below).cell address = nodes.cell address := by
    intro address mem
    rw [settled.frame address (by grind), kept address (by grind), raised.frame address (by grind)]
  have untouched : ∀ address ∈ near.inorder ++ outer.inorder,
      (hung.nodes.write node below).cell address = t.nodes.cell address := by
    intro address mem
    rw [cells address (by grind), innerChanged.frame address (notMem_root (by grind)),
      lowered.frame address (by grind)]
  refine ⟨{ hung with nodes := hung.nodes.write node below }, ?_, represents_plug_iff.mpr ?_⟩
  · change t.nodes.cell node = some _ at nodeCell
    simp only [rotate, read_of_cell nodeCell, read_of_cell topCell, update_of_cell nodeCell,
      ok_bind, RbNode.child_far, RbNode.child_near, RbNode.setChild_far]
    rw [innerSet, ok_bind]
    -- between the two updates of the child the node is read again
    let middle : RbNode := .paired side (some node) (some node) outer.root .red
    have middleRead :
        RbTree.read { t with nodes := nodes.write top middle } (some node) = .ok lower :=
      read_of_cell ((Memory.write_cell_of_ne _ _ (by grind)).trans nodeCell')
    have middleUpdate :
        RbTree.update { t with nodes := nodes.write top middle } (some top)
            (fun n => { n with rbParent := lower.rbParent }) =
          .ok { t with nodes := nodes.write top upper } := by
      rw [update_of_cell (Memory.write_cell_self _ _ _), RbNode.setParent_paired,
        RbNode.rbParent_paired, Memory.write_write]
    rw [update_of_cell (t := { t with nodes := nodes }) topCell', ok_bind, RbNode.setChild_near,
      middleRead, ok_bind, middleUpdate, ok_bind, RbNode.rbParent_paired,
      replaceChild_side surroundsHigh (by grind), assigned, ok_bind, update_of_cell nodeHung,
      RbNode.setParent_paired]
  · rw [root_join]
    refine ⟨surroundsHung.congr rfl fun address mem => settled.frame address (by grind), ?_⟩
    rw [links_join side, links_join side, root_join]
    refine ⟨?_, ⟨Memory.write_cell_self _ _ _, ?_, ?_⟩, ?_⟩
    · rw [settled.frame top (by grind), kept top (by grind)]
      exact Memory.write_cell_self _ _ _
    · exact nearLinks.congr fun address mem => untouched address (by grind)
    · exact innerDone.congr fun address mem => cells address (by grind)
    · exact outerLinks.congr fun address mem => untouched address (by grind)

end RbTree

end Dnsp2p.Ops
