import Dnsp2p.Ops.Rotation

/-!
# Colours in memory

The functions of the library see the pointers of the nodes and, but for the repainting steps,
not their colours.  What they do to a tree of red nodes they do to any tree, and every node
keeps its colour.
-/

namespace Dnsp2p.Ops

open BinTree

/-- The node as a red one. -/
def RbNode.plain (node : RbNode) : RbNode :=
  { node with rbColor := .red }

@[simp]
theorem RbNode.child_plain (node : RbNode) (side : Side) :
    node.plain.child side = node.child side := by
  cases side <;> rfl

namespace RbTree

/-- The tree with red nodes. -/
def plain (t : RbTree) : RbTree where
  rbNode := t.rbNode
  nodes := t.nodes.map RbNode.plain

/-- The colours of the nodes. -/
def color (t : RbTree) (address : Nat) : Option Color :=
  (t.nodes.cell address).map RbNode.rbColor

variable {t : RbTree}

theorem plain_cell (address : Nat) :
    t.plain.nodes.cell address = (t.nodes.cell address).map RbNode.plain :=
  rfl

/-- A node is known by its pointers and its colour. -/
theorem cell_eq {next : RbTree} {address : Nat}
    (shape : next.plain.nodes.cell address = t.plain.nodes.cell address)
    (color : next.color address = t.color address) :
    next.nodes.cell address = t.nodes.cell address := by
  rw [plain_cell, plain_cell] at shape
  rw [RbTree.color, RbTree.color] at color
  cases old : t.nodes.cell address with
  | none => simpa [old] using shape
  | some node =>
      cases new : next.nodes.cell address with
      | none => simp [old, new] at shape
      | some other =>
          rcases node with ⟨⟩
          rcases other with ⟨⟩
          simp_all [RbNode.plain]

/-- Reading does not depend on the colours. -/
theorem read_plain (pointer : Option Nat) :
    t.plain.read pointer = RbNode.plain <$> t.read pointer := by
  cases pointer with
  | none => rfl
  | some address =>
      simp only [read, plain_cell]
      cases t.nodes.cell address <;> rfl

theorem leftmost_plain (fuel : Nat) (pointer : Option Nat) :
    t.plain.leftmost fuel pointer = t.leftmost fuel pointer := by
  induction fuel generalizing pointer with
  | zero => rfl
  | succ fuel ih =>
      simp only [leftmost, read_plain]
      cases t.read pointer with
      | error => rfl
      | ok node =>
          cases left : node.rbLeft with
          | none => simp [RbNode.plain, left]
          | some child => simp [RbNode.plain, left, ih]

/-! ## What happens to the shape happens to the tree -/

/-- A result has the shape of another one, whose nodes are red, and has these colours. -/
structure Shadows (result shadow : Except Fault RbTree) (colors : Nat → Option Color) : Prop where
  shape : plain <$> result = shadow
  color : Returns result fun next => next.color = colors

namespace Shadows

variable {result shadow : Except Fault RbTree} {colors colors' : Nat → Option Color}

/-- If the shape comes out, then the tree does. -/
theorem exists_ok {next : RbTree} (shadows : Shadows result (.ok next) colors) :
    ∃ t, result = .ok t ∧ t.plain = next ∧ t.color = colors := by
  cases result with
  | error => cases shadows.shape
  | ok t => exact ⟨t, rfl, Except.ok.inj shadows.shape, shadows.color t rfl⟩

theorem ok (t : RbTree) : Shadows (.ok t) (.ok t.plain) t.color :=
  ⟨rfl, .ok rfl⟩

theorem bind {next next' : RbTree → Except Fault RbTree} (shadows : Shadows result shadow colors)
    (rest : ∀ t : RbTree, t.color = colors → Shadows (next t) (next' t.plain) colors') :
    Shadows (result >>= next) (shadow >>= next') colors' := by
  cases result with
  | error fault =>
      cases shadows.shape
      exact ⟨rfl, .fault fault _⟩
  | ok t =>
      cases shadows.shape
      exact rest t (shadows.color t rfl)

/-- The rest keeps the colours, whatever the tree is. -/
theorem step {next next' : RbTree → Except Fault RbTree} (shadows : Shadows result shadow colors)
    (rest : ∀ t : RbTree, Shadows (next t) (next' t.plain) t.color) :
    Shadows (result >>= next) (shadow >>= next') colors :=
  shadows.bind fun t same => same ▸ rest t

/-- A node is read, and the shape has the same one in red. -/
theorem read {pointer : Option Nat} {next next' : RbNode → Except Fault RbTree}
    (rest : ∀ node, t.read pointer = .ok node → Shadows (next node) (next' node.plain) colors) :
    Shadows (t.read pointer >>= next) (t.plain.read pointer >>= next') colors := by
  rw [read_plain]
  cases reads : t.read pointer with
  | error fault => exact ⟨rfl, .fault fault _⟩
  | ok node => exact rest node reads

/-- An update of one node, which gives it a colour. -/
theorem update {pointer : Option Nat} {change change' : RbNode → RbNode}
    (shape : ∀ address node, pointer = some address → t.nodes.cell address = some node →
      (change node).plain = change' node.plain)
    (painted : ∀ address node, pointer = some address → t.nodes.cell address = some node →
      (fun other => if other = address then some (change node).rbColor else t.color other) =
        colors) :
    Shadows (t.update pointer change) (t.plain.update pointer change') colors := by
  cases pointer with
  | none => exact ⟨rfl, .fault _ _⟩
  | some address =>
      cases cell : t.nodes.cell address with
      | none =>
          have gone : t.plain.nodes.cell address = none := by rw [plain_cell, cell, Option.map_none]
          simp only [RbTree.update, cell, gone]
          exact ⟨rfl, .fault _ _⟩
      | some node =>
          have there : t.plain.nodes.cell address = some node.plain := by
            rw [plain_cell, cell, Option.map_some]
          rw [update_of_cell cell, update_of_cell there]
          refine ⟨?_, .ok ?_⟩
          · simp only [plain, Except.map_ok, Memory.map_write, shape address node rfl cell]
          · rw [← painted address node rfl cell]
            funext other
            simp only [RbTree.color, Memory.write_cell]
            split <;> rfl

/-- An update of the pointers of a node. -/
theorem relink {pointer : Option Nat} {change : RbNode → RbNode}
    (shape : ∀ node, (change node).plain = change node.plain)
    (color : ∀ node, (change node).rbColor = node.rbColor) :
    Shadows (t.update pointer change) (t.plain.update pointer change) t.color := by
  refine update (fun _ node _ _ => shape node) fun address node _ cell => ?_
  funext other
  split
  · next same => rw [same, color, RbTree.color, cell, Option.map_some]
  · rfl

variable (t)

/-- A node is written anew. -/
theorem overwrite (address : Nat) (content : RbNode) :
    Shadows (t.update (some address) fun _ => content)
      (t.plain.update (some address) fun _ => content.plain)
      fun other => if other = address then some content.rbColor else t.color other := by
  apply update
  · exact fun _ _ _ _ => rfl
  · rintro _ _ ⟨rfl⟩ _
    rfl

theorem setAbove (pointer parent : Option Nat) :
    Shadows (t.update pointer fun n => { n with rbParent := parent })
      (t.plain.update pointer fun n => { n with rbParent := parent }) t.color :=
  relink (fun _ => rfl) fun _ => rfl

theorem setParent (node parent : Option Nat) :
    Shadows (t.setParent node parent) (t.plain.setParent node parent) t.color := by
  unfold RbTree.setParent
  split
  · exact setAbove t node parent
  · exact ok t

theorem setChild (pointer child : Option Nat) (side : Side) :
    Shadows (t.update pointer fun n => n.setChild child side)
      (t.plain.update pointer fun n => n.setChild child side) t.color := by
  cases side <;> exact relink (fun _ => rfl) fun _ => rfl

theorem replaceChild (side : Side) (parent node child : Option Nat) :
    Shadows (t.replaceChild side parent node child) (t.plain.replaceChild side parent node child)
      t.color := by
  cases parent with
  | none => exact ok _
  | some address =>
      apply read
      intro p _
      rw [RbNode.child_plain]
      split
      · exact setChild t _ child side
      · exact setChild t _ child side.mirror

theorem assign (link : Link) (node : Option Nat) :
    Shadows (t.assign link node) (t.plain.assign link node) t.color := by
  cases link with
  | root => exact ok _
  | child parent side => exact setChild t (some parent) node side

theorem rotate (side : Side) (node : Option Nat) :
    Shadows (t.rotate side node) (t.plain.rotate side node) t.color := by
  apply read
  intro n _
  rw [RbNode.child_plain]
  apply read
  intro top _
  rw [RbNode.child_plain]
  apply (setChild t _ _ _).step
  intro t
  apply (setParent t _ _).step
  intro t
  apply (setChild t _ _ _).step
  intro t
  apply read
  intro n _
  apply (setAbove t _ _).step
  intro t
  apply (replaceChild t _ _ _ _).step
  exact fun t => setAbove t _ _

theorem unlink (node child parent : Option Nat) :
    Shadows (t.unlink node child parent) (t.plain.unlink node child parent) t.color := by
  apply (setParent t _ _).step
  exact fun t => replaceChild t _ _ _ _

/-- A node that takes the place of another one takes its colour. -/
theorem takePlace {old node : Nat} {color : Color} (known : t.color old = some color) :
    Shadows (t.takePlace (some old) (some node)) (t.plain.takePlace (some old) (some node))
      fun other => if other = node then some color else t.color other := by
  apply read
  intro o reads
  have oldColor : o.rbColor = color := by
    cases cell : t.nodes.cell old with
    | none => simp [RbTree.color, cell] at known
    | some content =>
        cases (read_of_cell cell).symm.trans reads
        simpa [RbTree.color, cell] using known
  subst oldColor
  apply (overwrite t node o).step
  intro t
  apply (replaceChild t _ _ _ _).step
  intro t
  apply read
  intro _ _
  apply (setAbove t _ _).step
  intro t
  apply read
  exact fun _ _ => setParent t _ _

/-- A node that is linked is red. -/
theorem rbLinkNode (node : Nat) (parent : Option Nat) (link : Link) :
    Shadows (t.rbLinkNode (some node) parent link) (t.plain.rbLinkNode (some node) parent link)
      fun other => if other = node then some .red else t.color other := by
  apply (overwrite t node ⟨parent, none, none, .red⟩).step
  exact fun t => assign t _ _

end Shadows

/-! ## Trees with colours -/

/-- A node of a tree: where it is, and its colour. -/
structure Entry where
  address : Nat
  color : Color
  deriving DecidableEq

/-- The node is red. -/
def Entry.Red (entry : Entry) : Prop :=
  entry.color = .red

instance : DecidablePred Entry.Red := fun entry =>
  inferInstanceAs (Decidable (entry.color = .red))

theorem Entry.not_red {entry : Entry} (black : entry.color = .black) : ¬entry.Red := by
  intro red
  cases black.symm.trans red

theorem not_red_black (address : Nat) : ¬ Entry.Red ⟨address, .black⟩ := by
  rintro ⟨⟩

/-- The root pointer and the nodes represent a tree with these colours. -/
structure Depicts (t : RbTree) (tree : BinTree Entry) : Prop where
  shape : t.plain.Represents (tree.map Entry.address)
  distinct : (tree.inorder.map Entry.address).Nodup
  color : ∀ entry ∈ tree.inorder, t.color entry.address = some entry.color

namespace Depicts

variable {context : List (Frame Entry)} {tree near far inner outer child : BinTree Entry}
  {entry top : Entry} {side : Side}

theorem root (depicts : t.Depicts tree) : t.rbNode = tree.root.map Entry.address := by
  rw [← root_map]
  exact depicts.shape.1

/-- Loops up and down the tree have fuel enough. -/
theorem length_le (depicts : t.Depicts tree) : tree.inorder.length ≤ t.nodes.bound := by
  rw [← List.length_map Entry.address]
  apply Memory.length_le_bound depicts.distinct
  intro address mem
  rcases List.mem_map.mp mem with ⟨entry, entryMem, rfl⟩
  have known := depicts.color entry entryMem
  rw [RbTree.color] at known
  exact Option.isSome_map.symm.trans (by rw [known]; rfl)

/-- The addresses around a node are others than its own. -/
theorem apart (depicts : t.Depicts (plug context (join side.mirrored near entry far))) :
    ∀ other ∈ near.inorder ++ far.inorder ++ (before context ++ after context),
      other.address ≠ entry.address := by
  have distinct := ((inorder_around_perm _ _ _ _ _).map Entry.address).nodup_iff.mp depicts.distinct
  rw [List.map_cons, List.nodup_cons] at distinct
  intro other mem same
  exact distinct.1 (same ▸ List.mem_map_of_mem mem)

/-- The node keeps its place when another entry with its address stands for it. -/
theorem renew {next : RbTree} {entry' : Entry}
    (depicts : t.Depicts (plug context (join side.mirrored near entry far)))
    (shape : next.plain.Represents
      ((plug context (join side.mirrored near entry' far)).map Entry.address))
    (fresh : ∀ other ∈ near.inorder ++ far.inorder ++ (before context ++ after context),
      other.address ≠ entry'.address)
    (color : next.color = fun address =>
      if address = entry'.address then some entry'.color else t.color address) :
    next.Depicts (plug context (join side.mirrored near entry' far)) where
  shape := shape
  distinct := by
    have distinct :=
      ((inorder_around_perm _ _ _ _ _).map Entry.address).nodup_iff.mp depicts.distinct
    rw [((inorder_around_perm _ _ _ _ _).map Entry.address).nodup_iff]
    rw [List.map_cons, List.nodup_cons] at distinct ⊢
    refine ⟨fun mem => ?_, distinct.2⟩
    rcases List.mem_map.mp mem with ⟨other, otherMem, same⟩
    exact fresh other otherMem same
  color := by
    intro other mem
    rw [color]
    rcases List.mem_cons.mp ((inorder_around_perm _ _ _ _ _).mem_iff.mp mem) with rfl | mem
    · exact if_pos rfl
    · dsimp only
      rw [if_neg (fresh other mem)]
      exact depicts.color other
        ((inorder_around_perm _ _ _ _ _).mem_iff.mpr (List.mem_cons_of_mem _ mem))

/-- What a node of the tree holds. -/
theorem cell (depicts : t.Depicts (plug context (join side.mirrored near entry far))) :
    t.nodes.cell entry.address = some (.paired side ((parentOf context).map Entry.address)
      (near.root.map Entry.address) (far.root.map Entry.address) entry.color) := by
  have shape := depicts.shape
  rw [map_plug, map_join, represents_plug_iff] at shape
  have plainCell := ((links_join side).mp shape.2).1
  have known := depicts.color entry
    ((inorder_around_perm _ _ _ _ _).mem_iff.mpr List.mem_cons_self)
  rw [plain_cell] at plainCell
  rw [RbTree.color] at known
  cases cell : t.nodes.cell entry.address with
  | none => simp [cell] at known
  | some node =>
      rw [cell, Option.map_some, Option.some.injEq] at plainCell known
      rw [parentOf_map, root_map, root_map] at plainCell
      cases node
      cases side <;> simp_all [RbNode.plain, RbNode.paired]

theorem read (depicts : t.Depicts (plug context (join side.mirrored near entry far))) :
    t.read (some entry.address) = .ok (.paired side ((parentOf context).map Entry.address)
      (near.root.map Entry.address) (far.root.map Entry.address) entry.color) :=
  read_of_cell depicts.cell

theorem read_node {left right : BinTree Entry}
    (depicts : t.Depicts (plug context (.node left entry right))) :
    t.read (some entry.address) = .ok ⟨(parentOf context).map Entry.address,
      right.root.map Entry.address, left.root.map Entry.address, entry.color⟩ := by
  have depicts : t.Depicts (plug context (join Side.left.mirrored left entry right)) := depicts
  exact depicts.read

/-- A node is painted. -/
theorem paint (depicts : t.Depicts (plug context (join side.mirrored near entry far)))
    (color : Color) :
    ∃ next, t.update (some entry.address) (fun n => { n with rbColor := color }) = .ok next ∧
      next.Depicts (plug context (join side.mirrored near ⟨entry.address, color⟩ far)) := by
  refine ⟨_, update_of_cell depicts.cell _, ?_⟩
  apply depicts.renew
  · have same : (plug context (join side.mirrored near ⟨entry.address, color⟩ far)).map
        Entry.address = (plug context (join side.mirrored near entry far)).map Entry.address := by
      rw [map_plug, map_plug, map_join, map_join]
    rw [same]
    refine ⟨depicts.shape.1, depicts.shape.2.congr fun address _ => ?_⟩
    rw [plain_cell, plain_cell, Memory.write_cell]
    split
    · next here => rw [here, depicts.cell]; rfl
    · rfl
  · exact depicts.apart
  · funext address
    rw [RbTree.color, Memory.write_cell]
    split <;> rfl

/-- A rotation of a tree with colours. -/
theorem rotate (depicts : t.Depicts
      (plug context (join side.mirrored near entry (join side.mirrored inner top outer)))) :
    ∃ next, t.rotate side (some entry.address) = .ok next ∧
      next.Depicts
        (plug context (join side.mirrored (join side.mirrored near entry inner) top outer)) := by
  have shape := depicts.shape
  have distinct := depicts.distinct
  rw [← inorder_map, map_plug, map_join, map_join] at distinct
  rw [map_plug, map_join, map_join] at shape
  rcases rotate_hole side shape distinct with ⟨plain, rotated, shape'⟩
  have shadows := Shadows.rotate t side (some entry.address)
  rw [rotated] at shadows
  rcases shadows.exists_ok with ⟨next, returned, rfl, color⟩
  have same : (plug context
      (join side.mirrored (join side.mirrored near entry inner) top outer)).inorder =
        (plug context
          (join side.mirrored near entry (join side.mirrored inner top outer))).inorder := by
    rw [inorder_plug, inorder_plug, inorder_rotation]
  refine ⟨next, returned, ?_, by rw [same]; exact depicts.distinct, ?_⟩
  · rwa [map_plug, map_join, map_join]
  · rw [same, color]
    exact depicts.color

/-- The other rotation of a tree with colours. -/
theorem rotate_mirror (depicts : t.Depicts
      (plug context (join side.mirrored (join side.mirrored outer top inner) entry far))) :
    ∃ next, t.rotate side.mirror (some entry.address) = .ok next ∧
      next.Depicts
        (plug context (join side.mirrored outer top (join side.mirrored inner entry far))) := by
  have flipped (first second third : BinTree Entry) (one two : Entry) :
      join side.mirrored first one (join side.mirrored second two third) =
        join side.mirror.mirrored (join side.mirror.mirrored third two second) one first := by
    rw [Side.mirrored_mirror, join_not, join_not]
  have unflipped : join side.mirrored (join side.mirrored outer top inner) entry far =
      join side.mirror.mirrored far entry (join side.mirror.mirrored inner top outer) := by
    rw [Side.mirrored_mirror, join_not, join_not]
  rw [unflipped] at depicts
  rw [flipped]
  exact depicts.rotate

/-- Two children with one address at their roots are both missing. -/
theorem roots_apart (depicts : t.Depicts (plug context (join side.mirrored near entry far)))
    (same : near.root.map Entry.address = far.root.map Entry.address) :
    near = .nil ∧ far = .nil := by
  have distinct :=
    ((inorder_around_perm _ _ _ _ _).map Entry.address).nodup_iff.mp depicts.distinct
  cases nearRoot : near.root with
  | none =>
      rw [nearRoot, Option.map_none, eq_comm, Option.map_eq_none_iff] at same
      exact ⟨root_eq_none_iff.mp nearRoot, root_eq_none_iff.mp same⟩
  | some first =>
      cases farRoot : far.root with
      | none => simp [nearRoot, farRoot] at same
      | some second =>
          have nearMem := List.mem_map_of_mem (f := Entry.address) (mem_of_root nearRoot)
          have farMem := List.mem_map_of_mem (f := Entry.address) (mem_of_root farRoot)
          simp only [nearRoot, farRoot, Option.map_some, Option.some.injEq] at same
          rw [same] at nearMem
          simp only [List.map_cons, List.map_append, List.nodup_cons, List.nodup_append] at distinct
          exact absurd rfl (distinct.2.1.2.2 _ nearMem _ farMem)

/-- Below the root there is no node with the address of the root. -/
theorem root_ne {frame : Frame Entry} (depicts : t.Depicts (plug (frame :: context) tree)) :
    tree.root.map Entry.address ≠ t.rbNode := by
  rcases exists_root_plug frame context tree with ⟨top, mem, root⟩
  have distinct := ((inorder_plug_perm _ _).map Entry.address).nodup_iff.mp depicts.distinct
  rw [depicts.root, root]
  intro same
  cases inner : tree.root with
  | none => simp [inner] at same
  | some entry =>
      simp only [inner, Option.map_some, Option.some.injEq] at same
      rw [List.map_append, List.nodup_append] at distinct
      exact distinct.2.2 _ (List.mem_map_of_mem (mem_of_root inner)) _ (List.mem_map_of_mem mem)
        same

/-- The colour of a missing node is black. -/
theorem isBlack (depicts : t.Depicts (plug context tree)) :
    t.isBlack (tree.root.map Entry.address) = .ok (decide (RootBlack Entry.Red tree)) := by
  cases tree with
  | nil => rfl
  | node left entry right =>
      rw [root_node, Option.map_some, RbTree.isBlack, if_pos Option.isSome_some,
        depicts.read_node, ok_bind]
      cases color : entry.color <;> simp [RootBlack, Entry.Red, color]

theorem isBlack_of_rootBlack (depicts : t.Depicts (plug context tree))
    (rootBlack : RootBlack Entry.Red tree) :
    t.isBlack (tree.root.map Entry.address) = .ok true := by
  rw [depicts.isBlack, decide_eq_true rootBlack]

theorem isBlack_of_red (depicts : t.Depicts (plug context (join side.mirrored near entry far)))
    (red : entry.Red) : t.isBlack (some entry.address) = .ok false := by
  have known := depicts.isBlack
  rwa [root_join, Option.map_some,
    decide_eq_false (mt (rootBlack_join _ _ _ _).mp (not_not.mpr red))] at known

/-- Both children are asked for their colours, whichever side they are on. -/
theorem bothBlack (depicts : t.Depicts (plug context (join side.mirrored near entry far)))
    (parent : Option Nat) (color : Color) :
    ∃ first second,
      t.isBlack (RbNode.paired side parent (near.root.map Entry.address)
        (far.root.map Entry.address) color).rbLeft = .ok first ∧
      t.isBlack (RbNode.paired side parent (near.root.map Entry.address)
        (far.root.map Entry.address) color).rbRight = .ok second ∧
      ((first && second) = true ↔ RootBlack Entry.Red near ∧ RootBlack Entry.Red far) := by
  have nearIn := depicts
  have farIn := depicts
  rw [← plug_on] at nearIn
  rw [← plug_on_not] at farIn
  cases side with
  | left => exact ⟨_, _, nearIn.isBlack, farIn.isBlack, by simp⟩
  | right => exact ⟨_, _, farIn.isBlack, nearIn.isBlack, by simp [and_comm]⟩

/-- A node of the tree, and what is on either side of it. -/
theorem exists_node (depicts : t.Depicts tree)
    {front back : List Nat} {p : Nat}
    (split : tree.inorder.map Entry.address = front ++ p :: back) :
    ∃ context left color right, tree = plug context (.node left ⟨p, color⟩ right) ∧
      (before context ++ left.inorder).map Entry.address = front ∧
      (right.inorder ++ after context).map Entry.address = back := by
  have mem : p ∈ tree.inorder.map Entry.address := by simp [split]
  rcases List.mem_map.mp mem with ⟨⟨address, color⟩, entryMem, here⟩
  obtain rfl : address = p := here
  rcases exists_plug entryMem with ⟨context, left, right, rfl⟩
  have distinct := depicts.distinct
  have whole : (before context ++ left.inorder).map Entry.address ++ address ::
      (right.inorder ++ after context).map Entry.address = front ++ address :: back := by
    rw [← split]
    simp
  rw [split, ← whole, List.nodup_middle, List.nodup_cons, List.mem_append, not_or] at distinct
  rcases (List.append_cons_inj_of_notMem distinct.1.1 distinct.1.2).mp whole with ⟨same, _, same'⟩
  exact ⟨context, left, color, right, rfl, same, same'⟩

/-- A new node hangs red into a hole. -/
theorem link {node : Nat} (depicts : t.Depicts (plug context .nil))
    (live : (t.nodes.cell node).isSome)
    (fresh : ∀ other ∈ before context ++ after context, other.address ≠ node) :
    ∃ next, t.rbLinkNode (some node) ((parentOf context).map Entry.address)
        (linkOf (context.map (Frame.map Entry.address))) = .ok next ∧
      next.Depicts (plug context (.node .nil ⟨node, .red⟩ .nil)) := by
  have shape := depicts.shape
  have distinct := depicts.distinct
  rw [map_plug, represents_plug_iff] at shape
  rw [inorder_plug, inorder_nil, List.append_nil] at distinct
  have apart : (before (context.map (Frame.map Entry.address)) ++
      node :: after (context.map (Frame.map Entry.address))).Nodup := by
    rw [before_map, after_map, List.nodup_middle, List.nodup_cons, ← List.map_append]
    refine ⟨fun mem => ?_, distinct⟩
    rcases List.mem_map.mp mem with ⟨other, otherMem, same⟩
    exact fresh other otherMem same
  have plainLive : (t.plain.nodes.cell node).isSome := by rwa [plain_cell, Option.isSome_map]
  rcases rbLinkNode_hole shape.1 plainLive apart with ⟨plain, linked, shape', _⟩
  have shadows := Shadows.rbLinkNode t node ((parentOf context).map Entry.address)
    (linkOf (context.map (Frame.map Entry.address)))
  rw [parentOf_map] at linked
  rw [linked] at shadows
  rcases shadows.exists_ok with ⟨next, returned, rfl, color⟩
  refine ⟨next, returned, by rwa [map_plug], ?_, ?_⟩
  · rw [before_map, after_map] at apart
    simpa using apart
  · intro entry mem
    rw [color]
    rcases List.mem_cons.mp ((inorder_plug_perm _ _).mem_iff.mp mem) with rfl | mem
    · exact if_pos rfl
    · dsimp only
      rw [if_neg (fresh entry mem)]
      apply depicts.color
      rwa [inorder_plug, inorder_nil, List.append_nil]

/-- A node without one of its children gives way to the other one, and what it holds stays. -/
theorem unlink (depicts : t.Depicts (plug context (join side.mirrored .nil entry child))) :
    ∃ next, t.unlink (some entry.address) (child.root.map Entry.address)
        ((parentOf context).map Entry.address) = .ok next ∧
      next.Depicts (plug context child) ∧
      next.nodes.cell entry.address = t.nodes.cell entry.address := by
  have shape := depicts.shape
  have apart := ((inorder_around_perm _ _ _ _ _).map Entry.address).nodup_iff.mp depicts.distinct
  rw [map_plug, map_join, represents_plug_iff, root_join] at shape
  rcases shape with ⟨surrounds, links⟩
  simp only [inorder_nil, List.nil_append, List.map_cons, List.map_append] at apart
  have distinct : (before (context.map (Frame.map Entry.address)) ++
      entry.address :: (child.map Entry.address).inorder ++
        after (context.map (Frame.map Entry.address))).Nodup := by
    rw [before_map, after_map, inorder_map]
    grind
  rcases unlink_hole surrounds ((links_join side).mp links).2.2 distinct with
    ⟨plain, unlinked, shape', changed⟩
  have shadows := Shadows.unlink t (some entry.address) (child.root.map Entry.address)
    ((parentOf context).map Entry.address)
  rw [root_map, parentOf_map] at unlinked
  rw [unlinked] at shadows
  rcases shadows.exists_ok with ⟨next, returned, rfl, color⟩
  have gone : (plug context child).inorder.Sublist
      (plug context (join side.mirrored .nil entry child)).inorder := by
    rw [inorder_plug, inorder_plug]
    refine .append_right (.append_left ?_ _) _
    cases side <;> simp [join, Side.mirrored]
  refine ⟨next, returned, ⟨by rwa [map_plug], (gone.map _).nodup depicts.distinct, ?_⟩, ?_⟩
  · intro other mem
    rw [color]
    exact depicts.color other (gone.subset mem)
  · refine cell_eq (changed.frame _ ?_) (by rw [color])
    rw [List.mem_append, not_or]
    exact ⟨notMem_root (by grind), notMem_parentOf (by grind)⟩

/-- A node that is in no tree takes the place of one with two children, and its colour. -/
theorem takePlace {left right : BinTree Entry} {node : Nat}
    (depicts : t.Depicts (plug context (.node left entry right)))
    (live : (t.nodes.cell node).isSome) (inner : left ≠ .nil)
    (fresh : ∀ other ∈ (plug context (.node left entry right)).inorder, other.address ≠ node) :
    ∃ next, t.takePlace (some entry.address) (some node) = .ok next ∧
      next.Depicts (plug context (.node left ⟨node, entry.color⟩ right)) := by
  have shape := depicts.shape
  have distinct := depicts.distinct
  have apart : node ∉ (plug context (.node left entry right)).inorder.map Entry.address := by
    intro mem
    rcases List.mem_map.mp mem with ⟨other, otherMem, same⟩
    exact fresh other otherMem same
  rw [map_plug] at shape
  have distinct' : (before (context.map (Frame.map Entry.address)) ++
      (left.map Entry.address).inorder ++ node :: entry.address ::
        (right.map Entry.address).inorder ++
          after (context.map (Frame.map Entry.address))).Nodup := by
    rw [before_map, after_map, inorder_map, inorder_map]
    simp only [inorder_plug, inorder_node, List.map_append, List.map_cons] at apart distinct
    grind
  have plainLive : (t.plain.nodes.cell node).isSome := by rwa [plain_cell, Option.isSome_map]
  have plainInner : left.map Entry.address ≠ .nil := by
    cases left with
    | nil => exact absurd rfl inner
    | node => rintro ⟨⟩
  rcases takePlace_hole shape plainLive plainInner distinct' with ⟨plain, placed, shape', _⟩
  have known := depicts.color entry (by simp)
  have shadows : Shadows _ _ fun other => if other = node then _ else _ :=
    Shadows.takePlace t known
  rw [placed] at shadows
  rcases shadows.exists_ok with ⟨next, returned, rfl, color⟩
  refine ⟨next, returned, ?_⟩
  have depicts : t.Depicts (plug context (join Side.left.mirrored left entry right)) := depicts
  apply depicts.renew (_ : next.plain.Represents
    ((plug context (join Side.left.mirrored left ⟨node, entry.color⟩ right)).map Entry.address)) _
    color
  · rwa [map_plug]
  · intro other mem
    apply fresh other
    exact (inorder_around_perm context false left entry right).mem_iff.mpr
      (List.mem_cons_of_mem _ mem)

end Depicts

/-- The nodes at these addresses form a red-black tree, from left to right. -/
def Orders (t : RbTree) (addresses : List Nat) : Prop :=
  ∃ tree, t.Depicts tree ∧ IsRedBlack Entry.Red tree ∧
    tree.inorder.map Entry.address = addresses

end RbTree

end Dnsp2p.Ops
