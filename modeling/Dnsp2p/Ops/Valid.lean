import Dnsp2p.Ops.Context
import Dnsp2p.Ops.Shape

/-!
# Valid operation contexts

A context is valid when its nodes represent a search tree of the ids of live
operations.  Each function of `ops.c` keeps this, and does to the traversal what
its name says.
-/

namespace Dnsp2p.Ops

open BinTree

namespace F4opCtx

variable {ctx : F4opCtx}

/-- The id of a live operation. -/
def idOf (ctx : F4opCtx) (address : Nat) : Field 20 :=
  ((ctx.ops.cell address).map F4op.id).getD (Field.zero 20)

/-- The context represents a search tree.  Operations and nodes are live at the
same addresses. -/
structure Valid (ctx : F4opCtx) (tree : BinTree Nat) : Prop where
  represents : ctx.tree.Represents tree
  ordered : tree.Ordered ctx.idOf
  live : ∀ address, (ctx.tree.nodes.cell address).isSome = (ctx.ops.cell address).isSome

theorem idOf_of_cell {address : Nat} {op : F4op} (cell : ctx.ops.cell address = some op) :
    ctx.idOf address = op.id := by
  simp [idOf, cell]

theorem read_of_live {address : Nat} (live : (ctx.ops.cell address).isSome) :
    ∃ op, ctx.read (some address) = .ok op ∧ op.id = ctx.idOf address := by
  rcases Option.isSome_iff_exists.mp live with ⟨op, cell⟩
  exact ⟨op, by simp [read, cell], (idOf_of_cell cell).symm⟩

namespace Valid

variable {tree : BinTree Nat}

theorem nodup (valid : ctx.Valid tree) : tree.inorder.Nodup :=
  valid.ordered.nodup

/-- All operations of the tree are live. -/
theorem ops_live (valid : ctx.Valid tree) {address : Nat} (mem : address ∈ tree.inorder) :
    (ctx.ops.cell address).isSome :=
  valid.live address ▸ valid.represents.2.live address mem

theorem fuelled (valid : ctx.Valid tree) : tree.inorder.length < ctx.tree.nodes.bound + 1 :=
  Nat.lt_succ_of_le (Memory.length_le_bound valid.nodup valid.represents.2.live)

end Valid

/-! ## Finding -/

/-- The loop of `f4op_find` searches the tree that its pointer represents. -/
theorem findLoop_eq {parent : Option Nat} {tree : BinTree Nat} (id : Field 20)
    (context : List (Frame Nat)) (links : Links ctx.tree.nodes parent tree)
    (live : ∀ address ∈ tree.inorder, (ctx.ops.cell address).isSome) {fuel : Nat}
    (enough : tree.inorder.length < fuel) :
    ctx.findLoop id fuel tree.root = .ok (tree.locate ctx.idOf id context).2.root := by
  induction tree generalizing parent context fuel with
  | nil =>
      obtain ⟨fuel, rfl⟩ : ∃ less, fuel = less + 1 := ⟨fuel - 1, by omega⟩
      rfl
  | node left address right leftIh rightIh =>
      rcases links with ⟨cell, leftLinks, rightLinks⟩
      rw [inorder_node, List.length_append, List.length_cons] at enough
      obtain ⟨fuel, rfl⟩ : ∃ less, fuel = less + 1 := ⟨fuel - 1, by omega⟩
      rcases read_of_live (live address (by simp)) with ⟨op, opRead, opId⟩
      rw [root_node, findLoop, opRead, ok_bind, opId, locate]
      simp only [← Field.lt_iff_memcmp, ← Field.gt_iff_memcmp]
      split
      · rw [RbTree.read_of_cell cell, ok_bind]
        exact leftIh _ leftLinks (fun other mem => live other (by simp [mem])) (by omega)
      · split
        · rw [RbTree.read_of_cell cell, ok_bind]
          exact rightIh _ rightLinks (fun other mem => live other (by simp [mem])) (by omega)
        · rfl

theorem f4opFind_eq {tree : BinTree Nat} (valid : ctx.Valid tree) (id : Field 20) :
    ctx.f4opFind id = .ok (tree.locate ctx.idOf id []).2.root := by
  rw [f4opFind, valid.represents.1]
  exact findLoop_eq id [] valid.represents.2 (fun _ => valid.ops_live) valid.fuelled

/-- `f4op_find` finds the operation of the tree that has the id. -/
theorem f4opFind_eq_some_iff {tree : BinTree Nat} (valid : ctx.Valid tree) (id : Field 20)
    (address : Nat) :
    ctx.f4opFind id = .ok (some address) ↔ address ∈ tree.inorder ∧ ctx.idOf address = id := by
  rw [f4opFind_eq valid, ← locate_root_iff valid.ordered]
  simp

/-- `f4op_find` returns. -/
theorem f4opFind_returns {tree : BinTree Nat} (valid : ctx.Valid tree) (id : Field 20) :
    ∃ found, ctx.f4opFind id = .ok found :=
  ⟨_, f4opFind_eq valid id⟩

/-! ## Adding -/

/-- How the loop of `f4op_add` reports the place where a search ends. -/
def descentOf : List (Frame Nat) × BinTree Nat → Descent
  | (context, .nil) => .leaf (parentOf context) (RbTree.linkOf context)
  | (_, .node _ address _) => .found address

/-- The loop of `f4op_add` searches the tree that its link leads to. -/
theorem addLoop_eq (context : List (Frame Nat)) {tree : BinTree Nat} (id : Field 20)
    (represents : ctx.tree.Represents (plug context tree))
    (live : ∀ address ∈ tree.inorder, (ctx.ops.cell address).isSome) {fuel : Nat}
    (enough : tree.inorder.length < fuel) :
    ctx.addLoop id fuel (RbTree.linkOf context) (parentOf context) =
      .ok (descentOf (tree.locate ctx.idOf id context)) := by
  have followed := RbTree.follow_hole (RbTree.represents_plug_iff.mp represents).1
  induction tree generalizing context fuel with
  | nil =>
      obtain ⟨fuel, rfl⟩ : ∃ less, fuel = less + 1 := ⟨fuel - 1, by omega⟩
      rw [addLoop, followed]
      rfl
  | node left address right leftIh rightIh =>
      rw [inorder_node, List.length_append, List.length_cons] at enough
      obtain ⟨fuel, rfl⟩ : ∃ less, fuel = less + 1 := ⟨fuel - 1, by omega⟩
      rcases read_of_live (live address (by simp)) with ⟨op, opRead, opId⟩
      rw [addLoop, followed, ok_bind, root_node]
      simp only [opRead, ok_bind, opId, ← Field.lt_iff_memcmp, ← Field.gt_iff_memcmp, locate]
      split
      · have inner : ctx.tree.Represents (plug (.left address right :: context) left) := represents
        exact leftIh _ inner (fun other mem => live other (by simp [mem])) (by omega)
          (RbTree.follow_hole (RbTree.represents_plug_iff.mp inner).1)
      · split
        · have inner : ctx.tree.Represents (plug (.right left address :: context) right) :=
            represents
          exact rightIh _ inner (fun other mem => live other (by simp [mem])) (by omega)
            (RbTree.follow_hole (RbTree.represents_plug_iff.mp inner).1)
        · rfl

/-- What `f4op_add` does, by the place where the search ends. -/
theorem f4opAdd_eq {tree : BinTree Nat} (valid : ctx.Valid tree) {op : Nat}
    (live : (ctx.ops.cell op).isSome) :
    ctx.f4opAdd op = match descentOf (tree.locate ctx.idOf (ctx.idOf op) []) with
      | .found found => .ok (some found, ctx)
      | .leaf parent link =>
          ctx.tree.rbLinkNode (some op) parent link >>= fun tree =>
            .ok (none, { ctx with tree }) := by
  rcases read_of_live live with ⟨data, opRead, opId⟩
  have walk := addLoop_eq [] (ctx.idOf op) valid.represents (fun _ => valid.ops_live)
    valid.fuelled
  rw [f4opAdd, opRead, ok_bind]
  simp only [opId]
  change (ctx.addLoop _ _ (RbTree.linkOf []) (parentOf []) >>= _) = _
  rw [walk, ok_bind]
  rfl

/-- An operation whose id is taken is not added. -/
theorem f4opAdd_present {tree : BinTree Nat} (valid : ctx.Valid tree) {op found : Nat}
    (live : (ctx.ops.cell op).isSome)
    (present : ctx.f4opFind (ctx.idOf op) = .ok (some found)) :
    ctx.f4opAdd op = .ok (some found, ctx) := by
  rw [f4opFind_eq valid, Except.ok.injEq] at present
  rw [f4opAdd_eq valid live]
  cases ends : tree.locate ctx.idOf (ctx.idOf op) [] with
  | mk context rest =>
      rw [ends] at present
      cases rest with
      | nil => simp at present
      | node left top right =>
          obtain rfl : top = found := by simpa using present
          rfl

/-- An operation whose id is new becomes a leaf of the tree. -/
theorem f4opAdd_absent {tree : BinTree Nat} (valid : ctx.Valid tree) {op : Nat}
    (live : (ctx.ops.cell op).isSome) (absent : ctx.f4opFind (ctx.idOf op) = .ok none) :
    ∃ next grown, ctx.f4opAdd op = .ok (none, next) ∧ next.ops = ctx.ops ∧ next.Valid grown ∧
      ∀ address, address ∈ grown.inorder ↔ address = op ∨ address ∈ tree.inorder := by
  rw [f4opFind_eq valid, Except.ok.injEq, root_eq_none_iff] at absent
  have same := plug_locate ctx.idOf (ctx.idOf op) tree []
  have ordered := valid.ordered.plug_leaf absent
  rw [f4opAdd_eq valid live]
  cases ends : tree.locate ctx.idOf (ctx.idOf op) [] with
  | mk context rest =>
      simp only [ends] at absent same ordered
      subst absent
      rw [plug_nil] at same
      subst same
      have distinct := ordered.nodup
      rw [inorder_plug, inorder_node, inorder_nil, List.nil_append] at distinct
      obtain ⟨grown, linked, represents, grownLive⟩ := RbTree.rbLinkNode_hole
        (RbTree.represents_plug_iff.mp valid.represents).1 (by rwa [valid.live op])
          (by simpa using distinct)
      refine ⟨{ ctx with tree := grown }, _, ?_, rfl, ⟨represents, ordered, ?_⟩, ?_⟩
      · simp [descentOf, linked]
      · intro address
        exact (grownLive address).trans (valid.live address)
      · intro address
        simp only [inorder_plug, inorder_node, inorder_nil, List.mem_append, List.mem_singleton,
          List.nil_append, List.append_nil]
        tauto

/-! ## Creating and removing -/

/-- `f4op_new` at a free address makes an operation outside the tree. -/
theorem f4opNew_eq {tree : BinTree Nat} (valid : ctx.Valid tree) {address : Nat}
    (free : ctx.ops.cell address = none) (id : Field 20) :
    ∃ next, ctx.f4opNew address f4opModeGet id = .ok next ∧ next.Valid tree ∧
      next.ops = ctx.ops.write address
        { id, mode := f4opModeGet, type := none, fqn := none, data := some { request := none }
          dhtCallback := some .opgetDhtCallback, dnsCallback := some .opgetDnsCallback } := by
  have apart : ∀ other ∈ tree.inorder, other ≠ address := by
    rintro other mem rfl
    simpa [free] using valid.ops_live mem
  refine ⟨_, rfl, ⟨⟨valid.represents.1, ?_⟩, ?_, ?_⟩, rfl⟩
  · exact valid.represents.2.congr fun other mem => Memory.write_cell_of_ne _ _ (apart other mem)
  · refine valid.ordered.imp_of_mem fun {first second} firstMem secondMem less => ?_
    simpa [idOf, Memory.write_cell_of_ne _ _ (apart first firstMem),
      Memory.write_cell_of_ne _ _ (apart second secondMem)] using less
  · intro other
    rw [Memory.write_cell, Memory.write_cell]
    split
    · rfl
    · exact valid.live other

/-- The data of an operation may change as long as its id stays. -/
theorem Valid.writeOp {tree : BinTree Nat} (valid : ctx.Valid tree) {op : Nat} {old new : F4op}
    (cell : ctx.ops.cell op = some old) (sameId : new.id = old.id) :
    Valid { ctx with ops := ctx.ops.write op new } tree := by
  have sameIds : idOf { ctx with ops := ctx.ops.write op new } = ctx.idOf := by
    funext address
    by_cases same : address = op
    · subst same
      simp [idOf, cell, sameId]
    · simp [idOf, Memory.write_cell_of_ne _ _ same]
  refine ⟨valid.represents, by rw [sameIds]; exact valid.ordered, fun address => ?_⟩
  rw [valid.live, Memory.write_cell]
  split
  · next same => simp [same, cell]
  · rfl

/-- `f4op_remove` takes an operation of the tree out of it and frees it. -/
theorem f4opRemove_eq {tree : BinTree Nat} (valid : ctx.Valid tree) {op : Nat}
    (mem : op ∈ tree.inorder) :
    ∃ next rest, ctx.f4opRemove op op = .ok next ∧ next.Valid rest ∧
      rest.inorder = tree.inorder.erase op ∧ next.ops = ctx.ops.free op := by
  obtain ⟨erased, rest, erase, represents, inorder, live⟩ :=
    RbTree.rbErase_eq valid.represents valid.nodup mem
  rcases read_of_live (valid.ops_live mem) with ⟨data, opRead, _⟩
  have apart : ∀ other ∈ rest.inorder, other ≠ op := by
    rintro other otherMem rfl
    rw [inorder] at otherMem
    exact valid.nodup.not_mem_erase otherMem
  refine ⟨{ tree := { erased with nodes := erased.nodes.free op }, ops := ctx.ops.free op }, rest,
    ?_, ⟨⟨represents.1, ?_⟩, ?_, ?_⟩, inorder, rfl⟩
  · have freed : F4opCtx.read { ctx with tree := erased } (some op) = .ok data := opRead
    rw [f4opRemove, erase, ok_bind, f4opFree, freed]
    rfl
  · exact represents.2.congr fun other mem => Memory.free_cell_of_ne _ (apart other mem)
  · have shorter : rest.Ordered ctx.idOf := by
      rw [Ordered, inorder]
      exact valid.ordered.sublist List.erase_sublist
    refine shorter.imp_of_mem fun {first second} firstMem secondMem less => ?_
    simpa [idOf, Memory.free_cell_of_ne _ (apart first firstMem),
      Memory.free_cell_of_ne _ (apart second secondMem)] using less
  · intro other
    rw [Memory.free_cell, Memory.free_cell]
    split
    · rfl
    · exact (live other).trans (valid.live other)

/-- The empty context is valid. -/
theorem f4opNewCtx_valid : f4opNewCtx.Valid .nil where
  represents := ⟨rfl, trivial⟩
  ordered := List.Pairwise.nil
  live _ := rfl

end F4opCtx

end Dnsp2p.Ops
