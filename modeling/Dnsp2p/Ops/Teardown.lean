import Dnsp2p.Ops.Ledger

/-!
# Tearing down the operation context

`f4op_free_ctx` removes the operations one after another and computes the next one
before it removes the current one.  The removal rebuilds the links around the
current operation, and the next one is still the first of what is left.
-/

namespace Dnsp2p.Ops

open BinTree

namespace RbTree

variable {t : RbTree}

/-! ## Walking in order -/

/-- `rb_first` is the first node of the traversal. -/
theorem rbFirst_eq {tree : BinTree Nat} (represents : t.Represents tree)
    (enough : tree.inorder.length ≤ t.nodes.bound + 1) :
    t.rbFirst = .ok tree.inorder.head? := by
  rw [rbFirst, represents.1]
  cases tree with
  | nil => rfl
  | node left address right =>
      have inner : BinTree.node left address right ≠ .nil := by simp
      rcases leftmost_eq represents.2 inner enough with ⟨context, node, child, whole, first, walk⟩
      have live : (BinTree.node left address right).root.isSome := rfl
      rw [if_pos live, walk, whole, inorder_plug, first]
      rfl

/-- The way up ends at the first label right of the hole. -/
theorem climb_eq {context : List (Frame Nat)} {address : Nat} {node : RbNode}
    (surrounds : t.Surrounds context (some address)) (cell : t.nodes.cell address = some node)
    (parent : node.rbParent = parentOf context) (apart : address ∉ after context)
    (distinct : (before context ++ after context).Nodup) {fuel : Nat}
    (enough : context.length < fuel) :
    t.climb fuel (some address) = .ok (after context).head? := by
  induction context generalizing address node fuel with
  | nil =>
      obtain ⟨fuel, rfl⟩ : ∃ less, fuel = less + 1 := ⟨fuel - 1, by omega⟩
      simp [climb, read_of_cell cell, parent, parentOf, after]
  | cons frame up ih =>
      obtain ⟨fuel, rfl⟩ : ∃ less, fuel = less + 1 := ⟨fuel - 1, by omega⟩
      rw [List.length_cons] at enough
      cases frame with
      | left label right =>
          have other : right.root ≠ some address := by
            intro same
            have := mem_of_root same
            simp [after, this] at apart
          simp [climb, read_of_cell cell, parent, parentOf, read_of_cell surrounds.1, after,
            Ne.symm other]
      | right left label =>
          simp only [before, after] at apart distinct ⊢
          have further := ih surrounds.2.2 surrounds.1 rfl (by grind) (by grind)
            (Nat.lt_of_succ_lt_succ enough)
          simpa [climb, read_of_cell cell, parent, parentOf, read_of_cell surrounds.1] using further

/-- A hole lies below as many labels as there are frames. -/
theorem length_le_around (context : List (Frame Nat)) :
    context.length ≤ (before context ++ after context).length := by
  induction context with
  | nil => simp
  | cons frame up ih =>
      simp only [List.length_append] at ih
      cases frame <;> simp [before, after] <;> omega

/-- `rb_next` is the node after a node in the traversal. -/
theorem rbNext_eq {context : List (Frame Nat)} {left right : BinTree Nat} {address : Nat}
    (represents : t.Represents (plug context (.node left address right)))
    (distinct : (plug context (.node left address right)).inorder.Nodup)
    (enough : (plug context (.node left address right)).inorder.length ≤ t.nodes.bound) :
    t.rbNext (some address) = .ok (right.inorder ++ after context).head? := by
  rcases represents_plug_iff.mp represents with ⟨surrounds, cell, _, rightLinks⟩
  rw [inorder_plug, inorder_node] at distinct enough
  simp only [List.length_append, List.length_cons] at enough
  cases right with
  | nil =>
      have around := length_le_around context
      rw [List.length_append] at around
      have climbed : t.climb (t.nodes.bound + 1) (some address) = .ok (after context).head? :=
        climb_eq surrounds cell rfl (by grind) (by grind) (by omega)
      simpa [rbNext, read_of_cell cell] using climbed
  | node inner label outer =>
      have some_right : BinTree.node inner label outer ≠ .nil := by simp
      have short : (BinTree.node inner label outer).inorder.length ≤ t.nodes.bound + 1 := by omega
      rcases leftmost_eq rightLinks some_right short with ⟨way, node, child, whole, first, walk⟩
      rw [whole, inorder_plug, first]
      simpa [rbNext, read_of_cell cell] using walk

end RbTree

namespace F4opCtx

variable {ctx : F4opCtx}

/-! ## The loop -/

/-- From the first operation of a traversal `rb_next` leads to the second. -/
theorem Valid.rbNext_first {tree : BinTree Nat} (valid : ctx.Valid tree) {first : Nat}
    {rest : List Nat} (inorder : tree.inorder = first :: rest) :
    ctx.tree.rbNext (some first) = .ok rest.head? := by
  have short := Memory.length_le_bound valid.nodup valid.represents.2.live
  have mem : first ∈ tree.inorder := by simp [inorder]
  rcases exists_plug mem with ⟨context, left, right, rfl⟩
  have distinct := valid.nodup
  rw [RbTree.rbNext_eq valid.represents distinct short]
  rw [inorder_plug, inorder_node, List.append_assoc, List.append_assoc, ← List.append_assoc]
    at inorder distinct
  -- the first operation occurs once, so nothing is left of it
  cases lefts : before context ++ left.inorder with
  | nil =>
      rw [lefts, List.nil_append, List.cons_append] at inorder
      rw [(List.cons.inj inorder).2]
  | cons other others =>
      rw [lefts] at inorder distinct
      obtain rfl : other = first := (List.cons.inj inorder).1
      simp at distinct

/-- The loop of `f4op_free_ctx`, started at the first operation, frees the operations
in the order of the traversal and leaves no tree. -/
theorem freeLoop_eq {tree : BinTree Nat} (valid : ctx.Valid tree) {fuel : Nat}
    (enough : tree.inorder.length < fuel) :
    ∃ last, ctx.freeLoop fuel tree.inorder.head? = .ok (tree.inorder, last) ∧
      last.Valid .nil ∧ ∀ address, last.ops.cell address =
        if address ∈ tree.inorder then none else ctx.ops.cell address := by
  generalize order : tree.inorder = addresses at enough ⊢
  induction addresses generalizing ctx tree fuel with
  | nil =>
      obtain ⟨fuel, rfl⟩ : ∃ less, fuel = less + 1 := ⟨fuel - 1, by omega⟩
      cases tree with
      | nil => exact ⟨ctx, rfl, valid, by simp⟩
      | node => simp at order
  | cons first rest ih =>
      obtain ⟨fuel, rfl⟩ : ∃ less, fuel = less + 1 := ⟨fuel - 1, by omega⟩
      have mem : first ∈ tree.inorder := by simp [order]
      obtain ⟨next, smaller, removed, nextValid, inorder, ops⟩ := f4opRemove_eq valid mem
      rw [order, List.erase_cons_head] at inorder
      have shorter : rest.length < fuel := Nat.lt_of_succ_lt_succ enough
      rcases ih nextValid inorder shorter with ⟨last, loop, lastValid, cells⟩
      refine ⟨last, ?_, lastValid, fun address => ?_⟩
      · rw [List.head?_cons, freeLoop, valid.rbNext_first order, ok_bind, removed, ok_bind, loop]
        rfl
      · rw [cells, ops, Memory.free_cell]
        by_cases same : address = first
        · simp [same]
        · simp [same]

/-- `f4op_free_ctx` frees the operations of the tree in the order of the traversal. -/
theorem f4opFreeCtx_eq {tree : BinTree Nat} (valid : ctx.Valid tree) :
    ∃ last, ctx.f4opFreeCtx = .ok (tree.inorder, last) ∧ last.Valid .nil ∧
      ∀ address, last.ops.cell address =
        if address ∈ tree.inorder then none else ctx.ops.cell address := by
  rcases freeLoop_eq valid valid.fuelled with ⟨last, loop, rest⟩
  refine ⟨last, ?_, rest⟩
  rw [f4opFreeCtx, RbTree.rbFirst_eq valid.represents valid.fuelled.le, ok_bind, loop]

end F4opCtx

/-! ## Every run -/

/-- After every legal run of calls `f4op_free_ctx` returns: it passes exactly the
operations of the tree to `f4op_free`, each once and by increasing ids, reads no
operation that is freed already, leaves an empty tree and touches no other operation. -/
theorem run_f4opFreeCtx (actions : List Action)
    (legal : Run.Legal Ledger.Allows Ledger.next .empty actions) :
    ∃ ctx freed last, Run.run F4opCtx.perform f4opNewCtx actions = .ok ctx ∧
      ctx.f4opFreeCtx = .ok (freed, last) ∧
      ctx.tree.traverse (ctx.tree.nodes.bound + 1) ctx.tree.rbNode = .ok freed ∧
      (freed.Pairwise fun first second =>
        memcmp (ctx.idOf first).bytes (ctx.idOf second).bytes < 0) ∧
      (∀ address, address ∈ freed ↔
        ∃ id, (actions.foldl Ledger.next .empty).holder id = some address) ∧
      last.tree.rbNode = none ∧
      ∀ address, last.ops.cell address =
        if address ∈ freed then none else ctx.ops.cell address := by
  rcases run_describes actions legal with ⟨ctx, ran, tree, describes⟩
  have valid := describes.valid
  rcases F4opCtx.f4opFreeCtx_eq valid with ⟨last, freed, lastValid, cells⟩
  refine ⟨ctx, tree.inorder, last, ran, freed, ?_, ?_, describes.mem_iff, lastValid.represents.1,
    cells⟩
  · rw [valid.represents.1]
    exact RbTree.traverse_eq valid.represents.2 valid.fuelled
  · exact valid.ordered.imp fun less => (Field.lt_iff_memcmp _ _).mp less

/-- Three operations, of which the first has the least id and the second the greatest. -/
theorem run_f4opFreeCtx_example :
    ∃ ctx freed last, Run.run F4opCtx.perform f4opNewCtx
        [.new 0 (.zero 20), .add 0, .new 1 ⟨List.replicate 20 2, rfl⟩, .add 1,
          .new 2 ⟨List.replicate 20 1, rfl⟩, .add 2] = .ok ctx ∧
      ctx.f4opFreeCtx = .ok (freed, last) ∧
      ctx.tree.traverse (ctx.tree.nodes.bound + 1) ctx.tree.rbNode = .ok freed ∧
      (freed.Pairwise fun first second =>
        memcmp (ctx.idOf first).bytes (ctx.idOf second).bytes < 0) ∧
      (∀ address, address ∈ freed ↔
        ∃ id, (List.foldl Ledger.next .empty
          [.new 0 (.zero 20), .add 0, .new 1 ⟨List.replicate 20 2, rfl⟩, .add 1,
            .new 2 ⟨List.replicate 20 1, rfl⟩, .add 2]).holder id = some address) ∧
      last.tree.rbNode = none ∧
      ∀ address, last.ops.cell address =
        if address ∈ freed then none else ctx.ops.cell address :=
  run_f4opFreeCtx _ ⟨rfl, rfl, rfl, rfl, rfl, rfl, trivial⟩

end Dnsp2p.Ops
