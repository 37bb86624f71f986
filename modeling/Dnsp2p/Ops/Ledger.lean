import Mathlib.Logic.Function.Basic
import Dnsp2p.Library.Run
import Dnsp2p.Ops.Valid

/-!
# The operation context as a finite map

A ledger says which operations are live and, for each id, which operation was
added first under it and not removed since.  Over every sequence of calls the
context is the map that the ledger describes.
-/

namespace Dnsp2p.Ops

open BinTree

/-! ## The ledger -/

/-- A call on the context.  `new` names the address that `calloc` returns. -/
inductive Action where
  | new (address : Nat) (id : Field 20)
  | add (op : Nat)
  | remove (op : Nat)

/-- The id of each live operation, and the operation that holds each id. -/
structure Ledger where
  ids : Nat → Option (Field 20)
  holder : Field 20 → Option Nat

namespace Ledger

/-- No operation. -/
def empty : Ledger where
  ids := fun _ => none
  holder := fun _ => none

/-- `calloc` returns memory that is free, only live operations are added, and
only operations that hold their id are removed. -/
def Allows (ledger : Ledger) : Action → Prop
  | .new address _ => ledger.ids address = none
  | .add op => (ledger.ids op).isSome
  | .remove op => (ledger.ids op).bind ledger.holder = some op

/-- The first operation added under an id holds it until it is removed. -/
def next (ledger : Ledger) : Action → Ledger
  | .new address id => { ledger with ids := Function.update ledger.ids address (some id) }
  | .add op => match ledger.ids op with
    | none => ledger
    | some id => match ledger.holder id with
      | some _ => ledger
      | none => { ledger with holder := Function.update ledger.holder id (some op) }
  | .remove op => match ledger.ids op with
    | none => ledger
    | some id =>
        { ids := Function.update ledger.ids op none
          holder := Function.update ledger.holder id none }

end Ledger

/-! ## Statements about links -/

namespace RbTree

/-- The in-order traversal along the child links. -/
def traverse (t : RbTree) : Nat → Option Nat → Except Fault (List Nat)
  | 0, _ => .error .nonterminating
  | _ + 1, none => .ok []
  | fuel + 1, some n => do
      let node ← t.read (some n)
      let lefts ← traverse t fuel node.rbLeft
      let rights ← traverse t fuel node.rbRight
      return lefts ++ n :: rights

/-- Child and parent links of some nodes agree. -/
structure Consistent (t : RbTree) (addresses : List Nat) : Prop where
  child : ∀ address ∈ addresses, ∀ node, t.nodes.cell address = some node →
    ∀ side below, node.child side = some below →
      below ∈ addresses ∧ node.child side.mirror ≠ some below ∧
        ∃ childNode, t.nodes.cell below = some childNode ∧ childNode.rbParent = some address
  root : ∀ address ∈ addresses, ∀ node, t.nodes.cell address = some node →
    (node.rbParent = none ↔ t.rbNode = some address)
  parent : ∀ address ∈ addresses, ∀ node, t.nodes.cell address = some node →
    ∀ above, node.rbParent = some above → above ∈ addresses ∧
      ∃ parentNode side, t.nodes.cell above = some parentNode ∧
        parentNode.child side = some address

theorem traverse_eq {t : RbTree} {parent : Option Nat} {tree : BinTree Nat}
    (links : Links t.nodes parent tree) {fuel : Nat} (enough : tree.inorder.length < fuel) :
    t.traverse fuel tree.root = .ok tree.inorder := by
  induction tree generalizing parent fuel with
  | nil =>
      obtain ⟨fuel, rfl⟩ : ∃ less, fuel = less + 1 := ⟨fuel - 1, by omega⟩
      rfl
  | node left address right leftIh rightIh =>
      rcases links with ⟨cell, leftLinks, rightLinks⟩
      rw [inorder_node, List.length_append, List.length_cons] at enough
      obtain ⟨fuel, rfl⟩ : ∃ less, fuel = less + 1 := ⟨fuel - 1, by omega⟩
      have lefts : left.inorder.length < fuel := by omega
      have rights : right.inorder.length < fuel := by omega
      simp [traverse, read_of_cell cell, leftIh leftLinks lefts, rightIh rightLinks rights]

theorem Represents.consistent {t : RbTree} {tree : BinTree Nat} (represents : t.Represents tree)
    (distinct : tree.inorder.Nodup) : t.Consistent tree.inorder where
  child := by
    intro address mem node cell side below hangs
    rcases exists_plug mem with ⟨context, left, right, rfl⟩
    rcases represents_plug_iff.mp represents with ⟨_, own, leftLinks, rightLinks⟩
    obtain rfl := Option.some.inj (own.symm.trans cell)
    rw [inorder_plug, inorder_node] at distinct ⊢
    cases side with
    | left =>
        cases left with
        | nil => simp [RbNode.child] at hangs
        | node inner top outer =>
            obtain rfl : top = below := by simpa [RbNode.child] using hangs
            refine ⟨by simp, fun same => ?_, _, leftLinks.1, rfl⟩
            have := mem_of_root same
            grind [inorder_node]
    | right =>
        cases right with
        | nil => simp [RbNode.child] at hangs
        | node inner top outer =>
            obtain rfl : top = below := by simpa [RbNode.child] using hangs
            refine ⟨by simp, fun same => ?_, _, rightLinks.1, rfl⟩
            have := mem_of_root same
            grind [inorder_node]
  root := by
    intro address mem node cell
    constructor
    · intro top
      rcases exists_plug mem with ⟨context, left, right, rfl⟩
      rcases represents_plug_iff.mp represents with ⟨surrounds, own, _⟩
      obtain rfl := Option.some.inj (own.symm.trans cell)
      cases context with
      | nil => exact surrounds
      | cons frame up => cases frame <;> simp [parentOf] at top
    · intro top
      rw [represents.1] at top
      cases tree with
      | nil => simp at top
      | node left label right =>
          obtain rfl : label = address := by simpa using top
          obtain rfl := Option.some.inj (represents.2.1.symm.trans cell)
          rfl
  parent := by
    intro address mem node cell above hangs
    rcases exists_plug mem with ⟨context, left, right, rfl⟩
    rcases represents_plug_iff.mp represents with ⟨surrounds, own, _⟩
    obtain rfl := Option.some.inj (own.symm.trans cell)
    rw [inorder_plug]
    cases context with
    | nil => simp [parentOf] at hangs
    | cons frame up =>
        cases frame with
        | left label outer =>
            obtain rfl : label = above := by simpa [parentOf] using hangs
            exact ⟨by simp [after], _, .left, surrounds.1, rfl⟩
        | right outer label =>
            obtain rfl : label = above := by simpa [parentOf] using hangs
            exact ⟨by simp [before], _, .right, surrounds.1, rfl⟩

end RbTree

/-! ## Every run is a finite map -/

/-- One call. -/
def F4opCtx.perform (ctx : F4opCtx) : Action → Except Fault F4opCtx
  | .new address id => ctx.f4opNew address f4opModeGet id
  | .add op => do
      let (_, ctx) ← ctx.f4opAdd op
      return ctx
  | .remove op => ctx.f4opRemove op op

/-- A context that behaves as the map that a ledger describes. -/
structure IsFiniteMap (ctx : F4opCtx) (ledger : Ledger) : Prop where
  find : ∀ id, ctx.f4opFind id = .ok (ledger.holder id)
  add_present : ∀ op id found, ledger.ids op = some id → ledger.holder id = some found →
    ctx.f4opAdd op = .ok (some found, ctx)
  add_absent : ∀ op id, ledger.ids op = some id → ledger.holder id = none →
    ∃ next, ctx.f4opAdd op = .ok (none, next)
  traversal : ∃ addresses,
    ctx.tree.traverse (ctx.tree.nodes.bound + 1) ctx.tree.rbNode = .ok addresses ∧
      (addresses.Pairwise fun first second =>
        memcmp (ctx.idOf first).bytes (ctx.idOf second).bytes < 0) ∧
      (∀ address, address ∈ addresses ↔ ∃ id, ledger.holder id = some address) ∧
      ctx.tree.Consistent addresses

/-- The context is valid, and its operations are those of the ledger. -/
structure Describes (ledger : Ledger) (ctx : F4opCtx) (tree : BinTree Nat) : Prop where
  valid : ctx.Valid tree
  ids : ∀ address, ledger.ids address = (ctx.ops.cell address).map F4op.id
  holder : ∀ id address, ledger.holder id = some address ↔
    address ∈ tree.inorder ∧ ctx.idOf address = id

namespace Describes

variable {ledger : Ledger} {ctx : F4opCtx} {tree : BinTree Nat}

/-- The new context has no operation. -/
theorem empty : Describes .empty f4opNewCtx .nil :=
  ⟨F4opCtx.f4opNewCtx_valid, fun _ => rfl, fun _ _ => by simp [Ledger.empty]⟩

theorem find (describes : Describes ledger ctx tree) (id : Field 20) :
    ctx.f4opFind id = .ok (ledger.holder id) := by
  rcases F4opCtx.f4opFind_returns describes.valid id with ⟨found, finds⟩
  rw [finds]
  congr 1
  ext address
  rw [describes.holder, ← F4opCtx.f4opFind_eq_some_iff describes.valid, finds, Except.ok.injEq]

theorem op_live (describes : Describes ledger ctx tree) {op : Nat} {id : Field 20}
    (known : ledger.ids op = some id) : (ctx.ops.cell op).isSome ∧ ctx.idOf op = id := by
  rw [describes.ids, Option.map_eq_some_iff] at known
  rcases known with ⟨data, cell, rfl⟩
  exact ⟨by simp [cell], F4opCtx.idOf_of_cell cell⟩

/-- The operations of the tree are those that hold an id. -/
theorem mem_iff (describes : Describes ledger ctx tree) (address : Nat) :
    address ∈ tree.inorder ↔ ∃ id, ledger.holder id = some address := by
  constructor
  · intro mem
    exact ⟨_, (describes.holder _ address).mpr ⟨mem, rfl⟩⟩
  · rintro ⟨id, held⟩
    exact ((describes.holder id address).mp held).1

theorem isFiniteMap (describes : Describes ledger ctx tree) : IsFiniteMap ctx ledger where
  find := describes.find
  add_present := by
    intro op id found known held
    rcases describes.op_live known with ⟨live, rfl⟩
    exact F4opCtx.f4opAdd_present describes.valid live (by rw [describes.find, held])
  add_absent := by
    intro op id known free
    rcases describes.op_live known with ⟨live, rfl⟩
    obtain ⟨next, _, added, _⟩ :=
      F4opCtx.f4opAdd_absent describes.valid live (by rw [describes.find, free])
    exact ⟨next, added⟩
  traversal := by
    have valid := describes.valid
    refine ⟨tree.inorder, ?_, ?_, describes.mem_iff, valid.represents.consistent valid.nodup⟩
    · rw [valid.represents.1]
      exact RbTree.traverse_eq valid.represents.2 valid.fuelled
    · exact valid.ordered.imp fun less => (Field.lt_iff_memcmp _ _).mp less

/-! ### Steps -/

theorem new (describes : Describes ledger ctx tree) {address : Nat} (id : Field 20)
    (allowed : ledger.Allows (.new address id)) :
    ∃ next, ctx.perform (.new address id) = .ok next ∧
      Describes (ledger.next (.new address id)) next tree := by
  have free : ctx.ops.cell address = none := by
    simpa [Ledger.Allows, describes.ids] using allowed
  rcases F4opCtx.f4opNew_eq describes.valid free id with ⟨next, made, nextValid, ops⟩
  refine ⟨next, made, nextValid, ?_, ?_⟩
  · intro other
    by_cases same : other = address
    · simp [Ledger.next, ops, same]
    · simp [Ledger.next, ops, same, describes.ids, Memory.write_cell]
  · intro other holder
    rw [show (ledger.next (.new address id)).holder = ledger.holder from rfl, describes.holder]
    apply and_congr_right
    intro mem
    have apart : holder ≠ address := by
      rintro rfl
      simpa [free] using describes.valid.ops_live mem
    simp [F4opCtx.idOf, ops, Memory.write_cell_of_ne _ _ apart]

theorem add (describes : Describes ledger ctx tree) {op : Nat} (allowed : ledger.Allows (.add op)) :
    ∃ next grown, ctx.perform (.add op) = .ok next ∧
      Describes (ledger.next (.add op)) next grown := by
  rcases Option.isSome_iff_exists.mp allowed with ⟨id, known⟩
  rcases describes.op_live known with ⟨live, opId⟩
  cases held : ledger.holder id with
  | some found =>
      have added := F4opCtx.f4opAdd_present describes.valid live
        (by rw [opId, describes.find, held])
      refine ⟨ctx, tree, by simp [F4opCtx.perform, added], ?_⟩
      simpa [Ledger.next, known, held] using describes
  | none =>
      obtain ⟨next, grown, added, ops, nextValid, grows⟩ :=
        F4opCtx.f4opAdd_absent describes.valid live (by rw [opId, describes.find, held])
      have sameIds : next.idOf = ctx.idOf := by
        funext address
        rw [F4opCtx.idOf, ops, F4opCtx.idOf]
      refine ⟨next, grown, by simp [F4opCtx.perform, added], nextValid, ?_, ?_⟩
      · simpa [Ledger.next, known, held, ops] using describes.ids
      · intro other address
        simp only [Ledger.next, known, held, Function.update_apply, grows, sameIds]
        split
        · next same =>
          subst same
          constructor
          · rintro ⟨rfl⟩
            exact ⟨.inl rfl, opId⟩
          · rintro ⟨rfl | mem, addressId⟩
            · rfl
            · have := (describes.holder other address).mpr ⟨mem, addressId⟩
              simp [held] at this
        · next differ =>
          rw [describes.holder]
          constructor
          · rintro ⟨mem, addressId⟩
            exact ⟨.inr mem, addressId⟩
          · rintro ⟨rfl | mem, addressId⟩
            · exact absurd (addressId.symm.trans opId) differ
            · exact ⟨mem, addressId⟩

theorem remove (describes : Describes ledger ctx tree) {op : Nat}
    (allowed : ledger.Allows (.remove op)) :
    ∃ next rest, ctx.perform (.remove op) = .ok next ∧
      Describes (ledger.next (.remove op)) next rest := by
  rcases Option.bind_eq_some_iff.mp allowed with ⟨id, known, held⟩
  rcases (describes.holder id op).mp held with ⟨mem, opId⟩
  obtain ⟨next, rest, removed, nextValid, inorder, ops⟩ :=
    F4opCtx.f4opRemove_eq describes.valid mem
  refine ⟨next, rest, removed, nextValid, ?_, ?_⟩
  · intro address
    by_cases same : address = op
    · simp [Ledger.next, known, ops, same]
    · simp [Ledger.next, known, ops, same, describes.ids, Memory.free_cell]
  · intro other address
    simp only [Ledger.next, known, Function.update_apply, inorder,
      describes.valid.nodup.mem_erase_iff]
    split
    · next same =>
      subst same
      constructor
      · simp
      · rintro ⟨⟨differ, stays⟩, addressId⟩
        have same : ctx.idOf address = other := by
          simpa [F4opCtx.idOf, ops, Memory.free_cell_of_ne _ differ] using addressId
        have := held.symm.trans ((describes.holder other address).mpr ⟨stays, same⟩)
        exact absurd (Option.some.inj this).symm differ
    · next differ =>
      rw [describes.holder]
      by_cases same : address = op
      · subst same
        simp [opId, Ne.symm differ]
      · simp [same, F4opCtx.idOf, ops, Memory.free_cell_of_ne _ same]

/-- An allowed call returns, and the ledger describes the context after it. -/
theorem perform (describes : Describes ledger ctx tree) {action : Action}
    (allowed : ledger.Allows action) :
    ∃ next tree', ctx.perform action = .ok next ∧ Describes (ledger.next action) next tree' := by
  cases action with
  | new address id =>
      rcases describes.new id allowed with ⟨next, made, nextDescribes⟩
      exact ⟨next, tree, made, nextDescribes⟩
  | add op => exact describes.add allowed
  | remove op => exact describes.remove allowed

end Describes

/-- Every legal run of calls returns, and its ledger describes the context it ends in. -/
theorem run_describes (actions : List Action)
    (legal : Run.Legal Ledger.Allows Ledger.next .empty actions) :
    ∃ ctx, Run.run F4opCtx.perform f4opNewCtx actions = .ok ctx ∧
      ∃ tree, Describes (actions.foldl Ledger.next .empty) ctx tree :=
  Run.run_simulates (fun ctx ledger => ∃ tree, Describes ledger ctx tree)
    (fun ⟨_, describes⟩ allowed => by
      rcases describes.perform allowed with ⟨next, tree', done, nextDescribes⟩
      exact ⟨next, done, tree', nextDescribes⟩)
    ⟨.nil, Describes.empty⟩ legal

/-- Every legal run of calls ends in a context that behaves as the map of its ledger. -/
theorem run_isFiniteMap (actions : List Action)
    (legal : Run.Legal Ledger.Allows Ledger.next .empty actions) :
    ∃ ctx, Run.run F4opCtx.perform f4opNewCtx actions = .ok ctx ∧
      IsFiniteMap ctx (actions.foldl Ledger.next .empty) := by
  rcases run_describes actions legal with ⟨ctx, ran, tree, describes⟩
  exact ⟨ctx, ran, describes.isFiniteMap⟩

/-- Two ids, a second operation under the first of them, and the removal of the root. -/
theorem run_isFiniteMap_example :
    ∃ ctx, Run.run F4opCtx.perform f4opNewCtx
        [.new 0 (.zero 20), .add 0, .new 1 ⟨List.replicate 20 1, rfl⟩, .add 1,
          .new 2 (.zero 20), .add 2, .remove 0, .add 2] = .ok ctx ∧
      IsFiniteMap ctx ([.new 0 (.zero 20), .add 0, .new 1 ⟨List.replicate 20 1, rfl⟩, .add 1,
          .new 2 (.zero 20), .add 2, .remove 0, .add 2].foldl Ledger.next .empty) :=
  run_isFiniteMap _ ⟨rfl, rfl, rfl, rfl, rfl, rfl, rfl, rfl, trivial⟩

end Dnsp2p.Ops
