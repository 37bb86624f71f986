import Mathlib.Logic.Function.Basic
import Dnsp2p.Dns.Server
import Dnsp2p.Ops.Valid

/-!
# The docket of the DNS server

A docket says which request is pending under each id and which requests are
answered.  The callback does to the docket what can be said without trees: a
valid question enters its request under its id unless another one is pending
there, and the first invalid question answers the request.
-/

namespace Dnsp2p.Ops

/-- The request that an operation holds. -/
def F4opCtx.requestOf (ctx : F4opCtx) (op : Nat) : Option Nat := do
  let data ← ctx.ops.cell op
  let getOp ← data.data
  getOp.request

end Dnsp2p.Ops

namespace Dnsp2p.Dns

open Dnsp2p.Ops Dnsp2p.Dht BinTree

/-- The pending requests by id, and the answered requests in order. -/
structure Docket where
  pending : Field 20 → Option Nat
  answered : List Nat

namespace Docket

/-- Enter a request under an id that is free. -/
def enter (docket : Docket) (id : Field 20) (req : Nat) : Docket :=
  match docket.pending id with
  | some _ => docket
  | none => { docket with pending := Function.update docket.pending id (some req) }

/-- What a request does to the docket. -/
def serve (gcrypt : Gcrypt) (req : Nat) : Docket → List Question → Docket
  | docket, [] => docket
  | docket, question :: questions =>
      if IsValid question.name then
        serve gcrypt req (docket.enter (gcrypt.opId question.name) req) questions
      else { docket with answered := docket.answered ++ [req] }

theorem enter_pending (docket : Docket) (id : Field 20) (req : Nat) (other : Field 20) :
    (docket.enter id req).pending other =
      if docket.pending other = none ∧ other = id then some req else docket.pending other := by
  unfold enter
  split
  · next held =>
    by_cases same : other = id
    · simp [same, held]
    · simp [same]
  · next free =>
    by_cases same : other = id
    · simp [same, free]
    · simp [same]

theorem enter_pending_ne_none (docket : Docket) (id : Field 20) (req : Nat) (other : Field 20) :
    (docket.enter id req).pending other ≠ none ↔ other = id ∨ docket.pending other ≠ none := by
  rw [enter_pending]
  by_cases same : other = id
  · subst same
    cases docket.pending other <;> simp
  · simp [same]

@[simp]
theorem enter_answered (docket : Docket) (id : Field 20) (req : Nat) :
    (docket.enter id req).answered = docket.answered := by
  unfold enter
  split <;> rfl

end Docket

/-- The questions before the first invalid one. -/
def validPrefix (questions : List Question) : List Question :=
  questions.takeWhile fun question => IsValid question.name

theorem validPrefix_cons {question : Question} (valid : IsValid question.name)
    (questions : List Question) :
    validPrefix (question :: questions) = question :: validPrefix questions := by
  simp [validPrefix, valid]

namespace Docket

/-- A request is entered under the free ids of its questions before the first
invalid one. -/
theorem serve_pending (gcrypt : Gcrypt) (req : Nat) (docket : Docket) (questions : List Question)
    (id : Field 20) :
    (docket.serve gcrypt req questions).pending id =
      if docket.pending id = none ∧
        ∃ question ∈ validPrefix questions, gcrypt.opId question.name = id
      then some req else docket.pending id := by
  induction questions generalizing docket with
  | nil => simp [serve, validPrefix]
  | cons question questions ih =>
      rw [serve]
      by_cases valid : IsValid question.name
      · rw [if_pos valid, ih, enter_pending, validPrefix_cons valid]
        cases taken : docket.pending id with
        | some other => simp
        | none =>
            by_cases same : id = gcrypt.opId question.name
            · simp [same]
            · simp [same, Ne.symm same]
      · simp [valid, validPrefix]

/-- A request is answered when one of its questions is invalid. -/
theorem serve_answered (gcrypt : Gcrypt) (req : Nat) (docket : Docket) (questions : List Question) :
    (docket.serve gcrypt req questions).answered =
      if ∀ question ∈ questions, IsValid question.name then docket.answered
      else docket.answered ++ [req] := by
  induction questions generalizing docket with
  | nil => simp [serve]
  | cons question questions ih =>
      rw [serve]
      by_cases valid : IsValid question.name
      · simp [valid, ih]
      · simp [valid]

end Docket

/-! ## The callback keeps the docket -/

/-- The docket of a node whose operations form a tree. -/
structure Records (docket : Docket) (node : Node) (tree : BinTree Nat) : Prop where
  valid : node.opCtx.Valid tree
  pending : ∀ id req, docket.pending id = some req ↔
    ∃ op ∈ tree.inorder, node.opCtx.idOf op = id ∧ node.opCtx.requestOf op = some req
  held : ∀ op ∈ tree.inorder, (node.opCtx.requestOf op).isSome
  answered : docket.answered = node.responses.map Prod.fst

namespace Records

variable {docket : Docket} {node : Node} {tree : BinTree Nat}

/-- A request is pending exactly when `f4op_find` reaches an operation that holds it. -/
theorem pending_iff (records : Records docket node tree) (id : Field 20) (req : Nat) :
    docket.pending id = some req ↔
      ∃ op, node.opCtx.f4opFind id = .ok (some op) ∧ node.opCtx.requestOf op = some req := by
  simp only [records.pending, F4opCtx.f4opFind_eq_some_iff records.valid]
  constructor
  · rintro ⟨op, mem, opId, request⟩
    exact ⟨op, ⟨mem, opId⟩, request⟩
  · rintro ⟨op, ⟨mem, opId⟩, request⟩
    exact ⟨op, mem, opId, request⟩

/-- An id is free exactly when `f4op_find` returns NULL. -/
theorem free_iff (records : Records docket node tree) (id : Field 20) :
    docket.pending id = none ↔ node.opCtx.f4opFind id = .ok none := by
  rcases F4opCtx.f4opFind_returns records.valid id with ⟨found, finds⟩
  rw [finds, Except.ok.injEq]
  cases found with
  | none =>
      simp only [iff_true]
      by_contra taken
      rcases Option.ne_none_iff_exists'.mp taken with ⟨req, pending⟩
      rcases (records.pending_iff id req).mp pending with ⟨op, other, _⟩
      simp [finds] at other
  | some op =>
      have mem := ((F4opCtx.f4opFind_eq_some_iff records.valid id op).mp finds).1
      rcases Option.isSome_iff_exists.mp (records.held op mem) with ⟨req, request⟩
      simp [(records.pending_iff id req).mpr ⟨op, finds, request⟩]

/-- New data outside the tree leave the docket as it is. -/
theorem write (records : Records docket node tree) {made : F4opCtx} (valid : made.Valid tree)
    {op : Nat} {data : F4op} (ops : made.ops = node.opCtx.ops.write op data)
    (apart : op ∉ tree.inorder) : Records docket { node with opCtx := made } tree := by
  have same : ∀ other ∈ tree.inorder, made.ops.cell other = node.opCtx.ops.cell other := by
    intro other mem
    have differ : other ≠ op := by
      rintro rfl
      exact apart mem
    rw [ops, Memory.write_cell_of_ne _ _ differ]
  refine ⟨valid, fun id req => ?_, fun other mem => ?_, records.answered⟩
  · rw [records.pending]
    apply exists_congr
    intro other
    apply and_congr_right
    intro mem
    simp [F4opCtx.idOf, F4opCtx.requestOf, same other mem]
  · simpa [F4opCtx.requestOf, same other mem] using records.held other mem

/-- Adding an operation enters its request under its id. -/
theorem add (records : Records docket node tree) {op req : Nat}
    (live : (node.opCtx.ops.cell op).isSome) (request : node.opCtx.requestOf op = some req) :
    ∃ found opCtx grown, node.opCtx.f4opAdd op = .ok (found, opCtx) ∧
      Records (docket.enter (node.opCtx.idOf op) req) { node with opCtx } grown := by
  rcases F4opCtx.f4opFind_returns records.valid (node.opCtx.idOf op) with ⟨found, finds⟩
  cases found with
  | some holder =>
      have taken : docket.pending (node.opCtx.idOf op) ≠ none := by
        rw [ne_eq, records.free_iff, finds]
        simp
      rcases Option.ne_none_iff_exists'.mp taken with ⟨other, pending⟩
      refine ⟨_, _, tree, F4opCtx.f4opAdd_present records.valid live finds, ?_⟩
      simpa [Docket.enter, pending] using records
  | none =>
      obtain ⟨opCtx, grown, added, ops, valid, grows⟩ :=
        F4opCtx.f4opAdd_absent records.valid live finds
      have free := (records.free_iff _).mpr finds
      refine ⟨_, opCtx, grown, added, valid, fun id other => ?_, fun other mem => ?_, ?_⟩
      · have sameId : ∀ address, opCtx.idOf address = node.opCtx.idOf address := by
          simp [F4opCtx.idOf, ops]
        have sameRequest : ∀ address, opCtx.requestOf address = node.opCtx.requestOf address := by
          simp [F4opCtx.requestOf, ops]
        simp only [Docket.enter_pending, grows, sameId, sameRequest]
        by_cases same : id = node.opCtx.idOf op
        · subst same
          rw [if_pos ⟨free, rfl⟩]
          constructor
          · rintro ⟨rfl⟩
            exact ⟨op, .inl rfl, rfl, request⟩
          · rintro ⟨address, rfl | mem, addressId, held⟩
            · rw [← held, request]
            · have := (records.pending _ other).mpr ⟨address, mem, addressId, held⟩
              simp [free] at this
        · rw [if_neg fun both => same both.2, records.pending]
          constructor
          · rintro ⟨address, mem, rest⟩
            exact ⟨address, .inr mem, rest⟩
          · rintro ⟨address, rfl | mem, addressId, held⟩
            · exact absurd addressId.symm same
            · exact ⟨address, mem, addressId, held⟩
      · rcases (grows other).mp mem with rfl | old
        · simpa [F4opCtx.requestOf, ops] using Option.isSome_iff_exists.mpr ⟨req, request⟩
        · simpa [F4opCtx.requestOf, ops] using records.held other old
      · rw [Docket.enter_answered]
        exact records.answered

end Records

/-- The operation that `_f4dns_cb_dnsserver` makes for a question. -/
def newOp (gcrypt : Gcrypt) (question : Question) (rType : Bytes) (req : Nat) : F4op where
  id := gcrypt.opId question.name
  mode := f4opModeGet
  type := some rType
  fqn := some question.name
  data := some { request := some req }
  dhtCallback := some .opgetDhtCallback
  dnsCallback := some .opgetDnsCallback

/-- The search that a question starts. -/
def searched (gcrypt : Gcrypt) (dht : Dht.State) (question : Question) : Dht.State :=
  (dht.dhtSearch (gcrypt.opId question.name) 0 .inet { callback := none, closure := 0 }).2.1

section Accept

variable {gcrypt : Gcrypt} {node : Node} {tree : BinTree Nat} {question : Question}

/-- What is asserted before an operation is made. -/
theorem acceptQuestion_requires {req : Nat} {next : Node}
    (accepted : node.acceptQuestion gcrypt req question = .ok next) :
    Supported question.type ∧ question.name ≠ [] ∧ gcrypt.mdOpen = true := by
  rw [Node.acceptQuestion, bind_eq_ok_iff] at accepted
  rcases accepted with ⟨rType, typed, accepted⟩
  rcases bind_eq_ok_iff.mp accepted with ⟨opId, hashed, _⟩
  refine ⟨(recordType_returns_iff _).mp ⟨rType, typed⟩, ?_⟩
  rw [f4cryptoHashFqdn] at hashed
  by_cases empty : question.name = []
  · simp [empty] at hashed
  · cases opened : gcrypt.mdOpen <;> simp [empty, opened] at hashed ⊢

/-- An operation that holds the request is made, a search is started, and then the
operation is added. -/
theorem acceptQuestion_eq (req : Nat) (valid : node.opCtx.Valid tree) {rType : Bytes}
    (typed : recordType question.type = .ok rType) (named : question.name ≠ [])
    (opened : gcrypt.mdOpen = true) :
    ∃ made : F4opCtx, made.Valid tree ∧
      made.ops = node.opCtx.ops.write node.opCtx.ops.bound (newOp gcrypt question rType req) ∧
      node.acceptQuestion gcrypt req question =
        made.f4opAdd node.opCtx.ops.bound >>= fun (_, opCtx) =>
          .ok { node with opCtx, dht := searched gcrypt node.dht question } := by
  have hashed : f4cryptoHashFqdn gcrypt question.name 0 = .ok (gcrypt.opId question.name) := by
    simp [f4cryptoHashFqdn, named, opened, Gcrypt.opId]
  obtain ⟨fresh, created, freshValid, freshOps⟩ :=
    F4opCtx.f4opNew_eq valid (Memory.cell_bound _) (gcrypt.opId question.name)
  have cell := congrArg (fun ops => ops.cell node.opCtx.ops.bound) freshOps
  simp only [Memory.write_cell_self] at cell
  have written : (newOp gcrypt question rType req).id = gcrypt.opId question.name := rfl
  refine ⟨_, freshValid.writeOp cell written, ?_, ?_⟩
  · simp [freshOps]
  · rw [Node.acceptQuestion, typed, ok_bind, hashed, ok_bind]
    simp only [created, ok_bind, F4opCtx.read, cell, Node.writeOp, Node.opgetDnsCallback,
      Memory.write_cell_self, Memory.write_write]
    rfl

/-- A valid question enters its request under its id. -/
theorem Records.accept (req : Nat) {docket : Docket} (records : Records docket node tree)
    (supported : Supported question.type) (named : question.name ≠ [])
    (opened : gcrypt.mdOpen = true) :
    ∃ next grown, node.acceptQuestion gcrypt req question = .ok next ∧
      next.dht = searched gcrypt node.dht question ∧
      Records (docket.enter (gcrypt.opId question.name) req) next grown := by
  rcases (recordType_returns_iff _).mpr supported with ⟨rType, typed⟩
  obtain ⟨made, valid, ops, accepted⟩ :=
    acceptQuestion_eq req records.valid typed named opened
  have apart : node.opCtx.ops.bound ∉ tree.inorder := by
    intro mem
    simpa [Memory.cell_bound] using records.valid.ops_live mem
  have cell : made.ops.cell node.opCtx.ops.bound = some (newOp gcrypt question rType req) := by
    simp [ops]
  have live : (made.ops.cell node.opCtx.ops.bound).isSome := by simp [cell]
  have request : made.requestOf node.opCtx.ops.bound = some req := by
    simp [F4opCtx.requestOf, cell, newOp]
  rcases (records.write valid ops apart).add live request with ⟨found, opCtx, grown, added, entered⟩
  rw [F4opCtx.idOf_of_cell cell] at entered
  refine ⟨_, grown, by rw [accepted, added]; rfl, rfl, ?_⟩
  exact ⟨entered.valid, entered.pending, entered.held, entered.answered⟩

end Accept

/-- The callback does to the node what `serve` does to its docket. -/
theorem Records.serve {gcrypt : Gcrypt} {req : Nat} {questions : List Question} {docket : Docket}
    {node next : Node} {tree : BinTree Nat} (records : Records docket node tree)
    (served : node.f4dnsCbDnsserver gcrypt req questions = .ok next) :
    ∃ grown, Records (docket.serve gcrypt req questions) next grown := by
  induction questions generalizing docket node tree with
  | nil =>
      obtain rfl := Except.ok.inj served
      exact ⟨tree, records⟩
  | cons question questions ih =>
      rcases bind_eq_ok_iff.mp served with ⟨valid, checked, served⟩
      cases valid with
      | false =>
          obtain rfl := Except.ok.inj served
          have invalid : ¬IsValid question.name := by simp [IsValid, checked]
          refine ⟨tree, ?_⟩
          rw [Docket.serve, if_neg invalid]
          exact ⟨records.valid, records.pending, records.held,
            by simp [Node.respond, records.answered]⟩
      | true =>
          have valid : IsValid question.name := checked
          rw [if_pos rfl] at served
          rcases bind_eq_ok_iff.mp served with ⟨middle, accepted, served⟩
          rcases acceptQuestion_requires accepted with ⟨supported, named, opened⟩
          obtain ⟨next', grown, accepted', _, entered⟩ :=
            records.accept req supported named opened
          obtain rfl := Except.ok.inj (accepted.symm.trans accepted')
          rw [Docket.serve, if_pos valid]
          exact ih entered served

end Dnsp2p.Dns
