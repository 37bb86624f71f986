import Dnsp2p.Library.Bytes
import Dnsp2p.Ops.RbTree

/-!
# The operation context

The functions of `ops.c` and the data of an operation.  The node of an operation
is its first member: operation and node have one address, in two memories.
-/

namespace Dnsp2p.Ops

/-- `F4OP_MODE_PUT`. -/
abbrev f4opModePut : UInt8 := 10

/-- `F4OP_MODE_GET`. -/
abbrev f4opModeGet : UInt8 := 20

/-- `f4op_get_t`.  A request is known by a number. -/
structure F4opGet where
  request : Option Nat
  deriving DecidableEq, Repr

/-- The function behind `dht_callback`. -/
inductive DhtCallback where
  | opgetDhtCallback
  deriving DecidableEq, Repr

/-- The function behind `dns_callback`. -/
inductive DnsCallback where
  | opgetDnsCallback
  deriving DecidableEq, Repr

/-- `struct f4op` without its node. -/
structure F4op where
  id : Field 20
  mode : UInt8
  type : Option Bytes
  fqn : Option Bytes
  data : Option F4opGet
  dhtCallback : Option DhtCallback
  dnsCallback : Option DnsCallback
  deriving DecidableEq

/-- `f4op_ctx_t` and all operations, in the tree or not. -/
structure F4opCtx where
  tree : RbTree
  ops : Memory F4op

/-- `f4op_new_ctx`. -/
def f4opNewCtx : F4opCtx where
  tree := { rbNode := none, nodes := .empty }
  ops := .empty

/-- `f4op_get_new`. -/
def f4opGetNew (op : F4op) : Except Fault F4op :=
  if op.mode = f4opModeGet then
    .ok { op with
      data := some { request := none }
      dhtCallback := some .opgetDhtCallback
      dnsCallback := some .opgetDnsCallback }
  else .error .assertion

namespace F4opCtx

variable (ctx : F4opCtx)

/-- The operation behind a pointer. -/
def read : Option Nat → Except Fault F4op
  | none => .error .nullPointer
  | some address => match ctx.ops.cell address with
    | none => .error .useAfterFree
    | some op => .ok op

/-- `f4op_new`, when `calloc` returns `address`. -/
def f4opNew (address : Nat) (mode : UInt8) (id : Field 20) : Except Fault F4opCtx :=
  if mode = f4opModeGet then do
    let op ← f4opGetNew
      { id, mode, type := none, fqn := none, data := none, dhtCallback := none,
        dnsCallback := none }
    return {
      tree := { ctx.tree with nodes := ctx.tree.nodes.write address .zero }
      ops := ctx.ops.write address op }
  else .error .assertion

/-- Where the loop of `f4op_add` ends: at an operation with the id, or at a link
that is NULL. -/
inductive Descent where
  | found (op : Nat)
  | leaf (parent : Option Nat) (link : RbTree.Link)
  deriving DecidableEq, Repr

/-- The loop of `f4op_add`. -/
def addLoop (id : Field 20) : Nat → RbTree.Link → Option Nat → Except Fault Descent
  | 0, _, _ => .error .nonterminating
  | fuel + 1, link, parent => do
      match ← ctx.tree.follow link with
      | none => return .leaf parent link
      | some p =>
          let comp := memcmp id.bytes (← ctx.read (some p)).id.bytes
          if comp < 0 then addLoop id fuel (.child p .left) (some p)
          else if 0 < comp then addLoop id fuel (.child p .right) (some p)
          else return .found p

/-- `f4op_add`: the operation that has the id already, and the context. -/
def f4opAdd (op : Nat) : Except Fault (Option Nat × F4opCtx) := do
  let { id, .. } ← ctx.read (some op)
  match ← ctx.addLoop id (ctx.tree.nodes.bound + 1) .root none with
  | .found found => return (some found, ctx)
  | .leaf parent link =>
      let tree ← ctx.tree.rbLinkNode (some op) parent link
      return (none, { ctx with tree })

/-- The loop of `f4op_find`. -/
def findLoop (id : Field 20) : Nat → Option Nat → Except Fault (Option Nat)
  | 0, _ => .error .nonterminating
  | _ + 1, none => .ok none
  | fuel + 1, some n => do
      let comp := memcmp id.bytes (← ctx.read (some n)).id.bytes
      if comp < 0 then findLoop id fuel (← ctx.tree.read (some n)).rbLeft
      else if 0 < comp then findLoop id fuel (← ctx.tree.read (some n)).rbRight
      else return some n

/-- `f4op_find`. -/
def f4opFind (id : Field 20) : Except Fault (Option Nat) :=
  ctx.findLoop id (ctx.tree.nodes.bound + 1) ctx.tree.rbNode

/-- `f4op_free`.  The strings go with the operation. -/
def f4opFree (op : Nat) : Except Fault F4opCtx := do
  let _ ← ctx.read (some op)
  return {
    tree := { ctx.tree with nodes := ctx.tree.nodes.free op }
    ops := ctx.ops.free op }

/-- `f4op_remove`. -/
def f4opRemove (n op : Nat) : Except Fault F4opCtx := do
  let tree ← ctx.tree.rbErase (some n)
  { ctx with tree }.f4opFree op

/-- The loop of `f4op_free_ctx`: the operations passed to `f4op_free`, in this order,
and the context after them. -/
def freeLoop : Nat → F4opCtx → Option Nat → Except Fault (List Nat × F4opCtx)
  | 0, _, _ => .error .nonterminating
  | _ + 1, ctx, none => .ok ([], ctx)
  | fuel + 1, ctx, some tmp => do
      let p ← ctx.tree.rbNext (some tmp)
      let ctx ← ctx.f4opRemove tmp tmp
      let (freed, ctx) ← freeLoop fuel ctx p
      return (tmp :: freed, ctx)

/-- `f4op_free_ctx`, up to the end of its loop: what follows releases the context. -/
def f4opFreeCtx : Except Fault (List Nat × F4opCtx) := do
  let p ← ctx.tree.rbFirst
  freeLoop (ctx.tree.nodes.bound + 1) ctx p

end F4opCtx

end Dnsp2p.Ops
