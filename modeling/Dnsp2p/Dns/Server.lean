import Dnsp2p.Dht.State
import Dnsp2p.Dns.Name
import Dnsp2p.Ops.Context

/-!
# The DNS server callback

`_f4dns_cb_dnsserver` and what it calls: the hash of a name, the callback of an
operation that starts a search, and the operation context.
-/

namespace Dnsp2p.Dns

open Dnsp2p.Ops Dnsp2p.Dht

/-- What the program uses of libgcrypt: whether `gcry_md_open` succeeds, and the
digest. -/
structure Gcrypt where
  mdOpen : Bool
  sha1 : Bytes → Field 20

/-- What `f4crypto_hash_fqdn` hashes.  The prefix goes in with its NUL. -/
def hashInput (fqdn : Bytes) (replica : UInt8) : Bytes :=
  ascii "F4DNS::" ++ [0] ++ fqdn ++ [replica]

/-- `f4crypto_hash_fqdn`. -/
def f4cryptoHashFqdn (gcrypt : Gcrypt) (fqdn : Bytes) (replica : UInt8) : Except Fault (Field 20) :=
  if fqdn.length = 0 then .error .assertion
  else if gcrypt.mdOpen = false then .error .assertion
  else .ok (gcrypt.sha1 (hashInput fqdn replica))

/-- A question: its name and its type. -/
structure Question where
  name : Bytes
  type : UInt16
  deriving DecidableEq

/-- The name of a record type, as `switch` chooses it. -/
def recordType (type : UInt16) : Except Fault Bytes :=
  match type.toNat with
  | 1 => .ok (ascii "A")
  | 28 => .ok (ascii "AAAA")
  | 15 => .ok (ascii "MX")
  | 2 => .ok (ascii "NS")
  | 12 => .ok (ascii "PTR")
  | 6 => .ok (ascii "SOA")
  | 16 => .ok (ascii "TXT")
  | _ => .error .assertion

/-- `DNS_ERR_NOTEXIST`. -/
abbrev dnsErrNotexist : Int := 3

/-- The operations, the DHT, and the calls of `evdns_server_request_respond`. -/
structure Node where
  opCtx : F4opCtx
  dht : Dht.State
  responses : List (Nat × Int)

namespace Node

variable (node : Node)

/-- Write to the data of an operation. -/
def writeOp (op : Nat) (data : F4op) : Node :=
  { node with opCtx := { node.opCtx with ops := node.opCtx.ops.write op data } }

/-- `evdns_server_request_respond`. -/
def respond (req : Nat) (err : Int) : Node :=
  { node with responses := node.responses ++ [(req, err)] }

/-- `opget_dns_callback`.  The result of `dht_search` is not used. -/
def opgetDnsCallback (op req : Nat) : Except Fault Node := do
  let data ← node.opCtx.read (some op)
  match data.data with
  | none => .error .nullPointer
  | some getOp =>
      let (_, dht, _) := node.dht.dhtSearch data.id 0 .inet { callback := none, closure := 0 }
      return { node.writeOp op
        { data with data := some { getOp with request := some req } } with dht }

/-- The part of `_f4dns_cb_dnsserver` for a valid name.  `calloc` returns the first
address behind all operations; neither it nor `strdup` fails. -/
def acceptQuestion (gcrypt : Gcrypt) (req : Nat) (question : Question) : Except Fault Node := do
  let rType ← recordType question.type
  let opId ← f4cryptoHashFqdn gcrypt question.name 0
  let op := node.opCtx.ops.bound
  let opCtx ← node.opCtx.f4opNew op f4opModeGet opId
  let data ← opCtx.read (some op)
  match data.dnsCallback with
  | none => .error .assertion
  | some .opgetDnsCallback =>
      let node := { node with opCtx }.writeOp op
        { data with type := some rType, fqn := some question.name }
      let node ← node.opgetDnsCallback op req
      let (_, opCtx) ← node.opCtx.f4opAdd op
      return { node with opCtx }

/-- `_f4dns_cb_dnsserver`: the questions from one on. -/
def f4dnsCbDnsserver (gcrypt : Gcrypt) (req : Nat) : Node → List Question → Except Fault Node
  | node, [] => .ok node
  | node, question :: questions => do
      if ← f4dnsIsValid question.name then
        f4dnsCbDnsserver gcrypt req (← node.acceptQuestion gcrypt req question) questions
      else return node.respond req dnsErrNotexist

end Node

/-! ## What the callback does to the operations -/

/-- The id of the operation for a name. -/
def Gcrypt.opId (gcrypt : Gcrypt) (name : Bytes) : Field 20 :=
  gcrypt.sha1 (hashInput name 0)

/-- The types that the `switch` names. -/
def Supported (type : UInt16) : Prop :=
  type ∈ ([1, 28, 15, 2, 12, 6, 16] : List UInt16)
  deriving Decidable

theorem recordType_returns_iff (type : UInt16) :
    (∃ name, recordType type = .ok name) ↔ Supported type := by
  simp only [Supported, List.mem_cons, List.not_mem_nil, or_false, ← UInt16.toNat_inj, recordType]
  split <;> simp_all

end Dnsp2p.Dns
