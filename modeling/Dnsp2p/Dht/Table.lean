import Dnsp2p.Message.Build

/-!
# The routing table

The bucket lists of the two address families and the functions that keep them.
A pointer to a bucket or a node is its index in its list, and the family of a
bucket is the family of its table.  Sending a datagram appends it to `sent`;
`random()` draws from a stream.
-/

namespace Dnsp2p.Dht

open Dnsp2p.Message

/-- An address of one family. -/
abbrev Endpoint (af : Family) :=
  { sa : Sockaddr // sa.family = af }

/-- `struct node`. -/
structure Node (af : Family) where
  id : Field 20
  ss : Endpoint af
  time : Int
  replyTime : Int
  pingedTime : Int
  pinged : Int
  deriving DecidableEq

/-- `struct bucket`; `cached` is absent when its family is zero. -/
structure Bucket (af : Family) where
  first : Field 20
  count : Int
  time : Int
  nodes : List (Node af)
  cached : Option (Endpoint af)
  deriving DecidableEq

/-- The bucket that `calloc` makes. -/
def Bucket.zero (af : Family) : Bucket af :=
  { first := Field.zero 20, count := 0, time := 0, nodes := [], cached := none }

/-- A datagram that was handed to `sendto`. -/
structure Datagram where
  sa : Sockaddr
  out : Outgoing
  deriving DecidableEq

/-- What every function of the DHT may read, the clock of the current call, the
datagrams sent so far and the rest of the random stream. -/
structure Net where
  self : Identity
  dhtSocket : Int
  dhtSocket6 : Int
  now : Int
  random : Nat → Nat
  sent : List Datagram

/-- The routing table of a node. -/
structure Table extends Net where
  buckets : List (Bucket .inet)
  buckets6 : List (Bucket .inet6)
  mybucketGrowTime : Int
  mybucket6GrowTime : Int
  expireStuffTime : Int

/-! ## Sending and drawing -/

namespace Net

/-- The socket for a family. -/
def socketOf (net : Net) : Family → Int
  | .inet => net.dhtSocket
  | .inet6 => net.dhtSocket6

/-- A builder's bytes go to `dht_send`, which has no socket for a family when the
descriptor is negative. -/
def send (net : Net) (sa : Sockaddr) (out? : Option Outgoing) : Net :=
  match out? with
  | none => net
  | some out =>
      if net.socketOf sa.family < 0 then net
      else { net with sent := net.sent ++ [{ sa, out }] }

/-- The stream after `random()` was called this often. -/
def drop (net : Net) (count : Nat) : Net :=
  { net with random := fun n => net.random (n + count) }

end Net

/-- `make_tid`: the sequence number is in host order. -/
def makeTid (kind : String) (seqno : UInt16) : Bytes :=
  ascii kind ++ [seqno.toUInt8, (seqno >>> 8).toUInt8]

/-- `tid_match`: the sequence number of a matching transaction id. -/
def tidMatch (tid : Bytes) (kind : String) : Option UInt16 :=
  match tid with
  | first :: second :: low :: high :: _ =>
      if [first, second] = ascii kind then some (low.toUInt16 + high.toUInt16 * 256) else none
  | _ => none

/-! ## Ids -/

/-- `id_cmp`. -/
def idCmp (id1 id2 : Field 20) : Int :=
  memcmp id1.bytes id2.bytes

/-- A bit of an id, numbered from the start. -/
def bitAt (id : Field 20) (bit : Nat) : Bool :=
  octet id (bit / 8) &&& ((0x80 : UInt8) >>> UInt8.ofNat (bit % 8)) ≠ 0

/-- `lowbit`: the last bit that is set. -/
def lowbit (id : Field 20) : Int :=
  match ((List.range 160).filter (bitAt id)).getLast? with
  | some bit => bit
  | none => -1

/-- `xorcmp`, from one byte on. -/
def xorcmp : Bytes → Bytes → Bytes → Int
  | byte1 :: rest1, byte2 :: rest2, ref :: refs =>
      if byte1 = byte2 then xorcmp rest1 rest2 refs
      else if byte1 ^^^ ref < byte2 ^^^ ref then -1
      else 1
  | _, _, _ => 0

/-- A byte of an id changed. -/
def modifyByte (id : Field 20) (index : Nat) (change : UInt8 → UInt8) : Field 20 :=
  ⟨id.bytes.modify index change, by simp [id.length_eq]⟩

/-! ## Buckets -/

namespace Table

/-- `buckets` or `buckets6`. -/
def bucketsOf (t : Table) : (af : Family) → List (Bucket af)
  | .inet => t.buckets
  | .inet6 => t.buckets6

/-- The table with another bucket list for a family. -/
def setBuckets (t : Table) : (af : Family) → List (Bucket af) → Table
  | .inet, buckets => { t with buckets }
  | .inet6, buckets6 => { t with buckets6 }

/-- A bucket changed in place. -/
def modifyBucket (t : Table) (af : Family) (b : Nat) (change : Bucket af → Bucket af) : Table :=
  t.setBuckets af ((t.bucketsOf af).modify b change)

/-- A node changed in place. -/
def modifyNode (t : Table) (af : Family) (b n : Nat) (change : Node af → Node af) : Table :=
  t.modifyBucket af b fun bucket => { bucket with nodes := bucket.nodes.modify n change }

end Table

/-- `in_bucket`, for a bucket and the one behind it. -/
def inBucket {af : Family} (id : Field 20) (bucket : Bucket af) (next : Option (Bucket af)) :
    Bool :=
  idCmp bucket.first id ≤ 0 &&
    match next with
    | none => true
    | some next => idCmp id next.first < 0

/-- The loop of `find_bucket`. -/
def findBucketFrom {af : Family} (id : Field 20) : List (Bucket af) → Nat
  | _ :: next :: rest =>
      if idCmp id next.first < 0 then 0 else findBucketFrom id (next :: rest) + 1
  | _ => 0

/-- `find_bucket`: absent when the family has no table. -/
def findBucket {af : Family} (buckets : List (Bucket af)) (id : Field 20) : Option Nat :=
  if buckets.length = 0 then none else some (findBucketFrom id buckets)

/-- `previous_bucket`. -/
def previousBucket (b : Nat) : Option Nat :=
  if b = 0 then none else some (b - 1)

/-- `find_node`: a bucket and a node in it. -/
def findNode {af : Family} (buckets : List (Bucket af)) (id : Field 20) : Option (Nat × Nat) := do
  let b ← findBucket buckets id
  let bucket ← buckets[b]?
  let n ← bucket.nodes.findIdx? fun node => idCmp node.id id = 0
  some (b, n)

/-- `random_node`; it draws only when the bucket has nodes. -/
def randomNode {af : Family} (net : Net) (bucket : Bucket af) : Option Nat × Net :=
  if bucket.count = 0 then (none, net)
  else
    let nn := ((net.random 0 : Int) % bucket.count).toNat
    (if nn < bucket.nodes.length then some nn else none, net.drop 1)

/-- The first bit that a split of a bucket would decide. -/
def splitBit {af : Family} (bucket : Bucket af) (next : Option (Bucket af)) : Nat :=
  (max (lowbit bucket.first)
    (match next with
      | some next => lowbit next.first
      | none => -1) + 1).toNat

/-- `bucket_middle`. -/
def bucketMiddle {af : Family} (bucket : Bucket af) (next : Option (Bucket af)) :
    Option (Field 20) :=
  let bit := splitBit bucket next
  if 160 ≤ bit then none
  else some (modifyByte bucket.first (bit / 8)
    fun byte => byte ||| (0x80 >>> UInt8.ofNat (bit % 8)))

/-- `bucket_random`. -/
def bucketRandom {af : Family} (net : Net) (bucket : Bucket af) (next : Option (Bucket af)) :
    Field 20 × Net :=
  let bit := splitBit bucket next
  if 160 ≤ bit then (bucket.first, net)
  else
    let low : UInt8 := 0xFF >>> UInt8.ofNat (bit % 8)
    let bytes := bucket.first.bytes.mapIdx fun index byte =>
      if index < bit / 8 then byte
      else if index = bit / 8 then
        (byte &&& ~~~low) ||| (UInt8.ofNat (net.random 0) &&& low)
      else UInt8.ofNat (net.random (index - bit / 8))
    (⟨bytes, by simp [bytes, bucket.first.length_eq]⟩, net.drop (20 - bit / 8))

/-- `insert_node`. -/
def insertNode {af : Family} (buckets : List (Bucket af)) (node : Node af) : List (Bucket af) :=
  match findBucket buckets node.id with
  | none => buckets
  | some b =>
      buckets.modify b fun bucket =>
        { bucket with nodes := node :: bucket.nodes, count := bucket.count + 1 }

/-- `node_good`. -/
def nodeGood {af : Family} (now : Int) (node : Node af) : Bool :=
  node.pinged ≤ 2 && now - 7200 ≤ node.replyTime && now - 900 ≤ node.time

/-! ## Pings -/

namespace Table

/-- `send_ping` with a transaction id for pings. -/
def ping (t : Table) (sa : Sockaddr) : Table :=
  { t with toNet := t.toNet.send sa (sendPing t.self (makeTid "pn" 0)) }

/-- `send_cached_ping`. -/
def sendCachedPing (t : Table) (af : Family) (b : Nat) : Table :=
  match (t.bucketsOf af)[b]? with
  | none => t
  | some bucket =>
      match bucket.cached with
      | none => t
      | some cached =>
          (t.ping cached).modifyBucket af b fun bucket => { bucket with cached := none }

/-- `pinged(n, b)` for a node of the bucket `b`, which is also the bucket that
`find_bucket` gives when the argument is NULL. -/
def pinged (t : Table) (af : Family) (b n : Nat) : Table :=
  match (t.bucketsOf af)[b]? with
  | none => t
  | some bucket =>
      match bucket.nodes[n]? with
      | none => t
      | some node =>
          let t := t.modifyNode af b n fun node =>
            { node with pinged := node.pinged + 1, pingedTime := t.now }
          if 3 ≤ node.pinged + 1 then t.sendCachedPing af b else t

/-- `split_bucket`; nothing changes when the bucket cannot be split. -/
def splitBucket (t : Table) (af : Family) (b : Nat) : Table :=
  match (t.bucketsOf af)[b]? with
  | none => t
  | some bucket =>
      match bucketMiddle bucket (t.bucketsOf af)[b + 1]? with
      | none => t
      | some newId =>
          let t := t.sendCachedPing af b
          let old := (t.bucketsOf af).modify b fun bucket => { bucket with nodes := [], count := 0 }
          let new := { Bucket.zero af with first := newId, time := bucket.time }
          t.setBuckets af
            (bucket.nodes.foldl insertNode (old.take (b + 1) ++ [new] ++ old.drop (b + 1)))

/-! ## Learning about a node -/

/-- A node that `new_node` writes: `confirm` is 1 if the node sent a message, 2
if it sent a reply. -/
def freshNode {af : Family} (now : Int) (id : Field 20) (ss : Endpoint af) (confirm : Nat) :
    Node af :=
  { id, ss, time := if confirm ≠ 0 then now else 0, replyTime := if 2 ≤ confirm then now else 0,
    pingedTime := 0, pinged := 0 }

/-- What `new_node` does to a node that it knows. -/
def refreshNode {af : Family} (now : Int) (ss : Endpoint af) (confirm : Nat) (node : Node af) :
    Node af :=
  if confirm ≠ 0 ∨ node.time < now - 15 * 60 then
    let node := { node with ss }
    let node := if confirm ≠ 0 then { node with time := now } else node
    if 2 ≤ confirm then { node with replyTime := now, pinged := 0, pingedTime := 0 } else node
  else node

/-- The time at which our own bucket last grew. -/
def growMybucket (t : Table) : Family → Table
  | .inet => { t with mybucketGrowTime := t.now }
  | .inet6 => { t with mybucket6GrowTime := t.now }

/-- The first dubious node that was not pinged in the last 15 seconds is pinged. -/
def pingDubious (t : Table) (af : Family) (b : Nat) (bucket : Bucket af) : Table :=
  match bucket.nodes.findIdx? fun node =>
      !nodeGood t.now node && node.pingedTime < t.now - 15 with
  | none => t
  | some n =>
      match bucket.nodes[n]? with
      | none => t
      | some node =>
          (t.ping node.ss).modifyNode af b n fun node =>
            { node with pinged := node.pinged + 1, pingedTime := t.now }

/-- `new_node` for an id that was read; the fuel bounds how often a bucket is
split. -/
def learn (sa : Sockaddr) (confirm : Nat) (id : Field 20) : Nat → Table → Except Fault Table
  | 0, _ => .error .nonterminating
  | fuel + 1, t =>
      let af := sa.family
      let ss : Endpoint af := ⟨sa, rfl⟩
      match findBucket (t.bucketsOf af) id with
      | none => .ok t
      | some b =>
          match (t.bucketsOf af)[b]? with
          | none => .ok t
          | some bucket =>
              if idCmp id t.self.myid = 0 then .ok t
              else if isMartian sa then .ok t
              else
                let mybucket := inBucket t.self.myid bucket (t.bucketsOf af)[b + 1]?
                let t := if confirm = 2 then
                    t.modifyBucket af b fun bucket => { bucket with time := t.now }
                  else t
                match bucket.nodes.findIdx? fun node => idCmp node.id id = 0 with
                | some n => .ok (t.modifyNode af b n (refreshNode t.now ss confirm))
                | none =>
                    let t := if mybucket then t.growMybucket af else t
                    match bucket.nodes.findIdx? fun node =>
                        3 ≤ node.pinged && node.pingedTime < t.now - 15 with
                    | some n => .ok (t.modifyNode af b n fun _ => freshNode t.now id ss confirm)
                    | none =>
                        if 8 ≤ bucket.count then
                          let dubious := bucket.nodes.any fun node => !nodeGood t.now node
                          let t := t.pingDubious af b bucket
                          if mybucket ∧ (dubious = false ∨ (t.bucketsOf af).length = 1) then
                            learn sa confirm id fuel (t.splitBucket af b)
                          else if confirm ≠ 0 ∨ bucket.cached = none then
                            .ok (t.modifyBucket af b fun bucket =>
                              { bucket with cached := some ss })
                          else .ok t
                        else
                          .ok (t.modifyBucket af b fun bucket =>
                            { bucket with
                              nodes := freshNode t.now id ss confirm :: bucket.nodes
                              count := bucket.count + 1 })

/-- A bucket is split at most once for each bit of an id; `learn` gets one step
more, and one for the end. -/
def splitFuel : Nat :=
  162

/-- `new_node`: the id is read from a block of memory, unless the family has no
table. -/
def newNode (t : Table) (id : Bytes) (sa : Sockaddr) (confirm : Nat) : Except Fault Table :=
  if (t.bucketsOf sa.family).length = 0 then .ok t
  else
    match Field.read 20 id with
    | none => .error .outOfBounds
    | some id => learn sa confirm id splitFuel t

/-! ## Maintenance -/

/-- One round of the loop of `expire_buckets`. -/
def expireBucket (t : Table) (af : Family) (b : Nat) : Table :=
  match (t.bucketsOf af)[b]? with
  | none => t
  | some bucket =>
      let kept := bucket.nodes.filter fun node => node.pinged < 4
      if kept.length = bucket.nodes.length then t
      else
        (t.modifyBucket af b fun bucket =>
          { bucket with
            nodes := kept
            count := bucket.count - (bucket.nodes.length - kept.length) }).sendCachedPing af b

/-- `expire_buckets`. -/
def expireBuckets (t : Table) (af : Family) : Table :=
  let t := (List.range (t.bucketsOf af).length).foldl (fun t b => t.expireBucket af b) t
  { t with toNet := t.toNet.drop 1, expireStuffTime := t.now + 120 + (t.random 0 % 240 : Nat) }

/-- The choice of a bucket next to `b`, from where a node is asked. -/
def neighbour (t : Table) (af : Family) (b : Nat) (bucket : Bucket af) : Nat × Bucket af × Table :=
  let (q, qBucket, t) := match (t.bucketsOf af)[b + 1]? with
    | none => (b, bucket, t)
    | some next =>
        if bucket.count = 0 then (b + 1, next, t)
        else if t.random 0 % 8 = 0 then (b + 1, next, { t with toNet := t.toNet.drop 1 })
        else (b, bucket, { t with toNet := t.toNet.drop 1 })
  let retry := qBucket.count = 0 ∨ t.random 0 % 8 = 0
  let t := if qBucket.count = 0 then t else { t with toNet := t.toNet.drop 1 }
  if retry then
    match previousBucket b with
    | none => (q, qBucket, t)
    | some r =>
        match (t.bucketsOf af)[r]? with
        | none => (q, qBucket, t)
        | some rBucket => if 0 < rBucket.count then (r, rBucket, t) else (q, qBucket, t)
  else (q, qBucket, t)

/-- `send_find_node` to a node of the bucket `q`, and `pinged`. -/
def askNode (t : Table) (af : Family) (q n : Nat) (node : Node af) (id : Field 20) (want : Int) :
    Table :=
  let confirm := decide (t.now - 15 ≤ node.replyTime)
  let t := { t with
    toNet := t.toNet.send node.ss (sendFindNode t.self (makeTid "fn" 0) id want confirm) }
  t.pinged af q n

/-- Are both sockets open? -/
def dualStack (t : Table) : Bool :=
  0 ≤ t.dhtSocket && 0 ≤ t.dhtSocket6

/-- `neighbourhood_maintenance`. -/
def neighbourhoodMaintenance (t : Table) (af : Family) : Bool × Table :=
  match findBucket (t.bucketsOf af) t.self.myid with
  | none => (false, t)
  | some b =>
      match (t.bucketsOf af)[b]? with
      | none => (false, t)
      | some bucket =>
          let id := modifyByte t.self.myid 19 fun _ => UInt8.ofNat (t.random 0)
          let t := { t with toNet := t.toNet.drop 1 }
          let (q, qBucket, t) := t.neighbour af b bucket
          let want : Int := if t.dualStack then 3 else -1
          let (n?, net) := randomNode t.toNet qBucket
          let t := { t with toNet := net }
          match n? with
          | none => (true, t)
          | some n =>
              match qBucket.nodes[n]? with
              | none => (true, t)
              | some node => (true, t.askNode af q n node id want)

/-- The `want` of `bucket_maintenance`. -/
def maintenanceWant (t : Table) (af : Family) (id : Field 20) : Int × Table :=
  if t.dualStack then
    let emptyish := match findBucket (t.bucketsOf af.other) id with
      | none => false
      | some b =>
          match (t.bucketsOf af.other)[b]? with
          | none => false
          | some bucket => bucket.count < 8
    if emptyish then (3, t)
    else
      (if t.random 0 % 37 = 0 then 3 else -1, { t with toNet := t.toNet.drop 1 })
  else (-1, t)

/-- The loop of `bucket_maintenance` from a bucket on. -/
def bucketMaintenanceFrom (af : Family) : Nat → Nat → Table → Bool × Table
  | 0, _, t => (false, t)
  | fuel + 1, b, t =>
      match (t.bucketsOf af)[b]? with
      | none => (false, t)
      | some bucket =>
          if bucket.time < t.now - 600 then
            let (id, net) := bucketRandom t.toNet bucket (t.bucketsOf af)[b + 1]?
            let t := { t with toNet := net }
            let (q, qBucket, t) := t.neighbour af b bucket
            let (n?, net) := randomNode t.toNet qBucket
            let t := { t with toNet := net }
            match n?.bind fun n => qBucket.nodes[n]?.map fun node => (n, node) with
            | none => bucketMaintenanceFrom af fuel (b + 1) t
            | some (n, node) =>
                let (want, t) := t.maintenanceWant af id
                (true, t.askNode af q n node id want)
          else bucketMaintenanceFrom af fuel (b + 1) t

/-- `bucket_maintenance`. -/
def bucketMaintenance (t : Table) (af : Family) : Bool × Table :=
  bucketMaintenanceFrom af (t.bucketsOf af).length 0 t

end Table

end Dnsp2p.Dht
