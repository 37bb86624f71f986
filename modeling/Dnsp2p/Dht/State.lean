import Dnsp2p.Dht.Search

/-!
# The state of the DHT

All static variables of the DHT in one record, and the functions that start it,
start a search, and take note of a broken node.  Secrets are left out: only the
time of their rotation is read by a function that is called.
-/

namespace Dnsp2p.Dht

open Dnsp2p.Message

/-- `DHT_MAX_BLACKLISTED`. -/
abbrev dhtMaxBlacklisted : Nat := 10

/-- `MAX_TOKEN_BUCKET_TOKENS`. -/
abbrev maxTokenBucketTokens : Int := 40

/-- The static variables of the DHT.  A slot of the blacklist is absent until it
is written. -/
structure State extends Table where
  searchTime : Int
  confirmNodesTime : Int
  rotateSecretsTime : Int
  storage : List Storage
  searches : List Search
  numsearches : Int
  searchId : UInt16
  blacklist : Fin dhtMaxBlacklisted → Option Sockaddr
  nextBlacklisted : Fin dhtMaxBlacklisted
  tokenBucketTime : Int
  tokenBucketTokens : Int

namespace State

/-- `random()` was called once. -/
def drawn (d : State) : State :=
  { d with toNet := d.toNet.drop 1 }

/-- `rotate_secrets`. -/
def rotateSecrets (d : State) : State :=
  { d.drawn with rotateSecretsTime := d.now + 900 + (d.random 0 % 1800 : Nat) }

/-! ## Starting -/

/-- `dht_init` on the state of a fresh process, with the sockets it is given,
`now` from `gettimeofday` and the random stream; `set_nonblocking` and
`dht_random_bytes` succeed. -/
def init (s s6 : Int) (id : Field 20) (v : Option (Field 4)) (now : Int) (random : Nat → Nat) :
    State :=
  let d : State :=
    { self := { myid := id, v }, dhtSocket := s, dhtSocket6 := s6, now
      random := fun n => random (n + 2)
      sent := []
      buckets := if 0 ≤ s then [Bucket.zero .inet] else []
      buckets6 := if 0 ≤ s6 then [Bucket.zero .inet6] else []
      mybucketGrowTime := now, mybucket6GrowTime := now, expireStuffTime := 0
      searchTime := 0, confirmNodesTime := now + (random 0 % 3 : Nat), rotateSecretsTime := 0
      storage := [], searches := [], numsearches := 0, searchId := UInt16.ofNat (random 1)
      blacklist := fun _ => none, nextBlacklisted := 0
      tokenBucketTime := now, tokenBucketTokens := maxTokenBucketTokens }
  let d := d.rotateSecrets
  { d with toTable := (d.toTable.expireBuckets .inet).expireBuckets .inet6 }

/-! ## Searching -/

/-- The buckets whose nodes `dht_search` puts into a search. -/
def seedSearch (t : Table) (af : Family) (b : Nat) (sr : Search) : Search :=
  let insert (b? : Option Nat) (sr : Search) : Search :=
    match b?.bind fun b => (t.bucketsOf af)[b]? with
    | none => sr
    | some bucket => insertSearchBucket t.now bucket sr
  let sr := insert (some b) sr
  let sr := if sr.nodes.length < searchNodes then
      insert (previousBucket b) (insert (some (b + 1)) sr)
    else sr
  if sr.nodes.length < searchNodes then insert (findBucket (t.bucketsOf af) t.self.myid) sr else sr

/-- The search that `dht_search` continues or starts, the list that holds it,
and the next search id. -/
def prepareSearch (d : State) (id : Field 20) (af : Family) :
    Option (Nat × List Search × Int × UInt16) :=
  match d.searches.findIdx? fun sr => sr.af = af && idCmp sr.id id = 0 with
  | some i =>
      some (i, d.searches.modify i fun sr =>
        { sr with done := false, nodes := renewNodes d.now sr.nodes }, d.numsearches, d.searchId)
  | none =>
      match newSearch d.now d.searches d.numsearches with
      | none => none
      | some (i, searches, numsearches) =>
          some (i, searches.modify i fun sr =>
            { sr with af, tid := d.searchId, stepTime := 0, id, done := false, nodes := [] },
            numsearches, d.searchId + 1)

/-- `dht_search`: its result, the state and the callbacks made. -/
def dhtSearch (d : State) (id : Field 20) (port : Int) (af : Family) (caller : Caller) :
    Int × State × List Event :=
  match findBucket (d.bucketsOf af) id with
  | none => (-1, d, [])
  | some b =>
      match d.prepareSearch id af with
      | none => (-1, d, [])
      | some (i, searches, numsearches, searchId) =>
          match searches[i]? with
          | none => (-1, d, [])
          | some sr =>
              let sr := { sr with port := UInt16.ofInt port }
              let sr := seedSearch d.toTable af b sr
              let (t, sr, events) := searchStep caller d.toTable sr
              (1, { d with
                toTable := t
                searches := searches.set i sr
                numsearches
                searchId
                searchTime := t.now }, events)

/-! ## Broken nodes -/

/-- The loop of `broken_node` over the nodes of one search.  After a node was
flushed the loop goes on behind the node that took its place. -/
def discardNode (id : Field 20) : List SearchNode → List SearchNode
  | [] => []
  | [n] => if idCmp n.id id = 0 then [] else [n]
  | n :: next :: rest =>
      if idCmp n.id id = 0 then next :: discardNode id rest else n :: discardNode id (next :: rest)

/-- `broken_node` for an id that was read. -/
def breakNode (d : State) (id : Field 20) (sa : Sockaddr) : State :=
  let af := sa.family
  let t := match findNode (d.bucketsOf af) id with
    | none => d.toTable
    | some (b, n) =>
        (d.toTable.modifyNode af b n fun node => { node with pinged := 3 }).pinged af b n
  { d with
    toTable := t
    searches := d.searches.map fun sr => { sr with nodes := discardNode id sr.nodes } }

/-- `broken_node`; without an id only the address is remembered. -/
def brokenNode (d : State) (id : Option Bytes) (sa : Sockaddr) : Except Fault State := do
  let d ← match id with
    | none => .ok d
    | some block =>
        match Field.read 20 block with
        | none => .error .outOfBounds
        | some id => .ok (d.breakNode id sa)
  .ok { d with
    blacklist := Function.update d.blacklist d.nextBlacklisted (some sa)
    nextBlacklisted := d.nextBlacklisted + 1 }

/-! ## The rate limiter -/

/-- `token_bucket`; `token_bucket_tokens` is an `int`. -/
def tokenBucket (d : State) : Bool × State :=
  let d := if d.tokenBucketTokens = 0 then
      { d with
        tokenBucketTokens :=
          Int.bmod (min maxTokenBucketTokens (4 * (d.now - d.tokenBucketTime))) (2 ^ 32)
        tokenBucketTime := d.now }
    else d
  if d.tokenBucketTokens = 0 then (false, d)
  else (true, { d with tokenBucketTokens := d.tokenBucketTokens - 1 })

end State

end Dnsp2p.Dht
