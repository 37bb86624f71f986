import Dnsp2p.Dht.State

/-!
# The periodic call

`dht_periodic`: receive a datagram, parse it, handle the message, and do what is
due.  The handlers read the fields of a `dht_message_t` through pointers that the
parser may have left NULL, and objects that may be absent or of another type.
-/

namespace Dnsp2p.Dht

open Dnsp2p.Benc Dnsp2p.Message

/-- A field of a message that is dereferenced. -/
def field {α : Type} : Option α → Except Fault α
  | some value => .ok value
  | none => .error .nullField

/-- `obj->as.bstr` of an object that was looked up. -/
def asBstr : Option Bobj → Except Fault Bytes
  | some (.bstr bytes) => .ok bytes
  | _ => .error .notByteString

/-- The pointer and the length of a byte string, assigned only when the object
is present. -/
def bstrIfPresent : Option Bobj → Except Fault (Option Bytes)
  | none => .ok none
  | some obj => do .ok (some (← asBstr (some obj)))

/-- The `token` of a reply to a search that is still known. -/
def tokenFor (a : Bobj) (sr : Option Nat) : Except Fault (Option Bobj) :=
  match sr with
  | none => .ok none
  | some _ => bobjDictLookup a (ascii "token")

/-- The 20 bytes of an id behind a pointer that a message holds. -/
def readId (id : Option Bytes) : Except Fault (Field 20) := do
  match Field.read 20 (← field id) with
  | some id => .ok id
  | none => .error .outOfBounds

/-- A length variable that is read. -/
def assigned {α : Type} : Option α → Except Fault α
  | some value => .ok value
  | none => .error .unassigned

/-- The part of `dht_periodic_state_t` that the handlers read. -/
structure PeriodicState where
  msg : DhtMessage
  source : Sockaddr
  caller : Caller

/-- A block of memory cut into records of a size. -/
def records (size : Nat) (block : Bytes) : List Bytes :=
  (List.range (block.length / size)).map fun i => (block.drop (size * i)).take size

/-- The address in a compact node record. -/
def recordAddress : Family → Bytes → Option Sockaddr
  | .inet, ni => do
      let addr ← Field.read 4 (ni.drop 20)
      let port ← Field.read 2 (ni.drop 24)
      some (.inet { port, addr })
  | .inet6, ni => do
      let addr ← Field.read 16 (ni.drop 20)
      let port ← Field.read 2 (ni.drop 36)
      some (.inet6 { port, flowinfo := Field.zero 4, addr, scopeId := Field.zero 4 })

/-- The callback for one of the two value lists of a reply. -/
def Caller.callValues (caller : Caller) (event : EventKind) (obj : Option Bobj)
    (search? : Option Search) : List Event :=
  match obj, search? with
  | some (.bstr bytes), some search => caller.call event search.id bytes
  | _, _ => []

namespace State

/-- A search changed in place. -/
def modifySearch (d : State) (sr? : Option Nat) (change : Search → Search) : State :=
  match sr? with
  | none => d
  | some sr => { d with searches := d.searches.modify sr change }

/-- `new_node` on the routing table of the DHT. -/
def newNode (d : State) (id : Bytes) (sa : Sockaddr) (confirm : Nat) : Except Fault State := do
  let t ← d.toTable.newNode id sa confirm
  .ok { d with toTable := t }

/-- One round of the loops over `nodes` and `nodes6`. -/
def learnRecord (af : Family) (sr? : Option Nat) (d : State) (ni : Bytes) : Except Fault State :=
  match Field.read 20 ni, recordAddress af ni with
  | some id, some sa =>
      if idCmp id d.self.myid = 0 then .ok d
      else do
        let d ← d.newNode ni sa 0
        .ok (d.modifySearch sr? fun sr =>
          if sr.af = af then insertSearchNode d.now id sa false none sr else sr)
  | _, _ => .error .outOfBounds

/-- The loops over `nodes` and `nodes6`. -/
def learnRecords (af : Family) (sr? : Option Nat) (d : State) (ni : List Bytes) :
    Except Fault State :=
  ni.foldlM (learnRecord af sr?) d

/-- `search_send_get_peers(sr, NULL)` for a search of the list. -/
def pushRequest (d : State) (sr : Nat) : State :=
  match d.searches[sr]? with
  | none => d
  | some search =>
      let (t, search, _) := searchSendGetPeers d.toTable search none
      { d with toTable := t, searches := d.searches.set sr search }

/-- The branch of `_dht_handle_response` for a search that is still known. -/
def handleValues (d : State) (state : PeriodicState) (sr : Nat) (token : Option Bobj) :
    Except Fault (State × List Event) := do
  let d := d.pushRequest sr
  let token ← asBstr token
  let id ← readId state.msg.argId
  let d := d.modifySearch (some sr) (insertSearchNode d.now id state.source true (some token))
  let r ← field state.msg.r
  let values ← bobjDictLookup r (ascii "values")
  let values6 ← bobjDictLookup r (ascii "values6")
  if values = none ∧ values6 = none then .ok (d, [])
  else do
    -- the log line prints both lengths
    let _ ← asBstr values
    let _ ← asBstr values6
    .ok (d, state.caller.callValues .values values d.searches[sr]? ++
      state.caller.callValues .values6 values6 d.searches[sr]?)

/-- `_dht_handle_response` for the replies to `find_node` and `get_peers`. -/
def handleNodes (d : State) (state : PeriodicState) (t : Bytes) :
    Except Fault (State × List Event) := do
  let broken : Except Fault (State × List Event) := do
    let d ← d.brokenNode state.msg.argId state.source
    .ok (d, [])
  let a ← field state.msg.a
  let nodesObj ← bobjDictLookup a (ascii "nodes")
  let nodes6Obj ← bobjDictLookup a (ascii "nodes6")
  if nodesObj = none ∧ nodes6Obj = none then broken
  else do
    let nodes ← bstrIfPresent nodesObj
    let nodes6 ← bstrIfPresent nodes6Obj
    let ttid := tidMatch t "gp"
    let sr := ttid.bind fun ttid => findSearch d.searches ttid state.source.family
    let token ← tokenFor a sr
    if sr ≠ none ∧ token = none then broken
    else do
      -- the log line divides both lengths
      let nodes ← assigned nodes
      let nodes6 ← assigned nodes6
      if nodes.length % 26 ≠ 0 ∨ nodes6.length % 38 ≠ 0 then broken
      else do
        let argId ← field state.msg.argId
        if ttid ≠ none ∧ sr = none then do
          let d ← d.newNode argId state.source 1
          .ok (d, [])
        else do
          let d ← d.newNode argId state.source 2
          let d ← d.learnRecords .inet sr (records 26 nodes)
          let d ← d.learnRecords .inet6 sr (records 38 nodes6)
          match sr with
          | none => .ok (d, [])
          | some sr => d.handleValues state sr token

/-- `_dht_handle_response`. -/
def handleResponse (d : State) (state : PeriodicState) : Except Fault (State × List Event) :=
  if state.msg.type ≠ .response then .error .assertion
  else if state.msg.tLen ≠ 4 then do
    let d ← d.brokenNode state.msg.argId state.source
    .ok (d, [])
  else do
    let t ← field state.msg.t
    if tidMatch t "pn" ≠ none then do
      let d ← d.newNode t state.source 2
      .ok (d, [])
    else if tidMatch t "fn" = none ∧ tidMatch t "gp" = none then do
      -- the log line prints `t` with `%s`
      let _ ← cStrlen t
      .error .assertion
    else d.handleNodes state t

/-- `_dht_handle_query`. -/
def handleQuery (d : State) (state : PeriodicState) : Except Fault (State × List Event) :=
  if state.msg.type ≠ .query then .error .assertion else .ok (d, [])

/-- What `dht_periodic` does with a message: the check for our own id, the rate
limiter and the handlers. -/
def dispatch (d : State) (state : PeriodicState) : Except Fault (State × List Event) := do
  let argId ← readId state.msg.argId
  if idCmp argId d.self.myid = 0 then .ok (d, [])
  else
    match state.msg.type with
    | .response => d.handleResponse state
    | .query =>
        let (allowed, d) := d.tokenBucket
        if allowed then d.handleQuery state else .ok (d, [])
    | .err =>
        let (_, d) := d.tokenBucket
        .ok (d, [])

/-! ## Receiving -/

end State

/-- A `recvfrom`: the source and the at most 1536 bytes that it stores, unless it
fails, and whether `errno` is EAGAIN afterwards. -/
structure Reception where
  stored : Option (Sockaddr × Bytes)
  again : Bool

/-- The value of `recvfrom`. -/
def Reception.rc (reception : Reception) : Int :=
  match reception.stored with
  | some (_, buf) => buf.length
  | none => -1

/-- What the environment decides in one call: the clock, whether a socket is
readable, the two receptions, the indeterminate value of the variable `rc` and
the address of the copy that `dht_message_parse` makes. -/
structure Input where
  now : Int
  available : Bool
  rc : Int
  inet : Reception
  inet6 : Reception
  addr : Nat

/-- What is received: the datagram in the buffer if there is one, or the value
of an early return.  `rc` is tested where `state.rc` is meant. -/
def receive (d : State) (input : Input) : Except Int (Option (Sockaddr × Bytes)) :=
  if 0 ≤ d.dhtSocket ∧ input.rc < 0 ∧ input.inet.again = false then .error input.inet.rc
  else if 0 ≤ d.dhtSocket6 ∧ input.rc < 0 then
    if input.inet6.again = false then .error input.inet6.rc else .ok input.inet6.stored
  else if 0 ≤ d.dhtSocket then .ok input.inet.stored
  else .ok none

namespace State

/-- The branch of `dht_periodic` for an available datagram; the state record has
no callback. -/
def handleDatagram (d : State) (addr : Nat) (source : Sockaddr) (buf : Bytes) :
    Except Fault (State × List Event) :=
  if isMartian source then .ok (d, [])
  else if ∃ slot, d.blacklist slot = some source then .ok (d, [])
  else if 1536 ≤ buf.length then .ok (d, [])
  else do
    match ← dhtMessageParse addr buf with
    | none => .ok (d, [])
    | some msg => d.dispatch { msg, source, caller := { callback := none, closure := 0 } }

/-! ## What is due -/

/-- `expire_buckets` on both tables, `expire_storage` and `expire_searches`. -/
def expireStuff (d : State) : State :=
  let t := (d.toTable.expireBuckets .inet).expireBuckets .inet6
  let (searches, numsearches) := expireSearches d.now d.searches d.numsearches
  { d with toTable := t, storage := expireStorage d.now d.storage, searches, numsearches }

/-- The first loop over the searches: those that are due are stepped. -/
def stepSearches (caller : Caller) : Table → List Search → Table × List Search × List Event
  | t, [] => (t, [], [])
  | t, sr :: rest =>
      let (t, sr, events) :=
        if !sr.done && sr.stepTime + 5 ≤ t.now then searchStep caller t sr else (t, sr, [])
      let (t, rest, events') := stepSearches caller t rest
      (t, sr :: rest, events ++ events')

/-- The second loop over the searches: the next time one of them is due. -/
def nextSearchTime : Net → Int → List Search → Net × Int
  | net, searchTime, [] => (net, searchTime)
  | net, searchTime, sr :: rest =>
      if sr.done then nextSearchTime net searchTime rest
      else
        let tm := sr.stepTime + 15 + (net.random 0 % 10 : Nat)
        nextSearchTime (net.drop 1)
          (if searchTime = 0 ∨ tm < searchTime then tm else searchTime) rest

/-- The searches that are due. -/
def runSearches (d : State) (caller : Caller) : State × List Event :=
  if 0 < d.searchTime ∧ d.searchTime ≤ d.now then
    let (t, searches, events) := stepSearches caller d.toTable d.searches
    let (net, searchTime) := nextSearchTime t.toNet 0 searches
    ({ d with toTable := { t with toNet := net }, searches, searchTime }, events)
  else (d, [])

/-- `bucket_maintenance` and `neighbourhood_maintenance`, and when to do them
again. -/
def maintain (d : State) : State :=
  if d.confirmNodesTime ≤ d.now then
    let (soon, t) := d.toTable.bucketMaintenance .inet
    let (soon6, t) := t.bucketMaintenance .inet6
    let soon := soon || soon6
    let (soon, t) :=
      if soon then (soon, t)
      else
        let (near, t) :=
          if t.now - 150 ≤ t.mybucketGrowTime then t.neighbourhoodMaintenance .inet else (false, t)
        let (near6, t) :=
          if t.now - 150 ≤ t.mybucket6GrowTime then t.neighbourhoodMaintenance .inet6
          else (false, t)
        (near || near6, t)
    let wait : Int := if soon then 5 + (t.random 0 % 20 : Nat) else 60 + (t.random 0 % 120 : Nat)
    { d with toTable := { t with toNet := t.toNet.drop 1 }, confirmNodesTime := t.now + wait }
  else d

/-- `*tosleep`. -/
def tosleep (d : State) : Int :=
  let tosleep := if d.now < d.confirmNodesTime then d.confirmNodesTime - d.now else 0
  if 0 < d.searchTime then
    if d.searchTime ≤ d.now then 0 else min tosleep (d.searchTime - d.now)
  else tosleep

/-- `dht_periodic` from the label `dontread` on. -/
def due (d : State) (caller : Caller) : State × List Event :=
  let d := if d.rotateSecretsTime ≤ d.now then d.rotateSecrets else d
  let d := if d.expireStuffTime ≤ d.now then d.expireStuff else d
  let (d, events) := d.runSearches caller
  (d.maintain, events)

end State

/-- The result of `dht_periodic`: its value, the time to sleep if it was stored,
the state and the callbacks made. -/
structure Outcome where
  rc : Int
  tosleep : Option Int
  dht : State
  events : List Event

/-- `dht_periodic`. -/
def dhtPeriodic (d : State) (input : Input) (caller : Caller) : Except Fault Outcome := do
  let d : State := { d with now := input.now }
  let finish (d : State) (events : List Event) : Outcome :=
    let (d, events') := d.due caller
    { rc := 1, tosleep := some d.tosleep, dht := d, events := events ++ events' }
  if input.available then
    match receive d input with
    | .error rc => .ok { rc, tosleep := none, dht := d, events := [] }
    | .ok none => .ok (finish d [])
    | .ok (some (source, buf)) => do
        let (d, events) ← d.handleDatagram input.addr source buf
        .ok (finish d events)
  else .ok (finish d [])

end Dnsp2p.Dht
