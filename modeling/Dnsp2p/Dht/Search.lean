import Dnsp2p.Dht.Table

/-!
# Searches

A search walks towards its id through up to fourteen nodes.  The search list and
the functions that start, step and expire searches; a pointer to a search is its
index in the list, and a callback that is made is an event.
-/

namespace Dnsp2p.Dht

open Dnsp2p.Message

/-- `struct search_node`; the token is empty when `token_len` is zero. -/
structure SearchNode where
  id : Field 20
  ss : Sockaddr
  requestTime : Int
  replyTime : Int
  pinged : Int
  token : Bytes
  replied : Bool
  acked : Bool
  deriving DecidableEq

/-- `struct search`; `numnodes` is the number of nodes. -/
structure Search where
  tid : UInt16
  af : Family
  stepTime : Int
  id : Field 20
  port : UInt16
  done : Bool
  nodes : List SearchNode
  deriving DecidableEq

/-- The search that `calloc` makes; its family is overwritten at once. -/
def Search.zero : Search :=
  { tid := 0, af := .inet, stepTime := 0, id := Field.zero 20, port := 0, done := false,
    nodes := [] }

/-- The `DHT_EVENT_` constants. -/
inductive EventKind where
  | values
  | values6
  | searchDone
  | searchDone6
  deriving DecidableEq, Repr

/-- A callback and the closure it is called with, as addresses. -/
structure Caller where
  callback : Option Nat
  closure : Nat
  deriving DecidableEq

/-- A call of a callback. -/
structure Event where
  callback : Nat
  closure : Nat
  event : EventKind
  infoHash : Field 20
  data : Bytes
  deriving DecidableEq

/-- A call of the callback, if there is one. -/
def Caller.call (caller : Caller) (event : EventKind) (infoHash : Field 20) (data : Bytes) :
    List Event :=
  match caller.callback with
  | none => []
  | some callback => [{ callback, closure := caller.closure, event, infoHash, data }]

/-- `SEARCH_NODES`. -/
abbrev searchNodes : Nat := 14

/-- `DHT_MAX_SEARCHES`. -/
abbrev dhtMaxSearches : Int := 1024

/-- `DHT_SEARCH_EXPIRE_TIME`. -/
abbrev dhtSearchExpireTime : Int := 62 * 60

/-! ## The nodes of a search -/

/-- The node that `insert_search_node` clears for a new id. -/
def SearchNode.zero (id : Field 20) (ss : Sockaddr) : SearchNode :=
  { id, ss, requestTime := 0, replyTime := 0, pinged := 0, token := [], replied := false,
    acked := false }

/-- The statements of `insert_search_node` behind the label `found`. -/
def updateSearchNode (now : Int) (ss : Sockaddr) (replied : Bool) (token : Option Bytes)
    (n : SearchNode) : SearchNode :=
  let n := { n with ss }
  let n := if replied then
    { n with replied := true, replyTime := now, requestTime := 0, pinged := 0 }
    else n
  match token with
  | none => n
  | some token => if 40 ≤ token.length then n else { n with token }

/-- `insert_search_node`. -/
def insertSearchNode (now : Int) (id : Field 20) (sa : Sockaddr) (replied : Bool)
    (token : Option Bytes) (sr : Search) : Search :=
  if sa.family ≠ sr.af then sr
  else
    let i := sr.nodes.findIdx fun n =>
      idCmp id n.id = 0 || xorcmp id.bytes n.id.bytes sr.id.bytes < 0
    let new := updateSearchNode now sa replied token (SearchNode.zero id sa)
    match sr.nodes[i]? with
    | some n =>
        if idCmp id n.id = 0 then
          { sr with nodes := sr.nodes.set i (updateSearchNode now sa replied token n) }
        else if i = searchNodes then sr
        else { sr with nodes := (sr.nodes.insertIdx i new).take searchNodes }
    | none => if i = searchNodes then sr else { sr with nodes := sr.nodes ++ [new] }

/-- `flush_search_node`. -/
def flushSearchNode (i : Nat) (sr : Search) : Search :=
  { sr with nodes := sr.nodes.eraseIdx i }

/-- `insert_search_bucket`. -/
def insertSearchBucket {af : Family} (now : Int) (bucket : Bucket af) (sr : Search) : Search :=
  bucket.nodes.foldl (fun sr n => insertSearchNode now n.id n.ss false none sr) sr

/-! ## Asking nodes -/

/-- `pinged(find_node(…), NULL)` if the node is in the routing table. -/
def Table.pingedIfKnown (t : Table) (id : Field 20) (af : Family) : Table :=
  match findNode (t.bucketsOf af) id with
  | none => t
  | some (b, n) => t.pinged af b n

/-- A node of a search that was just asked. -/
def SearchNode.asked (now : Int) (n : SearchNode) : SearchNode :=
  { n with pinged := n.pinged + 1, requestTime := now }

/-- `search_send_get_peers` for a given node. -/
def sendGetPeersTo (t : Table) (sr : Search) (i : Nat) : Table × Search × Nat :=
  match sr.nodes[i]? with
  | none => (t, sr, 0)
  | some n =>
      if 3 ≤ n.pinged ∨ n.replied ∨ t.now - 15 ≤ n.requestTime then (t, sr, 0)
      else
        let out := sendGetPeers t.self (makeTid "gp" sr.tid) sr.id (-1) (t.now - 15 ≤ n.replyTime)
        let t := { t with toNet := t.toNet.send n.ss out }
        (t.pingedIfKnown n.id n.ss.family,
          { sr with nodes := sr.nodes.set i (n.asked t.now) }, 1)

/-- `search_send_get_peers`: without a node, the last one that may be asked. -/
def searchSendGetPeers (t : Table) (sr : Search) (n? : Option Nat) : Table × Search × Nat :=
  match n? with
  | some i => sendGetPeersTo t sr i
  | none =>
      match (List.range sr.nodes.length).reverse.find? fun i =>
          (sr.nodes[i]?).any fun n => n.pinged < 3 && !n.replied && n.requestTime < t.now - 15 with
      | none => (t, sr, 0)
      | some i => sendGetPeersTo t sr i

/-- The first loop of `search_step`: have the first eight live nodes replied? -/
def allDone : Nat → List SearchNode → Bool
  | 0, _ => true
  | _, [] => true
  | live + 1, n :: rest =>
      if 3 ≤ n.pinged then allDone (live + 1) rest
      else if n.replied then allDone live rest
      else false

/-- The loop of `search_step` that announces: the first eight live nodes from `i`
on, and whether all of them have acknowledged. -/
def announceFrom (tid : UInt16) (id : Field 20) (port : UInt16) :
    Nat → Table → List SearchNode → Table × List SearchNode × Bool
  | 0, t, nodes => (t, nodes, true)
  | _, t, [] => (t, [], true)
  | live + 1, t, n :: rest =>
      if 3 ≤ n.pinged then
        let (t, rest, allAcked) := announceFrom tid id port (live + 1) t rest
        (t, n :: rest, allAcked)
      else
        let n := if n.token = [] then { n with acked := true } else n
        if n.acked then
          let (t, rest, allAcked) := announceFrom tid id port live t rest
          (t, n :: rest, allAcked)
        else
          let out := sendAnnouncePeer t.self (makeTid "ap" tid) id port n.token
            (t.now - 15 ≤ n.replyTime)
          let t := { t with toNet := t.toNet.send n.ss out }
          let t := t.pingedIfKnown n.id n.ss.family
          let (t', rest, _) := announceFrom tid id port live t rest
          (t', n.asked t.now :: rest, false)

/-- The last loop of `search_step`: nodes from `i` on are asked until three
requests are sent. -/
def askFrom : Nat → Nat → Nat → Table → Search → Table × Search
  | 0, _, _, t, sr => (t, sr)
  | fuel + 1, i, j, t, sr =>
      if sr.nodes.length ≤ i then (t, sr)
      else
        let (t, sr, sent) := searchSendGetPeers t sr (some i)
        if 3 ≤ j + sent then (t, sr) else askFrom fuel (i + 1) (j + sent) t sr

/-- `search_step` behind the label `done`. -/
def finishSearch (now : Int) (caller : Caller) (sr : Search) : Search × List Event :=
  ({ sr with done := true, stepTime := now },
    caller.call (match sr.af with
      | .inet => .searchDone
      | .inet6 => .searchDone6) sr.id [])

/-- `search_step`. -/
def searchStep (caller : Caller) (t : Table) (sr : Search) : Table × Search × List Event :=
  if allDone 8 sr.nodes then
    if sr.port = 0 then
      let (sr, events) := finishSearch t.now caller sr
      (t, sr, events)
    else
      let (t, nodes, allAcked) := announceFrom sr.tid sr.id sr.port 8 t sr.nodes
      let sr := { sr with nodes }
      if allAcked then
        let (sr, events) := finishSearch t.now caller sr
        (t, sr, events)
      else (t, { sr with stepTime := t.now }, [])
  else if t.now ≤ sr.stepTime + 15 then (t, sr, [])
  else
    let (t, sr) := askFrom sr.nodes.length 0 0 t sr
    (t, { sr with stepTime := t.now }, [])

/-! ## The search list -/

/-- `find_search`. -/
def findSearch (searches : List Search) (tid : UInt16) (af : Family) : Option Nat :=
  searches.findIdx? fun sr => sr.tid = tid && sr.af = af

/-- `expire_searches`: the searches that are left and their number. -/
def expireSearches (now : Int) (searches : List Search) (numsearches : Int) :
    List Search × Int :=
  let kept := searches.filter fun sr => !(sr.stepTime < now - dhtSearchExpireTime)
  (kept, numsearches - (searches.length - kept.length))

/-- The loop of `new_search` that looks for the oldest finished search. -/
def oldestDone : Nat → Option (Nat × Int) → List Search → Option (Nat × Int)
  | _, oldest, [] => oldest
  | i, oldest, sr :: rest =>
      let better := sr.done && match oldest with
        | none => true
        | some (_, stepTime) => sr.stepTime < stepTime
      oldestDone (i + 1) (if better then some (i, sr.stepTime) else oldest) rest

/-- `new_search`: the slot for a new search and the list that holds it. -/
def newSearch (now : Int) (searches : List Search) (numsearches : Int) :
    Option (Nat × List Search × Int) :=
  let oldest := oldestDone 0 none searches
  let reused := oldest.map fun (i, _) => (i, searches, numsearches)
  match oldest with
  | some (_, stepTime) =>
      if stepTime < now - dhtSearchExpireTime then reused
      else if numsearches < dhtMaxSearches then
        some (0, Search.zero :: searches, numsearches + 1)
      else reused
  | none =>
      if numsearches < dhtMaxSearches then some (0, Search.zero :: searches, numsearches + 1)
      else none

/-- The `again` loop of `dht_search`: doubtful nodes are dropped, the others
start anew.  Every drop starts over, so each node is looked at with a fresh
index; a node that was cleared once is cleared again. -/
def renewNodes (now : Int) (nodes : List SearchNode) : List SearchNode :=
  (nodes.filter fun n => !(3 ≤ n.pinged || n.replyTime < now - 7200)).map fun n =>
    { n with pinged := 0, token := [], replied := false, acked := false }

end Dnsp2p.Dht
