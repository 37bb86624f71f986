import Dnsp2p.Dht.Address

/-!
# Stored peers

The peers that other nodes have announced, one record for each info hash.
-/

namespace Dnsp2p.Dht

/-- `struct peer`; `port` is in host order. -/
structure Peer where
  time : Int
  ip : Field 16
  len : Nat
  port : UInt16
  deriving DecidableEq

/-- `struct storage`; `numpeers` is the number of peers. -/
structure Storage where
  id : Field 20
  peers : List Peer
  deriving DecidableEq

/-- The inner loop of `expire_storage`: an expired peer is overwritten with the
last one. -/
def expirePeers (now : Int) : Nat → Nat → List Peer → List Peer
  | 0, _, peers => peers
  | fuel + 1, i, peers =>
      match peers[i]? with
      | none => peers
      | some peer =>
          if peer.time < now - 32 * 60 then
            expirePeers now fuel i
              (match peers.getLast? with
                | some last => (peers.set i last).dropLast
                | none => peers)
          else
            expirePeers now fuel (i + 1) peers

/-- `expire_storage`. -/
def expireStorage (now : Int) (storage : List Storage) : List Storage :=
  (storage.map fun st => { st with peers := expirePeers now st.peers.length 0 st.peers }).filter
    fun st => st.peers ≠ []

end Dnsp2p.Dht
