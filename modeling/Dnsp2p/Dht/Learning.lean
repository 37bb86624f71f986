import Dnsp2p.Dht.Change
import Dnsp2p.Dht.Dispatch

/-!
# What a reply teaches

A reply to `find_node` or `get_peers` lists nodes for the routing table and for a
search, and a pong confirms its sender.  The node lists are looked up among the
arguments of a query, which a response does not have, and a pong is entered under
its transaction id.
-/

namespace Dnsp2p.Dht

open Dnsp2p.Benc Dnsp2p.Message

/-! ## Node lists -/

/-- The byte string of a key of a reply, empty when the key is absent. -/
def replyBytes (head : BencDict) (key : String) : Option Bytes :=
  match bencDictLookup (ascii key) head with
  | .ok none => some []
  | .ok (some (.bstr bytes)) => some bytes
  | _ => none

/-- The search that a reply to `get_peers` belongs to. -/
def State.replySearch (d : State) (state : PeriodicState) (t : Bytes) : Option Nat :=
  (tidMatch t "gp").bind fun ttid => findSearch d.searches ttid state.source.family

/-- The node lists consist of whole records, and the search is known. -/
structure Acceptable (d : State) (state : PeriodicState) (head : BencDict)
    (t nodes nodes6 : Bytes) : Prop where
  listed : replyBytes head "nodes" = some nodes
  listed6 : replyBytes head "nodes6" = some nodes6
  whole : nodes.length % 26 = 0
  whole6 : nodes6.length % 38 = 0
  known : tidMatch t "gp" ≠ none → d.replySearch state t ≠ none

/-- The sender is offered to the routing table, and each record, in order, to the
routing table and to the search. -/
def State.learnReply (d : State) (source : Sockaddr) (id : Field 20) (sr? : Option Nat)
    (nodes nodes6 : Bytes) : Except Fault State := do
  let d ← d.newNode id.bytes source 2
  let d ← d.learnRecords .inet sr? (records 26 nodes)
  d.learnRecords .inet6 sr? (records 38 nodes6)

/-- What follows when the node lists were learned: with a search, its values. -/
def Continued (d : State) (state : PeriodicState) (sr? : Option Nat) (d' : State)
    (events : List Event) : Prop :=
  match sr? with
  | none => d' = d ∧ events = []
  | some sr => ∃ token, d.handleValues state sr token = .ok (d', events)

/-- No id but that of the sender has entered a bucket, and none a search. -/
structure Unlearned (d d' : State) (id : Field 20) : Prop where
  table : ∀ af, ∀ other ∈ (d'.bucketsOf af).flatMap Bucket.ids,
    other ∈ (d.bucketsOf af).flatMap Bucket.ids ∨ other = id
  searches : ∀ (i : Nat) (sr' : Search), d'.searches[i]? = some sr' →
    ∃ sr, d.searches[i]? = some sr ∧ ∀ n' ∈ sr'.nodes, ∃ n ∈ sr.nodes, n.id = n'.id

/-- A reply with node lists is learned completely or not at all. -/
def AllOrNothing (d : State) (state : PeriodicState) (head : BencDict) (id : Field 20) (t : Bytes) :
    Prop :=
  ∃ d' events, d.handleResponse state = .ok (d', events) ∧
    (∀ nodes nodes6, Acceptable d state head t nodes nodes6 →
      ∃ learned, d.learnReply state.source id (d.replySearch state t) nodes nodes6 = .ok learned ∧
        Continued learned state (d.replySearch state t) d' events) ∧
    ((¬ ∃ nodes nodes6, Acceptable d state head t nodes nodes6) → events = [] ∧ Unlearned d d' id)

section Replies

variable {d : State} {state : PeriodicState} {head : BencDict} {id : Field 20} {t : Bytes}

theorem take_of_tidMatch {kind : String} (matching : tidMatch t kind ≠ none) :
    t.take 2 = ascii kind := by
  unfold tidMatch at matching
  split at matching
  · split at matching
    · assumption
    · exact absurd rfl matching
  · exact absurd rfl matching

/-- A reply with node lists is no pong. -/
theorem tidMatch_pong_of_nodes (kind : tidMatch t "fn" ≠ none ∨ tidMatch t "gp" ≠ none) :
    tidMatch t "pn" = none := by
  by_contra pong
  have front := take_of_tidMatch pong
  rcases kind with found | peers
  · have other := take_of_tidMatch found
    rw [front] at other
    exact absurd other (by decide)
  · have other := take_of_tidMatch peers
    rw [front] at other
    exact absurd other (by decide)

/-- No reply with node lists is handled to its end, whatever the state and the lists. -/
theorem not_allOrNothing (shape : IsResponse state.msg head id t) (four : t.length = 4)
    (kind : tidMatch t "fn" ≠ none ∨ tidMatch t "gp" ≠ none) :
    ¬ AllOrNothing d state head id t := by
  rintro ⟨d', events, handled, _⟩
  have misread : Misread (d.handleResponse state) :=
    handleResponse_misread shape (shape.tidLength.trans four) (tidMatch_pong_of_nodes kind)
  rw [handled] at misread
  exact misread

end Replies

/-- A response of the remote node. -/
def responseWith (t : Bytes) (head : BencDict) : DhtMessage :=
  { DhtMessage.zero with
    type := .response
    t := some t
    tLen := t.length
    y := some (ascii "r")
    r := some (.dict head)
    argId := some remoteId.bytes }

theorem isResponse_responseWith {t : Bytes} {head : BencDict} (nonempty : t ≠ [])
    (sender : bencDictLookup (ascii "id") head = .ok (some (.bstr remoteId.bytes))) :
    IsResponse (responseWith t head) head remoteId t :=
  ⟨rfl, rfl, rfl, sender, rfl, rfl, rfl, nonempty⟩

/-- A reply dictionary with one node. -/
def oneNodeReply : BencDict :=
  .entry (ascii "id") (.bstr remoteId.bytes)
    (.entry (ascii "nodes")
      (.bstr (List.replicate 20 (chr 'c') ++ [10, 0, 0, 2, 0x1a, 0xe1])) .null)

/-- A reply to a `find_node` with that dictionary. -/
def oneNodeResponse : DhtMessage :=
  responseWith (makeTid "fn" 0) oneNodeReply

theorem isResponse_oneNodeResponse :
    IsResponse oneNodeResponse oneNodeReply remoteId (makeTid "fn" 0) :=
  isResponse_responseWith (by decide) (by decide +kernel)

theorem not_allOrNothing_oneNode :
    ¬ AllOrNothing startedNode (delivered oneNodeResponse) oneNodeReply remoteId
      (makeTid "fn" 0) :=
  @not_allOrNothing startedNode (delivered oneNodeResponse) _ _ _ isResponse_oneNodeResponse rfl
    (.inl (by decide))

/-- The one node of that reply is not learned, and neither is the sender. -/
theorem oneNode_unlearned :
    Acceptable startedNode (delivered oneNodeResponse) oneNodeReply (makeTid "fn" 0)
        (List.replicate 20 (chr 'c') ++ [10, 0, 0, 2, 0x1a, 0xe1]) [] ∧
      ¬ AllOrNothing startedNode (delivered oneNodeResponse) oneNodeReply remoteId
        (makeTid "fn" 0) := by
  constructor
  · refine ⟨by decide +kernel, by decide +kernel, rfl, rfl, fun peers => ?_⟩
    exact absurd (by decide) peers
  · rintro ⟨d', events, handled, _⟩
    have misread : Misread (startedNode.handleResponse (delivered oneNodeResponse)) :=
      handleResponse_misread isResponse_oneNodeResponse rfl (by decide)
    rw [handled] at misread
    exact misread

/-! ## Where ids come from -/

/-- The id of a record of a list of compact nodes. -/
def FromRecord (head : BencDict) (id : Field 20) : Prop :=
  (∃ nodes, replyBytes head "nodes" = some nodes ∧
      ∃ ni ∈ records 26 nodes, Field.read 20 ni = some id) ∨
    ∃ nodes6, replyBytes head "nodes6" = some nodes6 ∧
      ∃ ni ∈ records 38 nodes6, Field.read 20 ni = some id

/-- The bucket for an id has room or holds the id already. -/
def Welcome (d : State) (af : Family) (id : Field 20) : Prop :=
  ∃ b bucket, findBucket (d.bucketsOf af) id = some b ∧ (d.bucketsOf af)[b]? = some bucket ∧
    (bucket.count < 8 ∨ id ∈ bucket.ids)

/-- A response is handled to its end, the ids that are new in the routing table are
those of its fields, and a pong confirms its sender. -/
def EntersOwnIds (d : State) (state : PeriodicState) (head : BencDict) (id : Field 20) (t : Bytes) :
    Prop :=
  ∃ d' events, d.handleResponse state = .ok (d', events) ∧
    (∀ af, ∀ bucket ∈ d'.bucketsOf af, ∀ node ∈ bucket.nodes,
      node.id ∈ (d.bucketsOf af).flatMap Bucket.ids ∨
        node.id = id ∧ node.ss.1 = state.source ∨ FromRecord head node.id) ∧
    (tidMatch t "pn" ≠ none → Welcome d state.source.family id →
      ∃ bucket ∈ d'.bucketsOf state.source.family, ∃ node ∈ bucket.nodes,
        node.id = id ∧ node.replyTime = d.now ∧ node.pinged = 0)

/-- The ids in the routing table come from the fields of a response exactly when it
is a pong and there is no routing table for its family. -/
theorem entersOwnIds_iff {d : State} {state : PeriodicState} {head : BencDict} {id : Field 20}
    {t : Bytes} (shape : IsResponse state.msg head id t) (four : t.length = 4) :
    EntersOwnIds d state head id t ↔
      tidMatch t "pn" ≠ none ∧ (d.bucketsOf state.source.family).length = 0 := by
  by_cases pong : tidMatch t "pn" = none
  · have misread : Misread (d.handleResponse state) :=
      handleResponse_misread shape (shape.tidLength.trans four) pong
    constructor
    · rintro ⟨d', events, handled, _⟩
      rw [handled] at misread
      exact misread.elim
    · rintro ⟨isPong, _⟩
      exact absurd pong isPong
  · rw [EntersOwnIds, handleResponse_pong shape four pong]
    constructor
    · rintro ⟨d', events, handled, _⟩
      split at handled
      · next noTable => exact ⟨pong, noTable⟩
      · cases handled
    · rintro ⟨_, noTable⟩
      rw [if_pos noTable]
      refine ⟨d, [], rfl, fun af bucket listed node held => .inl ?_, fun _ welcome => ?_⟩
      · exact List.mem_flatMap.mpr ⟨bucket, listed, List.mem_map_of_mem held⟩
      · -- without a table there is no bucket for the sender
        rcases welcome with ⟨b, bucket, found, _⟩
        rw [findBucket, if_pos noTable] at found
        cases found

/-- The answer of the remote node to a ping. -/
def pongMessage : DhtMessage :=
  responseWith (makeTid "pn" 0) bareReply

theorem isResponse_pongMessage : IsResponse pongMessage bareReply remoteId (makeTid "pn" 0) :=
  isResponse_responseWith (by decide) (by decide +kernel)

theorem entersOwnIds_iff_pong :
    EntersOwnIds startedNode (delivered pongMessage) bareReply remoteId (makeTid "pn" 0) ↔
      tidMatch (makeTid "pn" 0) "pn" ≠ none ∧ (startedNode.bucketsOf .inet).length = 0 :=
  @entersOwnIds_iff startedNode (delivered pongMessage) _ _ _ isResponse_pongMessage rfl

/-- The sender of the pong is welcome and is not entered. -/
theorem pong_not_entered :
    Welcome startedNode .inet remoteId ∧
      ¬ EntersOwnIds startedNode (delivered pongMessage) bareReply remoteId (makeTid "pn" 0) := by
  constructor
  · exact ⟨0, Bucket.zero .inet, rfl, rfl, .inl (by decide)⟩
  · rintro ⟨d', events, handled, _⟩
    rw [handleResponse_pong isResponse_pongMessage rfl (by decide)] at handled
    split at handled
    · next noTable => exact absurd noTable (by decide)
    · cases handled

end Dnsp2p.Dht
