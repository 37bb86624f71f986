import Dnsp2p.Dht.Change
import Dnsp2p.Dht.Periodic

/-!
# Which messages are handled

What `dht_periodic` does with the messages that reach it: which of them make it
read a field or a variable that has no value, and which replies are handled
without harm to their sender.
-/

namespace Dnsp2p.Dht

open Dnsp2p.Benc Dnsp2p.Message

/-! ## Messages -/

/-- A response whose `r` is a dictionary with a 20-byte `id`, as the parser fills
its fields in for any transaction id that is not empty. -/
structure IsResponse (msg : DhtMessage) (head : BencDict) (id : Field 20) (t : Bytes) : Prop where
  type : msg.type = .response
  noArguments : msg.a = none
  reply : msg.r = some (.dict head)
  sender : bencDictLookup (ascii "id") head = .ok (some (.bstr id.bytes))
  argId : msg.argId = some id.bytes
  tid : msg.t = some t
  tidLength : msg.tLen = t.length
  nonempty : t ≠ []

section Parsed

variable {addr : Nat} {buf : Bytes} {msg : DhtMessage}

/-- A parsed query has the id of its sender. -/
theorem argId_of_query {obj : Bobj} (accepted : dhtMessageParseImpl obj = .ok (some msg))
    (query : msg.type = .query) : ∃ id : Field 20, msg.argId = some id.bytes := by
  obtain ⟨_, _, _, type, m', _, _, _, _, _, typed, rfl⟩ :=
    dhtMessageParseImpl_eq_some_iff.mp accepted
  have typeEq : type = .query := (typedMessage_type typed).symm.trans query
  subst typeEq
  rcases bind_eq_ok_iff.mp typed with ⟨_, _, rest⟩
  rcases withArgId_eq_some_iff.mp rest with ⟨_, _, id, rfl, read, rfl⟩
  exact ⟨⟨id, (argIdOf_eq_some_iff.mp read).2⟩, rfl⟩

/-- A parsed response is a response. -/
theorem isResponse_of_response {obj : Bobj} (accepted : dhtMessageParseImpl obj = .ok (some msg))
    (response : msg.type = .response) : ∃ head id t, IsResponse msg head id t := by
  obtain ⟨_, t, _, type, m', _, _, single, _, _, typed, rfl⟩ :=
    dhtMessageParseImpl_eq_some_iff.mp accepted
  have typeEq : type = .response := (typedMessage_type typed).symm.trans response
  subst typeEq
  rcases bind_eq_ok_iff.mp typed with ⟨_, args, rest⟩
  rcases withArgId_eq_some_iff.mp rest with ⟨_, args', id, rfl, read, rfl⟩
  rcases responseArgs_eq args with ⟨rfl, _, head, rfl⟩
  rcases argIdOf_eq_some_iff.mp read with ⟨found, width⟩
  refine ⟨head, ⟨id, width⟩, t, rfl, rfl, rfl, found, rfl, rfl, rfl, ?_⟩
  exact List.ne_nil_of_length_pos (by rw [single]; decide)

/-- A parsed error has no id. -/
theorem argId_of_err {obj : Bobj} (accepted : dhtMessageParseImpl obj = .ok (some msg))
    (error : msg.type = .err) : msg.argId = none := by
  obtain ⟨_, _, _, type, m', _, _, _, _, _, typed, rfl⟩ :=
    dhtMessageParseImpl_eq_some_iff.mp accepted
  have typeEq : type = .err := (typedMessage_type typed).symm.trans error
  subst typeEq
  simp only [typedMessage, errorArgs, bind_eq_ok_iff] at typed
  rcases typed with ⟨found, _, rest⟩
  split at rest
  · cases rest
  · split at rest <;> cases rest
    rfl
  · cases rest

end Parsed

/-- The messages to be handled: what `dht_message_parse` returns, and every
response, whatever the length of its transaction id. -/
inductive Presented (msg : DhtMessage) : Prop
  | parsed {addr : Nat} {buf : Bytes} (received : dhtMessageParse addr buf = .ok (some msg))
  | response {head : BencDict} {id : Field 20} {t : Bytes} (shape : IsResponse msg head id t)

/-! ## Reading what is not there -/

/-- The handlers read a field that is NULL, an object that is no byte string, a
variable that was never assigned, or reach an assertion that fails; the log line
in front of `assert(false)` may already run past the end of its string. -/
def Misread {α : Type} : Except Fault α → Prop
  | .error .nullField => True
  | .error .notByteString => True
  | .error .unassigned => True
  | .error .assertion => True
  | .error .unterminated => True
  | _ => False

/-- The messages that are handled without reading what is not there. -/
def Dispatchable (d : State) (msg : DhtMessage) : Prop :=
  msg.type ≠ .err ∧
    (msg.type = .response →
      msg.argId = some d.self.myid.bytes ∨ msg.tLen ≠ 4 ∨
        ∃ t, msg.t = some t ∧ tidMatch t "pn" ≠ none)

section Dispatch

variable {d : State} {state : PeriodicState}

theorem readId_field (id : Field 20) : readId (some id.bytes) = .ok id := by
  simp [readId, field]

theorem brokenNode_ok (id : Field 20) (sa : Sockaddr) :
    ∃ d', d.brokenNode (some id.bytes) sa = .ok d' := by
  simp [State.brokenNode]

theorem newNode_error {id : Bytes} {sa : Sockaddr} {confirm : Nat} {fault : Fault}
    (failed : d.newNode id sa confirm = .error fault) :
    fault = .outOfBounds ∨ fault = .nonterminating := by
  rcases bind_eq_error_iff.mp failed with inner | ⟨_, _, outer⟩
  · unfold Table.newNode at inner
    split at inner
    · cases inner
    · split at inner
      · cases inner
        exact .inl rfl
      · exact .inr (learn_error _ inner)
  · cases outer

theorem newNode_not_misread {α : Type} (id : Bytes) (sa : Sockaddr) (confirm : Nat)
    (next : State → α) :
    ¬ Misread (do let d ← d.newNode id sa confirm; .ok (next d) : Except Fault α) := by
  cases learnt : d.newNode id sa confirm with
  | ok d' => simp [Misread]
  | error fault =>
      rcases newNode_error learnt with rfl | rfl <;> simp [Misread]

theorem brokenNode_not_misread {α : Type} (id : Field 20) (sa : Sockaddr) (next : State → α) :
    ¬ Misread (do let d ← d.brokenNode (some id.bytes) sa; .ok (next d) : Except Fault α) := by
  rcases brokenNode_ok (d := d) id sa with ⟨d', broken⟩
  simp [broken, Misread]

/-- A response that is no pong reads its arguments, which are NULL, or reaches
`assert(false)`. -/
theorem handleResponse_misread {head : BencDict} {id : Field 20} {t : Bytes}
    (shape : IsResponse state.msg head id t) (four : state.msg.tLen = 4)
    (noPong : tidMatch t "pn" = none) : Misread (d.handleResponse state) := by
  simp only [State.handleResponse, shape.type, four, shape.tid, field, ok_bind, noPong, ne_eq,
    not_true_eq_false, if_false]
  split
  · unfold cStrlen
    cases strlen t <;> trivial
  · simp only [State.handleNodes, shape.noArguments, field, error_bind]
    trivial

theorem handleResponse_not_misread {head : BencDict} {id : Field 20} {t : Bytes}
    (shape : IsResponse state.msg head id t)
    (harmless : state.msg.tLen ≠ 4 ∨ tidMatch t "pn" ≠ none) :
    ¬ Misread (d.handleResponse state) := by
  simp only [State.handleResponse, shape.type, shape.tid, shape.argId, field, ok_bind, ne_eq,
    not_true_eq_false, if_false]
  split
  · exact brokenNode_not_misread id state.source fun d => (d, [])
  · rename_i four
    have pong : ¬ tidMatch t "pn" = none := harmless.resolve_left four
    rw [if_pos pong]
    exact newNode_not_misread t state.source 2 fun d => (d, [])

theorem dispatch_own_id {id : Field 20} (argId : state.msg.argId = some id.bytes)
    (own : id = d.self.myid) : d.dispatch state = .ok (d, []) := by
  have equal : idCmp id d.self.myid = 0 := (Field.eq_iff_memcmp _ _).mp own
  simp [State.dispatch, argId, readId_field, equal]

theorem dispatch_of_other {id : Field 20} (argId : state.msg.argId = some id.bytes)
    (other : id ≠ d.self.myid) :
    d.dispatch state = match state.msg.type with
      | .response => d.handleResponse state
      | .query => if d.tokenBucket.1 then d.tokenBucket.2.handleQuery state
          else .ok (d.tokenBucket.2, [])
      | .err => .ok (d.tokenBucket.2, []) := by
  have differ : idCmp id d.self.myid ≠ 0 := fun equal => other ((Field.eq_iff_memcmp _ _).mpr equal)
  cases kind : state.msg.type <;>
    simp only [State.dispatch, argId, readId_field, ok_bind, if_neg differ, kind]

/-- A response is dispatched without reading what is not there exactly when it is
our own, or has a transaction id of another length, or is a pong. -/
theorem dispatch_response_iff {head : BencDict} {id : Field 20} {t : Bytes}
    (shape : IsResponse state.msg head id t) :
    ¬ Misread (d.dispatch state) ↔
      state.msg.argId = some d.self.myid.bytes ∨ state.msg.tLen ≠ 4 ∨ tidMatch t "pn" ≠ none := by
  by_cases own : id = d.self.myid
  · rw [dispatch_own_id shape.argId own, shape.argId, own]
    simp [Misread]
  · have notOwn : ¬ state.msg.argId = some d.self.myid.bytes := by
      rw [shape.argId]
      exact fun equal => own (Field.ext (Option.some.inj equal))
    rw [dispatch_of_other shape.argId own, shape.type]
    constructor
    · intro clean
      by_contra excluded
      simp only [not_or, ne_eq, not_not] at excluded
      exact clean (handleResponse_misread shape excluded.2.1 excluded.2.2)
    · intro harmless
      exact handleResponse_not_misread shape (harmless.resolve_left notOwn)

/-- Of the messages that are presented to it, the rest of `dht_periodic` handles
exactly the dispatchable ones without reading what is not there. -/
theorem dispatch_iff_dispatchable (presented : Presented state.msg) :
    ¬ Misread (d.dispatch state) ↔ Dispatchable d state.msg := by
  have response {head : BencDict} {id : Field 20} {t : Bytes}
      (shape : IsResponse state.msg head id t) :
      ¬ Misread (d.dispatch state) ↔ Dispatchable d state.msg := by
    rw [dispatch_response_iff shape]
    simp [Dispatchable, shape.type, shape.tid]
  cases presented with
  | response shape => exact response shape
  | parsed received =>
      rcases parse_eq_some received with ⟨obj, _, _, accepted⟩
      cases type : state.msg.type with
      | response =>
          rcases isResponse_of_response accepted type with ⟨head, id, t, shape⟩
          exact response shape
      | query =>
          rcases argId_of_query accepted type with ⟨id, argId⟩
          have clean : ¬ Misread (d.dispatch state) := by
            by_cases own : id = d.self.myid
            · simp [dispatch_own_id argId own, Misread]
            · rw [dispatch_of_other argId own, type]
              dsimp only
              split <;> simp [State.handleQuery, type, Misread]
          simp [Dispatchable, type, clean]
      | err =>
          have misread : Misread (d.dispatch state) := by
            simp only [State.dispatch, argId_of_err accepted type, readId, field, error_bind]
            trivial
          simp [Dispatchable, type, misread]

/-! ## Replies that do no harm -/

/-- A byte string whose length is a multiple of `size`, or nothing. -/
def Compact (size : Nat) (head : BencDict) (key : String) : Prop :=
  bencDictLookup (ascii key) head = .ok none ∨
    ∃ bytes, bencDictLookup (ascii key) head = .ok (some (.bstr bytes)) ∧ bytes.length % size = 0

/-- A reply to a request of this node: a transaction id of four bytes with one of
the three prefixes, and well-formed node lists.  Nothing is asked of `token` and
`values`. -/
structure Conforming (msg : DhtMessage) (head : BencDict) (id : Field 20) (t : Bytes) : Prop
    extends IsResponse msg head id t where
  four : t.length = 4
  kind : tidMatch t "pn" ≠ none ∨ tidMatch t "fn" ≠ none ∨ tidMatch t "gp" ≠ none
  nodes : Compact 26 head "nodes"
  nodes6 : Compact 38 head "nodes6"

/-- How often a node of the routing table was asked in vain. -/
def pingsOf (d : State) (af : Family) (id : Field 20) : Option Int := do
  let (b, n) ← findNode (d.bucketsOf af) id
  let bucket ← (d.bucketsOf af)[b]?
  let node ← bucket.nodes[n]?
  some node.pinged

/-- Nothing that `broken_node` does was done to the sender of a reply. -/
structure Unharmed (d d' : State) (id : Field 20) (source : Sockaddr) : Prop where
  blacklist : d'.blacklist = d.blacklist
  nextBlacklisted : d'.nextBlacklisted = d.nextBlacklisted
  searches : ∀ (i : Nat) (sr : Search), d.searches[i]? = some sr → (∃ n ∈ sr.nodes, n.id = id) →
    ∃ sr', d'.searches[i]? = some sr' ∧ ∃ n ∈ sr'.nodes, n.id = id
  routing : ∀ pings, pingsOf d' source.family id = some pings → 3 ≤ pings →
    pingsOf d source.family id = some pings

theorem Unharmed.refl (d : State) (id : Field 20) (source : Sockaddr) : Unharmed d d id source where
  blacklist := rfl
  nextBlacklisted := rfl
  searches := fun _ sr found kept => ⟨sr, found, kept⟩
  routing := fun _ pings _ => pings

/-- A pong whose transaction id of four bytes is taken for an id of twenty. -/
theorem handleResponse_pong {head : BencDict} {id : Field 20} {t : Bytes}
    (shape : IsResponse state.msg head id t) (four : t.length = 4)
    (pong : tidMatch t "pn" ≠ none) :
    d.handleResponse state =
      if (d.bucketsOf state.source.family).length = 0 then .ok (d, [])
      else .error .outOfBounds := by
  have notFour : ¬ state.msg.tLen ≠ 4 := by simp [shape.tidLength, four]
  have short : Field.read 20 t = none := Field.read_eq_none_iff.mpr (by rw [four]; decide)
  simp only [State.handleResponse, shape.type, ne_eq, not_true_eq_false, if_false, if_neg notFour,
    shape.tid, field, ok_bind, if_pos pong, State.newNode, Table.newNode, short]
  split
  · simp [*]
  · simp [*]

/-- A conforming reply is handled to its end, and without harm to its sender,
exactly when it is a pong and there is no routing table for its family. -/
theorem conforming_unharmed_iff {head : BencDict} {id : Field 20} {t : Bytes}
    (shape : Conforming state.msg head id t) :
    (∃ d' events, d.handleResponse state = .ok (d', events) ∧ Unharmed d d' id state.source) ↔
      tidMatch t "pn" ≠ none ∧ (d.bucketsOf state.source.family).length = 0 := by
  by_cases pong : tidMatch t "pn" = none
  · have four : state.msg.tLen = 4 := shape.tidLength.trans shape.four
    have misread := handleResponse_misread (d := d) shape.toIsResponse four pong
    constructor
    · rintro ⟨d', events, handled, _⟩
      rw [handled] at misread
      exact misread.elim
    · rintro ⟨isPong, _⟩
      exact absurd pong isPong
  · rw [handleResponse_pong shape.toIsResponse shape.four pong]
    constructor
    · rintro ⟨d', events, handled, _⟩
      split at handled
      · rename_i noTable
        exact ⟨pong, noTable⟩
      · cases handled
    · rintro ⟨_, noTable⟩
      rw [if_pos noTable]
      exact ⟨d, [], rfl, Unharmed.refl d id state.source⟩

end Dispatch

/-! ## An error and a reply -/

/-- A node that was just started with an IPv4 socket. -/
def startedNode : State :=
  State.init 3 (-1) (Field.zero 20) none 1000 fun _ => 0

/-- A source for the messages below. -/
def peerAddress : Sockaddr :=
  .inet { port := ⟨[0x1a, 0xe1], rfl⟩, addr := ⟨[10, 0, 0, 1], rfl⟩ }

/-- A message from that source in `dht_periodic`. -/
def delivered (msg : DhtMessage) : PeriodicState :=
  { msg, source := peerAddress, caller := { callback := none, closure := 0 } }

/-- The datagram of an error. -/
def errorDatagram : Bytes :=
  ascii "d1:eli201e1:ae1:t1:x1:y1:ee"

/-- The message that it is parsed to. -/
def errorMessage : DhtMessage :=
  { DhtMessage.zero with
    type := .err
    t := some (ascii "x")
    tLen := 1
    y := some (ascii "e")
    e := some (.list (.entry (.int 201) (.entry (.bstr (ascii "a")) .null))) }

/-- An error has no id, and the check for our own id reads it. -/
theorem dispatch_error_misread :
    dhtMessageParse 4096 errorDatagram = .ok (some errorMessage) ∧
      Misread (startedNode.dispatch (delivered errorMessage)) :=
  ⟨by decide +kernel, trivial⟩

theorem dispatch_iff_dispatchable_error :
    ¬ Misread (startedNode.dispatch (delivered errorMessage)) ↔
      Dispatchable startedNode errorMessage := by
  have parsed : dhtMessageParse 4096 errorDatagram = .ok (some errorMessage) := by decide +kernel
  exact @dispatch_iff_dispatchable startedNode (delivered errorMessage) (.parsed parsed)

/-- The id of a remote node. -/
def remoteId : Field 20 :=
  ⟨List.replicate 20 (chr 'b'), by decide⟩

/-- The reply dictionary of a node that knows no nodes and gives no token. -/
def bareReply : BencDict :=
  .entry (ascii "id") (.bstr remoteId.bytes) .null

/-- A reply to a `get_peers` with that dictionary. -/
def bareResponse : DhtMessage :=
  { DhtMessage.zero with
    type := .response
    t := some (makeTid "gp" 7)
    tLen := 4
    y := some (ascii "r")
    r := some (.dict bareReply)
    argId := some remoteId.bytes }

theorem conforming_bareResponse :
    Conforming bareResponse bareReply remoteId (makeTid "gp" 7) where
  type := rfl
  noArguments := rfl
  reply := rfl
  sender := by decide +kernel
  argId := rfl
  tid := rfl
  tidLength := rfl
  nonempty := by decide
  four := rfl
  kind := .inr (.inr (by decide))
  nodes := .inl (by decide +kernel)
  nodes6 := .inl (by decide +kernel)

/-- The bare reply is not handled to its end. -/
theorem bareResponse_harmed :
    ¬ ∃ d' events, startedNode.handleResponse (delivered bareResponse) = .ok (d', events) ∧
      Unharmed startedNode d' remoteId peerAddress := by
  rintro ⟨d', events, handled, _⟩
  have misread : Misread (startedNode.handleResponse (delivered bareResponse)) :=
    handleResponse_misread conforming_bareResponse.toIsResponse rfl (by decide)
  rw [handled] at misread
  exact misread

theorem conforming_unharmed_iff_bareResponse :
    (∃ d' events, startedNode.handleResponse (delivered bareResponse) = .ok (d', events) ∧
        Unharmed startedNode d' remoteId peerAddress) ↔
      tidMatch (makeTid "gp" 7) "pn" ≠ none ∧ (startedNode.bucketsOf .inet).length = 0 :=
  @conforming_unharmed_iff startedNode (delivered bareResponse) _ _ _ conforming_bareResponse

end Dnsp2p.Dht
