import Dnsp2p.Message.Build

/-!
# The object behind a message

Each builder prints the text of a bencode dictionary.  `Outbound` is one call of
a builder with its arguments; its `object` is that dictionary.
-/

namespace Dnsp2p.Message

open Dnsp2p.Benc Dnsp2p.Dht

/-- A call of one of the eight builders. -/
inductive Outbound where
  | ping (tid : Bytes)
  | findNode (tid : Bytes) (target : Field 20) (want : Int) (confirm : Bool)
  | getPeers (tid : Bytes) (infohash : Field 20) (want : Int) (confirm : Bool)
  | announcePeer (tid : Bytes) (infohash : Field 20) (port : UInt16) (token : Bytes)
      (confirm : Bool)
  | pong (tid : Bytes)
  | nodesPeers (tid nodes nodes6 : Bytes) (af : Option Family) (st : Option Storage)
      (token : Bytes) (roll : Nat)
  | peerAnnounced (tid : Bytes)
  | error (tid : Bytes) (code : Int32) (message : Bytes)
  deriving DecidableEq

namespace Outbound

/-- The builder's result. -/
def send (self : Identity) : Outbound → Option Outgoing
  | ping tid => sendPing self tid
  | findNode tid target want confirm => sendFindNode self tid target want confirm
  | getPeers tid infohash want confirm => sendGetPeers self tid infohash want confirm
  | announcePeer tid infohash port token confirm =>
      sendAnnouncePeer self tid infohash port token confirm
  | pong tid => sendPong self tid
  | nodesPeers tid nodes nodes6 af st token roll =>
      sendNodesPeers self tid nodes nodes6 af st token roll
  | peerAnnounced tid => sendPeerAnnounced self tid
  | error tid code message => sendError self tid code message

/-- The builder's steps. -/
def pieces (self : Identity) : Outbound → List Piece
  | ping tid => pingPieces self tid
  | findNode tid target want _ => findNodePieces self tid target want
  | getPeers tid infohash want _ => getPeersPieces self tid infohash want
  | announcePeer tid infohash port token _ => announcePeerPieces self tid infohash port token
  | pong tid => pongPieces self tid
  | nodesPeers tid nodes nodes6 af st token roll =>
      nodesPeersPieces self tid nodes nodes6 af st token roll
  | peerAnnounced tid => peerAnnouncedPieces self tid
  | error tid code message => errorPieces self tid code message

/-- The size of the builder's buffer. -/
def size : Outbound → Nat
  | nodesPeers .. => 2048
  | _ => 512

/-- The transaction id given to the builder. -/
def tid : Outbound → Bytes
  | ping tid => tid
  | findNode tid .. => tid
  | getPeers tid .. => tid
  | announcePeer tid .. => tid
  | pong tid => tid
  | nodesPeers tid .. => tid
  | peerAnnounced tid => tid
  | error tid .. => tid

/-- The type of message that the builder is for. -/
def type : Outbound → DhtMessageType
  | ping _ => .query
  | findNode .. => .query
  | getPeers .. => .query
  | announcePeer .. => .query
  | pong _ => .response
  | nodesPeers .. => .response
  | peerAnnounced _ => .response
  | error .. => .err

/-- The kind of query that the builder is for. -/
def query : Outbound → Option DhtQueryType
  | ping _ => some .ping
  | findNode .. => some .findNode
  | getPeers .. => some .getPeers
  | announcePeer .. => some .announcePeer
  | _ => none

end Outbound

/-! ## The dictionaries -/

/-- `v`, if the sender has one. -/
def versionPairs (self : Identity) : List (Bytes × Bobj) :=
  match self.v with
  | some v => [(ascii "v", .bstr v.bytes)]
  | none => []

/-- The pairs behind the arguments of a message. -/
def closingPairs (self : Identity) (tid : Bytes) (kind : String) : List (Bytes × Bobj) :=
  [(ascii "t", .bstr tid)] ++ versionPairs self ++ [(ascii "y", .bstr (ascii kind))]

/-- A byte string that is left out when it is empty. -/
def optionalPair (key : String) (data : Bytes) : List (Bytes × Bobj) :=
  if 0 < data.length then [(ascii key, .bstr data)] else []

/-- The `want` list. -/
def wantPairs (want : Int) : List (Bytes × Bobj) :=
  if 0 < want then
    [(ascii "want", .list (BencList.ofList
      ((if wants4 want then [.bstr (ascii "n4")] else []) ++
        (if wants6 want then [.bstr (ascii "n6")] else []))).assigned)]
  else []

/-- The `values` list. -/
def valuesPairs (af : Option Family) (st : Option Storage) (roll : Nat) : List (Bytes × Bobj) :=
  match st with
  | none => []
  | some st =>
      if 0 < st.peers.length then
        [(ascii "values", .list (BencList.ofList
          ((slice af st roll).map fun peer =>
            .bstr (compactPeer (addressLength af) peer))).assigned)]
      else []

/-- The pairs of a query. -/
def queryPairs (self : Identity) (tid : Bytes) (name : String) (args : List (Bytes × Bobj)) :
    List (Bytes × Bobj) :=
  [(ascii "a", .dict (BencDict.ofList ((ascii "id", .bstr self.myid.bytes) :: args))),
    (ascii "q", .bstr (ascii name))] ++ closingPairs self tid "q"

/-- The pairs of a response. -/
def responsePairs (self : Identity) (tid : Bytes) (args : List (Bytes × Bobj)) :
    List (Bytes × Bobj) :=
  (ascii "r", .dict (BencDict.ofList ((ascii "id", .bstr self.myid.bytes) :: args))) ::
    closingPairs self tid "r"

/-- The pairs of an error. -/
def errorPairs (self : Identity) (tid : Bytes) (code : Int32) (message : Bytes) :
    List (Bytes × Bobj) :=
  (ascii "e", .list (.entry (.int code.toInt) (.entry (.bstr message) .null))) ::
    closingPairs self tid "e"

/-- The arguments of `send_nodes_peers`. -/
def nodesPeersArgs (nodes nodes6 : Bytes) (af : Option Family) (st : Option Storage)
    (token : Bytes) (roll : Nat) : List (Bytes × Bobj) :=
  optionalPair "nodes" nodes ++ optionalPair "nodes6" nodes6 ++ optionalPair "token" token ++
    valuesPairs af st roll

/-- The pairs of the dictionary that a builder prints. -/
def Outbound.pairs (self : Identity) : Outbound → List (Bytes × Bobj)
  | ping tid => queryPairs self tid "ping" []
  | findNode tid target want _ =>
      queryPairs self tid "find_node" ((ascii "target", .bstr target.bytes) :: wantPairs want)
  | getPeers tid infohash want _ =>
      queryPairs self tid "get_peers" ((ascii "info_hash", .bstr infohash.bytes) :: wantPairs want)
  | announcePeer tid infohash port token _ =>
      queryPairs self tid "announce_peer"
        [(ascii "info_hash", .bstr infohash.bytes), (ascii "port", .int port.toNat),
          (ascii "token", .bstr token)]
  | pong tid => responsePairs self tid []
  | nodesPeers tid nodes nodes6 af st token roll =>
      responsePairs self tid (nodesPeersArgs nodes nodes6 af st token roll)
  | peerAnnounced tid => responsePairs self tid []
  | error tid code message => errorPairs self tid code message

/-- The dictionary that a builder prints. -/
def Outbound.object (self : Identity) (m : Outbound) : Bobj :=
  .dict (BencDict.ofList (m.pairs self))

/-! ## The text of a builder -/

@[simp]
theorem piecesText_append (left right : List Piece) :
    piecesText (left ++ right) = piecesText left ++ piecesText right := by
  simp [piecesText]

@[simp]
theorem piecesText_cons (piece : Piece) (rest : List Piece) :
    piecesText (piece :: rest) = piece.text ++ piecesText rest :=
  rfl

@[simp]
theorem piecesText_nil : piecesText [] = [] :=
  rfl

@[simp]
theorem pairsText_cons (pair : Bytes × Bobj) (rest : List (Bytes × Bobj)) :
    pairsText (pair :: rest) = bstrText pair.1 ++ (bobjText pair.2 ++ pairsText rest) := by
  simp [pairsText]

@[simp]
theorem pairsText_nil : pairsText [] = [] :=
  rfl

section Text

variable (self : Identity) (tid : Bytes)

theorem bstrText_field (field : Field 20) :
    bstrText field.bytes = ascii "20:" ++ field.bytes := by
  rw [bstrText, field.length_eq]
  rfl

theorem addV_text : piecesText (addV self) = pairsText (versionPairs self) := by
  rcases self with ⟨myid, v⟩
  cases v with
  | none => rfl
  | some v =>
      simp only [addV, versionPairs, piecesText_cons, pairsText_cons, Piece.text, bobjText,
        bstrText, v.length_eq, List.append_assoc]
      rfl

theorem closing_text (before opening ending kind : String)
    (opened : ascii opening = ascii before ++ bstrText (ascii "t"))
    (ended : ascii ending = pairsText [(ascii "y", .bstr (ascii kind))] ++ ascii "e") :
    piecesText (closing self opening tid ending) =
      ascii before ++ (pairsText (closingPairs self tid kind) ++ ascii "e") := by
  have version := addV_text self
  simp only [closing, closingPairs, piecesText_append, piecesText_cons, piecesText_nil,
    pairsText_append, pairsText_cons, pairsText_nil, Piece.text, opened, ended, version, bobjText]
  simp only [bstrText, List.append_assoc, List.cons_append, List.nil_append]
  rfl

theorem optionalField_text (key : String) (data : Bytes) (opening : String)
    (opened : ascii opening = bstrText (ascii key)) :
    piecesText (optionalField opening data) = pairsText (optionalPair key data) := by
  unfold optionalField optionalPair
  split
  · simp only [piecesText_cons, piecesText_nil, pairsText_cons, pairsText_nil, Piece.text, opened,
      bobjText]
    simp only [bstrText, List.append_assoc, List.cons_append]
    rfl
  · rfl

theorem wantPieces_text (want : Int) :
    piecesText (wantPieces want) = pairsText (wantPairs want) := by
  unfold wantPieces wantPairs
  split
  · cases wants4 want <;> cases wants6 want <;> rfl
  · rfl

theorem length_compactPeer (af : Option Family) (peer : Peer) :
    (compactPeer (addressLength af) peer).length = addressLength af + 2 := by
  have bound : addressLength af ≤ peer.ip.bytes.length := by
    rw [peer.ip.length_eq]
    unfold addressLength
    split <;> omega
  simp [compactPeer, portBytes, bound]

theorem valuesPieces_text (af : Option Family) (st : Option Storage) (roll : Nat) :
    piecesText (valuesPieces af st roll) = pairsText (valuesPairs af st roll) := by
  cases st with
  | none => rfl
  | some st =>
      simp only [valuesPieces, valuesPairs]
      split
      · have peers (served : List Peer) :
            piecesText (served.flatMap fun peer =>
              [.print (decimal (addressLength af + 2) ++ ascii ":"),
                .copy (peer.ip.bytes.take (addressLength af)), .copy (portBytes peer.port)]) =
              (served.map fun peer => Bobj.bstr (compactPeer (addressLength af) peer)).flatMap
                bobjText := by
          induction served with
          | nil => rfl
          | cons peer rest ih =>
              simp only [List.flatMap_cons, List.map_cons, piecesText_append, ih, piecesText_cons,
                piecesText_nil, Piece.text, bobjText, bstrText, length_compactPeer]
              simp only [compactPeer, List.append_assoc, List.cons_append, List.nil_append]
              rfl
        simp only [piecesText_append, piecesText_cons, piecesText_nil, peers, pairsText_cons,
          pairsText_nil, Piece.text, bobjText, listText_assigned, listText_ofList,
          List.append_assoc, List.append_nil]
        rfl
      · rfl

theorem query_text (argPieces : List Piece) (args : List (Bytes × Bobj))
    (name before opening : String)
    (argsText : piecesText argPieces = pairsText args)
    (opened : ascii opening = ascii before ++ bstrText (ascii "t"))
    (named : ascii before = ascii "e" ++ (bstrText (ascii "q") ++ bstrText (ascii name))) :
    piecesText ([.print (ascii "d1:ad2:id20:"), .copy self.myid.bytes] ++ argPieces ++
        closing self opening tid "1:y1:qe") =
      bobjText (.dict (BencDict.ofList (queryPairs self tid name args))) := by
  have ending := closing_text self tid before opening "1:y1:qe" "q" opened (by decide)
  simp only [piecesText_append, piecesText_cons, ending, argsText, Piece.text, queryPairs,
    bobjText, dictText_ofList, pairsText_cons, bstrText_field, named, List.append_assoc,
      List.cons_append, List.nil_append]
  rfl

theorem response_text (argPieces : List Piece) (args : List (Bytes × Bobj))
    (argsText : piecesText argPieces = pairsText args) :
    piecesText ([.print (ascii "d1:rd2:id20:"), .copy self.myid.bytes] ++ argPieces ++
        closing self "e1:t" tid "1:y1:re") =
      bobjText (.dict (BencDict.ofList (responsePairs self tid args))) := by
  have ending := closing_text self tid "e" "e1:t" "1:y1:re" "r" (by decide) (by decide)
  simp only [piecesText_append, piecesText_cons, ending, argsText, Piece.text, responsePairs,
    bobjText, dictText_ofList, pairsText_cons, bstrText_field, List.append_assoc,
    List.cons_append, List.nil_append]
  rfl

theorem error_text (code : Int32) (message : Bytes) :
    piecesText (errorPieces self tid code message) =
      bobjText (.dict (BencDict.ofList (errorPairs self tid code message))) := by
  have ending := closing_text self tid "e" "e1:t" "1:y1:ee" "e" (by decide) (by decide)
  simp only [errorPieces, piecesText_cons, ending, Piece.text, errorPairs,
    bobjText, listText, bstrText, dictText_ofList, pairsText_cons, List.append_assoc,
    List.cons_append, List.nil_append]
  rfl

/-- Every builder prints the text of its dictionary. -/
theorem Outbound.piecesText_eq (m : Outbound) :
    piecesText (m.pieces self) = bobjText (m.object self) := by
  cases m with
  | ping tid =>
      exact query_text self tid [] [] "ping" "e1:q4:ping" "e1:q4:ping1:t" rfl (by decide)
        (by decide)
  | findNode tid target want confirm =>
      refine query_text self tid
        ([.print (ascii "6:target20:"), .copy target.bytes] ++ wantPieces want)
        _ "find_node" "e1:q9:find_node" "e1:q9:find_node1:t" ?_ (by decide) (by decide)
      simp only [piecesText_append, piecesText_cons, piecesText_nil, wantPieces_text,
        pairsText_cons, Piece.text, bobjText, bstrText_field, List.append_assoc, List.nil_append]
      rfl
  | getPeers tid infohash want confirm =>
      refine query_text self tid
        ([.print (ascii "9:info_hash20:"), .copy infohash.bytes] ++ wantPieces want)
        _ "get_peers" "e1:q9:get_peers" "e1:q9:get_peers1:t" ?_ (by decide) (by decide)
      simp only [piecesText_append, piecesText_cons, piecesText_nil, wantPieces_text,
        pairsText_cons, Piece.text, bobjText, bstrText_field, List.append_assoc, List.nil_append]
      rfl
  | announcePeer tid infohash port token confirm =>
      refine query_text self tid
        [.print (ascii "9:info_hash20:"), .copy infohash.bytes,
          .print (ascii "4:porti" ++ decimal port.toNat ++ ascii "e5:token" ++
            decimal token.length ++ ascii ":"), .copy token]
        _ "announce_peer" "e1:q13:announce_peer" "e1:q13:announce_peer1:t" ?_ (by decide)
          (by decide)
      have portText : decimalInt (port.toNat : Int) = decimal port.toNat := rfl
      simp only [piecesText_cons, piecesText_nil, pairsText_cons, pairsText_nil, Piece.text,
        bobjText, bstrText_field, portText, List.append_assoc, List.cons_append, List.nil_append]
      simp only [bstrText, List.append_assoc, List.cons_append]
      rfl
  | pong tid => exact response_text self tid [] [] rfl
  | nodesPeers tid nodes nodes6 af st token roll =>
      have parts := response_text self tid
        (optionalField "5:nodes" nodes ++ optionalField "6:nodes6" nodes6 ++
          optionalField "5:token" token ++ valuesPieces af st roll)
        (nodesPeersArgs nodes nodes6 af st token roll)
        (by
          simp only [nodesPeersArgs, piecesText_append, pairsText_append, valuesPieces_text,
            optionalField_text "nodes" nodes "5:nodes" (by decide),
            optionalField_text "nodes6" nodes6 "6:nodes6" (by decide),
            optionalField_text "token" token "5:token" (by decide)])
      refine Eq.trans ?_ parts
      simp only [Outbound.pieces, nodesPeersPieces, List.append_assoc]
  | peerAnnounced tid => exact response_text self tid [] [] rfl
  | error tid code message => exact error_text self tid code message

end Text

end Dnsp2p.Message
