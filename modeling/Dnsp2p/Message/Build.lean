import Dnsp2p.Benc.Text
import Dnsp2p.Dht.Storage
import Dnsp2p.Message.Parse

/-!
# Building a message

The eight functions that print a message into a buffer of fixed size and hand it
to `dht_send`.  A builder is the sequence of its `snprintf` and `COPY` steps;
`none` is the failure with ENOSPC.
-/

namespace Dnsp2p.Message

open Dnsp2p.Benc Dnsp2p.Dht

/-- What every message says about its sender: `myid`, and the client version if
`have_v` is set. -/
structure Identity where
  myid : Field 20
  v : Option (Field 4)
  deriving DecidableEq

/-- The arguments of `dht_send` that do not depend on the destination: the bytes,
and whether the flag `MSG_CONFIRM` is set. -/
structure Outgoing where
  buf : Bytes
  confirm : Bool
  deriving DecidableEq

/-! ## Printing into a buffer -/

/-- One step of a builder: `snprintf` followed by `INC`, or `COPY`. -/
inductive Piece where
  | print (text : Bytes)
  | copy (src : Bytes)

/-- The bytes that a step is meant to write. -/
def Piece.text : Piece → Bytes
  | print text => text
  | copy src => src

/-- What `snprintf` leaves of a text that fills its buffer to the last byte. -/
def cutLast (text : Bytes) : Bytes :=
  if text = [] then [] else text.dropLast ++ [0]

/-- One step on a buffer of `size` bytes that holds `buf`. -/
def Piece.write (size : Nat) (buf : Bytes) : Piece → Option Bytes
  | print text =>
      if size < buf.length + text.length then none
      else if buf.length + text.length = size then some (buf ++ cutLast text)
      else some (buf ++ text)
  | copy src => if size < buf.length + src.length then none else some (buf ++ src)

/-- The bytes in the buffer after all steps. -/
def writeAll (size : Nat) (pieces : List Piece) : Option Bytes :=
  pieces.foldlM (Piece.write size) []

/-- The text that a sequence of steps is meant to write. -/
def piecesText (pieces : List Piece) : Bytes :=
  pieces.flatMap Piece.text

/-- `ADD_V`. -/
def addV (self : Identity) : List Piece :=
  match self.v with
  | some v => [.copy (ascii "1:v4:" ++ v.bytes)]
  | none => []

/-- The steps with which every builder ends, from the transaction id on. -/
def closing (self : Identity) (opening : String) (tid : Bytes) (ending : String) : List Piece :=
  [.print (ascii opening ++ decimal tid.length ++ ascii ":"), .copy tid] ++ addV self ++
    [.print (ascii ending)]

/-- The steps for an optional field: none when its length is not positive. -/
def optionalField (key : String) (data : Bytes) : List Piece :=
  if 0 < data.length then [.print (ascii key ++ decimal data.length ++ ascii ":"), .copy data]
  else []

/-! ## The builders -/

/-- `want & WANT4`. -/
def wants4 (want : Int) : Bool :=
  want % 2 = 1

/-- `want & WANT6`. -/
def wants6 (want : Int) : Bool :=
  want / 2 % 2 = 1

/-- The steps for a `want` list. -/
def wantPieces (want : Int) : List Piece :=
  if 0 < want then
    [.print (ascii "4:wantl" ++ (if wants4 want then ascii "2:n4" else []) ++
      (if wants6 want then ascii "2:n6" else []) ++ ascii "e")]
  else []

/-- The steps of `send_ping`. -/
def pingPieces (self : Identity) (tid : Bytes) : List Piece :=
  [.print (ascii "d1:ad2:id20:"), .copy self.myid.bytes] ++
    closing self "e1:q4:ping1:t" tid "1:y1:qe"

/-- `send_ping`. -/
def sendPing (self : Identity) (tid : Bytes) : Option Outgoing := do
  let buf ← writeAll 512 (pingPieces self tid)
  some { buf, confirm := false }

/-- The steps of `send_pong`. -/
def pongPieces (self : Identity) (tid : Bytes) : List Piece :=
  [.print (ascii "d1:rd2:id20:"), .copy self.myid.bytes] ++ closing self "e1:t" tid "1:y1:re"

/-- `send_pong`. -/
def sendPong (self : Identity) (tid : Bytes) : Option Outgoing := do
  let buf ← writeAll 512 (pongPieces self tid)
  some { buf, confirm := false }

/-- The steps of `send_find_node`. -/
def findNodePieces (self : Identity) (tid : Bytes) (target : Field 20) (want : Int) : List Piece :=
  [.print (ascii "d1:ad2:id20:"), .copy self.myid.bytes, .print (ascii "6:target20:"),
      .copy target.bytes] ++
    wantPieces want ++ closing self "e1:q9:find_node1:t" tid "1:y1:qe"

/-- `send_find_node`. -/
def sendFindNode (self : Identity) (tid : Bytes) (target : Field 20) (want : Int)
    (confirm : Bool) : Option Outgoing := do
  let buf ← writeAll 512 (findNodePieces self tid target want)
  some { buf, confirm }

/-- The length of an address of the family; any other value of `af` counts as
`AF_INET6`. -/
def addressLength (af : Option Family) : Nat :=
  if af = some .inet then 4 else 16

/-- The `do … while` loop of `send_nodes_peers`: the peers served from slot `j`
on, when `k` have been served before. -/
def servedPeers (len : Nat) (peers : List Peer) (j0 : Nat) : Nat → Nat → Nat → List Peer
  | 0, _, _ => []
  | fuel + 1, j, k =>
      let served := (peers[j]?.toList).filter fun peer => peer.len = len
      let k := k + served.length
      let j := (j + 1) % peers.length
      served ++ if j ≠ j0 ∧ k < 50 then servedPeers len peers j0 fuel j k else []

/-- `htons(port)` as it lies in memory. -/
def portBytes (port : UInt16) : Bytes :=
  [(port >>> 8).toUInt8, port.toUInt8]

/-- A stored peer in compact form. -/
def compactPeer (len : Nat) (peer : Peer) : Bytes :=
  peer.ip.bytes.take len ++ portBytes peer.port

/-- The slice of stored peers that `send_nodes_peers` serves; `roll` is the value
of `random()`. -/
def slice (af : Option Family) (st : Storage) (roll : Nat) : List Peer :=
  servedPeers (addressLength af) st.peers (roll % st.peers.length) st.peers.length
    (roll % st.peers.length) 0

/-- The steps for the `values` list. -/
def valuesPieces (af : Option Family) (st : Option Storage) (roll : Nat) : List Piece :=
  match st with
  | none => []
  | some st =>
      if 0 < st.peers.length then
        [.print (ascii "6:valuesl")] ++
          (slice af st roll).flatMap (fun peer =>
            [.print (decimal (addressLength af + 2) ++ ascii ":"),
              .copy (peer.ip.bytes.take (addressLength af)), .copy (portBytes peer.port)]) ++
          [.print (ascii "e")]
      else []

/-- The steps of `send_nodes_peers`. -/
def nodesPeersPieces (self : Identity) (tid nodes nodes6 : Bytes) (af : Option Family)
    (st : Option Storage) (token : Bytes) (roll : Nat) : List Piece :=
  [.print (ascii "d1:rd2:id20:"), .copy self.myid.bytes] ++ optionalField "5:nodes" nodes ++
    optionalField "6:nodes6" nodes6 ++ optionalField "5:token" token ++ valuesPieces af st roll ++
    closing self "e1:t" tid "1:y1:re"

/-- `send_nodes_peers`. -/
def sendNodesPeers (self : Identity) (tid nodes nodes6 : Bytes) (af : Option Family)
    (st : Option Storage) (token : Bytes) (roll : Nat) : Option Outgoing := do
  let buf ← writeAll 2048 (nodesPeersPieces self tid nodes nodes6 af st token roll)
  some { buf, confirm := false }

/-- The steps of `send_get_peers`. -/
def getPeersPieces (self : Identity) (tid : Bytes) (infohash : Field 20) (want : Int) :
    List Piece :=
  [.print (ascii "d1:ad2:id20:"), .copy self.myid.bytes, .print (ascii "9:info_hash20:"),
      .copy infohash.bytes] ++
    wantPieces want ++ closing self "e1:q9:get_peers1:t" tid "1:y1:qe"

/-- `send_get_peers`. -/
def sendGetPeers (self : Identity) (tid : Bytes) (infohash : Field 20) (want : Int)
    (confirm : Bool) : Option Outgoing := do
  let buf ← writeAll 512 (getPeersPieces self tid infohash want)
  some { buf, confirm }

/-- The steps of `send_announce_peer`. -/
def announcePeerPieces (self : Identity) (tid : Bytes) (infohash : Field 20) (port : UInt16)
    (token : Bytes) : List Piece :=
  [.print (ascii "d1:ad2:id20:"), .copy self.myid.bytes, .print (ascii "9:info_hash20:"),
      .copy infohash.bytes,
      .print (ascii "4:porti" ++ decimal port.toNat ++ ascii "e5:token" ++ decimal token.length ++
        ascii ":"),
      .copy token] ++
    closing self "e1:q13:announce_peer1:t" tid "1:y1:qe"

/-- `send_announce_peer`: the flag is the opposite of `confirm`. -/
def sendAnnouncePeer (self : Identity) (tid : Bytes) (infohash : Field 20) (port : UInt16)
    (token : Bytes) (confirm : Bool) : Option Outgoing := do
  let buf ← writeAll 512 (announcePeerPieces self tid infohash port token)
  some { buf, confirm := !confirm }

/-- The steps of `send_peer_announced`. -/
def peerAnnouncedPieces (self : Identity) (tid : Bytes) : List Piece :=
  [.print (ascii "d1:rd2:id20:"), .copy self.myid.bytes] ++ closing self "e1:t" tid "1:y1:re"

/-- `send_peer_announced`. -/
def sendPeerAnnounced (self : Identity) (tid : Bytes) : Option Outgoing := do
  let buf ← writeAll 512 (peerAnnouncedPieces self tid)
  some { buf, confirm := false }

/-- The steps of `send_error`. -/
def errorPieces (self : Identity) (tid : Bytes) (code : Int32) (message : Bytes) : List Piece :=
  [.print (ascii "d1:eli" ++ decimalInt code.toInt ++ ascii "e" ++ decimal message.length ++
      ascii ":"),
      .copy message] ++
    closing self "e1:t" tid "1:y1:ee"

/-- `send_error`; `message` is the string without its terminator. -/
def sendError (self : Identity) (tid : Bytes) (code : Int32) (message : Bytes) :
    Option Outgoing := do
  let buf ← writeAll 512 (errorPieces self tid code message)
  some { buf, confirm := false }

/-! ## What a builder leaves in its buffer -/

section Write

variable {size : Nat}

/-- The bytes that a step appends to a buffer with room for them. -/
private def left (size : Nat) (buf : Bytes) : Piece → Bytes
  | .print text => if buf.length + text.length = size then cutLast text else text
  | .copy src => src

private theorem left_of_room {buf : Bytes} {piece : Piece}
    (room : buf.length + piece.text.length ≠ size) : left size buf piece = piece.text := by
  cases piece with
  | print text => exact if_neg room
  | copy src => rfl

private theorem write_eq_some_iff {buf : Bytes} {piece : Piece} {buf' : Bytes} :
    piece.write size buf = some buf' ↔
      buf.length + piece.text.length ≤ size ∧ buf' = buf ++ left size buf piece := by
  cases piece with
  | print text =>
      simp only [Piece.write, Piece.text, left]
      split
      · rename_i long
        simp only [reduceCtorEq, false_iff, not_and]
        omega
      · rename_i fits
        split <;> simp [Nat.not_lt.mp fits, eq_comm]
  | copy src =>
      simp only [Piece.write, Piece.text, left]
      split
      · rename_i long
        simp only [reduceCtorEq, false_iff, not_and]
        omega
      · rename_i fits
        simp [Nat.not_lt.mp fits, eq_comm]

private theorem length_cutLast (text : Bytes) : (cutLast text).length = text.length := by
  unfold cutLast
  split
  · rename_i empty
    rw [empty]
  · rename_i nonempty
    have positive := List.length_pos_iff.mpr nonempty
    simp only [List.length_append, List.length_dropLast, List.length_singleton]
    omega

private theorem cutLast_append (first last : Bytes) (nonempty : last ≠ []) :
    cutLast (first ++ last) = first ++ cutLast last := by
  have whole : first ++ last ≠ [] := by simp [nonempty]
  simp only [cutLast, if_neg whole, if_neg nonempty, List.dropLast_append_of_ne_nil nonempty,
    List.append_assoc]

private theorem length_left (buf : Bytes) (piece : Piece) :
    (left size buf piece).length = piece.text.length := by
  cases piece with
  | print text =>
      simp only [left, Piece.text]
      split
      · exact length_cutLast text
      · rfl
  | copy src => rfl

private theorem foldlM_write_eq_some_iff (pieces : List Piece) (last buf buf' : Bytes)
    (nonempty : last ≠ []) :
    (pieces ++ [Piece.print last]).foldlM (Piece.write size) buf = some buf' ↔
      buf.length + (piecesText pieces ++ last).length ≤ size ∧
        buf' = buf ++ (if buf.length + (piecesText pieces ++ last).length = size then
          cutLast (piecesText pieces ++ last) else piecesText pieces ++ last) := by
  induction pieces generalizing buf with
  | nil =>
      simp only [List.nil_append, List.foldlM_cons, List.foldlM_nil, piecesText, List.flatMap_nil]
      rw [Option.bind_eq_bind, Option.pure_def, Option.bind_fun_some, write_eq_some_iff]
      rfl
  | cons piece rest ih =>
      have positive := List.length_pos_iff.mpr nonempty
      have textEq : piecesText (piece :: rest) = piece.text ++ piecesText rest := rfl
      have lengthEq : (buf ++ left size buf piece).length + (piecesText rest ++ last).length =
          buf.length + (piecesText (piece :: rest) ++ last).length := by
        simp only [textEq, List.length_append, length_left]
        omega
      have whole (room : buf.length + piece.text.length ≠ size) :
          buf ++ left size buf piece ++
              (if buf.length + (piecesText (piece :: rest) ++ last).length = size then
                cutLast (piecesText rest ++ last) else piecesText rest ++ last) =
            buf ++ (if buf.length + (piecesText (piece :: rest) ++ last).length = size then
              cutLast (piecesText (piece :: rest) ++ last)
              else piecesText (piece :: rest) ++ last) := by
        rw [left_of_room room, textEq, List.append_assoc, List.append_assoc]
        split
        · rw [cutLast_append piece.text _ (by simp [nonempty])]
        · rfl
      simp only [List.cons_append, List.foldlM_cons, Option.bind_eq_bind,
        Option.bind_eq_some_iff, write_eq_some_iff, ih]
      constructor
      · rintro ⟨middle, ⟨_, rfl⟩, fits, rfl⟩
        rw [lengthEq] at fits ⊢
        refine ⟨fits, whole ?_⟩
        simp only [textEq, List.length_append] at fits
        omega
      · rintro ⟨fits, rfl⟩
        have room : buf.length + piece.text.length < size := by
          simp only [textEq, List.length_append] at fits
          omega
        refine ⟨_, ⟨room.le, rfl⟩, by rw [lengthEq]; exact fits, ?_⟩
        rw [lengthEq]
        exact (whole room.ne).symm

/-- A builder whose last step prints something writes its text, except that the
last byte of a text that fills the buffer is overwritten with a NUL. -/
theorem writeAll_eq_some_iff (pieces : List Piece) (last : Bytes) (nonempty : last ≠ [])
    {buf : Bytes} :
    writeAll size (pieces ++ [.print last]) = some buf ↔
      (piecesText (pieces ++ [.print last])).length ≤ size ∧
        buf = if (piecesText (pieces ++ [.print last])).length = size then
          cutLast (piecesText (pieces ++ [.print last]))
        else piecesText (pieces ++ [.print last]) := by
  have textEq : piecesText (pieces ++ [.print last]) = piecesText pieces ++ last := by
    simp [piecesText, Piece.text]
  rw [writeAll, foldlM_write_eq_some_iff pieces last [] buf nonempty, textEq]
  simp

end Write

end Dnsp2p.Message
