import Dnsp2p.Message.Object
import Dnsp2p.Message.Safety

/-!
# Sender and receiver

When does `dht_message_parse` read back what a builder has sent?  A query is
never read back, and of the answers exactly those are that have a transaction id
of one byte, hold no NUL and no empty error text, and do not fill their buffer.
-/

namespace Dnsp2p.Message

open Dnsp2p.Benc Dnsp2p.Dht

namespace Outbound

/-- The fields that the receiver must find, absent if they were given empty. -/
def fields : Outbound → List (String × Option Bobj)
  | findNode _ target _ _ => [("target", some (.bstr target.bytes))]
  | getPeers _ infohash _ _ => [("info_hash", some (.bstr infohash.bytes))]
  | announcePeer _ infohash port token _ =>
      [("info_hash", some (.bstr infohash.bytes)), ("port", some (.int port.toNat)),
        ("token", some (.bstr token))]
  | nodesPeers _ nodes nodes6 _ _ token _ =>
      [("nodes", if nodes = [] then none else some (.bstr nodes)),
        ("nodes6", if nodes6 = [] then none else some (.bstr nodes6)),
        ("token", if token = [] then none else some (.bstr token))]
  | _ => []

/-- The byte strings that are copied into the message: the sender's id and
version, the transaction id, and the data given to the builder, served peers
included. -/
def copied (self : Identity) (m : Outbound) : List Bytes :=
  (m.pieces self).filterMap fun piece =>
    match piece with
    | .print _ => none
    | .copy src => some src

end Outbound

/-- The argument or reply dictionary of a parsed message. -/
def DhtMessage.arguments (m : DhtMessage) : Option Bobj :=
  match m.type with
  | .query => m.a
  | .response => m.r
  | .err => none

/-- The parsed message is the one that the builder was called for. -/
structure Agrees (node : Identity) (m : Outbound) (parsed : DhtMessage) : Prop where
  type : parsed.type = m.type
  query : ∀ kind, m.query = some kind → parsed.query = kind
  tid : parsed.t = some m.tid
  tidLength : parsed.tLen = m.tid.length
  sender : m.type ≠ .err → parsed.argId = some node.myid.bytes
  fields : ∀ field ∈ m.fields, ∃ args, parsed.arguments = some args ∧
    bobjDictLookup args (ascii field.1) = .ok field.2

/-- The receiver of these bytes gets the message that the builder was called for. -/
def Delivered (addr : Nat) (self : Identity) (m : Outbound) (buf : Bytes) : Prop :=
  ∃ parsed, dhtMessageParse addr buf = .ok (some parsed) ∧ Agrees self m parsed

/-- The calls of a builder that are delivered. -/
structure Legible (node : Identity) (m : Outbound) : Prop where
  answer : m.type ≠ .query
  singleByte : m.tid.length = 1
  noNul : ∀ src ∈ m.copied node, 0 ∉ src
  errorText : ∀ tid code message, m = .error tid code message → message ≠ []
  room : (piecesText (m.pieces node)).length < m.size

/-! ## NUL bytes in a text -/

section Nul

variable {self : Identity}

theorem zero_not_mem_addV_prints {text : Bytes} (member : Piece.print text ∈ addV self) :
    0 ∉ text := by
  unfold addV at member
  split at member <;> simp at member

theorem zero_not_mem_counted {opening : Bytes} (clean : 0 ∉ opening) (number : Nat) :
    0 ∉ opening ++ decimal number ++ ascii ":" := by
  have colon : (0 : UInt8) ∉ ascii ":" := by decide
  simp [clean, zero_not_mem_decimal, colon]

theorem zero_not_mem_closing_prints {opening ending : String} {tid text : Bytes}
    (cleanOpening : 0 ∉ ascii opening) (cleanEnding : 0 ∉ ascii ending)
    (member : Piece.print text ∈ closing self opening tid ending) : 0 ∉ text := by
  simp only [closing, List.mem_append, List.mem_cons, List.not_mem_nil, or_false,
    Piece.print.injEq, reduceCtorEq] at member
  rcases member with (rfl | inVersion) | rfl
  · exact zero_not_mem_counted cleanOpening _
  · exact zero_not_mem_addV_prints inVersion
  · exact cleanEnding

theorem zero_not_mem_optionalField_prints {opening : String} {data text : Bytes}
    (clean : 0 ∉ ascii opening) (member : Piece.print text ∈ optionalField opening data) :
    0 ∉ text := by
  unfold optionalField at member
  split at member
  · simp only [List.mem_cons, List.not_mem_nil, or_false, Piece.print.injEq, reduceCtorEq] at member
    rw [member]
    exact zero_not_mem_counted clean _
  · simp at member

theorem zero_not_mem_valuesPieces_prints {af : Option Family} {st : Option Storage} {roll : Nat}
    {text : Bytes} (member : Piece.print text ∈ valuesPieces af st roll) : 0 ∉ text := by
  unfold valuesPieces at member
  split at member
  · simp at member
  · split at member
    · simp only [List.mem_append, List.mem_cons, List.not_mem_nil, or_false, List.mem_flatMap,
        Piece.print.injEq, reduceCtorEq] at member
      rcases member with (rfl | ⟨_, _, rfl⟩) | rfl
      · decide
      · have colon : (0 : UInt8) ∉ ascii ":" := by decide
        simp [zero_not_mem_decimal, colon]
      · decide
    · simp at member

theorem zero_not_mem_decimalInt (number : Int) : 0 ∉ decimalInt number := by
  cases number <;> simp [decimalInt, zero_not_mem_decimal]

/-- What an answer prints around the copied bytes holds no NUL. -/
theorem zero_not_mem_prints {m : Outbound} (answer : m.type ≠ .query) {text : Bytes}
    (member : Piece.print text ∈ m.pieces self) : 0 ∉ text := by
  have header : 0 ∉ ascii "d1:rd2:id20:" := by decide
  cases m with
  | ping => exact absurd rfl answer
  | findNode => exact absurd rfl answer
  | getPeers => exact absurd rfl answer
  | announcePeer => exact absurd rfl answer
  | pong tid =>
      simp only [Outbound.pieces, pongPieces, List.mem_append, List.mem_cons, List.not_mem_nil,
        or_false, Piece.print.injEq, reduceCtorEq] at member
      rcases member with rfl | inClosing
      · exact header
      · exact zero_not_mem_closing_prints (by decide) (by decide) inClosing
  | nodesPeers tid nodes nodes6 af st token roll =>
      simp only [Outbound.pieces, nodesPeersPieces, List.mem_append, List.mem_cons,
        List.not_mem_nil, or_false, Piece.print.injEq, reduceCtorEq] at member
      rcases member with ((((rfl | inNodes) | inNodes6) | inToken) | inValues) | inClosing
      · exact header
      · exact zero_not_mem_optionalField_prints (by decide) inNodes
      · exact zero_not_mem_optionalField_prints (by decide) inNodes6
      · exact zero_not_mem_optionalField_prints (by decide) inToken
      · exact zero_not_mem_valuesPieces_prints inValues
      · exact zero_not_mem_closing_prints (by decide) (by decide) inClosing
  | peerAnnounced tid =>
      simp only [Outbound.pieces, peerAnnouncedPieces, List.mem_append, List.mem_cons,
        List.not_mem_nil, or_false, Piece.print.injEq, reduceCtorEq] at member
      rcases member with rfl | inClosing
      · exact header
      · exact zero_not_mem_closing_prints (by decide) (by decide) inClosing
  | error tid code message =>
      simp only [Outbound.pieces, errorPieces, List.mem_append, List.mem_cons, List.not_mem_nil,
        or_false, Piece.print.injEq, reduceCtorEq] at member
      rcases member with rfl | inClosing
      · have opening : 0 ∉ ascii "d1:eli" ++ decimalInt code.toInt ++ ascii "e" := by
          have first : (0 : UInt8) ∉ ascii "d1:eli" := by decide
          have last : (0 : UInt8) ∉ ascii "e" := by decide
          simp [first, last, zero_not_mem_decimalInt]
        exact zero_not_mem_counted opening _
      · exact zero_not_mem_closing_prints (by decide) (by decide) inClosing

/-- An answer is free of NUL bytes exactly when everything copied into it is. -/
theorem zero_not_mem_piecesText_iff {m : Outbound} (answer : m.type ≠ .query) :
    0 ∉ piecesText (m.pieces self) ↔ ∀ src ∈ m.copied self, 0 ∉ src := by
  simp only [piecesText, List.mem_flatMap, not_exists, not_and, Outbound.copied,
    List.mem_filterMap, forall_exists_index, and_imp]
  constructor
  · rintro clean src (text | src') member equal
    · cases equal
    · cases equal
      exact clean _ member
  · rintro clean (text | src) member
    · exact zero_not_mem_prints answer member
    · exact clean src (.copy src) member rfl

end Nul

/-! ## Reading an answer -/

section Answer

variable {self : Identity} {tid : Bytes}

theorem closingPairs_keys {kind : String} {pair : Bytes × Bobj}
    (member : pair ∈ closingPairs self tid kind) : pair.1.length = 1 := by
  simp only [closingPairs, versionPairs, List.mem_append, List.mem_singleton] at member
  rcases member with (rfl | inVersion) | rfl
  · rfl
  · split at inVersion
    · rw [List.mem_singleton.mp inVersion]
      rfl
    · simp at inVersion
  · rfl

theorem lookup_of_pairs {pairs : List (Bytes × Bobj)} {key : String}
    (short : (ascii key).length < 2 ^ 31) (shortKeys : ∀ pair ∈ pairs, pair.1.length ≤ 6) :
    bobjDictLookup (.dict (BencDict.ofList pairs)) (ascii key) = .ok (pairs.lookup (ascii key)) :=
  bencDictLookup_ofList short fun pair member => by
    have bound := shortKeys pair member
    omega

theorem responsePairs_keys {args : List (Bytes × Bobj)} :
    ∀ pair ∈ responsePairs self tid args, pair.1.length ≤ 6 := by
  intro pair member
  rcases List.mem_cons.mp member with rfl | closing
  · exact (by decide : (ascii "r").length ≤ 6)
  · rw [closingPairs_keys closing]
    decide

theorem errorPairs_keys {code : Int32} {message : Bytes} :
    ∀ pair ∈ errorPairs self tid code message, pair.1.length ≤ 6 := by
  intro pair member
  rcases List.mem_cons.mp member with rfl | closing
  · exact (by decide : (ascii "e").length ≤ 6)
  · rw [closingPairs_keys closing]
    decide

theorem optionalPair_keys {key : String} {data : Bytes} (short : (ascii key).length ≤ 6) :
    ∀ pair ∈ optionalPair key data, pair.1.length ≤ 6 := by
  intro pair member
  unfold optionalPair at member
  split at member
  · rw [List.mem_singleton.mp member]
    exact short
  · simp at member

theorem valuesPairs_keys {af : Option Family} {st : Option Storage} {roll : Nat} :
    ∀ pair ∈ valuesPairs af st roll, pair.1 = ascii "values" := by
  intro pair member
  unfold valuesPairs at member
  split at member
  · simp at member
  · split at member
    · rw [List.mem_singleton.mp member]
    · simp at member

theorem nodesPeersArgs_keys {nodes nodes6 : Bytes} {af : Option Family} {st : Option Storage}
    {token : Bytes} {roll : Nat} :
    ∀ pair ∈ (ascii "id", Bobj.bstr self.myid.bytes) ::
      nodesPeersArgs nodes nodes6 af st token roll,
      pair.1.length ≤ 6 := by
  intro pair member
  rcases List.mem_cons.mp member with rfl | inArgs
  · exact (by decide : (ascii "id").length ≤ 6)
  simp only [nodesPeersArgs, List.mem_append] at inArgs
  rcases inArgs with ((inNodes | inNodes6) | inToken) | inValues
  · exact optionalPair_keys (by decide) pair inNodes
  · exact optionalPair_keys (by decide) pair inNodes6
  · exact optionalPair_keys (by decide) pair inToken
  · rw [valuesPairs_keys pair inValues]
    decide

theorem lookup_optionalPair (key key' : String) (data : Bytes) :
    (optionalPair key data).lookup (ascii key') =
      if ascii key' = ascii key ∧ data ≠ [] then some (.bstr data) else none := by
  unfold optionalPair
  by_cases empty : data = []
  · simp [empty]
  · have positive : 0 < data.length := List.length_pos_iff.mpr empty
    by_cases same : ascii key' = ascii key
    · simp [positive, same, empty]
    · have differ : (ascii key' == ascii key) = false := by simpa using same
      simp [positive, same, List.lookup_cons, differ]

theorem lookup_valuesPairs {af : Option Family} {st : Option Storage} {roll : Nat} {key : String}
    (other : ascii key ≠ ascii "values") : (valuesPairs af st roll).lookup (ascii key) = none := by
  rw [List.lookup_eq_none_iff]
  intro pair member
  rw [valuesPairs_keys pair member]
  simpa using other

/-- Looking a field of `send_nodes_peers` up in its reply dictionary. -/
theorem lookup_nodesPeersArgs {nodes nodes6 : Bytes} {af : Option Family} {st : Option Storage}
    {token : Bytes} {roll : Nat} (key : String) (short : (ascii key).length < 2 ^ 31)
    (notId : (ascii key == ascii "id") = false) (notValues : ascii key ≠ ascii "values") :
    bobjDictLookup (.dict (BencDict.ofList ((ascii "id", Bobj.bstr self.myid.bytes) ::
        nodesPeersArgs nodes nodes6 af st token roll))) (ascii key) =
      .ok (((if ascii key = ascii "nodes" ∧ nodes ≠ [] then some (.bstr nodes) else none).or
        (if ascii key = ascii "nodes6" ∧ nodes6 ≠ [] then some (.bstr nodes6) else none)).or
        (if ascii key = ascii "token" ∧ token ≠ [] then some (.bstr token) else none)) := by
  rw [lookup_of_pairs short nodesPeersArgs_keys]
  simp only [List.lookup_cons, notId, nodesPeersArgs, List.lookup_append, lookup_optionalPair,
    lookup_valuesPairs notValues, Option.or_none]

/-- A response is parsed when its transaction id is one byte long. -/
theorem dhtMessageParseImpl_response {args : List (Bytes × Bobj)} (single : tid.length = 1)
    (shortArgs : ∀ pair ∈ (ascii "id", Bobj.bstr self.myid.bytes) :: args, pair.1.length ≤ 6) :
    dhtMessageParseImpl (.dict (BencDict.ofList (responsePairs self tid args))) =
      .ok (some { DhtMessage.zero with
        type := .response
        r := some (.dict (BencDict.ofList ((ascii "id", .bstr self.myid.bytes) :: args)))
        argId := some self.myid.bytes
        t := some tid
        tLen := tid.length
        y := some (ascii "r") }) := by
  have keys : ∀ pair ∈ responsePairs self tid args, pair.1.length ≤ 6 := responsePairs_keys
  apply dhtMessageParseImpl_eq_some_iff.mpr
  refine ⟨_, tid, ascii "r", .response, { DhtMessage.zero with
    type := .response
    r := some (.dict (BencDict.ofList ((ascii "id", .bstr self.myid.bytes) :: args)))
    argId := some self.myid.bytes }, rfl, ?_, single, ?_, rfl, ?_, rfl⟩
  · rw [lookup_of_pairs (by decide) keys]
    rfl
  · rw [lookup_of_pairs (by decide) keys]
    rcases self with ⟨myid, v⟩
    cases v <;> rfl
  · have found : bobjDictLookup (.dict (BencDict.ofList (responsePairs self tid args)))
      (ascii "r") =
        .ok (some (.dict (BencDict.ofList ((ascii "id", .bstr self.myid.bytes) :: args)))) :=
      lookup_of_pairs (by decide) keys
    have sender : argIdOf (.dict (BencDict.ofList ((ascii "id", .bstr self.myid.bytes) :: args))) =
        .ok (some self.myid.bytes) :=
      argIdOf_eq_some_iff.mpr ⟨lookup_of_pairs (by decide) shortArgs, self.myid.length_eq⟩
    simp only [typedMessage, responseArgs, found, ok_bind, withArgId, sender]

/-- An error is parsed when its transaction id is one byte long. -/
theorem dhtMessageParseImpl_error {code : Int32} {message : Bytes} (single : tid.length = 1) :
    dhtMessageParseImpl (.dict (BencDict.ofList (errorPairs self tid code message))) =
      .ok (some { DhtMessage.zero with
        type := .err
        e := some (.list (.entry (.int code.toInt) (.entry (.bstr message) .null)))
        t := some tid
        tLen := tid.length
        y := some (ascii "e") }) := by
  have keys : ∀ pair ∈ errorPairs self tid code message, pair.1.length ≤ 6 := errorPairs_keys
  apply dhtMessageParseImpl_eq_some_iff.mpr
  refine ⟨_, tid, ascii "e", .err, { DhtMessage.zero with
    type := .err
    e := some (.list (.entry (.int code.toInt) (.entry (.bstr message) .null))) },
    rfl, ?_, single, ?_, rfl, ?_, rfl⟩
  · rw [lookup_of_pairs (by decide) keys]
    rfl
  · rw [lookup_of_pairs (by decide) keys]
    rcases self with ⟨myid, v⟩
    cases v <;> rfl
  · have found : bobjDictLookup (.dict (BencDict.ofList (errorPairs self tid code message)))
      (ascii "e") =
        .ok (some (.list (.entry (.int code.toInt) (.entry (.bstr message) .null)))) :=
      lookup_of_pairs (by decide) keys
    simp only [typedMessage, errorArgs, found, ok_bind]

end Answer

/-! ## The dictionaries can be written and read -/

section Dictionaries

variable {self : Identity} {tid : Bytes}

theorem decodable_dict_ofList {pairs : List (Bytes × Bobj)} (nonempty : pairs ≠ []) :
    (Bobj.dict (BencDict.ofList pairs)).Decodable ↔ ∀ pair ∈ pairs, pair.2.Decodable := by
  cases pairs with
  | nil => exact absurd rfl nonempty
  | cons pair rest =>
      rw [← BencDict.decodable_ofList]
      simp only [BencDict.ofList, Bobj.Decodable, BencDict.Decodable]

theorem decodable_list_ofList {elems : List Bobj} (decodable : ∀ elem ∈ elems, elem.Decodable) :
    (Bobj.list (BencList.ofList elems).assigned).Decodable :=
  Bobj.decodable_list.mpr (.inl (BencList.decodable_ofList.mpr decodable))

theorem closingPairs_decodable {kind : String} :
    ∀ pair ∈ closingPairs self tid kind, pair.2.Decodable := by
  intro pair member
  simp only [closingPairs, versionPairs, List.mem_append, List.mem_singleton] at member
  rcases member with (rfl | inVersion) | rfl
  · trivial
  · split at inVersion
    · rw [List.mem_singleton.mp inVersion]
      trivial
    · simp at inVersion
  · trivial

theorem wantPairs_decodable {want : Int} : ∀ pair ∈ wantPairs want, pair.2.Decodable := by
  intro pair member
  unfold wantPairs at member
  split at member
  · rw [List.mem_singleton.mp member]
    apply decodable_list_ofList
    intro elem inList
    simp only [List.mem_append, List.mem_ite_nil_right, List.mem_singleton] at inList
    rcases inList with ⟨_, rfl⟩ | ⟨_, rfl⟩ <;> trivial
  · simp at member

theorem nodesPeersArgs_decodable {nodes nodes6 : Bytes} {af : Option Family} {st : Option Storage}
    {token : Bytes} {roll : Nat} :
    ∀ pair ∈ nodesPeersArgs nodes nodes6 af st token roll, pair.2.Decodable := by
  intro pair member
  have optional (key : String) (data : Bytes) (inOptional : pair ∈ optionalPair key data) :
      pair.2.Decodable := by
    unfold optionalPair at inOptional
    split at inOptional
    · rw [List.mem_singleton.mp inOptional]
      trivial
    · simp at inOptional
  simp only [nodesPeersArgs, List.mem_append] at member
  rcases member with ((inNodes | inNodes6) | inToken) | inValues
  · exact optional _ _ inNodes
  · exact optional _ _ inNodes6
  · exact optional _ _ inToken
  · unfold valuesPairs at inValues
    split at inValues
    · simp at inValues
    · split at inValues
      · rw [List.mem_singleton.mp inValues]
        apply decodable_list_ofList
        intro elem inList
        rcases List.mem_map.mp inList with ⟨peer, _, rfl⟩
        trivial
      · simp at inValues

theorem queryPairs_decodable {name : String} {args : List (Bytes × Bobj)}
    (decodable : ∀ pair ∈ args, pair.2.Decodable) :
    (Bobj.dict (BencDict.ofList (queryPairs self tid name args))).Decodable := by
  rw [decodable_dict_ofList (by simp [queryPairs])]
  intro pair member
  simp only [queryPairs, List.cons_append, List.nil_append, List.mem_cons] at member
  rcases member with rfl | rfl | closing
  · rw [decodable_dict_ofList (List.cons_ne_nil _ _)]
    exact List.forall_mem_cons.mpr ⟨trivial, decodable⟩
  · trivial
  · exact closingPairs_decodable pair closing

theorem responsePairs_decodable {args : List (Bytes × Bobj)}
    (decodable : ∀ pair ∈ args, pair.2.Decodable) :
    (Bobj.dict (BencDict.ofList (responsePairs self tid args))).Decodable := by
  apply (decodable_dict_ofList (List.cons_ne_nil _ _)).mpr
  refine List.forall_mem_cons.mpr ⟨?_, closingPairs_decodable⟩
  apply (decodable_dict_ofList (List.cons_ne_nil _ _)).mpr
  exact List.forall_mem_cons.mpr ⟨trivial, decodable⟩

/-- Every builder's dictionary can be read back from its text. -/
theorem Outbound.object_decodable (m : Outbound) : (m.object self).Decodable := by
  cases m with
  | ping tid => exact queryPairs_decodable (by simp)
  | findNode tid target want confirm =>
      exact queryPairs_decodable (List.forall_mem_cons.mpr ⟨trivial, wantPairs_decodable⟩)
  | getPeers tid infohash want confirm =>
      exact queryPairs_decodable (List.forall_mem_cons.mpr ⟨trivial, wantPairs_decodable⟩)
  | announcePeer tid infohash port token confirm =>
      apply queryPairs_decodable
      have bound := port.toNat_lt
      simp only [List.forall_mem_cons, List.not_mem_nil, false_implies, implies_true, and_true]
      exact ⟨trivial, ⟨by omega, by omega⟩, trivial⟩
  | pong tid => exact responsePairs_decodable (by simp)
  | nodesPeers tid nodes nodes6 af st token roll =>
      exact responsePairs_decodable nodesPeersArgs_decodable
  | peerAnnounced tid => exact responsePairs_decodable (by simp)
  | error tid code message =>
      apply (decodable_dict_ofList (List.cons_ne_nil _ _)).mpr
      refine List.forall_mem_cons.mpr ⟨⟨⟨?_, ?_⟩, trivial, trivial⟩, closingPairs_decodable⟩
      · have low := code.le_toInt
        omega
      · have high := code.toInt_lt
        omega

theorem noEmptyString_closingPairs {kind : String} (nonemptyTid : tid ≠ [])
    (nonemptyKind : ascii kind ≠ []) :
    ∀ pair ∈ closingPairs self tid kind, pair.1 ≠ [] ∧ pair.2.NoEmptyString := by
  intro pair member
  simp only [closingPairs, versionPairs, List.mem_append, List.mem_singleton] at member
  rcases member with (rfl | inVersion) | rfl
  · exact ⟨(by decide : ascii "t" ≠ []), nonemptyTid⟩
  · split at inVersion
    · rename_i v _
      rw [List.mem_singleton.mp inVersion]
      exact ⟨(by decide : ascii "v" ≠ []),
        List.ne_nil_of_length_pos (by rw [v.length_eq]; decide)⟩
    · simp at inVersion
  · exact ⟨(by decide : ascii "y" ≠ []), nonemptyKind⟩

theorem noEmptyString_nodesPeersArgs {nodes nodes6 : Bytes} {af : Option Family}
    {st : Option Storage} {token : Bytes} {roll : Nat} :
    ∀ pair ∈ nodesPeersArgs nodes nodes6 af st token roll, pair.1 ≠ [] ∧ pair.2.NoEmptyString := by
  intro pair member
  have optional (key : String) (data : Bytes) (nonemptyKey : ascii key ≠ [])
      (inOptional : pair ∈ optionalPair key data) : pair.1 ≠ [] ∧ pair.2.NoEmptyString := by
    unfold optionalPair at inOptional
    split at inOptional
    · rename_i positive
      rw [List.mem_singleton.mp inOptional]
      exact ⟨nonemptyKey, List.length_pos_iff.mp positive⟩
    · simp at inOptional
  simp only [nodesPeersArgs, List.mem_append] at member
  rcases member with ((inNodes | inNodes6) | inToken) | inValues
  · exact optional _ _ (by decide) inNodes
  · exact optional _ _ (by decide) inNodes6
  · exact optional _ _ (by decide) inToken
  · unfold valuesPairs at inValues
    split at inValues
    · simp at inValues
    · split at inValues
      · rw [List.mem_singleton.mp inValues]
        refine ⟨(by decide : ascii "values" ≠ []), ?_⟩
        apply BencList.noEmptyString_assigned.mpr
        apply BencList.noEmptyString_ofList.mpr
        intro elem inList
        rcases List.mem_map.mp inList with ⟨peer, _, rfl⟩
        exact List.ne_nil_of_length_pos (by rw [length_compactPeer]; omega)
      · simp at inValues

theorem noEmptyString_response {args : List (Bytes × Bobj)} (nonemptyTid : tid ≠ [])
    (nonemptyArgs : ∀ pair ∈ args, pair.1 ≠ [] ∧ pair.2.NoEmptyString) :
    (Bobj.dict (BencDict.ofList (responsePairs self tid args))).NoEmptyString := by
  apply BencDict.noEmptyString_ofList.mpr
  refine List.forall_mem_cons.mpr
    ⟨⟨(by decide : ascii "r" ≠ []), ?_⟩, noEmptyString_closingPairs nonemptyTid (by decide)⟩
  apply BencDict.noEmptyString_ofList.mpr
  refine List.forall_mem_cons.mpr ⟨⟨(by decide : ascii "id" ≠ []), ?_⟩, nonemptyArgs⟩
  exact List.ne_nil_of_length_pos (by rw [self.myid.length_eq]; decide)

/-- An answer has an empty string only in its transaction id or error text. -/
theorem Outbound.object_noEmptyString {m : Outbound} (answer : m.type ≠ .query)
    (nonemptyTid : m.tid ≠ [])
    (errorText : ∀ tid code message, m = .error tid code message → message ≠ []) :
    (m.object self).NoEmptyString := by
  cases m with
  | ping => exact absurd rfl answer
  | findNode => exact absurd rfl answer
  | getPeers => exact absurd rfl answer
  | announcePeer => exact absurd rfl answer
  | pong tid => exact noEmptyString_response nonemptyTid (by simp)
  | nodesPeers tid nodes nodes6 af st token roll =>
      exact noEmptyString_response nonemptyTid noEmptyString_nodesPeersArgs
  | peerAnnounced tid => exact noEmptyString_response nonemptyTid (by simp)
  | error tid code message =>
      apply BencDict.noEmptyString_ofList.mpr
      refine List.forall_mem_cons.mpr
        ⟨⟨(by decide : ascii "e" ≠ []), trivial, ?_, trivial⟩,
          noEmptyString_closingPairs nonemptyTid (by decide)⟩
      exact errorText tid code message rfl

end Dictionaries

/-! ## What arrives -/

section Arrival

variable {addr : Nat} {self : Identity} {m : Outbound} {buf : Bytes}

theorem zero_not_mem_iff_nulAt : 0 ∉ buf ↔ nulAt buf = buf.length := by
  constructor
  · intro clean
    rw [nulAt, untilNul_of_not_mem clean]
  · intro whole
    have same : untilNul buf = buf :=
      (List.takeWhile_prefix _).eq_of_length whole
    rw [← same]
    exact not_mem_untilNul buf

/-- A builder leaves its text in the buffer, or the text cut at its last byte. -/
theorem send_eq_some {out : Outgoing} (sent : m.send self = some out) :
    (piecesText (m.pieces self)).length ≤ m.size ∧
      out.buf = if (piecesText (m.pieces self)).length = m.size then
        cutLast (piecesText (m.pieces self)) else piecesText (m.pieces self) := by
  have written : writeAll m.size (m.pieces self) = some out.buf := by
    cases m <;>
      simp only [Outbound.send, sendPing, sendFindNode, sendGetPeers, sendAnnouncePeer, sendPong,
        sendNodesPeers, sendPeerAnnounced, sendError, Option.bind_eq_bind,
        Option.bind_eq_some_iff, Option.some.injEq] at sent <;>
      rcases sent with ⟨_, written, rfl⟩ <;> exact written
  have ending : ∃ front last, m.pieces self = front ++ [.print last] ∧ last ≠ [] := by
    cases m
    all_goals
      simp only [Outbound.pieces, pingPieces, findNodePieces, getPeersPieces, announcePeerPieces,
        pongPieces, nodesPeersPieces, peerAnnouncedPieces, errorPieces, closing,
        ← List.append_assoc]
      exact ⟨_, _, rfl, by decide⟩
  rcases ending with ⟨front, last, shape, nonempty⟩
  rw [shape] at written ⊢
  exact (writeAll_eq_some_iff front last nonempty).mp written

/-- Pairs that end with a NUL instead of the end of their dictionary are not
decoded. -/
theorem copyAndDecode_cut {pairs : List (Bytes × Bobj)}
    (placed : addr + (chr 'd' :: (pairsText pairs ++ [0])).length < 2 ^ 63)
    (decodable : ∀ pair ∈ pairs, pair.2.Decodable) (obj : Bobj) (b : Bbuf) :
    copyAndDecode addr (chr 'd' :: (pairsText pairs ++ [0])) ≠ .ok (some obj, b) := by
  generalize whole : chr 'd' :: (pairsText pairs ++ [0]) = buf at placed
  have head : charAt buf 0 = some (chr 'd') := by
    rw [← whole]
    rfl
  have standing : TextAt buf 1 (dictText (BencDict.ofList pairs)) := by
    rw [dictText_ofList, ← whole]
    exact ⟨[chr 'd'], [0], rfl, rfl⟩
  have stop : charAt buf (1 + (dictText (BencDict.ofList pairs)).length) = some 0 := by
    rw [dictText_ofList, ← whole, Nat.add_comm]
    simp [charAt]
  have bound := nulAt_le_length buf
  have cut := bencDictDecode_cut (2 * buf.length + 3) (BencDict.ofList pairs) placed (by omega)
    (BencDict.decodable_ofList.mpr decodable) standing stop
  have fuelEq : fuelFor buf.length = 2 * buf.length + 3 + 1 := rfl
  rw [copyAndDecode_eq_bdecMem, fuelEq, bdecMem, cursor_deref (Nat.zero_le _) head, ok_bind,
    if_neg (by decide), if_neg (by decide), if_pos rfl, cursor_bbufIncPtr]
  intro decoded
  rcases bind_eq_ok_iff.mp decoded with ⟨⟨entries?, b'⟩, inner, shape⟩
  cases entries? with
  | none => cases shape
  | some entries => exact cut entries b' inner

/-- What a datagram with the text of an object is decoded to. -/
theorem object_of_copyAndDecode {obj obj' : Bobj} {b : Bbuf} (decodable : obj.Decodable)
    (placed : addr + (bobjText obj).length < 2 ^ 63)
    (decoded : copyAndDecode addr (bobjText obj) = .ok (some obj', b)) :
    obj' = obj ∧ obj.NoEmptyString ∧ Denotes (bobjText obj) 0 obj (bobjText obj).length ∧
      (bobjText obj).length ≤ nulAt (bobjText obj) + 1 := by
  have standing : TextAt (bobjText obj) 0 (bobjText obj) := ⟨[], [], by simp, rfl⟩
  have denoted := denotes_of_textAt obj 0 decodable standing
  rw [Nat.zero_add] at denoted
  have bound := nulAt_le_length (bobjText obj)
  have read := bdecMem_readBack (fuelFor (bobjText obj).length) placed
    (by unfold fuelFor; omega) denoted
  rw [← copyAndDecode_eq_bdecMem, decoded] at read
  rcases read with exact | ⟨fault, faulted⟩
  · cases exact
    rcases denotes_of_copyAndDecode placed decoded rfl with ⟨clean, q, denoted', reach⟩
    rcases denoted.unique denoted' with ⟨_, rfl⟩
    exact ⟨rfl, denoted.noEmptyString clean, denoted, reach⟩
  · cases faulted

/-- An accepted query would need a NUL inside its `q` string. -/
theorem not_query_of_nulFree {head : BencDict} (free : head.NulFree) {parsed : DhtMessage}
    (accepted : dhtMessageParseImpl (.dict head) = .ok (some parsed)) : parsed.type ≠ .query := by
  obtain ⟨_, _, _, type, m', _, _, _, _, _, typed, rfl⟩ :=
    dhtMessageParseImpl_eq_some_iff.mp accepted
  intro isQuery
  have typeEq : type = .query := (typedMessage_type typed).symm.trans isQuery
  subst typeEq
  rcases bind_eq_ok_iff.mp typed with ⟨args?, args, rest⟩
  rcases withArgId_eq_some_iff.mp rest with ⟨m'', args', id, rfl, _, rfl⟩
  rcases queryArgs_type args with ⟨_, _, block, found, measured⟩
  have noNul : 0 ∉ block := free.lookup found
  rw [cStrlen, strlen_eq_none_iff.mpr noNul] at measured
  cases measured

theorem bobjText_object :
    bobjText (m.object self) = chr 'd' :: (pairsText (m.pairs self) ++ [chr 'e']) := by
  simp [Outbound.object, bobjText]

theorem Outbound.pairs_ne_nil : m.pairs self ≠ [] := by
  cases m <;> simp [Outbound.pairs, queryPairs, responsePairs, errorPairs]

/-- A message that fills its buffer is not even decoded. -/
theorem not_decoded_of_cutLast
    (placed : addr + (cutLast (bobjText (m.object self))).length < 2 ^ 63)
    (obj : Bobj) (b : Bbuf) :
    copyAndDecode addr (cutLast (bobjText (m.object self))) ≠ .ok (some obj, b) := by
  have cutEq : cutLast (bobjText (m.object self)) =
      chr 'd' :: (pairsText (m.pairs self) ++ [0]) := by
    rw [bobjText_object, cutLast, if_neg (List.cons_ne_nil _ _),
      List.dropLast_cons_of_ne_nil (by simp), List.dropLast_concat]
    rfl
  rw [cutEq] at placed ⊢
  exact copyAndDecode_cut placed
    ((decodable_dict_ofList Outbound.pairs_ne_nil).mp m.object_decodable) obj b

/-- The message that a legible answer is parsed to. -/
theorem agrees_of_legible (legible : Legible self m) :
    ∃ parsed, dhtMessageParseImpl (m.object self) = .ok (some parsed) ∧ Agrees self m parsed := by
  have single := legible.singleByte
  cases m with
  | ping => exact absurd rfl legible.answer
  | findNode => exact absurd rfl legible.answer
  | getPeers => exact absurd rfl legible.answer
  | announcePeer => exact absurd rfl legible.answer
  | pong tid =>
      refine ⟨_, dhtMessageParseImpl_response single ?_, ⟨rfl, ?_, rfl, rfl, fun _ => rfl, ?_⟩⟩
      · exact List.forall_mem_cons.mpr ⟨(by decide : (ascii "id").length ≤ 6), by simp⟩
      · simp [Outbound.query]
      · simp [Outbound.fields]
  | nodesPeers tid nodes nodes6 af st token roll =>
      refine ⟨_, dhtMessageParseImpl_response single nodesPeersArgs_keys,
        ⟨rfl, ?_, rfl, rfl, fun _ => rfl, ?_⟩⟩
      · simp [Outbound.query]
      · intro field member
        refine ⟨_, rfl, ?_⟩
        simp only [Outbound.fields, List.mem_cons, List.not_mem_nil, or_false] at member
        rcases member with rfl | rfl | rfl
        · have notNodes6 : ascii "nodes" ≠ ascii "nodes6" := by decide
          have notToken : ascii "nodes" ≠ ascii "token" := by decide
          rw [lookup_nodesPeersArgs "nodes" (by decide) (by decide) (by decide)]
          simp [notNodes6, notToken]
        · have notNodes : ascii "nodes6" ≠ ascii "nodes" := by decide
          have notToken : ascii "nodes6" ≠ ascii "token" := by decide
          rw [lookup_nodesPeersArgs "nodes6" (by decide) (by decide) (by decide)]
          simp [notNodes, notToken]
        · have notNodes : ascii "token" ≠ ascii "nodes" := by decide
          have notNodes6 : ascii "token" ≠ ascii "nodes6" := by decide
          rw [lookup_nodesPeersArgs "token" (by decide) (by decide) (by decide)]
          simp [notNodes, notNodes6]
  | peerAnnounced tid =>
      refine ⟨_, dhtMessageParseImpl_response single ?_, ⟨rfl, ?_, rfl, rfl, fun _ => rfl, ?_⟩⟩
      · exact List.forall_mem_cons.mpr ⟨(by decide : (ascii "id").length ≤ 6), by simp⟩
      · simp [Outbound.query]
      · simp [Outbound.fields]
  | error tid code message =>
      refine ⟨_, dhtMessageParseImpl_error single, ⟨rfl, ?_, rfl, rfl, ?_, ?_⟩⟩
      · simp [Outbound.query]
      · exact fun other => absurd rfl other
      · simp [Outbound.fields]

/-- A message is delivered exactly when it is legible. -/
theorem delivered_iff_legible {out : Outgoing} (sent : m.send self = some out)
    (placed : addr + out.buf.length < 2 ^ 63) :
    Delivered addr self m out.buf ↔ Legible self m := by
  rcases send_eq_some sent with ⟨fits, bufEq⟩
  rw [m.piecesText_eq self] at fits bufEq
  constructor
  · rintro ⟨parsed, received, agrees⟩
    rcases parse_eq_some received with ⟨obj, b, decoded, accepted⟩
    have room : (bobjText (m.object self)).length ≠ m.size := by
      intro full
      rw [if_pos full] at bufEq
      rw [bufEq] at decoded placed
      exact not_decoded_of_cutLast placed obj b decoded
    rw [if_neg room] at bufEq
    rw [bufEq] at decoded placed
    obtain ⟨rfl, nonempty, denoted, reach⟩ :=
      object_of_copyAndDecode m.object_decodable placed decoded
    have answer : m.type ≠ .query := by
      rw [← agrees.type]
      exact not_query_of_nulFree (denoted.nulFree_dict reach) accepted
    have clean : 0 ∉ bobjText (m.object self) := by
      rw [zero_not_mem_iff_nulAt]
      have bound := nulAt_le_length (bobjText (m.object self))
      by_contra short
      have atEnd : nulAt (bobjText (m.object self)) + 1 = (bobjText (m.object self)).length := by
        omega
      have isNul := charAt_nulAt (bobjText (m.object self))
      have isEnd : charAt (bobjText (m.object self)) (pairsText (m.pairs self)).length.succ =
          some (chr 'e') := by
        rw [bobjText_object]
        simp [charAt]
      have same : nulAt (bobjText (m.object self)) = (pairsText (m.pairs self)).length.succ := by
        rw [bobjText_object] at atEnd ⊢
        simpa using atEnd
      rw [same, isEnd] at isNul
      cases isNul
    refine ⟨answer, ?_, ?_, ?_, ?_⟩
    · obtain ⟨_, t, _, _, m', _, _, single, _, _, _, rfl⟩ :=
        dhtMessageParseImpl_eq_some_iff.mp accepted
      have tidEq := agrees.tid
      cases tidEq
      exact single
    · rw [← zero_not_mem_piecesText_iff answer, m.piecesText_eq self]
      exact clean
    · rintro tid code message rfl
      exact (BencDict.noEmptyString_ofList.mp nonempty _ (List.mem_cons_self)).2.2.1
    · rw [m.piecesText_eq self]
      omega
  · intro legible
    have room := legible.room
    rw [m.piecesText_eq self] at room
    rw [if_neg room.ne] at bufEq
    rw [bufEq] at placed ⊢
    have clean : 0 ∉ bobjText (m.object self) := by
      rw [← m.piecesText_eq self, zero_not_mem_piecesText_iff legible.answer]
      exact legible.noNul
    have nonemptyTid : m.tid ≠ [] :=
      List.ne_nil_of_length_pos (by rw [legible.singleByte]; decide)
    have nonempty : (m.object self).NoEmptyString :=
      Outbound.object_noEmptyString legible.answer nonemptyTid legible.errorText
    have standing : TextAt (bobjText (m.object self)) 0 (bobjText (m.object self)) :=
      ⟨[], [], by simp, rfl⟩
    have denoted := denotes_of_textAt (m.object self) 0 m.object_decodable standing
    have reach : 0 + (bobjText (m.object self)).length ≤ nulAt (bobjText (m.object self)) + 1 := by
      rw [zero_not_mem_iff_nulAt.mp clean]
      omega
    have decoded := copyAndDecode_of_denotes placed
      (denoted.not_hazard placed nonempty reach) denoted
    rcases agrees_of_legible legible with ⟨parsed, accepted, agrees⟩
    exact ⟨parsed, parse_of_accepted decoded accepted, agrees⟩

end Arrival

/-! ## One-byte and four-byte transaction ids -/

/-- A node whose id is made of the letter `a`. -/
def letterNode : Identity :=
  { myid := ⟨List.replicate 20 (chr 'a'), by decide⟩, v := none }

/-- The pong of that node. -/
def letterPong (tid : String) : Bytes :=
  ascii "d1:rd2:id20:aaaaaaaaaaaaaaaaaaaae1:t" ++ decimal (ascii tid).length ++ ascii ":" ++
    ascii tid ++ ascii "1:y1:re"

/-- A pong with a one-byte transaction id arrives. -/
theorem delivered_iff_legible_pong :
    Delivered 4096 letterNode (.pong (ascii "x")) (letterPong "x") ↔
      Legible letterNode (.pong (ascii "x")) := by
  have sent : (Outbound.pong (ascii "x")).send letterNode =
      some { buf := letterPong "x", confirm := false } := by decide +kernel
  have placed : 4096 + (letterPong "x").length < 2 ^ 63 := by decide
  have arrives := delivered_iff_legible sent placed
  exact arrives

/-- A pong with the four-byte transaction id of a ping does not. -/
theorem not_delivered_pong :
    (Outbound.pong (ascii "pn00")).send letterNode =
        some { buf := letterPong "pn00", confirm := false } ∧
      ¬ Delivered 4096 letterNode (.pong (ascii "pn00")) (letterPong "pn00") := by
  constructor
  · decide +kernel
  · rintro ⟨parsed, received, _⟩
    have refused : dhtMessageParse 4096 (letterPong "pn00") = .ok none := by decide +kernel
    rw [refused] at received
    cases received

end Dnsp2p.Message
