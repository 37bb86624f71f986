import Dnsp2p.Benc.Decode

/-!
# Parsing a datagram

`dht_message_parse`: copy the datagram with `strdup`, decode it, and read the
KRPC fields out of the decoded object.  Pointers into decoded strings are the
blocks they point to, which have no terminator of their own.
-/

namespace Dnsp2p.Message

open Dnsp2p.Benc

/-- `enum dht_message_type`. -/
inductive DhtMessageType where
  | err
  | query
  | response
  deriving DecidableEq, Repr

/-- `enum dht_query_type`. -/
inductive DhtQueryType where
  | error
  | reply
  | ping
  | findNode
  | getPeers
  | announcePeer
  deriving DecidableEq, Repr

/-- `dht_message_t`; `none` is NULL. -/
structure DhtMessage where
  type : DhtMessageType
  query : DhtQueryType
  t : Option Bytes
  tLen : Nat
  y : Option Bytes
  q : Option Bytes
  a : Option Bobj
  r : Option Bobj
  e : Option Bobj
  argId : Option Bytes
  deriving DecidableEq

/-- The message after `calloc`. -/
def DhtMessage.zero : DhtMessage :=
  { type := .err, query := .error, t := none, tLen := 0, y := none, q := none,
    a := none, r := none, e := none, argId := none }

/-! ## C strings without a terminator -/

/-- `strlen`, and any `%s`, on a block. -/
def cStrlen (block : Bytes) : Except Fault Nat :=
  match strlen block with
  | some length => .ok length
  | none => .error .unterminated

/-- `strcmp` of a block with a literal. -/
def cStrcmp (block : Bytes) (literal : String) : Except Fault Int :=
  match strcmp block (ascii literal ++ [0]) with
  | some difference => .ok difference
  | none => .error .unterminated

/-- The one character that `strncmp(block, …, 1)` reads. -/
def firstChar : Bytes → Except Fault UInt8
  | [] => .error .outOfBounds
  | char :: _ => .ok char

/-! ## The fields of a message -/

/-- `m->type` from the `y` string; the log line of an unknown type prints the
string with `%s`. -/
def messageType (y : Bytes) : Except Fault (Option DhtMessageType) := do
  let char ← firstChar y
  if char = chr 'q' then .ok (some .query)
  else if char = chr 'r' then .ok (some .response)
  else if char = chr 'e' then .ok (some .err)
  else do
    let _ ← cStrlen y
    .ok none

/-- `m->query` from the `q` string. -/
def queryType (q : Bytes) : Except Fault DhtQueryType := do
  if (← cStrcmp q "ping") = 0 then .ok .ping
  else if (← cStrcmp q "find_node") = 0 then .ok .findNode
  else if (← cStrcmp q "get_peers") = 0 then .ok .getPeers
  else if (← cStrcmp q "announce_peer") = 0 then .ok .announcePeer
  else .error .assertion

/-- The branch for `DHT_MSG_QUERY`: the message so far and its `args`. -/
def queryArgs (obj : Bobj) (m : DhtMessage) : Except Fault (Option (DhtMessage × Bobj)) := do
  match ← bobjDictLookup obj (ascii "a") with
  | some (.dict args) =>
      match ← bobjDictLookup obj (ascii "q") with
      | some (.bstr q) => do
          let length ← cStrlen q
          if length = 0 then .ok none
          else do
            let query ← queryType q
            .ok (some ({ m with a := some (.dict args), q := some q, query }, .dict args))
      | _ => .ok none
  | _ => .ok none

/-- The branch for `DHT_MSG_RESPONSE`. -/
def responseArgs (obj : Bobj) (m : DhtMessage) : Except Fault (Option (DhtMessage × Bobj)) := do
  match ← bobjDictLookup obj (ascii "r") with
  | some (.dict args) => .ok (some ({ m with r := some (.dict args) }, .dict args))
  | _ => .ok none

/-- The branch for `DHT_MSG_ERR`: `m->e` is used without a check for NULL. -/
def errorArgs (obj : Bobj) (m : DhtMessage) : Except Fault (Option DhtMessage) := do
  match ← bobjDictLookup obj (ascii "e") with
  | none => .error .nullField
  | some (.list head) =>
      match head with
      | .unassigned => .error .unassigned
      | .null => .ok none
      | .entry _ .null => .ok none
      | .entry _ .unassigned => .error .unassigned
      | .entry _ (.entry _ _) => .ok (some { m with e := some (.list head) })
  | some _ => .ok none

/-- `m->arg_id` from the arguments of a query or the values of a response. -/
def argIdOf (args : Bobj) : Except Fault (Option Bytes) := do
  match ← bobjDictLookup args (ascii "id") with
  | some (.bstr id) => .ok (if id.length = 20 then some id else none)
  | _ => .ok none

/-- A query or response once its type is known: its own fields, then `id`. -/
def withArgId (parsed : Option (DhtMessage × Bobj)) : Except Fault (Option DhtMessage) :=
  match parsed with
  | none => .ok none
  | some (m, args) => do
      match ← argIdOf args with
      | none => .ok none
      | some id => .ok (some { m with argId := some id })

/-- The part of `_dht_message_parse_impl` that depends on `m->type`. -/
def typedMessage (obj : Bobj) (type : DhtMessageType) : Except Fault (Option DhtMessage) :=
  let m := { DhtMessage.zero with type }
  match type with
  | .query => do withArgId (← queryArgs obj m)
  | .response => do withArgId (← responseArgs obj m)
  | .err => errorArgs obj m

/-- `_dht_message_parse_impl`: `none` when it returns false.  The length test in
the check of `y` is on `t`. -/
def dhtMessageParseImpl (obj : Bobj) : Except Fault (Option DhtMessage) :=
  match obj with
  | .dict _ => do
      match ← bobjDictLookup obj (ascii "t") with
      | some (.bstr t) =>
          if t.length = 0 then .ok none
          else do
            match ← bobjDictLookup obj (ascii "y") with
            | some (.bstr y) =>
                if t.length ≠ 1 then .ok none
                else do
                  match ← messageType y with
                  | none => .ok none
                  | some type =>
                      match ← typedMessage obj type with
                      | none => .ok none
                      | some m =>
                          .ok (some { m with t := some t, tLen := t.length, y := some y })
            | _ => .ok none
      | _ => .ok none
  | _ => .ok none

/-- `strdup`, `bbuf_new` and `bdec_mem` on a datagram that its receiver has
terminated with a NUL, the copy being placed at `addr`. -/
def copyAndDecode (addr : Nat) (buf : Bytes) : Except Fault (Option Bobj × Bbuf) :=
  bdecMem (fuelFor buf.length) (bbufNew addr buf.length (strdup (buf ++ [0])))

/-- `dht_message_parse`; a decoded object that is refused is released. -/
def dhtMessageParse (addr : Nat) (buf : Bytes) : Except Fault (Option DhtMessage) := do
  match ← copyAndDecode addr buf with
  | (none, _) => .ok none
  | (some obj, _) => do
      match ← dhtMessageParseImpl obj with
      | some m => .ok (some m)
      | none => do
          bobjFree obj
          .ok none

/-! ## What an accepted message looks like -/

section Shape

variable {obj : Bobj} {m : DhtMessage}

theorem queryArgs_type {m' : DhtMessage} {args : Bobj}
    (parsed : queryArgs obj m = .ok (some (m', args))) :
    m'.type = m.type ∧ m'.r = m.r ∧
      ∃ block, bobjDictLookup obj (ascii "q") = .ok (some (.bstr block)) ∧
      (cStrlen block).isOk = true := by
  simp only [queryArgs, bind_eq_ok_iff] at parsed
  rcases parsed with ⟨found, _, parsed⟩
  split at parsed
  · rcases bind_eq_ok_iff.mp parsed with ⟨found', lookedUp, parsed⟩
    split at parsed
    · rcases bind_eq_ok_iff.mp parsed with ⟨length, measured, parsed⟩
      split at parsed
      · cases parsed
      · rcases bind_eq_ok_iff.mp parsed with ⟨query, _, equal⟩
        cases equal
        exact ⟨rfl, rfl, _, lookedUp, by rw [measured]; rfl⟩
    · cases parsed
  · cases parsed

theorem responseArgs_eq {m' : DhtMessage} {args : Bobj}
    (parsed : responseArgs obj m = .ok (some (m', args))) :
    m' = { m with r := some args } ∧ bobjDictLookup obj (ascii "r") = .ok (some args) ∧
      ∃ head, args = .dict head := by
  simp only [responseArgs, bind_eq_ok_iff] at parsed
  rcases parsed with ⟨found, lookedUp, parsed⟩
  split at parsed
  · cases parsed
    exact ⟨rfl, lookedUp, _, rfl⟩
  · cases parsed

theorem argIdOf_eq_some_iff {args : Bobj} {id : Bytes} :
    argIdOf args = .ok (some id) ↔
      bobjDictLookup args (ascii "id") = .ok (some (.bstr id)) ∧ id.length = 20 := by
  simp only [argIdOf, bind_eq_ok_iff]
  constructor
  · rintro ⟨found, lookedUp, read⟩
    split at read
    · split at read
      · rename_i width
        cases read
        exact ⟨lookedUp, width⟩
      · cases read
    · cases read
  · rintro ⟨lookedUp, width⟩
    exact ⟨_, lookedUp, by simp [width]⟩

theorem withArgId_eq_some_iff {parsed : Option (DhtMessage × Bobj)} :
    withArgId parsed = .ok (some m) ↔
      ∃ m' args id, parsed = some (m', args) ∧ argIdOf args = .ok (some id) ∧
        m = { m' with argId := some id } := by
  cases parsed with
  | none => simp [withArgId]
  | some pair =>
      rcases pair with ⟨m', args⟩
      simp only [withArgId, bind_eq_ok_iff]
      constructor
      · rintro ⟨found, read, rest⟩
        cases found with
        | none => cases rest
        | some id =>
            cases rest
            exact ⟨m', args, id, rfl, read, rfl⟩
      · rintro ⟨_, _, id, equal, read, rfl⟩
        cases equal
        exact ⟨some id, read, rfl⟩

/-- The checks that every accepted message has passed. -/
theorem dhtMessageParseImpl_eq_some_iff :
    dhtMessageParseImpl obj = .ok (some m) ↔
      ∃ head t y type m', obj = .dict head ∧
        bobjDictLookup obj (ascii "t") = .ok (some (.bstr t)) ∧ t.length = 1 ∧
        bobjDictLookup obj (ascii "y") = .ok (some (.bstr y)) ∧
        messageType y = .ok (some type) ∧ typedMessage obj type = .ok (some m') ∧
        m = { m' with t := some t, tLen := t.length, y := some y } := by
  constructor
  · intro parsed
    unfold dhtMessageParseImpl at parsed
    split at parsed
    · rename_i head
      rcases bind_eq_ok_iff.mp parsed with ⟨found, tFound, parsed⟩
      split at parsed
      · rename_i t
        split at parsed
        · cases parsed
        · rcases bind_eq_ok_iff.mp parsed with ⟨found', yFound, parsed⟩
          split at parsed
          · rename_i y
            split at parsed
            · cases parsed
            · rename_i single
              rcases bind_eq_ok_iff.mp parsed with ⟨type?, typed, parsed⟩
              cases type? with
              | none => cases parsed
              | some type =>
                  rcases bind_eq_ok_iff.mp parsed with ⟨message?, built, parsed⟩
                  cases message? with
                  | none => cases parsed
                  | some m' =>
                      cases parsed
                      exact ⟨head, t, y, type, m', rfl, tFound, not_not.mp single, yFound,
                        typed, built, rfl⟩
          · cases parsed
      · cases parsed
    · cases parsed
  · rintro ⟨head, t, y, type, m', rfl, tFound, single, yFound, typed, built, rfl⟩
    simp only [dhtMessageParseImpl, tFound, ok_bind, single]
    simp [yFound, typed, built]

theorem typedMessage_type {type : DhtMessageType} (typed : typedMessage obj type = .ok (some m)) :
    m.type = type := by
  cases type with
  | query =>
      rcases bind_eq_ok_iff.mp typed with ⟨parsed, args, rest⟩
      rcases withArgId_eq_some_iff.mp rest with ⟨m', args', id, rfl, _, rfl⟩
      exact (queryArgs_type args).1
  | response =>
      rcases bind_eq_ok_iff.mp typed with ⟨parsed, args, rest⟩
      rcases withArgId_eq_some_iff.mp rest with ⟨m', args', id, rfl, _, rfl⟩
      rcases responseArgs_eq args with ⟨rfl, _, _⟩
      rfl
  | err =>
      simp only [typedMessage, errorArgs, bind_eq_ok_iff] at typed
      rcases typed with ⟨found, _, rest⟩
      split at rest
      · cases rest
      · split at rest <;> cases rest
        rfl
      · cases rest

/-- A message comes from an object that was decoded and accepted. -/
theorem parse_eq_some {addr : Nat} {buf : Bytes} {parsed : DhtMessage}
    (received : dhtMessageParse addr buf = .ok (some parsed)) :
    ∃ obj b, copyAndDecode addr buf = .ok (some obj, b) ∧
      dhtMessageParseImpl obj = .ok (some parsed) := by
  rcases bind_eq_ok_iff.mp received with ⟨⟨obj?, b⟩, decoded, rest⟩
  cases obj? with
  | none => cases rest
  | some obj =>
      rcases bind_eq_ok_iff.mp rest with ⟨parsed?, accepted, rest⟩
      cases parsed? with
      | none =>
          rcases bind_eq_ok_iff.mp rest with ⟨_, _, equal⟩
          cases equal
      | some parsed' =>
          cases rest
          exact ⟨obj, b, decoded, accepted⟩

theorem parse_of_accepted {addr : Nat} {buf : Bytes} {b : Bbuf} {parsed : DhtMessage}
    (decoded : copyAndDecode addr buf = .ok (some obj, b))
    (accepted : dhtMessageParseImpl obj = .ok (some parsed)) :
    dhtMessageParse addr buf = .ok (some parsed) := by
  simp only [dhtMessageParse, decoded, ok_bind, accepted]

end Shape

end Dnsp2p.Message
