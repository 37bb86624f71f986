import Dnsp2p.Dht.Dispatch

/-!
# Which datagrams are handled

How far `dht_periodic` gets with the datagrams that wait on its two sockets: it
returns early, jumps to `dontread`, or hands a message to one of the handlers.
Every check of a datagram is made as it should be.  Which socket is read, and
whether a datagram that was read is kept, depends on the variable `rc`, which was
never assigned, and on an `errno` that no `recvfrom` that succeeds sets.
-/

namespace Dnsp2p.Dht

open Dnsp2p.Benc Dnsp2p.Message

/-! ## The call up to its handlers -/

/-- How a call goes on when its datagram was looked at. -/
inductive Intake where
  | returned (rc : Int) (d : State)
  | skipped (d : State)
  | handed (socket : Family) (d : State) (source : Sockaddr) (msg : DhtMessage)

/-- The socket of the last `recvfrom`. -/
def receivedOn (d : State) (input : Input) : Family :=
  if 0 ≤ d.dhtSocket6 ∧ input.rc < 0 then .inet6 else .inet

namespace State

/-- The checks of `dht_periodic` on a message from a socket. -/
def checkMessage (d : State) (socket : Family) (source : Sockaddr) (msg : DhtMessage) :
    Except Fault Intake := do
  let argId ← readId msg.argId
  if idCmp argId d.self.myid = 0 then .ok (.skipped d)
  else
    match msg.type with
    | .response => .ok (.handed socket d source msg)
    | .query =>
        let (allowed, d) := d.tokenBucket
        if allowed then .ok (.handed socket d source msg) else .ok (.skipped d)
    | .err =>
        let (_, d) := d.tokenBucket
        .ok (.skipped d)

/-- The checks of `dht_periodic` on a datagram from a socket. -/
def checkDatagram (d : State) (socket : Family) (addr : Nat) (source : Sockaddr) (buf : Bytes) :
    Except Fault Intake :=
  if isMartian source then .ok (.skipped d)
  else if ∃ slot, d.blacklist slot = some source then .ok (.skipped d)
  else if 1536 ≤ buf.length then .ok (.skipped d)
  else do
    match ← dhtMessageParse addr buf with
    | none => .ok (.skipped d)
    | some msg => d.checkMessage socket source msg

/-- The handler for a message that is a response or a query. -/
def handle (d : State) (source : Sockaddr) (msg : DhtMessage) :
    Except Fault (State × List Event) :=
  let state : PeriodicState := { msg, source, caller := { callback := none, closure := 0 } }
  if msg.type = .response then d.handleResponse state else d.handleQuery state

/-- The outcome of a call that gets to `dontread`. -/
def finish (d : State) (caller : Caller) (events : List Event) : Outcome :=
  let (d, events') := d.due caller
  { rc := 1, tosleep := some d.tosleep, dht := d, events := events ++ events' }

end State

/-- `dht_periodic` up to its handlers. -/
def intake (d : State) (input : Input) : Except Fault Intake :=
  let d : State := { d with now := input.now }
  match receive d input with
  | .error rc => .ok (.returned rc d)
  | .ok none => .ok (.skipped d)
  | .ok (some (source, buf)) => d.checkDatagram (receivedOn d input) input.addr source buf

/-- The rest of `dht_periodic`. -/
def Intake.resume (caller : Caller) : Intake → Except Fault Outcome
  | returned rc d => .ok { rc, tosleep := none, dht := d, events := [] }
  | skipped d => .ok (d.finish caller [])
  | handed _ d source msg => do
      let (d, events) ← d.handle source msg
      .ok (d.finish caller events)

section Resume

variable {d : State} {caller : Caller}

end Resume

/-! ## What should be handled -/

/-- The reception on the socket for a family. -/
def Input.reception (input : Input) : Family → Reception
  | .inet => input.inet
  | .inet6 => input.inet6

/-- The socket had nothing to receive. -/
def Reception.Nothing (reception : Reception) : Prop :=
  reception.stored = none ∧ reception.again = true

/-- A datagram waits on an open socket, and none of the checks is against handling
the message that it is parsed to. -/
structure Admissible (d : State) (input : Input) (socket : Family) (source : Sockaddr)
    (msg : DhtMessage) : Prop where
  opened : 0 ≤ d.socketOf socket
  waiting : ∃ buf, (input.reception socket).stored = some (source, buf) ∧ buf.length < 1536 ∧
    dhtMessageParse input.addr buf = .ok (some msg)
  notMartian : isMartian source = false
  notBlacklisted : ∀ slot, d.blacklist slot ≠ some source
  type : msg.type = .response ∨ msg.type = .query
  notOwn : ∃ id, readId msg.argId = .ok id ∧ id ≠ d.self.myid
  granted : msg.type = .query → (State.tokenBucket { d with now := input.now }).1 = true

/-- It is the turn of a socket: of the IPv4 socket first, and of the IPv6 socket when
that is absent or had nothing to receive. -/
def Turn (d : State) (input : Input) : Family → Prop
  | .inet => True
  | .inet6 => d.dhtSocket < 0 ∨ input.inet.Nothing

/-- A call hands the message of a datagram from a socket to a handler. -/
def Hands (d : State) (input : Input) (socket : Family) (source : Sockaddr)
    (msg : DhtMessage) : Prop :=
  ∃ d', intake d input = .ok (.handed socket d' source msg)

/-- Nothing changed but the clock and the rate limiter. -/
def Untouched (d d' : State) : Prop :=
  d' = { d with
    now := d'.now
    tokenBucketTime := d'.tokenBucketTime
    tokenBucketTokens := d'.tokenBucketTokens }

/-- A call handles the admissible datagram of the socket whose turn it is.  When there
is none, it leaves everything as it is up to doing what is due. -/
structure DispatchesExactly (d : State) (input : Input) (caller : Caller) : Prop where
  handed : ∀ socket source msg,
    Hands d input socket source msg ↔
      Turn d input socket ∧ Admissible d input socket source msg
  otherwise : (∀ socket source msg,
      ¬(Turn d input socket ∧ Admissible d input socket source msg)) →
    ∀ outcome, dhtPeriodic d input caller = .ok outcome →
      ∃ d', Untouched d d' ∧ (outcome.dht = d' ∨ outcome.dht = (d'.due caller).1)

/-! ## What is handled -/

/-- The datagram that waits on a socket reaches the checks. -/
def Reaches (d : State) (input : Input) : Family → Prop
  | .inet => 0 ≤ input.rc ∨ input.inet.again = true ∧ d.dhtSocket6 < 0
  | .inet6 => input.rc < 0 ∧ input.inet6.again = true ∧
      (d.dhtSocket < 0 ∨ input.inet.again = true)

section Hands

variable {d d' : State} {input : Input} {socket socket' : Family} {source source' : Sockaddr}
  {msg msg' : DhtMessage} {buf : Bytes}

/-- The IPv6 socket is tried after the IPv4 socket, whatever that received. -/
theorem receive_second (second : 0 ≤ d.dhtSocket6 ∧ input.rc < 0) :
    receive d input = .ok (some (source, buf)) ↔
      input.inet6.again = true ∧ (d.dhtSocket < 0 ∨ input.inet.again = true) ∧
        input.inet6.stored = some (source, buf) := by
  unfold receive
  by_cases first : 0 ≤ d.dhtSocket ∧ input.rc < 0 ∧ input.inet.again = false
  · rw [if_pos first]
    rcases first with ⟨opened, _, again⟩
    simp [again, not_lt.mpr opened]
  · rw [if_neg first, if_pos second]
    have quiet : d.dhtSocket < 0 ∨ input.inet.again = true := by
      by_cases opened : 0 ≤ d.dhtSocket
      · right
        by_contra failed
        exact first ⟨opened, second.2, Bool.eq_false_of_not_eq_true failed⟩
      · exact .inl (not_le.mp opened)
    cases again : input.inet6.again <;> simp [quiet]

/-- The IPv6 socket is not tried. -/
theorem receive_first (first : ¬(0 ≤ d.dhtSocket6 ∧ input.rc < 0)) :
    receive d input = .ok (some (source, buf)) ↔
      0 ≤ d.dhtSocket ∧ (0 ≤ input.rc ∨ input.inet.again = true) ∧
        input.inet.stored = some (source, buf) := by
  unfold receive
  rw [if_neg first]
  by_cases opened : 0 ≤ d.dhtSocket
  · by_cases negative : input.rc < 0
    · cases again : input.inet.again <;> simp [opened, negative]
    · simp [opened, negative, not_lt.mp negative]
  · simp [opened]

/-- The datagram that is looked at waited on an open socket and reached the checks. -/
theorem received_iff :
    receive d input = .ok (some (source, buf)) ∧ receivedOn d input = socket ↔
      0 ≤ d.socketOf socket ∧ Reaches d input socket ∧
        (input.reception socket).stored = some (source, buf) := by
  unfold receivedOn
  by_cases second : 0 ≤ d.dhtSocket6 ∧ input.rc < 0
  · rw [receive_second second, if_pos second]
    cases socket with
    | inet =>
        have passed : ¬(0 ≤ input.rc ∨ input.inet.again = true ∧ d.dhtSocket6 < 0) := by
          rintro (assigned | ⟨_, absent⟩)
          · exact not_lt.mpr assigned second.2
          · exact not_lt.mpr second.1 absent
        simp [Reaches, passed]
    | inet6 => simp [Reaches, Input.reception, Net.socketOf, second, and_assoc]
  · rw [receive_first second, if_neg second]
    cases socket with
    | inet =>
        have same : (0 ≤ input.rc ∨ input.inet.again = true) ↔
            0 ≤ input.rc ∨ input.inet.again = true ∧ d.dhtSocket6 < 0 := by
          by_cases assigned : 0 ≤ input.rc
          · simp [assigned]
          · have absent : d.dhtSocket6 < 0 := by
              by_contra opened
              exact second ⟨not_lt.mp opened, not_le.mp assigned⟩
            simp [absent]
        simp [Reaches, Input.reception, Net.socketOf, same]
    | inet6 =>
        simp only [reduceCtorEq, and_false, Reaches, Net.socketOf, false_iff]
        rintro ⟨opened, ⟨negative, _⟩, _⟩
        exact second ⟨opened, negative⟩

/-- A message is handed to its handler when it is not our own, and a query has a token. -/
theorem checkMessage_handed_iff :
    d.checkMessage socket source msg = .ok (.handed socket' d' source' msg') ↔
      socket' = socket ∧ source' = source ∧ msg' = msg ∧
        (∃ id, readId msg.argId = .ok id ∧ id ≠ d.self.myid) ∧
        (msg.type = .response ∧ d' = d ∨
          msg.type = .query ∧ d.tokenBucket.1 = true ∧ d' = d.tokenBucket.2) := by
  unfold State.checkMessage
  cases readId msg.argId with
  | error fault => simp
  | ok argId =>
      by_cases own : argId = d.self.myid
      · have equal : idCmp argId d.self.myid = 0 := (Field.eq_iff_memcmp _ _).mp own
        simp only [ok_bind, if_pos equal]
        simp [own]
      · have differ : idCmp argId d.self.myid ≠ 0 := mt (Field.eq_iff_memcmp _ _).mpr own
        simp only [ok_bind, if_neg differ]
        cases type : msg.type with
        | response =>
            constructor
            · rintro ⟨⟩
              exact ⟨rfl, rfl, rfl, ⟨argId, rfl, own⟩, .inl ⟨rfl, rfl⟩⟩
            · rintro ⟨rfl, rfl, rfl, _, ⟨_, rfl⟩ | ⟨⟨⟩, _⟩⟩
              rfl
        | query =>
            cases allowed : d.tokenBucket.1 with
            | true =>
                constructor
                · rintro ⟨⟩
                  exact ⟨rfl, rfl, rfl, ⟨argId, rfl, own⟩, .inr ⟨rfl, rfl, rfl⟩⟩
                · rintro ⟨rfl, rfl, rfl, _, ⟨⟨⟩, _⟩ | ⟨_, _, rfl⟩⟩
                  rfl
            | false => simp
        | err => simp

/-- A datagram gets to the checks of its message when its source and length are right and
it can be parsed. -/
theorem checkDatagram_handed_iff {addr : Nat} :
    d.checkDatagram socket addr source buf = .ok (.handed socket' d' source' msg') ↔
      isMartian source = false ∧ (∀ slot, d.blacklist slot ≠ some source) ∧ buf.length < 1536 ∧
        ∃ msg, dhtMessageParse addr buf = .ok (some msg) ∧
          d.checkMessage socket source msg = .ok (.handed socket' d' source' msg') := by
  unfold State.checkDatagram
  by_cases martian : isMartian source = true
  · simp [martian]
  by_cases listed : ∃ slot, d.blacklist slot = some source
  · simp [martian, listed]
  by_cases long : 1536 ≤ buf.length
  · simp [martian, listed, long]
  rw [if_neg martian, if_neg listed, if_neg long]
  have unlisted : ∀ slot, d.blacklist slot ≠ some source := fun slot found => listed ⟨slot, found⟩
  simp only [Bool.eq_false_of_not_eq_true martian, unlisted, not_le.mp long, true_and, implies_true,
    ne_eq, not_false_eq_true]
  cases dhtMessageParse addr buf with
  | error fault => simp
  | ok msg? => cases msg? <;> simp

/-- What is handed to a handler is what is admissible and reaches the checks. -/
theorem hands_iff :
    Hands d input socket source msg ↔
      Reaches d input socket ∧ Admissible d input socket source msg := by
  constructor
  · rintro ⟨d', handed⟩
    unfold intake at handed
    dsimp only at handed
    split at handed
    · cases handed
    · cases handed
    · rename_i source' buf received
      rcases checkDatagram_handed_iff.mp handed with
        ⟨notMartian, notBlacklisted, short, msg', parsed, rest⟩
      rcases checkMessage_handed_iff.mp rest with ⟨on, rfl, rfl, notOwn, type⟩
      rcases received_iff.mp ⟨received, on.symm⟩ with ⟨opened, reaches, stored⟩
      refine ⟨reaches, opened, ⟨buf, stored, short, parsed⟩, notMartian, notBlacklisted, ?_,
        notOwn, ?_⟩
      · rcases type with ⟨response, _⟩ | ⟨query, _⟩
        · exact .inl response
        · exact .inr query
      · intro query
        rcases type with ⟨response, _⟩ | ⟨_, allowed, _⟩
        · cases response.symm.trans query
        · exact allowed
  · rintro ⟨reaches, admissible⟩
    rcases admissible.waiting with ⟨buf, stored, short, parsed⟩
    rcases (received_iff (d := { d with now := input.now })).mpr
      ⟨admissible.opened, reaches, stored⟩ with ⟨received, on⟩
    have admitted : ∃ d', State.checkMessage { d with now := input.now }
        (receivedOn { d with now := input.now } input) source msg =
          .ok (.handed socket d' source msg) := by
      rcases admissible.type with response | query
      · exact ⟨_, checkMessage_handed_iff.mpr ⟨on.symm, rfl, rfl, admissible.notOwn,
          .inl ⟨response, rfl⟩⟩⟩
      · exact ⟨_, checkMessage_handed_iff.mpr ⟨on.symm, rfl, rfl, admissible.notOwn,
          .inr ⟨query, admissible.granted query, rfl⟩⟩⟩
    rcases admitted with ⟨d', admitted⟩
    refine ⟨d', ?_⟩
    unfold intake
    dsimp only
    rw [received]
    exact checkDatagram_handed_iff.mpr
      ⟨admissible.notMartian, admissible.notBlacklisted, short, msg, parsed, admitted⟩

end Hands

/-! ## What is left alone -/

/-- The state when a call goes on. -/
def Intake.dht : Intake → State
  | returned _ d => d
  | skipped d => d
  | handed _ d _ _ => d

section Exactly

variable {d : State} {input : Input} {caller : Caller}

/-- Neither `rc` nor `errno` keeps back the admissible datagram of the socket whose turn
it is, or lets that of the other socket take its place. -/
structure Clear (d : State) (input : Input) : Prop where
  inet : ∀ source msg, Admissible d input .inet source msg →
    0 ≤ input.rc ∨ input.inet.again = true ∧ d.dhtSocket6 < 0
  inet6 : ∀ source msg, Admissible d input .inet6 source msg →
    d.dhtSocket < 0 ∨ input.inet.Nothing → input.rc < 0 ∧ input.inet6.again = true
  displaced : ∀ source msg, Admissible d input .inet6 source msg →
    0 ≤ d.dhtSocket → input.inet.stored ≠ none →
      ¬(input.rc < 0 ∧ input.inet.again = true ∧ input.inet6.again = true)

/-- When what should be handled is, `rc` and `errno` are right for it. -/
theorem DispatchesExactly.clear (exactly : DispatchesExactly d input caller) : Clear d input where
  inet source msg admissible := by
    have hands := (exactly.handed .inet source msg).mpr ⟨trivial, admissible⟩
    exact (hands_iff.mp hands).1
  inet6 source msg admissible turn := by
    have hands := (exactly.handed .inet6 source msg).mpr ⟨turn, admissible⟩
    rcases (hands_iff.mp hands).1 with ⟨negative, again6, _⟩
    exact ⟨negative, again6⟩
  displaced source msg admissible opened stored := by
    rintro ⟨negative, again, again6⟩
    have hands : Hands d input .inet6 source msg :=
      hands_iff.mpr ⟨⟨negative, again6, .inr again⟩, admissible⟩
    rcases ((exactly.handed .inet6 source msg).mp hands).1 with absent | ⟨nothing, _⟩
    · exact not_lt.mpr opened absent
    · exact stored nothing

end Exactly

/-! ## A reply to a node without IPv4 -/

end Dnsp2p.Dht
