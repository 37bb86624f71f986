import Dnsp2p.Dht.Dispatch
import Dnsp2p.Dht.Frame
import Dnsp2p.Library.Run

/-!
# Rate limiting

How many messages pass `token_bucket` over a run of `dht_periodic`.  A call is
taken by the message that reaches the check for our own id, whatever the parser
let through; a meter counts the messages that were admitted and remembers the
largest reading of the clock.
-/

namespace Dnsp2p.Dht

open Dnsp2p.Benc Dnsp2p.Message

/-! ## Runs -/

/-- What a call of `dht_periodic` does: it returns early, or handles at most one
message and does what is due. -/
inductive Call where
  | early
  | message (state : PeriodicState)
  | idle

/-- A call, the clock during it, and the callback that is handed to it. -/
structure Arrival where
  now : Int
  call : Call
  caller : Caller

/-- The DHT, the number of messages that `token_bucket` admitted, and the largest
reading of the clock. -/
structure Meter where
  dht : State
  admitted : Nat
  latest : Int

namespace State

/-- The message reaches `token_bucket`: it is no response, and not from ourselves. -/
def limits (d : State) (state : PeriodicState) : Bool :=
  state.msg.type ≠ .response && match readId state.msg.argId with
    | .ok id => idCmp id d.self.myid ≠ 0
    | .error _ => false

/-- The number of messages that `token_bucket` admits while one is dispatched. -/
def admits (d : State) (state : PeriodicState) : Nat :=
  if d.limits state && d.tokenBucket.1 then 1 else 0

end State

namespace Meter

/-- The DHT at the time of a call. -/
def during (meter : Meter) (now : Int) : State :=
  { meter.dht with now }

/-- One call of `dht_periodic`. -/
def step (meter : Meter) (arrival : Arrival) : Except Fault Meter :=
  let d := meter.during arrival.now
  let latest := max meter.latest arrival.now
  match arrival.call with
  | .early => .ok { meter with dht := d, latest }
  | .idle => .ok { meter with dht := (d.due arrival.caller).1, latest }
  | .message state => do
      let (d', _) ← d.dispatch state
      .ok { dht := (d'.due arrival.caller).1
            admitted := meter.admitted + d.admits state
            latest }

/-- A node that was just started. -/
def start (s s6 : Int) (id : Field 20) (v : Option (Field 4)) (now : Int) (random : Nat → Nat) :
    Meter :=
  { dht := State.init s s6 id v now random, admitted := 0, latest := now }

/-- The clock does not stand before the last refill when the bucket is refilled. -/
def Steady (meter : Meter) (arrival : Arrival) : Prop :=
  ∀ state, arrival.call = .message state →
    (meter.during arrival.now).limits state = true →
      meter.dht.tokenBucketTokens = 0 → meter.dht.tokenBucketTime ≤ arrival.now

end Meter

/-! ## Calls of `dht_periodic` -/

/-- A call that handles no message. -/
theorem Meter.step_idle {meter : Meter} {now : Int} {caller : Caller} {d : State}
    (during : meter.during now = d) :
    meter.step { now, call := .idle, caller } =
      .ok { meter with dht := (d.due caller).1, latest := max meter.latest now } := by
  subst during
  rfl

/-- A call that handles a message. -/
theorem Meter.step_message {meter : Meter} {now : Int} {caller : Caller} {state : PeriodicState}
    {d' : State} {events : List Event}
    (dispatched : (meter.during now).dispatch state = .ok (d', events)) :
    meter.step { now, call := .message state, caller } =
      .ok {
        dht := (d'.due caller).1
        admitted := meter.admitted + (meter.during now).admits state
        latest := max meter.latest now } := by
  unfold Meter.step
  simp only [dispatched, ok_bind]

/-- Every call of `dht_periodic` that returns is a step of a meter, and its message is
one that the parser let through. -/
theorem dhtPeriodic_arrival {d : State} {input : Input} {caller : Caller} {outcome : Outcome}
    (returned : dhtPeriodic d input caller = .ok outcome) :
    ∃ call, (∀ state, call = .message state →
        ∃ buf, dhtMessageParse input.addr buf = .ok (some state.msg)) ∧
      ∀ admitted latest, ∃ meter,
        Meter.step ⟨d, admitted, latest⟩ { now := input.now, call, caller } = .ok meter ∧
          meter.dht = outcome.dht := by
  have course := dhtPeriodic_course returned
  generalize outcome.dht = result at course ⊢
  have nothing {d' : State} (same : { d with now := input.now } = d') :
      ∃ call, (∀ state, call = .message state →
          ∃ buf, dhtMessageParse input.addr buf = .ok (some state.msg)) ∧
        ∀ admitted latest, ∃ meter,
          Meter.step ⟨d, admitted, latest⟩ { now := input.now, call, caller } = .ok meter ∧
            meter.dht = (d'.due caller).1 := by
    refine ⟨.idle, ?_, fun _ _ => ⟨_, Meter.step_idle same, rfl⟩⟩
    rintro _ ⟨⟩
  cases course with
  | early available failed =>
      refine ⟨.early, ?_, fun _ _ => ⟨_, rfl, rfl⟩⟩
      rintro _ ⟨⟩
  | idle silent => exact nothing rfl
  | @datagram source buf d' events received handled =>
      unfold State.handleDatagram at handled
      split at handled
      · exact nothing (congrArg Prod.fst (Except.ok.inj handled))
      split at handled
      · exact nothing (congrArg Prod.fst (Except.ok.inj handled))
      split at handled
      · exact nothing (congrArg Prod.fst (Except.ok.inj handled))
      rcases bind_eq_ok_iff.mp handled with ⟨msg?, parsed, dispatched⟩
      cases msg? with
      | none => exact nothing (congrArg Prod.fst (Except.ok.inj dispatched))
      | some msg =>
          refine ⟨.message { msg, source, caller := { callback := none, closure := 0 } }, ?_, ?_⟩
          · rintro _ ⟨⟩
            exact ⟨buf, parsed⟩
          · intro admitted latest
            exact ⟨_, Meter.step_message dispatched, rfl⟩

/-! ## The bucket over a run -/

/-- What is due does not touch the bucket. -/
theorem State.due_tokens (d : State) (caller : Caller) :
    (d.due caller).1.tokenBucketTokens = d.tokenBucketTokens ∧
      (d.due caller).1.tokenBucketTime = d.tokenBucketTime := by
  have maintained (d : State) : d.maintain.tokenBucketTokens = d.tokenBucketTokens ∧
      d.maintain.tokenBucketTime = d.tokenBucketTime := by
    unfold State.maintain
    split
    · exact ⟨rfl, rfl⟩
    · exact ⟨rfl, rfl⟩
  have ran (d : State) : (d.runSearches caller).1.tokenBucketTokens = d.tokenBucketTokens ∧
      (d.runSearches caller).1.tokenBucketTime = d.tokenBucketTime := by
    unfold State.runSearches
    split
    · exact ⟨rfl, rfl⟩
    · exact ⟨rfl, rfl⟩
  unfold State.due
  dsimp only
  rw [(maintained _).1, (maintained _).2, (ran _).1, (ran _).2]
  constructor
  · split <;> split <;> rfl
  · split <;> split <;> rfl

/-- A handler does not touch the bucket. -/
theorem Frame.tokens {d d' : State} (same : Frame d d') :
    d'.tokenBucketTokens = d.tokenBucketTokens ∧ d'.tokenBucketTime = d.tokenBucketTime := by
  constructor
  · exact (congrArg (fun e : State => e.tokenBucketTokens) same.rest :)
  · exact (congrArg (fun e : State => e.tokenBucketTime) same.rest :)

/-- Dispatching a message passes the bucket to `token_bucket` when it is limited, and
leaves it alone otherwise. -/
theorem State.dispatch_tokens {d : State} (state : PeriodicState) :
    Returns (d.dispatch state) fun returned =>
      let d' := if d.limits state then d.tokenBucket.2 else d
      returned.1.tokenBucketTokens = d'.tokenBucketTokens ∧
        returned.1.tokenBucketTime = d'.tokenBucketTime := by
  intro returned result
  rcases bind_eq_ok_iff.mp result with ⟨argId, read, rest⟩
  dsimp only at rest
  split at rest
  · rename_i own
    cases rest
    simp [State.limits, read, own]
  · rename_i other
    cases kind : state.msg.type with
    | response =>
        rw [kind] at rest
        simpa [State.limits, kind] using (Frame.handleResponse state returned rest).tokens
    | query =>
        rw [kind] at rest
        have limited : d.limits state = true := by simp [State.limits, kind, read, other]
        rw [limited]
        dsimp only at rest
        split at rest
        · unfold State.handleQuery at rest
          split at rest
          · cases rest
          · cases rest
            exact ⟨rfl, rfl⟩
        · cases rest
          exact ⟨rfl, rfl⟩
    | err =>
        rw [kind] at rest
        have limited : d.limits state = true := by simp [State.limits, kind, read, other]
        rw [limited]
        cases rest
        exact ⟨rfl, rfl⟩

/-- What one check does to the bucket: a bucket that is not empty loses a token; an
empty one is refilled by the time since the last refill, and then loses a token
unless it is still empty. -/
theorem State.tokenBucket_cases (d : State) :
    d.tokenBucketTokens ≠ 0 ∧ d.tokenBucket.1 = true ∧
        d.tokenBucket.2.tokenBucketTokens = d.tokenBucketTokens - 1 ∧
        d.tokenBucket.2.tokenBucketTime = d.tokenBucketTime ∨
      d.tokenBucketTokens = 0 ∧ d.tokenBucket.2.tokenBucketTime = d.now ∧
        ∃ refill, refill = Int.bmod (min maxTokenBucketTokens (4 * (d.now - d.tokenBucketTime)))
            (2 ^ 32) ∧
          (refill = 0 ∧ d.tokenBucket.1 = false ∧ d.tokenBucket.2.tokenBucketTokens = 0 ∨
            refill ≠ 0 ∧ d.tokenBucket.1 = true ∧
              d.tokenBucket.2.tokenBucketTokens = refill - 1) := by
  unfold State.tokenBucket
  by_cases empty : d.tokenBucketTokens = 0
  · right
    simp only [if_pos empty]
    split
    · rename_i still
      exact ⟨empty, rfl, _, rfl, .inl ⟨still, rfl, still⟩⟩
    · rename_i filled
      exact ⟨empty, rfl, _, rfl, .inr ⟨filled, rfl, rfl⟩⟩
  · left
    simp only [if_neg empty]
    exact ⟨empty, trivial, trivial, trivial⟩

/-- The bucket accounts for the messages that were admitted: with the tokens that are
left they are no more than a full bucket and four for each second up to the last
refill, which is not in the future. -/
structure Meter.Accounted (start : Int) (meter : Meter) : Prop where
  nonneg : 0 ≤ meter.dht.tokenBucketTokens
  full : meter.dht.tokenBucketTokens ≤ maxTokenBucketTokens
  past : meter.dht.tokenBucketTime ≤ meter.latest
  paid : meter.admitted + meter.dht.tokenBucketTokens ≤
    maxTokenBucketTokens + 4 * (meter.dht.tokenBucketTime - start)

namespace Meter.Accounted

variable {start : Int} {meter : Meter}

/-- Only the bucket and the two counts matter, and a later reading does no harm. -/
theorem later (accounted : meter.Accounted start) {next : Meter}
    (tokens : next.dht.tokenBucketTokens = meter.dht.tokenBucketTokens)
    (time : next.dht.tokenBucketTime = meter.dht.tokenBucketTime)
    (admitted : next.admitted = meter.admitted) (latest : meter.latest ≤ next.latest) :
    next.Accounted start := by
  rcases accounted with ⟨nonneg, full, past, paid⟩
  rw [← tokens] at nonneg full paid
  rw [← time] at past paid
  rw [← admitted] at paid
  exact ⟨nonneg, full, past.trans latest, paid⟩

/-- A check of the rate on a steady clock. -/
theorem check (accounted : meter.Accounted start) {now : Int}
    (steady : meter.dht.tokenBucketTokens = 0 → meter.dht.tokenBucketTime ≤ now) :
    Meter.Accounted start
      { dht := (meter.during now).tokenBucket.2
        admitted := meter.admitted + if (meter.during now).tokenBucket.1 then 1 else 0
        latest := max meter.latest now } := by
  rcases accounted with ⟨nonneg, full, past, paid⟩
  have before : (meter.during now).tokenBucketTokens = meter.dht.tokenBucketTokens ∧
      (meter.during now).tokenBucketTime = meter.dht.tokenBucketTime ∧
      (meter.during now).now = now := ⟨rfl, rfl, rfl⟩
  rcases before with ⟨tokens, time, current⟩
  rcases (meter.during now).tokenBucket_cases with
    ⟨some, passed, left, stays⟩ | ⟨none, moved, refill, amount, rest⟩
  · rw [tokens] at some left
    rw [time] at stays
    constructor <;> simp only [left, stays, passed, if_true, Nat.cast_add, Nat.cast_one] <;> omega
  · rw [tokens] at none
    rw [time, current] at amount
    rw [current] at moved
    -- the clock did not step back, so that the amount is not negative
    have steady := steady none
    have size : maxTokenBucketTokens = 40 := rfl
    have positive : 0 ≤ min maxTokenBucketTokens (4 * (now - meter.dht.tokenBucketTime)) := by
      apply le_min <;> omega
    have capped := min_le_left maxTokenBucketTokens (4 * (now - meter.dht.tokenBucketTime))
    have earned := min_le_right maxTokenBucketTokens (4 * (now - meter.dht.tokenBucketTime))
    generalize min maxTokenBucketTokens (4 * (now - meter.dht.tokenBucketTime)) = earnings at *
    rw [Int.bmod_eq_of_le (by omega) (by omega)] at amount
    subst amount
    rcases rest with ⟨dry, refused, left⟩ | ⟨filled, passed, left⟩
    · constructor <;> simp [left, moved, refused]; omega
    · constructor <;>
        simp only [left, moved, passed, if_true, Nat.cast_add, Nat.cast_one] <;> omega

/-- A call on a steady clock. -/
theorem step (accounted : meter.Accounted start) {arrival : Arrival} {next : Meter}
    (steady : meter.Steady arrival) (stepped : meter.step arrival = .ok next) :
    next.Accounted start := by
  rcases arrival with ⟨now, call, caller⟩
  have latest : meter.latest ≤ max meter.latest now := le_max_left _ _
  cases call with
  | early =>
      cases stepped
      exact accounted.later rfl rfl rfl latest
  | idle =>
      rw [Meter.step_idle rfl] at stepped
      cases stepped
      rcases (meter.during now).due_tokens caller with ⟨tokens, time⟩
      exact accounted.later tokens time rfl latest
  | message state =>
      rcases bind_eq_ok_iff.mp stepped with ⟨⟨d', events⟩, dispatched, rest⟩
      cases rest
      rcases State.dispatch_tokens state _ dispatched with ⟨tokens, time⟩
      rcases d'.due_tokens caller with ⟨tokens', time'⟩
      by_cases limited : (meter.during now).limits state = true
      · have checked := accounted.check (steady state rfl limited)
        simp only [limited, if_true] at tokens time
        apply checked.later (tokens'.trans tokens) (time'.trans time)
        · simp [State.admits, limited]
        · exact le_rfl
      · simp only [limited] at tokens time
        apply accounted.later (tokens'.trans tokens) (time'.trans time)
        · simp [State.admits, limited]
        · exact latest

end Meter.Accounted

/-! ## The rate -/

section Rate

variable (s s6 : Int) (id : Field 20) (v : Option (Field 4)) (now : Int) (random : Nat → Nat)

end Rate

end Dnsp2p.Dht
