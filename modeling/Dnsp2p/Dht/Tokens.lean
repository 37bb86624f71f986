import Dnsp2p.Dht.Announced
import Dnsp2p.Dht.SearchNumbers

/-!
# Announcement tokens

A token is a hash of the address it was given to and a secret that is drawn anew
from time to time.  The last two secrets are accepted, and a secret stays for at
least 15 minutes, so that a token can be used for that long, whatever else
happens in the meantime.
-/

namespace Dnsp2p.Dht

open Dnsp2p.Benc Dnsp2p.Message

/-- `TOKEN_SIZE`. -/
def tokenSize : Nat := 8

/-- The state of the DHT with `secret` and `oldsecret`. -/
structure TokenKeeper where
  dht : State
  secret : Field 8
  oldsecret : Field 8

/-- `dht_hash`, on MD5. -/
def dhtHash (md5 : Bytes → Field 16) (hashSize : Nat) (v1 v2 v3 : Bytes) : Bytes :=
  (md5 (v1 ++ v2 ++ v3)).bytes.take (if 16 < hashSize then 16 else hashSize)

/-- `htons(sin->sin_port)` as it lies in the memory of a little-endian machine: the two
bytes of the port are exchanged. -/
def Sockaddr.tokenPort : Sockaddr → Bytes
  | inet sin => sin.port.bytes.reverse
  | inet6 sin6 => sin6.port.bytes.reverse

namespace TokenKeeper

variable (md5 : Bytes → Field 16)

/-- `make_token`. -/
def makeToken (keeper : TokenKeeper) (sa : Sockaddr) (old : Bool) : Bytes :=
  dhtHash md5 tokenSize (if old then keeper.oldsecret else keeper.secret).bytes sa.ip sa.tokenPort

/-- `token_match`. -/
def tokenMatch (keeper : TokenKeeper) (token : Bytes) (sa : Sockaddr) : Bool :=
  if token.length ≠ tokenSize then false
  else if keeper.makeToken md5 sa false = token then true
  else if keeper.makeToken md5 sa true = token then true
  else false

/-- A call, and what `secret` holds after `dht_random_bytes` when the secrets are rotated
(its result is ignored).  `dht_periodic` comes to that unless it returns early, and then
it stores no time to sleep. -/
def step (keeper : TokenKeeper) : Action × Field 8 → Except Fault TokenKeeper
  | (.search id port af caller, _) =>
      .ok { keeper with dht := (keeper.dht.dhtSearch id port af caller).2.1 }
  | (.periodic input caller, fresh) => do
      let outcome ← dhtPeriodic keeper.dht input caller
      .ok (if outcome.tosleep.isSome ∧ keeper.dht.rotateSecretsTime ≤ input.now then
          { dht := outcome.dht, secret := fresh, oldsecret := keeper.secret }
        else { keeper with dht := outcome.dht })

/-- A token is accepted exactly when it is that of one of the two secrets. -/
theorem tokenMatch_iff (keeper : TokenKeeper) (token : Bytes) (sa : Sockaddr) :
    keeper.tokenMatch md5 token sa = true ↔
      keeper.makeToken md5 sa false = token ∨ keeper.makeToken md5 sa true = token := by
  have length : ∀ old, (keeper.makeToken md5 sa old).length = tokenSize := by
    intro old
    rw [makeToken, dhtHash, List.length_take, (md5 _).length_eq]
    rfl
  unfold tokenMatch
  constructor
  · intro accepted
    split at accepted
    · cases accepted
    · split at accepted
      · next same => exact .inl same
      · split at accepted
        · next same => exact .inr same
        · cases accepted
  · rintro (rfl | rfl)
    · rw [if_neg (not_not.mpr (length false)), if_pos rfl]
    · rw [if_neg (not_not.mpr (length true)), if_pos rfl]
      split <;> rfl

end TokenKeeper

/-! ## When the secrets are rotated -/

theorem State.due_rotateSecretsTime (d : State) (caller : Caller) :
    (d.due caller).1.rotateSecretsTime =
      if d.rotateSecretsTime ≤ d.now then d.rotateSecrets.rotateSecretsTime
      else d.rotateSecretsTime := by
  have maintained (d : State) : d.maintain.rotateSecretsTime = d.rotateSecretsTime := by
    unfold State.maintain
    split <;> rfl
  have searched (d : State) :
      (d.runSearches caller).1.rotateSecretsTime = d.rotateSecretsTime := by
    unfold State.runSearches
    split <;> rfl
  unfold State.due
  dsimp only
  rw [maintained, searched]
  split <;> split <;> rfl

/-- A datagram touches neither the clock nor the time of the next rotation. -/
theorem State.handleDatagram_rotateSecretsTime (d : State) (addr : Nat) (source : Sockaddr)
    (buf : Bytes) :
    Returns (d.handleDatagram addr source buf) fun returned =>
      returned.1.rotateSecretsTime = d.rotateSecretsTime ∧ returned.1.now = d.now := by
  refine .ite (.ok ⟨rfl, rfl⟩) (.ite (.ok ⟨rfl, rfl⟩) (.ite (.ok ⟨rfl, rfl⟩)
    (.bind_any fun msg? => ?_)))
  split
  · exact .ok ⟨rfl, rfl⟩
  · intro returned result
    rcases State.dispatch_frame _ returned result with frame | ⟨_, limited⟩
    · have time := congrArg State.rotateSecretsTime frame.rest
      exact ⟨time, frame.times.now⟩
    · rw [limited]
      unfold State.tokenBucket
      dsimp only
      split
      · split <;> exact ⟨rfl, rfl⟩
      · exact ⟨rfl, rfl⟩

/-- What a call makes of the time of the next rotation. -/
theorem dhtPeriodic_rotateSecretsTime {d : State} {input : Input} {caller : Caller}
    {outcome : Outcome} (returned : dhtPeriodic d input caller = .ok outcome) :
    if outcome.tosleep.isSome ∧ d.rotateSecretsTime ≤ input.now then
      input.now + 900 ≤ outcome.dht.rotateSecretsTime
    else outcome.dht.rotateSecretsTime = d.rotateSecretsTime := by
  have finished (d' : State) (time : d'.rotateSecretsTime = d.rotateSecretsTime)
      (now : d'.now = input.now) :
      if d.rotateSecretsTime ≤ input.now then
        input.now + 900 ≤ (d'.due caller).1.rotateSecretsTime
      else (d'.due caller).1.rotateSecretsTime = d.rotateSecretsTime := by
    rw [State.due_rotateSecretsTime, time, now]
    split
    · next late =>
      simp only [State.rotateSecrets, now]
      omega
    · rfl
  unfold dhtPeriodic at returned
  dsimp only at returned
  split at returned
  · split at returned
    · cases returned
      rw [if_neg]
      rintro ⟨slept, _⟩
      cases slept
    · cases returned
      simpa using finished { d with now := input.now } rfl rfl
    · next source buf _ =>
      rcases bind_eq_ok_iff.mp returned with ⟨⟨d', events⟩, handled, rest⟩
      rcases State.handleDatagram_rotateSecretsTime _ _ _ _ _ handled with ⟨time, now⟩
      cases rest
      simpa using finished d' time now
  · cases returned
    simpa using finished { d with now := input.now } rfl rfl

theorem State.dhtSearch_rotateSecretsTime (d : State) (id : Field 20) (port : Int) (af : Family)
    (caller : Caller) :
    (d.dhtSearch id port af caller).2.1.rotateSecretsTime = d.rotateSecretsTime := by
  unfold State.dhtSearch
  split
  · rfl
  · split
    · rfl
    · split <;> rfl

/-! ## How long a token lasts -/

/-- The clock of a call of `dht_periodic` is within these 15 minutes. -/
def Action.Within (start : Int) : Action → Prop
  | .search .. => True
  | .periodic input _ => start ≤ input.now ∧ input.now < start + 900

/-- A secret is in use, or it is the old one and no rotation is due before the end of
these 15 minutes. -/
def TokenKeeper.Remembers (start : Int) (secret : Field 8) (keeper : TokenKeeper) : Prop :=
  keeper.secret = secret ∨
    keeper.oldsecret = secret ∧ start + 900 ≤ keeper.dht.rotateSecretsTime

theorem TokenKeeper.Remembers.step {start : Int} {secret : Field 8} {keeper next : TokenKeeper}
    (remembers : keeper.Remembers start secret) {action : Action × Field 8}
    (within : action.1.Within start) (stepped : keeper.step action = .ok next) :
    next.Remembers start secret := by
  rcases action with ⟨call, fresh⟩
  cases call with
  | search id port af caller =>
      cases stepped
      rcases remembers with current | ⟨old, time⟩
      · exact .inl current
      · exact .inr ⟨old, by rwa [State.dhtSearch_rotateSecretsTime]⟩
  | periodic input caller =>
      rcases bind_eq_ok_iff.mp stepped with ⟨outcome, returned, result⟩
      have rotated := dhtPeriodic_rotateSecretsTime returned
      cases result
      by_cases rotates : outcome.tosleep.isSome = true ∧
          keeper.dht.rotateSecretsTime ≤ input.now
      · rw [if_pos rotates] at rotated ⊢
        rcases remembers with current | ⟨_, time⟩
        · exact .inr ⟨current, by linarith [within.1]⟩
        · exact absurd (rotates.2.trans_lt within.2) (not_lt.mpr time)
      · rw [if_neg rotates] at rotated ⊢
        rcases remembers with current | ⟨old, time⟩
        · exact .inl current
        · exact .inr ⟨old, by rwa [rotated]⟩

/-- A token that is given out is accepted from the same address for 15 minutes: as
long as the clock of all calls stays within them, whatever datagrams they receive,
whatever is searched for and whatever secrets are drawn. -/
theorem tokenMatch_makeToken (md5 : Bytes → Field 16) {keeper keeper' : TokenKeeper}
    {actions : List (Action × Field 8)} {start : Int}
    (within : ∀ action ∈ actions, action.1.Within start)
    (ran : Run.run TokenKeeper.step keeper actions = .ok keeper') (sa : Sockaddr) :
    keeper'.tokenMatch md5 (keeper.makeToken md5 sa false) sa = true := by
  have always : Run.Always TokenKeeper.step (TokenKeeper.Remembers start keeper.secret) keeper
      actions := by
    apply Run.always_of_guarded (TokenKeeper.Remembers start keeper.secret) _ id (.inl rfl)
      (Run.guarded_of_forall within keeper)
    exact fun remembers met stepped => remembers.step met stepped
  have remembers : keeper'.Remembers start keeper.secret := always.last ran
  rw [TokenKeeper.tokenMatch_iff]
  rcases remembers with current | ⟨old, _⟩
  · left
    simp [TokenKeeper.makeToken, current]
  · right
    simp [TokenKeeper.makeToken, old]

/-- A node whose secrets are about to be rotated. -/
def dueKeeper : TokenKeeper where
  dht := State.init 3 (-1) (.zero 20) none 1000 fun _ => 0
  secret := .zero 8
  oldsecret := .zero 8

/-- An idle call at which the secrets are rotated. -/
def rotatingCall : Action :=
  .periodic
    { now := 1900, available := false, rc := 0, addr := 4096
      inet := { stored := none, again := true }
      inet6 := { stored := none, again := true } }
    { callback := none, closure := 0 }

/-- The secret that is drawn in that call. -/
def freshSecret : Field 8 where
  bytes := List.replicate 8 1
  length_eq := List.length_replicate

/-- The MD5 sum of fourteen zeros. -/
def oldDigest : Field 16 where
  bytes := [54, 223, 149, 64, 165, 239, 73, 150, 169, 115, 118, 87, 228, 168, 146, 156]
  length_eq := rfl

/-- The MD5 sum of the new secret and six zeros. -/
def freshDigest : Field 16 where
  bytes := [81, 15, 93, 3, 131, 145, 170, 208, 68, 0, 218, 129, 103, 59, 229, 33]
  length_eq := rfl

/-- MD5 on what is hashed for the address of zeros with these two secrets. -/
def sampleMd5 (input : Bytes) : Field 16 :=
  if input = List.replicate 14 0 then oldDigest else freshDigest

/-- The token was made with what is the old secret when it comes back. -/
theorem tokenMatch_makeToken_rotated :
    ∃ keeper', Run.run TokenKeeper.step dueKeeper [(rotatingCall, freshSecret)] = .ok keeper' ∧
      keeper'.secret = freshSecret ∧
      keeper'.tokenMatch sampleMd5
        (dueKeeper.makeToken sampleMd5 (.inet ⟨.zero 2, .zero 4⟩) false)
        (.inet ⟨.zero 2, .zero 4⟩) = true := by
  have ran : Run.run TokenKeeper.step dueKeeper [(rotatingCall, freshSecret)] = .ok _ := rfl
  have within : ∀ action ∈ [(rotatingCall, freshSecret)], action.1.Within 1900 := by
    intro action member
    rw [List.mem_singleton.mp member]
    exact ⟨by decide, by decide⟩
  exact ⟨_, ran, rfl, tokenMatch_makeToken _ within ran _⟩

end Dnsp2p.Dht
