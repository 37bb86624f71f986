import Dnsp2p.Dht.Periodic
import Dnsp2p.Dht.Change

/-!
# What the handlers leave alone

A message changes the routing table, the nodes of searches and the blacklist; a
change of the routing table moves no clock.  Everything else of the state of the
DHT is the same before and after a handler returns.
-/

namespace Dnsp2p.Dht

open Dnsp2p.Benc Dnsp2p.Message

/-- The time of the call and the time at which things expire stay. -/
structure SameTimes (t t' : Table) : Prop where
  now : t'.now = t.now
  expireStuffTime : t'.expireStuffTime = t.expireStuffTime

/-! ## The routing table -/

namespace SameTimes

theorem refl (t : Table) : SameTimes t t :=
  ⟨rfl, rfl⟩

theorem trans {t t' t'' : Table} (first : SameTimes t t') (second : SameTimes t' t'') :
    SameTimes t t'' :=
  ⟨second.now.trans first.now, second.expireStuffTime.trans first.expireStuffTime⟩

/-- A change of the buckets of one family moves no clock. -/
theorem of_changesIn {af : Family} {t t' : Table} (change : ChangesIn af t t') : SameTimes t t' :=
  ⟨change.now, change.expireStuffTime⟩

variable (t : Table)

theorem send (sa : Sockaddr) (out : Option Outgoing) :
    SameTimes t { t with toNet := t.toNet.send sa out } := by
  have keeps : Keeps .inet t { t with toNet := t.toNet.send sa out } := .send t sa out
  exact of_changesIn keeps.toChangesIn

theorem modifyNode (af : Family) (b n : Nat) (change : Node af → Node af) :
    SameTimes t (t.modifyNode af b n change) :=
  of_changesIn (.modifyNode t b n change)

theorem pinged (af : Family) (b n : Nat) : SameTimes t (t.pinged af b n) :=
  of_changesIn (Keeps.pinged t b n).toChangesIn

theorem newNode (id : Bytes) (sa : Sockaddr) (confirm : Nat) :
    Returns (t.newNode id sa confirm) (SameTimes t) := by
  refine .ite (.ok (refl t)) ?_
  split
  · exact .fault _ _
  · intro t' returned
    exact of_changesIn (ChangesIn.learn sa confirm _ _ t t' returned)

theorem pingedIfKnown (id : Field 20) (af : Family) : SameTimes t (t.pingedIfKnown id af) := by
  unfold Table.pingedIfKnown
  split
  · exact refl t
  · exact pinged t af _ _

end SameTimes

/-! ## The course of a periodic call -/

/-- What `dht_periodic` does to the state: it returns early, or does what is due with
or without a datagram before it. -/
inductive Course (d : State) (input : Input) (caller : Caller) : State → Prop
  | early {rc : Int} (available : input.available = true) (failed : receive d input = .error rc) :
      Course d input caller { d with now := input.now }
  | idle (silent : input.available = false ∨ receive d input = .ok none) :
      Course d input caller (State.due { d with now := input.now } caller).1
  | datagram {source : Sockaddr} {buf : Bytes} {d' : State} {events : List Event}
      (received : receive d input = .ok (some (source, buf)))
      (handled : State.handleDatagram { d with now := input.now } input.addr source buf =
        .ok (d', events)) : Course d input caller (d'.due caller).1

theorem dhtPeriodic_course {d : State} {input : Input} {caller : Caller} {outcome : Outcome}
    (returned : dhtPeriodic d input caller = .ok outcome) : Course d input caller outcome.dht := by
  unfold dhtPeriodic at returned
  dsimp only at returned
  split at returned
  · rename_i available
    split at returned
    · rename_i rc failed
      cases returned
      exact .early available failed
    · rename_i nothing
      have course : Course d input caller (State.due { d with now := input.now } caller).1 :=
        .idle (.inr nothing)
      generalize State.due { d with now := input.now } caller = result at returned course
      cases returned
      exact course
    · rename_i source buf received
      rcases bind_eq_ok_iff.mp returned with ⟨⟨d', events⟩, handled, rest⟩
      have course : Course d input caller (d'.due caller).1 := .datagram received handled
      generalize d'.due caller = result at rest course
      cases rest
      exact course
  · rename_i unavailable
    have course : Course d input caller (State.due { d with now := input.now } caller).1 :=
      .idle (.inl (Bool.eq_false_of_not_eq_true unavailable))
    generalize State.due { d with now := input.now } caller = result at returned course
    cases returned
    exact course

/-! ## Asking nodes -/

/-- A search without its nodes. -/
def Search.core (sr : Search) : Search :=
  { sr with nodes := [] }

/-- The searches of a list without their nodes. -/
def cores (searches : List Search) : List Search :=
  searches.map Search.core

theorem insertSearchNode_core (now : Int) (id : Field 20) (sa : Sockaddr) (replied : Bool)
    (token : Option Bytes) (sr : Search) :
    (insertSearchNode now id sa replied token sr).core = sr.core := by
  unfold insertSearchNode
  split
  · rfl
  · dsimp only
    split
    · split
      · rfl
      · split <;> rfl
    · split <;> rfl

theorem insertSearchBucket_core {af : Family} (now : Int) (bucket : Bucket af) (sr : Search) :
    (insertSearchBucket now bucket sr).core = sr.core := by
  unfold insertSearchBucket
  induction bucket.nodes generalizing sr with
  | nil => rfl
  | cons node rest ih =>
      rw [List.foldl_cons, ih]
      exact insertSearchNode_core _ _ _ _ _ _

theorem sendGetPeersTo_core (t : Table) (sr : Search) (i : Nat) :
    SameTimes t (sendGetPeersTo t sr i).1 ∧ (sendGetPeersTo t sr i).2.1.core = sr.core := by
  unfold sendGetPeersTo
  split
  · exact ⟨.refl t, rfl⟩
  · split
    · exact ⟨.refl t, rfl⟩
    · exact ⟨(SameTimes.send t _ _).trans (.pingedIfKnown _ _ _), rfl⟩

theorem searchSendGetPeers_core (t : Table) (sr : Search) (n? : Option Nat) :
    SameTimes t (searchSendGetPeers t sr n?).1 ∧
      (searchSendGetPeers t sr n?).2.1.core = sr.core := by
  unfold searchSendGetPeers
  split
  · exact sendGetPeersTo_core t sr _
  · split
    · exact ⟨.refl t, rfl⟩
    · exact sendGetPeersTo_core t sr _

/-! ## Messages -/

/-- The clock is the same, and so is everything but the routing table, the nodes of
the searches and the blacklist. -/
structure Frame (d d' : State) : Prop where
  times : SameTimes d.toTable d'.toTable
  cores : cores d'.searches = cores d.searches
  rest : { d' with
    toTable := d.toTable
    searches := d.searches
    blacklist := d.blacklist
    nextBlacklisted := d.nextBlacklisted } = d

namespace Frame

variable (d : State)

theorem refl : Frame d d :=
  ⟨.refl _, rfl, rfl⟩

variable {d}

theorem trans {d' d'' : State} (first : Frame d d') (second : Frame d' d'') : Frame d d'' where
  times := first.times.trans second.times
  cores := second.cores.trans first.cores
  rest := by
    have middle := congrArg (fun e : State => { e with
      toTable := d.toTable
      searches := d.searches
      blacklist := d.blacklist
      nextBlacklisted := d.nextBlacklisted }) second.rest
    exact middle.trans first.rest

theorem table {t : Table} (times : SameTimes d.toTable t) : Frame d { d with toTable := t } :=
  ⟨times, rfl, rfl⟩

theorem set {t : Table} (times : SameTimes d.toTable t) {i : Nat} {sr sr' : Search}
    (found : d.searches[i]? = some sr) (same : sr'.core = sr.core) :
    Frame d { d with toTable := t, searches := d.searches.set i sr' } :=
  ⟨times, map_set_same found same, rfl⟩

theorem modifySearch (sr? : Option Nat) {change : Search → Search}
    (same : ∀ sr, (change sr).core = sr.core) : Frame d (d.modifySearch sr? change) := by
  unfold State.modifySearch
  split
  · exact refl d
  · exact ⟨.refl _, map_modify_same same _ _, rfl⟩

theorem brokenNode (id : Option Bytes) (sa : Sockaddr) :
    Returns (d.brokenNode id sa) (Frame d) := by
  have broken : ∀ id, SameTimes d.toTable (d.breakNode id sa).toTable ∧
      Dht.cores (d.breakNode id sa).searches = Dht.cores d.searches := by
    intro id
    constructor
    · unfold State.breakNode
      dsimp only
      split
      · exact .refl _
      · exact (SameTimes.modifyNode _ _ _ _ _).trans (.pinged _ _ _ _)
    · simp [State.breakNode, Dht.cores, Search.core]
  unfold State.brokenNode
  split
  · exact .ok ⟨.refl _, rfl, rfl⟩
  · split
    · exact .fault _ _
    · exact .ok ⟨(broken _).1, (broken _).2, rfl⟩

theorem newNode (id : Bytes) (sa : Sockaddr) (confirm : Nat) :
    Returns (d.newNode id sa confirm) (Frame d) :=
  (SameTimes.newNode d.toTable id sa confirm).bind fun _ times => .ok (table times)

theorem learnRecord (af : Family) (sr? : Option Nat) (ni : Bytes) :
    Returns (d.learnRecord af sr? ni) (Frame d) := by
  unfold State.learnRecord
  split
  · refine .ite (.ok (refl d)) ((newNode _ _ _).bind fun d' same => .ok (same.trans ?_))
    apply modifySearch sr?
    intro sr
    split
    · exact insertSearchNode_core _ _ _ _ _ _
    · rfl
  · exact .fault _ _

theorem learnRecords (af : Family) (sr? : Option Nat) (ni : List Bytes) :
    Returns (d.learnRecords af sr? ni) (Frame d) := by
  unfold State.learnRecords
  induction ni generalizing d with
  | nil => exact .ok (refl d)
  | cons record records ih =>
      refine (learnRecord af sr? record).bind fun d' same => ?_
      intro d'' returned
      exact same.trans (ih d'' returned)

theorem pushRequest (sr : Nat) : Frame d (d.pushRequest sr) := by
  unfold State.pushRequest
  split
  · exact refl d
  · next search found =>
    rcases searchSendGetPeers_core d.toTable search none with ⟨times, same⟩
    exact set times found same

theorem handleValues (state : PeriodicState) (sr : Nat) (token : Option Bobj) :
    Returns (d.handleValues state sr token) fun returned => Frame d returned.1 := by
  refine .bind_any fun token => .bind_any fun id => .bind_any fun r => .bind_any fun values =>
    .bind_any fun values6 => ?_
  have inserted := (pushRequest (d := d) sr).trans
    (modifySearch (some sr)
      (insertSearchNode_core (d.pushRequest sr).now id state.source true token))
  exact .ite (.ok inserted) (.bind_any fun _ => .bind_any fun _ => .ok inserted)

theorem handleNodes (state : PeriodicState) (t : Bytes) :
    Returns (d.handleNodes state t) fun returned => Frame d returned.1 := by
  have broken : Returns (do
      let d ← d.brokenNode state.msg.argId state.source
      Except.ok (d, ([] : List Event))) fun returned => Frame d returned.1 :=
    (brokenNode _ _).bind fun d' same => .ok same
  refine .bind_any fun a => .bind_any fun nodesObj => .bind_any fun nodes6Obj => .ite broken ?_
  refine .bind_any fun nodes => .bind_any fun nodes6 => .bind_any fun token => ?_
  refine .ite broken (.bind_any fun nodes => .bind_any fun nodes6 => ?_)
  refine .ite broken (.bind_any fun argId => .ite ?_ ?_)
  · exact (newNode _ _ _).bind fun d' same => .ok same
  · refine (newNode _ _ _).bind fun d₁ known => (learnRecords _ _ _).bind fun d₂ learned =>
      (learnRecords _ _ _).bind fun d₃ learned6 => ?_
    have same := known.trans (learned.trans learned6)
    split
    · exact .ok same
    · intro returned result
      exact same.trans (handleValues state _ token returned result)

/-- A response changes the routing table, the nodes of searches and the blacklist. -/
theorem handleResponse (state : PeriodicState) :
    Returns (d.handleResponse state) fun returned => Frame d returned.1 := by
  refine .ite (.fault _ _) (.ite ((brokenNode _ _).bind fun d' same => .ok same) ?_)
  refine .bind_any fun t => .ite ((newNode _ _ _).bind fun d' same => .ok same) ?_
  exact .ite (.bind_any fun _ => .fault _ _) (handleNodes state t)

end Frame

/-- A message that is dispatched passes through the rate limiter and its handler. -/
theorem State.dispatch_frame {d : State} (state : PeriodicState) :
    Returns (d.dispatch state) fun returned =>
      Frame d returned.1 ∨ state.msg.type ≠ .response ∧ returned.1 = d.tokenBucket.2 := by
  refine .bind_any fun argId => .ite (.ok (.inl (.refl d))) ?_
  cases kind : state.msg.type with
  | response =>
      intro returned result
      exact .inl (Frame.handleResponse state returned result)
  | query =>
      refine .ite (.ite (.fault _ _) (.ok (.inr ⟨?_, rfl⟩))) (.ok (.inr ⟨?_, rfl⟩)) <;> simp
  | err => exact .ok (.inr ⟨by simp, rfl⟩)

end Dnsp2p.Dht
