import Dnsp2p.Dht.SearchNumbers
import Dnsp2p.Message.Fitting
import Dnsp2p.Message.RoundTrip

/-!
# What the node sends

The node asks and never answers: the handlers of the other nodes' queries send
nothing.  Whatever datagrams arrive and whatever is searched for, each datagram
that it sends is the text of one of four queries that carry its own id, and goes
to a family that has a socket.
-/

namespace Dnsp2p.Dht

open Dnsp2p.Benc Dnsp2p.Message

/-- The queries as the node makes them. -/
inductive Asks : Outbound → Prop
  | ping : Asks (.ping (makeTid "pn" 0))
  | findNode (target : Field 20) (want : Int) (confirm : Bool) :
      Asks (.findNode (makeTid "fn" 0) target want confirm)
  | getPeers (number : UInt16) (infohash : Field 20) (confirm : Bool) :
      Asks (.getPeers (makeTid "gp" number) infohash (-1) confirm)
  | announcePeer (number : UInt16) (infohash : Field 20) {port : UInt16} {token : Bytes}
      (confirm : Bool) (open' : port ≠ 0) (given : token ≠ []) :
      Asks (.announcePeer (makeTid "ap" number) infohash port token confirm)

/-- A datagram with a query of the node, to a family that has a socket. -/
structure Genuine (net : Net) (datagram : Datagram) : Prop where
  query : ∃ m, Asks m ∧ m.send net.self = some datagram.out
  socket : 0 ≤ net.socketOf datagram.sa.family

/-- Only genuine datagrams were sent, and neither the node's identity nor its sockets
have changed. -/
structure Speaks (net net' : Net) : Prop where
  self : net'.self = net.self
  sockets : ∀ af, net'.socketOf af = net.socketOf af
  said : ∃ more, net'.sent = net.sent ++ more ∧ ∀ datagram ∈ more, Genuine net datagram

namespace Speaks

/-- Nothing was sent. -/
theorem quiet {net net' : Net} (self : net'.self = net.self)
    (sockets : ∀ af, net'.socketOf af = net.socketOf af) (sent : net'.sent = net.sent) :
    Speaks net net' :=
  ⟨self, sockets, [], by rw [sent, List.append_nil], by simp⟩

theorem refl (net : Net) : Speaks net net :=
  quiet rfl (fun _ => rfl) rfl

theorem genuine {net net' : Net} (speaks : Speaks net net') {datagram : Datagram}
    (genuine : Genuine net' datagram) : Genuine net datagram := by
  rcases genuine with ⟨⟨m, asks, sent⟩, socket⟩
  rw [speaks.self] at sent
  rw [speaks.sockets] at socket
  exact ⟨⟨m, asks, sent⟩, socket⟩

theorem trans {net net' net'' : Net} (first : Speaks net net') (second : Speaks net' net'') :
    Speaks net net'' := by
  rcases first.said with ⟨more, sent, genuine⟩
  rcases second.said with ⟨more', sent', genuine'⟩
  refine ⟨second.self.trans first.self,
    fun af => (second.sockets af).trans (first.sockets af), more ++ more', ?_, ?_⟩
  · rw [sent', sent, List.append_assoc]
  · intro datagram member
    rcases List.mem_append.mp member with before | after
    · exact genuine datagram before
    · exact first.genuine (genuine' datagram after)

theorem send (net : Net) (sa : Sockaddr) {m : Outbound} (asks : Asks m) :
    Speaks net (net.send sa (m.send net.self)) := by
  unfold Net.send
  split
  · exact refl net
  · next out sent =>
    split
    · exact refl net
    · next opened =>
      refine ⟨rfl, fun af => by cases af <;> rfl, [{ sa, out }], rfl, ?_⟩
      intro datagram member
      rw [List.mem_singleton.mp member]
      exact ⟨⟨m, asks, sent⟩, not_lt.mp opened⟩

theorem drop (net : Net) (count : Nat) : Speaks net (net.drop count) :=
  quiet rfl (fun af => by cases af <;> rfl) rfl

/-! ## The routing table -/

section Tables

variable {af : Family} (t : Table)

theorem setBuckets (buckets : List (Bucket af)) :
    Speaks t.toNet (t.setBuckets af buckets).toNet := by
  cases af <;> exact refl _

theorem modifyBucket (b : Nat) (change : Bucket af → Bucket af) :
    Speaks t.toNet (t.modifyBucket af b change).toNet :=
  setBuckets t _

theorem modifyNode (b n : Nat) (change : Node af → Node af) :
    Speaks t.toNet (t.modifyNode af b n change).toNet :=
  modifyBucket t b _

theorem ping (sa : Sockaddr) : Speaks t.toNet (t.ping sa).toNet :=
  send t.toNet sa .ping

theorem sendCachedPing (b : Nat) : Speaks t.toNet (t.sendCachedPing af b).toNet := by
  unfold Table.sendCachedPing
  split
  · exact refl _
  · split
    · exact refl _
    · exact (ping t _).trans (modifyBucket _ b _)

theorem pinged (b n : Nat) : Speaks t.toNet (t.pinged af b n).toNet := by
  unfold Table.pinged
  split
  · exact refl _
  · split
    · exact refl _
    · dsimp only
      split
      · exact (modifyNode t b n _).trans (sendCachedPing _ b)
      · exact modifyNode t b n _

theorem pingDubious (b : Nat) (bucket : Bucket af) :
    Speaks t.toNet (t.pingDubious af b bucket).toNet := by
  unfold Table.pingDubious
  split
  · exact refl _
  · split
    · exact refl _
    · exact (ping t _).trans (modifyNode _ b _ _)

theorem growMybucket : Speaks t.toNet (t.growMybucket af).toNet := by
  cases af <;> exact refl _

theorem splitBucket (b : Nat) : Speaks t.toNet (t.splitBucket af b).toNet := by
  unfold Table.splitBucket
  split
  · exact refl _
  · split
    · exact refl _
    · exact (sendCachedPing t b).trans (setBuckets _ _)

theorem learn (sa : Sockaddr) (confirm : Nat) (id : Field 20) (fuel : Nat) :
    Returns (t.learn sa confirm id fuel) fun t' => Speaks t.toNet t'.toNet := by
  induction fuel generalizing t with
  | zero => exact .fault _ _
  | succ fuel ih =>
      rw [Table.learn]
      dsimp only
      split
      · exact .ok (refl _)
      · next b _ =>
        split
        · exact .ok (refl _)
        · next bucket _ =>
          refine .ite (.ok (refl _)) (.ite (.ok (refl _)) ?_)
          have confirmed : Speaks t.toNet (if confirm = 2 then
              t.modifyBucket sa.family b fun bucket => { bucket with time := t.now }
            else t).toNet := by
            split
            · exact modifyBucket t b _
            · exact refl _
          generalize (if confirm = 2 then
            t.modifyBucket sa.family b fun bucket => { bucket with time := t.now } else t) = t₁ at *
          split
          · exact .ok (confirmed.trans (modifyNode t₁ b _ _))
          · have grown : Speaks t.toNet (if inBucket t.self.myid bucket
                (t.bucketsOf sa.family)[b + 1]? = true then t₁.growMybucket sa.family
              else t₁).toNet := by
              split
              · exact confirmed.trans (growMybucket t₁)
              · exact confirmed
            generalize (if inBucket t.self.myid bucket (t.bucketsOf sa.family)[b + 1]? = true then
              t₁.growMybucket sa.family else t₁) = t₂ at *
            split
            · exact .ok (grown.trans (modifyNode t₂ b _ _))
            · have asked := grown.trans (pingDubious t₂ b bucket)
              refine .ite (.ite ?_ (.ite (.ok (asked.trans (modifyBucket _ b _))) (.ok asked)))
                (.ok (grown.trans (modifyBucket _ b _)))
              intro t' returned
              exact (asked.trans (splitBucket _ b)).trans (ih _ t' returned)

theorem newNode (id : Bytes) (sa : Sockaddr) (confirm : Nat) :
    Returns (t.newNode id sa confirm) fun t' => Speaks t.toNet t'.toNet := by
  refine .ite (.ok (refl _)) ?_
  split
  · exact .fault _ _
  · exact learn t sa confirm _ _

theorem expireBucket (b : Nat) : Speaks t.toNet (t.expireBucket af b).toNet := by
  unfold Table.expireBucket
  split
  · exact refl _
  · dsimp only
    split
    · exact refl _
    · exact (modifyBucket t b _).trans (sendCachedPing _ b)

theorem expireBuckets (af : Family) : Speaks t.toNet (t.expireBuckets af).toNet := by
  have rounds : ∀ (places : List Nat) (t : Table),
      Speaks t.toNet (places.foldl (fun t b => t.expireBucket af b) t).toNet := by
    intro places
    induction places with
    | nil => exact fun t => refl _
    | cons b places ih => exact fun t => (expireBucket t b).trans (ih _)
  exact (rounds _ t).trans (drop _ 1)

/-! ## Maintenance -/

/-- `neighbour` draws at most twice. -/
theorem neighbour (b : Nat) (bucket : Bucket af) :
    Speaks t.toNet (t.neighbour af b bucket).2.2.toNet := by
  have once : Speaks t.toNet (t.toNet.drop 1) := drop _ 1
  have twice : Speaks t.toNet ((t.toNet.drop 1).drop 1) := once.trans (drop _ 1)
  unfold Table.neighbour
  cases (t.bucketsOf af)[b + 1]? with
  | none =>
      dsimp only
      repeat' split
      all_goals first | exact refl _ | exact once
  | some next =>
      dsimp only
      by_cases empty : bucket.count = 0
      · simp only [if_pos empty]
        repeat' split
        all_goals first | exact refl _ | exact once
      · simp only [if_neg empty]
        by_cases turned : t.random 0 % 8 = 0
        · simp only [if_pos turned]
          repeat' split
          all_goals first | exact once | exact twice
        · simp only [if_neg turned]
          repeat' split
          all_goals first | exact once | exact twice

theorem randomNode (net : Net) (bucket : Bucket af) : Speaks net (randomNode net bucket).2 := by
  unfold Dht.randomNode
  split
  · exact refl net
  · exact drop net 1

theorem bucketRandom (net : Net) (bucket : Bucket af) (next : Option (Bucket af)) :
    Speaks net (bucketRandom net bucket next).2 := by
  unfold Dht.bucketRandom
  dsimp only
  split
  · exact refl net
  · exact drop net _

theorem askNode (q n : Nat) (node : Node af) (id : Field 20) (want : Int) :
    Speaks t.toNet (t.askNode af q n node id want).toNet := by
  let out := sendFindNode t.self (makeTid "fn" 0) id want (decide (t.now - 15 ≤ node.replyTime))
  let t' : Table := { t with toNet := t.toNet.send node.ss out }
  have asked : Speaks t.toNet t'.toNet := send t.toNet node.ss (.findNode id want _)
  exact asked.trans (pinged t' q n)

theorem neighbourhoodMaintenance (af : Family) :
    Speaks t.toNet (t.neighbourhoodMaintenance af).2.toNet := by
  unfold Table.neighbourhoodMaintenance
  split
  · exact refl _
  · split
    · exact refl _
    · next b _ _ bucket _ =>
      dsimp only
      have first : Speaks t.toNet { t with toNet := t.toNet.drop 1 }.toNet := drop _ 1
      have near := neighbour { t with toNet := t.toNet.drop 1 } b bucket
      generalize Table.neighbour { t with toNet := t.toNet.drop 1 } af b bucket = result at near ⊢
      rcases result with ⟨q, qBucket, t₁⟩
      dsimp only at near ⊢
      have drawn := (first.trans near).trans (randomNode t₁.toNet qBucket)
      generalize Dht.randomNode t₁.toNet qBucket = result at drawn ⊢
      rcases result with ⟨n?, net⟩
      dsimp only at drawn ⊢
      split
      · exact drawn
      · split
        · exact drawn
        · exact drawn.trans (askNode { t₁ with toNet := net } _ _ _ _ _)

theorem maintenanceWant (af : Family) (id : Field 20) :
    Speaks t.toNet (t.maintenanceWant af id).2.toNet := by
  unfold Table.maintenanceWant
  split
  · extract_lets emptyish
    generalize emptyish = emptyish
    split
    · exact refl _
    · exact drop _ 1
  · exact refl _

theorem bucketMaintenanceFrom (af : Family) (fuel b : Nat) :
    Speaks t.toNet (Table.bucketMaintenanceFrom af fuel b t).2.toNet := by
  induction fuel generalizing t b with
  | zero => exact refl _
  | succ fuel ih =>
      unfold Table.bucketMaintenanceFrom
      split
      · exact refl _
      · next bucket _ =>
        split
        · have first := bucketRandom t.toNet bucket (t.bucketsOf af)[b + 1]?
          generalize Dht.bucketRandom t.toNet bucket (t.bucketsOf af)[b + 1]? = result at first ⊢
          rcases result with ⟨id, net⟩
          dsimp only at first ⊢
          have near := neighbour { t with toNet := net } b bucket
          generalize Table.neighbour { t with toNet := net } af b bucket = result at near ⊢
          rcases result with ⟨q, qBucket, t₁⟩
          dsimp only at near ⊢
          have drawn := (first.trans near).trans (randomNode t₁.toNet qBucket)
          generalize Dht.randomNode t₁.toNet qBucket = result at drawn ⊢
          rcases result with ⟨n?, net⟩
          dsimp only at drawn ⊢
          split
          · exact drawn.trans (ih { t₁ with toNet := net } (b + 1))
          · have wanted := drawn.trans (maintenanceWant { t₁ with toNet := net } af id)
            generalize Table.maintenanceWant { t₁ with toNet := net } af id = result at wanted ⊢
            rcases result with ⟨want, t₂⟩
            exact wanted.trans (askNode t₂ _ _ _ id want)
        · exact ih t (b + 1)

theorem bucketMaintenance (af : Family) : Speaks t.toNet (t.bucketMaintenance af).2.toNet :=
  bucketMaintenanceFrom t af _ 0

end Tables

/-! ## Searches -/

section Searches

variable (t : Table)

theorem pingedIfKnown (id : Field 20) (af : Family) :
    Speaks t.toNet (t.pingedIfKnown id af).toNet := by
  unfold Table.pingedIfKnown
  split
  · exact refl _
  · exact pinged t _ _

theorem sendGetPeersTo (sr : Search) (i : Nat) :
    Speaks t.toNet (sendGetPeersTo t sr i).1.toNet := by
  unfold Dht.sendGetPeersTo
  split
  · exact refl _
  · next n _ =>
    split
    · exact refl _
    · let out := sendGetPeers t.self (makeTid "gp" sr.tid) sr.id (-1) (t.now - 15 ≤ n.replyTime)
      let t' : Table := { t with toNet := t.toNet.send n.ss out }
      have asked : Speaks t.toNet t'.toNet := send t.toNet n.ss (.getPeers sr.tid sr.id _)
      exact asked.trans (pingedIfKnown t' n.id n.ss.family)

theorem searchSendGetPeers (sr : Search) (n? : Option Nat) :
    Speaks t.toNet (searchSendGetPeers t sr n?).1.toNet := by
  unfold Dht.searchSendGetPeers
  split
  · exact sendGetPeersTo t sr _
  · split
    · exact refl _
    · exact sendGetPeersTo t sr _

theorem announceFrom (number : UInt16) (id : Field 20) {port : UInt16} (given : port ≠ 0)
    (live : Nat) (nodes : List SearchNode) :
    Speaks t.toNet (announceFrom number id port live t nodes).1.toNet := by
  induction nodes generalizing live t with
  | nil => cases live <;> exact refl _
  | cons n rest ih =>
      cases live with
      | zero => exact refl _
      | succ live =>
          unfold Dht.announceFrom
          split
          · exact ih t _
          · dsimp only
            split
            · exact ih t _
            · next token =>
              split
              · exact ih t _
              let out := sendAnnouncePeer t.self (makeTid "ap" number) id port n.token
                (t.now - 15 ≤ n.replyTime)
              let t' : Table := { t with toNet := t.toNet.send n.ss out }
              have asked : Speaks t.toNet t'.toNet :=
                send t.toNet n.ss (.announcePeer number id _ given token)
              exact (asked.trans (pingedIfKnown t' n.id n.ss.family)).trans (ih _ _)

theorem askFrom (fuel i j : Nat) (sr : Search) :
    Speaks t.toNet (askFrom fuel i j t sr).1.toNet := by
  induction fuel generalizing i j t sr with
  | zero => exact refl _
  | succ fuel ih =>
      unfold Dht.askFrom
      split
      · exact refl _
      · have asked := searchSendGetPeers t sr (some i)
        generalize Dht.searchSendGetPeers t sr (some i) = result at asked ⊢
        rcases result with ⟨t', sr', count⟩
        dsimp only at asked ⊢
        split
        · exact asked
        · exact asked.trans (ih t' _ _ sr')

theorem searchStep (caller : Caller) (sr : Search) :
    Speaks t.toNet (searchStep caller t sr).1.toNet := by
  unfold Dht.searchStep
  split
  · split
    · exact refl _
    · next given =>
      have announced := announceFrom t sr.tid sr.id given 8 sr.nodes
      dsimp only
      split
      · exact announced
      · exact announced
  · split
    · exact refl _
    · exact askFrom t _ _ _ sr

theorem stepSearches (caller : Caller) (searches : List Search) :
    Speaks t.toNet (State.stepSearches caller t searches).1.toNet := by
  induction searches generalizing t with
  | nil => exact refl _
  | cons sr rest ih =>
      unfold State.stepSearches
      dsimp only
      have head : Speaks t.toNet (if (!sr.done && decide (sr.stepTime + 5 ≤ t.now)) = true
          then Dht.searchStep caller t sr else (t, sr, [])).1.toNet := by
        split
        · exact searchStep t caller sr
        · exact refl _
      exact head.trans (ih _)

theorem nextSearchTime (net : Net) (searchTime : Int) (searches : List Search) :
    Speaks net (State.nextSearchTime net searchTime searches).1 := by
  induction searches generalizing net searchTime with
  | nil => exact refl net
  | cons sr rest ih =>
      unfold State.nextSearchTime
      split
      · exact ih net _
      · exact (drop net 1).trans (ih _ _)

end Searches

/-! ## What is due -/

section Due

variable (d : State)

theorem rotateSecrets : Speaks d.toNet d.rotateSecrets.toNet :=
  drop _ 1

theorem expireStuff : Speaks d.toNet d.expireStuff.toNet :=
  (expireBuckets d.toTable .inet).trans (expireBuckets _ .inet6)

theorem runSearches (caller : Caller) : Speaks d.toNet (d.runSearches caller).1.toNet := by
  unfold State.runSearches
  split
  · exact (stepSearches d.toTable caller d.searches).trans (nextSearchTime _ 0 _)
  · exact refl _

theorem maintain : Speaks d.toNet d.maintain.toNet := by
  unfold State.maintain
  split
  · dsimp only
    have refreshed := (bucketMaintenance d.toTable .inet).trans (bucketMaintenance _ .inet6)
    generalize (d.toTable.bucketMaintenance .inet).2.bucketMaintenance .inet6 = result
      at refreshed ⊢
    rcases result with ⟨soon, t⟩
    dsimp only at refreshed ⊢
    refine Speaks.trans ?_ (drop _ 1)
    split
    · exact refreshed
    · have near : Speaks t.toNet (if t.now - 150 ≤ t.mybucketGrowTime
          then t.neighbourhoodMaintenance .inet else (false, t)).2.toNet := by
        split
        · exact neighbourhoodMaintenance t .inet
        · exact refl _
      generalize (if t.now - 150 ≤ t.mybucketGrowTime
        then t.neighbourhoodMaintenance .inet else (false, t)) = result at near ⊢
      rcases result with ⟨asked, t₁⟩
      dsimp only at near ⊢
      split
      · exact (refreshed.trans near).trans (neighbourhoodMaintenance t₁ .inet6)
      · exact refreshed.trans near
  · exact refl _

theorem due (caller : Caller) : Speaks d.toNet (d.due caller).1.toNet := by
  unfold State.due
  dsimp only
  have rotated : Speaks d.toNet
      (if d.rotateSecretsTime ≤ d.now then d.rotateSecrets else d).toNet := by
    split
    · exact rotateSecrets d
    · exact refl _
  generalize (if d.rotateSecretsTime ≤ d.now then d.rotateSecrets else d) = d₁ at rotated ⊢
  have expired : Speaks d.toNet
      (if d₁.expireStuffTime ≤ d₁.now then d₁.expireStuff else d₁).toNet := by
    split
    · exact rotated.trans (expireStuff d₁)
    · exact rotated
  generalize (if d₁.expireStuffTime ≤ d₁.now then d₁.expireStuff else d₁) = d₂ at expired ⊢
  exact (expired.trans (runSearches d₂ caller)).trans (maintain _)

end Due

/-! ## Messages -/

section Messages

variable (d : State)

theorem modifySearch (sr? : Option Nat) (change : Search → Search) :
    Speaks d.toNet (d.modifySearch sr? change).toNet := by
  unfold State.modifySearch
  split <;> exact refl _

theorem breakNode (id : Field 20) (sa : Sockaddr) : Speaks d.toNet (d.breakNode id sa).toNet := by
  unfold State.breakNode
  dsimp only
  split
  · exact refl _
  · exact (modifyNode d.toTable _ _ _).trans (pinged _ _ _)

theorem brokenNode (id : Option Bytes) (sa : Sockaddr) :
    Returns (d.brokenNode id sa) fun d' => Speaks d.toNet d'.toNet := by
  unfold State.brokenNode
  split
  · exact .ok (refl _)
  · split
    · exact .fault _ _
    · exact .ok (breakNode d _ sa)

theorem stateNewNode (id : Bytes) (sa : Sockaddr) (confirm : Nat) :
    Returns (d.newNode id sa confirm) fun d' => Speaks d.toNet d'.toNet :=
  (newNode d.toTable id sa confirm).bind fun _ learned => .ok learned

theorem learnRecord (af : Family) (sr? : Option Nat) (ni : Bytes) :
    Returns (d.learnRecord af sr? ni) fun d' => Speaks d.toNet d'.toNet := by
  unfold State.learnRecord
  split
  · refine .ite (.ok (refl _)) ((stateNewNode d _ _ _).bind fun d' learned => .ok ?_)
    exact learned.trans (modifySearch d' sr? _)
  · exact .fault _ _

theorem learnRecords (af : Family) (sr? : Option Nat) (ni : List Bytes) :
    Returns (d.learnRecords af sr? ni) fun d' => Speaks d.toNet d'.toNet := by
  unfold State.learnRecords
  induction ni generalizing d with
  | nil => exact .ok (refl _)
  | cons record records ih =>
      refine (learnRecord d af sr? record).bind fun d' learned => ?_
      intro d'' returned
      exact learned.trans (ih d' d'' returned)

theorem pushRequest (sr : Nat) : Speaks d.toNet (d.pushRequest sr).toNet := by
  unfold State.pushRequest
  split
  · exact refl _
  · exact searchSendGetPeers d.toTable _ none

theorem handleValues (state : PeriodicState) (sr : Nat) (token : Option Bobj) :
    Returns (d.handleValues state sr token) fun returned =>
      Speaks d.toNet returned.1.toNet := by
  refine .bind_any fun token => .bind_any fun id => .bind_any fun r => .bind_any fun values =>
    .bind_any fun values6 => ?_
  have pushed := (pushRequest d sr).trans (modifySearch (d.pushRequest sr) (some sr)
    (insertSearchNode (d.pushRequest sr).now id state.source true token))
  exact .ite (.ok pushed) (.bind_any fun _ => .bind_any fun _ => .ok pushed)

theorem handleNodes (state : PeriodicState) (tid : Bytes) :
    Returns (d.handleNodes state tid) fun returned => Speaks d.toNet returned.1.toNet := by
  have broken : Returns (do
      let d ← d.brokenNode state.msg.argId state.source
      Except.ok (d, ([] : List Event))) fun returned => Speaks d.toNet returned.1.toNet :=
    (brokenNode d _ _).bind fun d' broke => .ok broke
  refine .bind_any fun a => .bind_any fun nodesObj => .bind_any fun nodes6Obj => .ite broken ?_
  refine .bind_any fun nodes => .bind_any fun nodes6 => .bind_any fun token => ?_
  refine .ite broken (.bind_any fun nodes => .bind_any fun nodes6 => ?_)
  refine .ite broken (.bind_any fun argId => .ite ?_ ?_)
  · exact (stateNewNode d _ _ _).bind fun d' learned => .ok learned
  · refine (stateNewNode d _ _ _).bind fun d₁ known => (learnRecords d₁ _ _ _).bind
      fun d₂ learned => (learnRecords d₂ _ _ _).bind fun d₃ learned6 => ?_
    have all := known.trans (learned.trans learned6)
    split
    · exact .ok all
    · intro returned result
      exact all.trans (handleValues d₃ state _ token returned result)

theorem handleResponse (state : PeriodicState) :
    Returns (d.handleResponse state) fun returned => Speaks d.toNet returned.1.toNet := by
  refine .ite (.fault _ _) (.ite ((brokenNode d _ _).bind fun d' broke => .ok broke) ?_)
  refine .bind_any fun tid => .ite ((stateNewNode d _ _ _).bind fun d' learned => .ok learned) ?_
  exact .ite (.bind_any fun _ => .fault _ _) (handleNodes d state tid)

theorem tokenBucket : Speaks d.toNet d.tokenBucket.2.toNet := by
  unfold State.tokenBucket
  dsimp only
  by_cases empty : d.tokenBucketTokens = 0
  · simp only [if_pos empty]
    split <;> exact refl _
  · simp only [if_neg empty]
    exact refl _

theorem dispatch (state : PeriodicState) :
    Returns (d.dispatch state) fun returned => Speaks d.toNet returned.1.toNet := by
  refine .bind_any fun argId => .ite (.ok (refl _)) ?_
  cases state.msg.type with
  | response => exact handleResponse d state
  | query => exact .ite (.ite (.fault _ _) (.ok (tokenBucket d))) (.ok (tokenBucket d))
  | err => exact .ok (tokenBucket d)

theorem handleDatagram (addr : Nat) (source : Sockaddr) (buf : Bytes) :
    Returns (d.handleDatagram addr source buf) fun returned =>
      Speaks d.toNet returned.1.toNet := by
  refine .ite (.ok (refl _)) (.ite (.ok (refl _)) (.ite (.ok (refl _)) (.bind_any fun msg? => ?_)))
  split
  · exact .ok (refl _)
  · exact dispatch d _

end Messages

/-! ## Calls -/

/-- The clock is set at the start of a call. -/
theorem setNow (d : State) (now : Int) : Speaks d.toNet { d with now }.toNet :=
  quiet rfl (fun af => by cases af <;> rfl) rfl

theorem dhtPeriodic (d : State) (input : Input) (caller : Caller) :
    Returns (dhtPeriodic d input caller) fun outcome => Speaks d.toNet outcome.dht.toNet := by
  intro outcome returned
  have started := setNow d input.now
  have course := dhtPeriodic_course returned
  generalize outcome.dht = d' at course
  cases course with
  | early => exact started
  | idle => exact started.trans (due _ caller)
  | datagram _ handled =>
      exact (started.trans (handleDatagram _ _ _ _ _ handled)).trans (due _ caller)

theorem dhtSearch (d : State) (id : Field 20) (port : Int) (af : Family) (caller : Caller) :
    Speaks d.toNet (d.dhtSearch id port af caller).2.1.toNet := by
  unfold State.dhtSearch
  split
  · exact refl _
  · split
    · exact refl _
    · split
      · exact refl _
      · exact searchStep d.toTable caller _

theorem act (d : State) (action : Action) :
    Returns (d.act action) fun d' => Speaks d.toNet d'.toNet := by
  cases action with
  | search id port af caller => exact .ok (dhtSearch d id port af caller)
  | periodic input caller => exact (dhtPeriodic d input caller).bind fun _ spoke => .ok spoke

/-- The state of a node before `dht_init` sends anything. -/
def silent (s s6 : Int) (id : Field 20) (v : Option (Field 4)) (now : Int) (random : Nat → Nat) :
    Net :=
  { self := { myid := id, v }, dhtSocket := s, dhtSocket6 := s6, now
    random := fun n => random (n + 2), sent := [] }

theorem init (s s6 : Int) (id : Field 20) (v : Option (Field 4)) (now : Int)
    (random : Nat → Nat) :
    Speaks (silent s s6 id v now random) (State.init s s6 id v now random).toNet := by
  unfold State.init
  extract_lets started rotated
  have expired := (expireBuckets rotated.toTable .inet).trans (expireBuckets _ .inet6)
  exact (drop (silent s s6 id v now random) 1).trans expired

end Speaks

/-! ## The texts -/

theorem length_makeTid (kind : String) (number : UInt16) :
    (makeTid kind number).length = (ascii kind).length + 2 := by
  simp [makeTid]

theorem textLength_closing (self : Identity) (opening : String) {tid : Bytes} (ending : String)
    (four : tid.length = 4) :
    textLength (closing self opening tid ending) ≤
      (ascii opening).length + (ascii ending).length + 15 := by
  have version := textLength_addV self
  have colon : (ascii ":").length = 1 := by decide
  have digits : (decimal 4).length = 1 := by decide
  simp only [closing, textLength_append, textLength_cons, textLength_nil, Piece.text,
    List.length_append, four, colon, digits]
  omega

theorem textLength_wantPieces (want : Int) : textLength (wantPieces want) ≤ 16 := by
  unfold wantPieces
  split
  · simp only [textLength_cons, textLength_nil, Piece.text]
    cases wants4 want <;> cases wants6 want <;> decide
  · exact Nat.zero_le _

/-- A query other than an announcement never fills its buffer. -/
theorem Asks.text_lt {m : Outbound} (asks : Asks m) (other : m.query ≠ some .announcePeer)
    (self : Identity) : (piecesText (m.pieces self)).length < 512 := by
  have opened : (ascii "d1:ad2:id20:").length = 12 := by decide
  have ended : (ascii "1:y1:qe").length = 7 := by decide
  cases asks with
  | ping =>
      have rest := textLength_closing self "e1:q4:ping1:t" "1:y1:qe" (length_makeTid "pn" 0)
      have name : (ascii "e1:q4:ping1:t").length = 13 := by decide
      have text : textLength (pingPieces self (makeTid "pn" 0)) < 512 := by
        simp only [pingPieces, textLength_append, textLength_cons, textLength_nil, Piece.text,
          self.myid.length_eq, opened]
        omega
      exact text
  | findNode target want confirm =>
      have rest := textLength_closing self "e1:q9:find_node1:t" "1:y1:qe" (length_makeTid "fn" 0)
      have name : (ascii "e1:q9:find_node1:t").length = 18 := by decide
      have key : (ascii "6:target20:").length = 11 := by decide
      have wanted := textLength_wantPieces want
      have text : textLength (findNodePieces self (makeTid "fn" 0) target want) < 512 := by
        simp only [findNodePieces, textLength_append, textLength_cons, textLength_nil, Piece.text,
          self.myid.length_eq, target.length_eq, opened, key]
        omega
      exact text
  | getPeers number infohash confirm =>
      have rest := textLength_closing self "e1:q9:get_peers1:t" "1:y1:qe"
        (length_makeTid "gp" number)
      have name : (ascii "e1:q9:get_peers1:t").length = 18 := by decide
      have key : (ascii "9:info_hash20:").length = 14 := by decide
      have wanted := textLength_wantPieces (-1)
      have text : textLength (getPeersPieces self (makeTid "gp" number) infohash (-1)) < 512 := by
        simp only [getPeersPieces, textLength_append, textLength_cons, textLength_nil, Piece.text,
          self.myid.length_eq, infohash.length_eq, opened, key]
        omega
      exact text
  | announcePeer => exact absurd rfl other

/-- A datagram that asks one of the queries under an id, for a family that has a
socket.  An announcement that fills its buffer to the last byte ends with a NUL. -/
def IsQuery (self : Identity) (socketOf : Family → Int) (datagram : Datagram) : Prop :=
  ∃ m, Asks m ∧ 0 ≤ socketOf datagram.sa.family ∧
    (datagram.out.buf = bobjText (m.object self) ∨
      m.query = some .announcePeer ∧ (bobjText (m.object self)).length = 512 ∧
        datagram.out.buf = cutLast (bobjText (m.object self)))

theorem Genuine.isQuery {net : Net} {datagram : Datagram} (genuine : Genuine net datagram) :
    IsQuery net.self net.socketOf datagram := by
  rcases genuine with ⟨⟨m, asks, sent⟩, socket⟩
  have size : m.size = 512 := by cases asks <;> rfl
  rcases send_eq_some sent with ⟨_, text⟩
  refine ⟨m, asks, socket, ?_⟩
  by_cases announced : m.query = some .announcePeer
  · rw [m.piecesText_eq net.self, size] at text
    by_cases full : (bobjText (m.object net.self)).length = 512
    · rw [if_pos full] at text
      exact .inr ⟨announced, full, text⟩
    · rw [if_neg full] at text
      exact .inl text
  · have short := asks.text_lt announced net.self
    rw [size, if_neg short.ne, m.piecesText_eq net.self] at text
    exact .inl text

/-- In every run of searches and of calls of `dht_periodic`, whatever is received,
the node sends nothing but queries under its own id to families that have a socket;
it announces only with a token and a port. -/
theorem always_queries (s s6 : Int) (id : Field 20) (v : Option (Field 4)) (now : Int)
    (random : Nat → Nat) (actions : List Action) :
    Run.Always State.act
      (fun d => ∀ datagram ∈ d.sent, IsQuery { myid := id, v }
        (fun af => if af = .inet then s else s6) datagram)
      (State.init s s6 id v now random) actions := by
  apply Run.always_of_kept fun d => Speaks (Speaks.silent s s6 id v now random) d.toNet
  · intro d action next spoke acted
    exact spoke.trans (Speaks.act d action next acted)
  · intro d spoke datagram sent
    rcases spoke.said with ⟨more, all, genuine⟩
    have member : datagram ∈ more := by
      rw [all] at sent
      exact sent
    rcases (genuine datagram member).isQuery with ⟨m, asks, socket, text⟩
    refine ⟨m, asks, ?_, text⟩
    generalize datagram.sa.family = af at socket ⊢
    cases af <;> exact socket
  · exact Speaks.init s s6 id v now random

end Dnsp2p.Dht
