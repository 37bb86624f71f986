import Dnsp2p.Dht.Table
import Dnsp2p.Library.Place

/-!
# How the routing table changes

The functions of the routing table work on the buckets of one address family.
Most of them change only the data of nodes and leave it to `new_node`,
`split_bucket` and `expire_buckets` to put ids into buckets and to take them out.
-/

namespace Dnsp2p.Dht

/-! ## Buckets -/

section Buckets

variable {af : Family}

/-- The ids of the nodes of a bucket. -/
def Bucket.ids (bucket : Bucket af) : List (Field 20) :=
  bucket.nodes.map (·.id)

/-- The part of a bucket that decides which ids it may hold, and which it holds. -/
def Bucket.shape (bucket : Bucket af) : Field 20 × Int × List (Field 20) :=
  (bucket.first, bucket.count, bucket.ids)

/-- The shapes of the buckets of a table. -/
def shapes (buckets : List (Bucket af)) : List (Field 20 × Int × List (Field 20)) :=
  buckets.map Bucket.shape

theorem idCmp_eq_zero_iff {id1 id2 : Field 20} : idCmp id1 id2 = 0 ↔ id1 = id2 :=
  (Field.eq_iff_memcmp id1 id2).symm

/-- The search for an id in a bucket finds nothing when the bucket does not hold it. -/
theorem findIdx?_eq_none_iff_ids {bucket : Bucket af} {id : Field 20} :
    (bucket.nodes.findIdx? fun node => idCmp node.id id = 0) = none ↔ id ∉ bucket.ids := by
  simp [Bucket.ids, idCmp_eq_zero_iff]

theorem shapes_modify {change : Bucket af → Bucket af}
    (same : ∀ bucket, (change bucket).shape = bucket.shape) (buckets : List (Bucket af)) (b : Nat) :
    shapes (buckets.modify b change) = shapes buckets :=
  map_modify_same same buckets b

end Buckets

namespace Table

variable (t : Table) {af : Family}

@[simp]
theorem bucketsOf_setBuckets (buckets : List (Bucket af)) :
    (t.setBuckets af buckets).bucketsOf af = buckets := by
  cases af <;> rfl

@[simp]
theorem bucketsOf_modifyBucket (b : Nat) (change : Bucket af → Bucket af) :
    (t.modifyBucket af b change).bucketsOf af = (t.bucketsOf af).modify b change :=
  bucketsOf_setBuckets t _

@[simp]
theorem bucketsOf_modifyNode (b n : Nat) (change : Node af → Node af) :
    (t.modifyNode af b n change).bucketsOf af = (t.bucketsOf af).modify b fun bucket =>
      { bucket with nodes := bucket.nodes.modify n change } :=
  bucketsOf_modifyBucket t b _

@[simp]
theorem bucketsOf_ping (sa : Sockaddr) (af : Family) :
    (t.ping sa).bucketsOf af = t.bucketsOf af := by
  cases af <;> rfl

end Table

/-! ## One family -/

/-- Of the two bucket lists only that of one family has changed, and neither the
identity of the node, nor the clock, nor the time at which things expire. -/
structure ChangesIn (af : Family) (t t' : Table) : Prop where
  self : t'.self = t.self
  now : t'.now = t.now
  expireStuffTime : t'.expireStuffTime = t.expireStuffTime
  other : t'.bucketsOf af.other = t.bucketsOf af.other

/-- The buckets of a family have kept their shapes. -/
structure Keeps (af : Family) (t t' : Table) : Prop extends ChangesIn af t t' where
  shapes : shapes (t'.bucketsOf af) = shapes (t.bucketsOf af)

namespace ChangesIn

variable {af : Family}

theorem refl (t : Table) : ChangesIn af t t :=
  ⟨rfl, rfl, rfl, rfl⟩

theorem trans {t t' t'' : Table} (first : ChangesIn af t t') (second : ChangesIn af t' t'') :
    ChangesIn af t t'' where
  self := second.self.trans first.self
  now := second.now.trans first.now
  expireStuffTime := second.expireStuffTime.trans first.expireStuffTime
  other := second.other.trans first.other

variable (t : Table)

theorem setBuckets (buckets : List (Bucket af)) : ChangesIn af t (t.setBuckets af buckets) := by
  cases af <;> exact ⟨rfl, rfl, rfl, rfl⟩

theorem modifyBucket (b : Nat) (change : Bucket af → Bucket af) :
    ChangesIn af t (t.modifyBucket af b change) :=
  setBuckets t _

theorem modifyNode (b n : Nat) (change : Node af → Node af) :
    ChangesIn af t (t.modifyNode af b n change) :=
  modifyBucket t b _

end ChangesIn

namespace Keeps

variable {af : Family}

theorem refl (t : Table) : Keeps af t t :=
  ⟨.refl t, rfl⟩

theorem trans {t t' t'' : Table} (first : Keeps af t t') (second : Keeps af t' t'') :
    Keeps af t t'' :=
  ⟨first.toChangesIn.trans second.toChangesIn, second.shapes.trans first.shapes⟩

variable (t : Table)

theorem send (sa : Sockaddr) (out : Option Message.Outgoing) :
    Keeps af t { t with toNet := t.toNet.send sa out } := by
  have net : (t.toNet.send sa out).self = t.self ∧ (t.toNet.send sa out).now = t.now := by
    unfold Net.send
    split
    · exact ⟨rfl, rfl⟩
    · split <;> exact ⟨rfl, rfl⟩
  cases af <;> exact ⟨⟨net.1, net.2, rfl, rfl⟩, rfl⟩

theorem modifyBucket (b : Nat) {change : Bucket af → Bucket af}
    (same : ∀ bucket, (change bucket).shape = bucket.shape) :
    Keeps af t (t.modifyBucket af b change) where
  toChangesIn := .modifyBucket t b change
  shapes := by
    rw [Table.bucketsOf_modifyBucket]
    exact shapes_modify same _ b

theorem modifyNode (b n : Nat) {change : Node af → Node af}
    (same : ∀ node, (change node).id = node.id) : Keeps af t (t.modifyNode af b n change) :=
  modifyBucket t b fun bucket => by
    simp [Bucket.shape, Bucket.ids, map_modify_same same]

theorem ping (sa : Sockaddr) : Keeps af t (t.ping sa) :=
  send t sa _

theorem sendCachedPing (b : Nat) : Keeps af t (t.sendCachedPing af b) := by
  unfold Table.sendCachedPing
  split
  · exact refl t
  · split
    · exact refl t
    · exact (ping t _).trans (modifyBucket _ b fun _ => rfl)

theorem pinged (b n : Nat) : Keeps af t (t.pinged af b n) := by
  unfold Table.pinged
  split
  · exact refl t
  · split
    · exact refl t
    · have counted : Keeps af t (t.modifyNode af b n fun node =>
          { node with pinged := node.pinged + 1, pingedTime := t.now }) :=
        modifyNode t b n fun _ => rfl
      dsimp only
      split
      · exact counted.trans (sendCachedPing _ b)
      · exact counted

theorem pingDubious (b : Nat) (bucket : Bucket af) : Keeps af t (t.pingDubious af b bucket) := by
  unfold Table.pingDubious
  split
  · exact refl t
  · split
    · exact refl t
    · exact (ping t _).trans (modifyNode _ b _ fun _ => rfl)

theorem growMybucket : Keeps af t (t.growMybucket af) := by
  cases af <;> exact ⟨⟨rfl, rfl, rfl, rfl⟩, rfl⟩

end Keeps

theorem Table.refreshNode_id {af : Family} (now : Int) (ss : Endpoint af) (confirm : Nat)
    (node : Node af) :
    (refreshNode now ss confirm node).id = node.id := by
  unfold refreshNode
  split
  · dsimp only
    split <;> split <;> rfl
  · rfl

theorem ChangesIn.splitBucket {af : Family} (t : Table) (b : Nat) :
    ChangesIn af t (t.splitBucket af b) := by
  unfold Table.splitBucket
  split
  · exact .refl t
  · split
    · exact .refl t
    · exact (Keeps.sendCachedPing t b).toChangesIn.trans (.setBuckets _ _)

/-! ## Learning about a node -/

/-- What `new_node` does with an id when it has found a bucket for it: the table
keeps its shapes, or the id takes the place of another one, or is added, or the
bucket is split and everything starts over. -/
inductive Learning (sa : Sockaddr) (confirm : Nat) (id : Field 20) (fuel : Nat) (t : Table)
    (b : Nat) (bucket : Bucket sa.family) : Except Fault Table → Prop
  | kept {t' : Table} (keeps : Keeps sa.family t t') :
      Learning sa confirm id fuel t b bucket (.ok t')
  | replaced {t' : Table} (keeps : Keeps sa.family t t') (foreign : id ≠ t.self.myid)
      (new : id ∉ bucket.ids) (n : Nat) :
      Learning sa confirm id fuel t b bucket
        (.ok (t'.modifyNode sa.family b n fun _ => Table.freshNode t.now id ⟨sa, rfl⟩ confirm))
  | added {t' : Table} (keeps : Keeps sa.family t t') (foreign : id ≠ t.self.myid)
      (new : id ∉ bucket.ids) (room : bucket.count < 8) :
      Learning sa confirm id fuel t b bucket
        (.ok (t'.modifyBucket sa.family b fun bucket =>
          { bucket with
            nodes := Table.freshNode t.now id ⟨sa, rfl⟩ confirm :: bucket.nodes
            count := bucket.count + 1 }))
  | split {t' : Table} (keeps : Keeps sa.family t t') (foreign : id ≠ t.self.myid)
      (new : id ∉ bucket.ids) (full : 8 ≤ bucket.count) :
      Learning sa confirm id fuel t b bucket
        (Table.learn sa confirm id fuel (t'.splitBucket sa.family b))

theorem learn_succ {sa : Sockaddr} {confirm : Nat} {id : Field 20} {fuel : Nat} {t : Table}
    {b : Nat} {bucket : Bucket sa.family} (found : findBucket (t.bucketsOf sa.family) id = some b)
    (there : (t.bucketsOf sa.family)[b]? = some bucket) :
    Learning sa confirm id fuel t b bucket (Table.learn sa confirm id (fuel + 1) t) := by
  rw [Table.learn]
  simp only [found, there]
  split
  · exact .kept (.refl t)
  · next other =>
    have foreign : id ≠ t.self.myid := fun own => other (idCmp_eq_zero_iff.mpr own)
    split
    · exact .kept (.refl t)
    · have confirmed : Keeps sa.family t (if confirm = 2 then
          t.modifyBucket sa.family b fun bucket => { bucket with time := t.now } else t) := by
        split
        · exact .modifyBucket t b fun _ => rfl
        · exact .refl t
      generalize (if confirm = 2 then
        t.modifyBucket sa.family b fun bucket => { bucket with time := t.now } else t) = t₁ at *
      split
      · exact .kept (confirmed.trans (.modifyNode t₁ b _ fun _ => Table.refreshNode_id _ _ _ _))
      · next unknown =>
        have new : id ∉ bucket.ids := findIdx?_eq_none_iff_ids.mp unknown
        have grown : Keeps sa.family t (if inBucket t.self.myid bucket
            (t.bucketsOf sa.family)[b + 1]? then t₁.growMybucket sa.family else t₁) := by
          split
          · exact confirmed.trans (.growMybucket t₁)
          · exact confirmed
        generalize (if inBucket t.self.myid bucket (t.bucketsOf sa.family)[b + 1]? then
          t₁.growMybucket sa.family else t₁) = t₂ at *
        split
        · rw [grown.now]
          exact .replaced grown foreign new _
        · split
          · next full =>
            have asked := grown.trans (.pingDubious t₂ b bucket)
            split
            · exact .split asked foreign new full
            · split
              · exact .kept (asked.trans (.modifyBucket _ b fun _ => rfl))
              · exact .kept asked
          · next notFull =>
            rw [grown.now]
            exact .added grown foreign new (not_le.mp notFull)

/-- Without a bucket for the id nothing is learnt. -/
theorem learn_cases (sa : Sockaddr) (confirm : Nat) (id : Field 20) (fuel : Nat) (t : Table) :
    t.learn sa confirm id (fuel + 1) = .ok t ∨
      ∃ b bucket, Learning sa confirm id fuel t b bucket (t.learn sa confirm id (fuel + 1)) := by
  cases found : findBucket (t.bucketsOf sa.family) id with
  | none =>
      left
      rw [Table.learn]
      simp only [found]
  | some b =>
      cases there : (t.bucketsOf sa.family)[b]? with
      | none =>
          left
          rw [Table.learn]
          simp only [found, there]
      | some bucket => exact .inr ⟨b, bucket, learn_succ found there⟩

/-- Learning about a node changes the buckets of one family. -/
theorem ChangesIn.learn (sa : Sockaddr) (confirm : Nat) (id : Field 20) (fuel : Nat) (t : Table) :
    Returns (t.learn sa confirm id fuel) (ChangesIn sa.family t) := by
  induction fuel generalizing t with
  | zero => exact .fault _ _
  | succ fuel ih =>
      rcases learn_cases sa confirm id fuel t with same | ⟨b, bucket, learning⟩
      · rw [same]
        exact .ok (.refl t)
      · generalize t.learn sa confirm id (fuel + 1) = result at learning
        cases learning with
        | kept keeps => exact .ok keeps.toChangesIn
        | replaced keeps => exact .ok (keeps.toChangesIn.trans (.modifyNode _ b _ _))
        | added keeps => exact .ok (keeps.toChangesIn.trans (.modifyBucket _ b _))
        | split keeps =>
            intro t' returned
            exact (keeps.toChangesIn.trans (.splitBucket _ b)).trans (ih _ t' returned)

/-- Learning about a node goes wrong only by splitting buckets for ever. -/
theorem learn_error {sa : Sockaddr} {confirm : Nat} {id : Field 20} {fault : Fault} (fuel : Nat)
    {t : Table} (failed : t.learn sa confirm id fuel = .error fault) :
    fault = .nonterminating := by
  induction fuel generalizing t with
  | zero =>
      cases failed
      rfl
  | succ fuel ih =>
      rcases learn_cases sa confirm id fuel t with same | ⟨b, bucket, learning⟩
      · cases same.symm.trans failed
      · generalize t.learn sa confirm id (fuel + 1) = result at learning failed
        cases learning with
        | split keeps => exact ih failed
        | kept => cases failed
        | replaced => cases failed
        | added => cases failed

end Dnsp2p.Dht
