import Dnsp2p.Dht.Growth
import Dnsp2p.Dht.Periodic

/-!
# The routing table over a run

Every function that changes the routing table keeps its shape, so that it has this
shape after any sequence of such changes, at whatever times they are made.  A table
of this shape finds a node by its id whenever it holds one.
-/

namespace Dnsp2p.Dht

open Dnsp2p.Tiling

/-! ## What the shape means -/

/-- The bucket list of a family that has a table. -/
structure Shaped (myid : Field 20) {af : Family} (buckets : List (Bucket af)) : Prop where
  start : (buckets.head?).map (·.first) = some (Field.zero 20)
  increasing : buckets.Pairwise fun bucket bucket' => bucket.first < bucket'.first
  aligned : ∀ (i : Nat) (bucket : Bucket af), buckets[i]? = some bucket →
    ∃ exponent, Dyadic exponent (number bucket.first) (upperBound buckets[i + 1]?)
  inside : ∀ (i : Nat) (bucket : Bucket af), buckets[i]? = some bucket →
    ∀ node ∈ bucket.nodes, inBucket node.id bucket buckets[i + 1]? = true ∧ node.ss.1.family = af
  distinct : (buckets.flatMap Bucket.ids).Nodup
  foreign : myid ∉ buckets.flatMap Bucket.ids
  counted : ∀ bucket ∈ buckets, bucket.count = bucket.nodes.length ∧ bucket.count ≤ 8
  found : ∀ (id : Field 20) (b n : Nat), findNode buckets id = some (b, n) ↔
    ∃ bucket node, buckets[b]? = some bucket ∧ bucket.nodes[n]? = some node ∧ node.id = id

section Shaped

variable {myid : Field 20} {af : Family} {buckets : List (Bucket af)}

/-- A bucket at a place, and where its range ends. -/
theorem around_of_getElem? (tiled : Tiled myid buckets) {i : Nat} {bucket : Bucket af}
    (there : buckets[i]? = some bucket) :
    Sound myid (number bucket.first) (upperBound buckets[i + 1]?) bucket ∧
      ∀ id, number bucket.first ≤ number id ∧ number id < upperBound buckets[i + 1]? →
        findBucket buckets id = some i := by
  rcases tiled.around_of_getElem? there with ⟨before, lower, upper, after, rfl, rfl, around⟩
  have next : (before ++ bucket :: after)[before.length + 1]? = after.head? := by
    rw [List.getElem?_append_right (Nat.le_add_right before.length 1), Nat.add_sub_cancel_left]
    cases after <;> rfl
  rw [next, around.fit.first, upperBound_head? around.back]
  exact ⟨around.fit, fun id within => findBucket_around Sound.first around within⟩

theorem sound_of_mem (tiled : Tiled myid buckets) {bucket : Bucket af} (mem : bucket ∈ buckets) :
    ∃ lower upper, Sound myid lower upper bucket := by
  rcases List.mem_iff_getElem?.mp mem with ⟨i, there⟩
  exact ⟨_, _, (around_of_getElem? tiled there).1⟩

theorem inBucket_iff {id : Field 20} {bucket : Bucket af} {next : Option (Bucket af)} :
    inBucket id bucket next = true ↔
      number bucket.first ≤ number id ∧ number id < upperBound next := by
  have low : idCmp bucket.first id ≤ 0 ↔ number bucket.first ≤ number id := by
    have swap : idCmp bucket.first id = -idCmp id bucket.first := memcmp_swap _ _
    have less := idCmp_neg_iff id bucket.first
    omega
  unfold inBucket
  cases next with
  | none =>
      have below : number id < upperBound (none : Option (Bucket af)) := number_lt id
      simp [low, below]
  | some next => simp [low, upperBound, idCmp_neg_iff]

/-- `find_node` finds the nodes that the table holds. -/
theorem findNode_eq_some_iff (tiled : Tiled myid buckets) (id : Field 20) (b n : Nat) :
    findNode buckets id = some (b, n) ↔
      ∃ bucket node, buckets[b]? = some bucket ∧ bucket.nodes[n]? = some node ∧ node.id = id := by
  constructor
  · intro result
    simp only [findNode, Option.bind_eq_bind, Option.bind_eq_some_iff, Option.some.injEq,
      Prod.mk.injEq] at result
    rcases result with ⟨b', _, bucket, there, n', listed, rfl, rfl⟩
    rcases List.findIdx?_eq_some_iff_getElem.mp listed with ⟨inside, same, _⟩
    exact ⟨bucket, bucket.nodes[n'], there, List.getElem?_eq_getElem inside,
      idCmp_eq_zero_iff.mp (of_decide_eq_true same)⟩
  · rintro ⟨bucket, node, there, listed, rfl⟩
    rcases around_of_getElem? tiled there with ⟨sound, finds⟩
    have held : bucket.ids[n]? = some node.id := by simp [Bucket.ids, listed]
    have place := finds node.id (sound.inside node.id (List.mem_of_getElem? held))
    cases first : bucket.nodes.findIdx? fun other => idCmp other.id node.id = 0 with
    | none => exact absurd (List.mem_of_getElem? held) (findIdx?_eq_none_iff_ids.mp first)
    | some m =>
        rcases List.findIdx?_eq_some_iff_getElem.mp first with ⟨inside, same, _⟩
        have held' : bucket.ids[m]? = some node.id := by
          simp [Bucket.ids, inside, idCmp_eq_zero_iff.mp (of_decide_eq_true same)]
        have only := nodup_iff_place_unique.mp sound.distinct m n _ held' held
        simp [findNode, place, there, first, only]

theorem number_zero : number (Field.zero 20) = 0 := by
  decide +kernel

/-- Buckets that tile all ids have the shape. -/
theorem Shaped.of_tiled (tiled : Tiled myid buckets) : Shaped myid buckets where
  start := by
    cases tiled with
    | cons _ fit _ =>
        have same : number _ = number (Field.zero 20) := fit.first.trans number_zero.symm
        exact congrArg some (Field.ext (value_injective (Field.length_eq _) same))
  increasing := tiled.pairwise fun sound sound' wide le => by
    have less : number _ < number _ := sound.first ▸ sound'.first ▸ wide.trans_le le
    exact less
  aligned := fun i bucket there => (around_of_getElem? tiled there).1.dyadic
  inside := by
    intro i bucket there node mem
    rcases around_of_getElem? tiled there with ⟨sound, _⟩
    exact ⟨inBucket_iff.mpr (sound.inside node.id (List.mem_map_of_mem mem)), node.ss.2⟩
  distinct := by
    rw [List.nodup_flatMap]
    constructor
    · intro bucket mem
      rcases sound_of_mem tiled mem with ⟨_, _, sound⟩
      exact sound.distinct
    · refine tiled.pairwise fun sound sound' _ le id mem mem' => ?_
      have below := (sound.inside id mem).2
      have above := (sound'.inside id mem').1
      omega
  foreign := by
    intro mem
    rcases List.mem_flatMap.mp mem with ⟨bucket, listed, held⟩
    rcases sound_of_mem tiled listed with ⟨_, _, sound⟩
    exact sound.foreign held
  counted := by
    intro bucket mem
    rcases sound_of_mem tiled mem with ⟨_, _, sound⟩
    have count := sound.count
    have atMost := sound.atMost
    rw [Bucket.ids, List.length_map] at count atMost
    exact ⟨count, by omega⟩
  found := findNode_eq_some_iff tiled

end Shaped

/-! ## Steps -/

/-- A function that changes the routing table, with its arguments. -/
inductive Step where
  | newNode (id : Field 20) (sa : Sockaddr) (confirm : Nat)
  | pinged (af : Family) (b n : Nat)
  | brokenNode (id : Option (Field 20)) (sa : Sockaddr)
  | expireBuckets (af : Family)

/-- The function is called at a given time. -/
def State.take (d : State) : Int × Step → Except Fault State
  | (now, step) =>
      let d : State := { d with now }
      match step with
      | .newNode id sa confirm => d.newNode id.bytes sa confirm
      | .pinged af b n => .ok { d with toTable := d.toTable.pinged af b n }
      | .brokenNode id sa => d.brokenNode (id.map (·.bytes)) sa
      | .expireBuckets af => .ok { d with toTable := d.toTable.expireBuckets af }

/-- The tables of the families that have one tile all ids. -/
structure Upright (opened : Family → Prop) (myid : Field 20) (t : Table) : Prop where
  self : t.self.myid = myid
  tiled : ∀ af, opened af → Tiled myid (t.bucketsOf af)
  closed : ∀ af, ¬ opened af → t.bucketsOf af = []

section Steps

variable {opened : Family → Prop} {myid : Field 20} {t t' : Table}

theorem Upright.evolves (upright : Upright opened myid t) {af : Family}
    (evolves : Evolves af t t') :
    Upright opened myid t' := by
  rcases upright with ⟨rfl, tiled, closed⟩
  have other {af' : Family} (different : af' ≠ af) : t'.bucketsOf af' = t.bucketsOf af' := by
    have same := evolves.other
    cases af <;> cases af' <;> first | exact same | exact absurd rfl different
  refine ⟨congrArg (·.myid) evolves.self, fun af' isOpen => ?_, fun af' isClosed => ?_⟩
  · by_cases same : af' = af
    · subst same
      exact evolves.tiled (tiled af' isOpen)
    · rw [other same]
      exact tiled af' isOpen
  · by_cases same : af' = af
    · subst same
      exact evolves.closed (closed af' isClosed)
    · rw [other same]
      exact closed af' isClosed

/-- Only the identity and the bucket lists count. -/
theorem Upright.of_same (upright : Upright opened myid t) (self : t'.self = t.self)
    (buckets : ∀ af, t'.bucketsOf af = t.bucketsOf af) : Upright opened myid t' where
  self := self ▸ upright.self
  tiled := fun af isOpen => buckets af ▸ upright.tiled af isOpen
  closed := fun af isClosed => buckets af ▸ upright.closed af isClosed

variable {af : Family}

/-- A change of a bucket that fits on every range that the bucket fits on. -/
theorem Evolves.modifyBucket {b : Nat} {bucket : Bucket af}
    (there : (t.bucketsOf af)[b]? = some bucket) {change : Bucket af → Bucket af}
    (sound : ∀ lower upper, Sound t.self.myid lower upper bucket →
      Sound t.self.myid lower upper (change bucket)) :
    Evolves af t (t.modifyBucket af b change) where
  toChangesIn := .modifyBucket t b change
  tiled := by
    intro tiled
    rcases tiled.around_of_getElem? there with ⟨before, lower, upper, after, buckets, rfl, around⟩
    have located : Located t af before lower bucket upper after := ⟨around, buckets⟩
    exact (located.modifyBucket (sound lower upper around.fit)).tiled tiled
  closed := by
    intro closed
    rw [closed] at there
    cases there

/-- `expire_buckets` takes nodes out of a bucket and counts them. -/
theorem Evolves.expireBucket (t : Table) (b : Nat) : Evolves af t (t.expireBucket af b) := by
  unfold Table.expireBucket
  split
  · exact .refl t
  · next bucket there =>
    dsimp only
    split
    · exact .refl t
    · refine (modifyBucket there fun lower upper sound => ?_).trans
        (Keeps.sendCachedPing _ b).evolves
      refine sound.of_sublist rfl (List.filter_sublist.map _) ?_
      have count := sound.count
      simp only [Bucket.ids, List.length_map] at count ⊢
      omega

theorem Upright.expireBuckets (upright : Upright opened myid t) (af : Family) :
    Upright opened myid (t.expireBuckets af) := by
  have loop : ∀ (places : List Nat) (t : Table), Upright opened myid t →
      Upright opened myid (places.foldl (fun t b => t.expireBucket af b) t) := by
    intro places
    induction places with
    | nil => exact fun t upright => upright
    | cons b places ih => exact fun t upright => ih _ (upright.evolves (.expireBucket t b))
  exact (loop _ t upright).of_same rfl fun af => by cases af <;> rfl

theorem Upright.newNode {d : State} (upright : Upright opened myid d.toTable) (id : Field 20)
    (sa : Sockaddr) (confirm : Nat) :
    ∃ d', d.newNode id.bytes sa confirm = .ok d' ∧ Upright opened myid d'.toTable := by
  have shape : d.bucketsOf sa.family = [] ∨ Tiled d.self.myid (d.bucketsOf sa.family) := by
    rw [upright.self]
    by_cases isOpen : opened sa.family
    · exact .inr (upright.tiled _ isOpen)
    · exact .inl (upright.closed _ isOpen)
  rcases newNode_evolves id confirm shape with ⟨t', returned, evolves⟩
  refine ⟨{ d with toTable := t' }, ?_, upright.evolves evolves⟩
  rw [State.newNode, returned]
  rfl

theorem Upright.breakNode {d : State} (upright : Upright opened myid d.toTable) (id : Field 20)
    (sa : Sockaddr) : Upright opened myid (d.breakNode id sa).toTable := by
  unfold State.breakNode
  dsimp only
  split
  · exact upright
  · next b n _ =>
    have marked : Keeps sa.family d.toTable (d.toTable.modifyNode sa.family b n fun node =>
        { node with pinged := 3 }) := .modifyNode d.toTable b n fun _ => rfl
    exact upright.evolves (marked.trans (.pinged _ _ _)).evolves

theorem Upright.brokenNode {d : State} (upright : Upright opened myid d.toTable)
    (id : Option (Field 20)) (sa : Sockaddr) :
    ∃ d', d.brokenNode (id.map (·.bytes)) sa = .ok d' ∧ Upright opened myid d'.toTable := by
  cases id with
  | none => exact ⟨_, rfl, upright⟩
  | some id =>
      have read : Field.read 20 id.bytes = some id := Field.read_bytes id
      simp only [State.brokenNode, Option.map_some, read, ok_bind]
      exact ⟨_, rfl, upright.breakNode id sa⟩

/-- Every step returns and keeps the tables upright. -/
theorem Upright.take {d : State} (upright : Upright opened myid d.toTable) (step : Int × Step) :
    ∃ d', d.take step = .ok d' ∧ Upright opened myid d'.toTable := by
  rcases step with ⟨now, step⟩
  have later : Upright opened myid { d with now := now : State }.toTable :=
    upright.of_same rfl fun af => by cases af <;> rfl
  cases step with
  | newNode id sa confirm => exact later.newNode id sa confirm
  | pinged af b n => exact ⟨_, rfl, later.evolves (Keeps.pinged _ b n).evolves⟩
  | brokenNode id sa => exact later.brokenNode id sa
  | expireBuckets af => exact ⟨_, rfl, later.expireBuckets af⟩

end Steps

/-! ## Runs -/

/-- The families for which `dht_init` was given a socket. -/
def opens (s s6 : Int) : Family → Prop
  | .inet => 0 ≤ s
  | .inet6 => 0 ≤ s6

/-- The empty bucket that `calloc` makes covers all ids. -/
theorem tiled_zero (myid : Field 20) (af : Family) : Tiled myid [Bucket.zero af] := by
  refine .singleton (by decide) ?_
  constructor
  · exact number_zero
  · exact ⟨160, dvd_zero _, rfl⟩
  all_goals simp [Bucket.ids, Bucket.zero]

theorem upright_init (s s6 : Int) (id : Field 20) (v : Option (Field 4)) (now : Int)
    (random : Nat → Nat) : Upright (opens s s6) id (State.init s s6 id v now random).toTable := by
  simp only [State.init]
  refine Upright.expireBuckets ?_ .inet6
  refine Upright.expireBuckets ?_ .inet
  refine ⟨rfl, ?_, ?_⟩
  · intro af isOpen
    cases af
    · have buckets : (if 0 ≤ s then [Bucket.zero .inet] else []) = [Bucket.zero .inet] :=
        if_pos isOpen
      exact (congrArg (Tiled id) buckets).mpr (tiled_zero id .inet)
    · have buckets : (if 0 ≤ s6 then [Bucket.zero .inet6] else []) = [Bucket.zero .inet6] :=
        if_pos isOpen
      exact (congrArg (Tiled id) buckets).mpr (tiled_zero id .inet6)
  · intro af isClosed
    cases af
    · exact if_neg isClosed
    · exact if_neg isClosed

/-- After any steps at any times all of them have returned, and the buckets of every
family with a socket have their shape; a family without a socket has none. -/
theorem shaped_of_steps (s s6 : Int) (id : Field 20) (v : Option (Field 4)) (now : Int)
    (random : Nat → Nat) (steps : List (Int × Step)) :
    (∃ last, Run.run State.take (State.init s s6 id v now random) steps = .ok last) ∧
      Run.Always State.take
        (fun d => ∀ af, (opens s s6 af → Shaped id (d.bucketsOf af)) ∧
          (¬ opens s s6 af → d.bucketsOf af = []))
        (State.init s s6 id v now random) steps := by
  refine Run.always_of_total (fun d => Upright (opens s s6) id d.toTable) ?_ ?_
    (upright_init s s6 id v now random) steps
  · exact fun step upright => upright.take step
  · exact fun upright af => ⟨fun isOpen => .of_tiled (upright.tiled af isOpen), upright.closed af⟩

end Dnsp2p.Dht
