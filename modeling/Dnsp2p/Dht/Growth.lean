import Dnsp2p.Dht.Shape
import Dnsp2p.Dht.State
import Dnsp2p.Library.Run

/-!
# The routing table over a run

Every function that changes the routing table keeps its shape, so that it has this
shape after any sequence of such changes, at whatever times they are made.
-/

namespace Dnsp2p.Dht

open Dnsp2p.Tiling

/-! ## Changes that keep the shape -/

/-- A change of the buckets of a family after which they still tile all ids; a
family without buckets gets none. -/
structure Evolves (af : Family) (t t' : Table) : Prop extends ChangesIn af t t' where
  tiled : Tiled t.self.myid (t.bucketsOf af) → Tiled t.self.myid (t'.bucketsOf af)
  closed : t.bucketsOf af = [] → t'.bucketsOf af = []

/-- A bucket of a family, its range, and the buckets around it. -/
structure Located (t : Table) (af : Family) (before : List (Bucket af)) (lower : Nat)
    (bucket : Bucket af) (upper : Nat) (after : List (Bucket af)) : Prop
    extends Around (Sound t.self.myid) 0 (2 ^ 160) before lower bucket upper after where
  buckets : t.bucketsOf af = before ++ bucket :: after

section Changes

variable {af : Family} {t t' : Table}

theorem Evolves.refl (t : Table) : Evolves af t t :=
  ⟨.refl t, fun tiled => tiled, fun closed => closed⟩

theorem Evolves.trans {t'' : Table} (first : Evolves af t t') (second : Evolves af t' t'') :
    Evolves af t t'' where
  toChangesIn := first.toChangesIn.trans second.toChangesIn
  tiled := fun tiled => first.self ▸ second.tiled (first.self.symm ▸ first.tiled tiled)
  closed := fun closed => second.closed (first.closed closed)

/-- A change that keeps the shapes of the buckets. -/
theorem Keeps.evolves (keeps : Keeps af t t') : Evolves af t t' where
  toChangesIn := keeps.toChangesIn
  tiled := tiles_of_shapes keeps.shapes
  closed := by
    intro closed
    have same := keeps.shapes
    rw [closed] at same
    exact List.map_eq_nil_iff.mp same

variable {before after : List (Bucket af)} {lower upper : Nat} {bucket : Bucket af}

namespace Located

theorem getElem? (located : Located t af before lower bucket upper after) :
    (t.bucketsOf af)[before.length]? = some bucket := by
  simp [located.buckets]

theorem next? (located : Located t af before lower bucket upper after) :
    (t.bucketsOf af)[before.length + 1]? = after.head? := by
  rw [located.buckets, List.getElem?_append_right (Nat.le_add_right before.length 1),
    Nat.add_sub_cancel_left]
  cases after <;> rfl

theorem upperBound (located : Located t af before lower bucket upper after) :
    upperBound after.head? = upper :=
  upperBound_head? located.back

theorem findBucket (located : Located t af before lower bucket upper after) {id : Field 20}
    (within : lower ≤ number id ∧ number id < upper) :
    findBucket (t.bucketsOf af) id = some before.length := by
  rw [located.buckets]
  exact findBucket_around Sound.first located.toAround within

/-- A change of the bucket that fits on its range. -/
theorem modifyBucket (located : Located t af before lower bucket upper after)
    {change : Bucket af → Bucket af} (sound : Sound t.self.myid lower upper (change bucket)) :
    Evolves af t (t.modifyBucket af before.length change) where
  toChangesIn := .modifyBucket t _ change
  tiled := by
    intro _
    rw [Table.bucketsOf_modifyBucket, located.buckets, modify_append_cons]
    exact located.set sound
  closed := by
    intro closed
    rw [located.buckets] at closed
    simp at closed

/-- The bucket at the same place after its shape was kept. -/
theorem keeps (located : Located t af before lower bucket upper after) (keeps : Keeps af t t') :
    ∃ before' bucket' after', Located t' af before' lower bucket' upper after' ∧
      before'.length = before.length ∧ bucket'.shape = bucket.shape := by
  have same := keeps.shapes
  rw [located.buckets, shapes, shapes, List.map_append, List.map_cons] at same
  rcases List.map_eq_append_iff.mp same with ⟨before', rest, buckets', front, behind⟩
  rcases List.map_eq_cons_iff.mp behind with ⟨bucket', after', rfl, shape, back⟩
  refine ⟨before', bucket', after', ⟨⟨?_, located.wide, ?_, ?_⟩, buckets'⟩, ?_, shape⟩
  · rw [keeps.self]
    exact tiles_of_shapes front located.front
  · rw [keeps.self]
    exact located.fit.of_shape shape
  · rw [keeps.self]
    exact tiles_of_shapes back located.back
  · have lengths := congrArg List.length front
    rwa [List.length_map, List.length_map] at lengths

end Located

/-- Each id has its bucket. -/
theorem located_of_tiled (tiled : Tiled t.self.myid (t.bucketsOf af)) (id : Field 20) :
    ∃ before lower bucket upper after, Located t af before lower bucket upper after ∧
      lower ≤ number id ∧ number id < upper := by
  obtain ⟨before, lower, bucket, upper, after, buckets, around, within⟩ :=
    tiled.around_of_mem (Nat.zero_le _) (number_lt id)
  exact ⟨before, lower, bucket, upper, after, ⟨around, buckets⟩, within⟩

/-! ## Splitting -/

/-- A bucket of more than one id has a middle. -/
theorem middle_of_located (located : Located t af before lower bucket upper after) {exponent : Nat}
    (dyadic : Dyadic (exponent + 1) lower upper) :
    ∃ middle, bucketMiddle bucket after.head? = some middle ∧
      number middle = lower + 2 ^ exponent := by
  have small : exponent < 160 := by
    have top := located.back.le
    rw [dyadic.length] at top
    exact (Nat.pow_le_pow_iff_right (a := 2) (by decide)).mp (le_of_add_le_right top)
  have range : Dyadic (exponent + 1) (number bucket.first) (upperBound after.head?) := by
    rw [located.fit.first, located.upperBound]
    exact dyadic
  rw [← located.fit.first]
  exact bucketMiddle_eq_some small range

/-- `split_bucket` cuts the range of a bucket into two halves. -/
theorem splitBucket_halves (located : Located t af before lower bucket upper after) {exponent : Nat}
    (dyadic : Dyadic (exponent + 1) lower upper) :
    ∃ before' low high after',
      Located (t.splitBucket af before.length) af before' lower low (lower + 2 ^ exponent)
        (high :: after') ∧
      Located (t.splitBucket af before.length) af (before' ++ [low]) (lower + 2 ^ exponent)
        high upper after' := by
  have pinged : Keeps af t (t.sendCachedPing af before.length) := .sendCachedPing t _
  have changes : ChangesIn af t (t.splitBucket af before.length) := .splitBucket t _
  obtain ⟨before', bucket', after', kept, length, _⟩ :=
    located.keeps pinged
  rcases middle_of_located located dyadic with ⟨middle, halved, place⟩
  have ascending : lower < lower + 2 ^ exponent ∧ lower + 2 ^ exponent < upper := by
    have positive := Nat.two_pow_pos exponent
    rw [dyadic.length, pow_succ]
    omega
  obtain ⟨low, high, folded, lowFilled, highFilled⟩ := foldl_insertNode bucket.nodes
    { bucket' with nodes := [], count := 0 }
    { Bucket.zero af with first := middle, time := bucket.time } (kept.front.mono Sound.first)
      (kept.back.mono Sound.first) ascending
    kept.fit.first place (fun node mem => located.fit.inside node.id (List.mem_map_of_mem mem))
  have split : (t.splitBucket af before.length).bucketsOf af =
      before' ++ low :: high :: after' := by
    rw [Table.splitBucket]
    simp only [located.getElem?, located.next?, halved, Table.bucketsOf_setBuckets]
    rw [kept.buckets, ← length, modify_append_cons, insert_behind]
    exact folded
  have lowSound : Sound t.self.myid lower (lower + 2 ^ exponent) low := by
    refine located.fit.of_filled ?_ rfl rfl dyadic.lower_half lowFilled fun id mem below => ?_
    · exact kept.fit.first
    · exact ⟨(located.fit.inside id mem).1, by simpa using below⟩
  have highSound : Sound t.self.myid (lower + 2 ^ exponent) upper high := by
    apply located.fit.of_filled place rfl rfl dyadic.upper_half highFilled
    intro id mem above
    exact ⟨by simpa using above, (located.fit.inside id mem).2⟩
  have front := pinged.self ▸ kept.front
  have back := pinged.self ▸ kept.back
  refine ⟨before', low, high, after', ⟨?_, split⟩, ⟨?_, ?_⟩⟩
  · rw [changes.self]
    exact ⟨front, ascending.1, lowSound, .cons ascending.2 highSound back⟩
  · rw [changes.self]
    exact ⟨front.append (.singleton ascending.1 lowSound), ascending.2, highSound, back⟩
  · rw [split, List.append_assoc, List.singleton_append]

theorem Evolves.splitBucket (located : Located t af before lower bucket upper after)
    {exponent : Nat} (dyadic : Dyadic (exponent + 1) lower upper) :
    Evolves af t (t.splitBucket af before.length) where
  toChangesIn := .splitBucket t _
  tiled := by
    intro _
    have changes : ChangesIn af t (t.splitBucket af before.length) := .splitBucket t _
    rcases splitBucket_halves located dyadic with ⟨before', low, high, after', halved, _⟩
    rw [← changes.self, halved.buckets]
    exact halved.tiles
  closed := by
    intro closed
    rw [located.buckets] at closed
    simp at closed

/-- A full bucket has more than one id in its range. -/
theorem Located.wide_of_full (located : Located t af before lower bucket upper after)
    (full : 8 ≤ bucket.count) : ∃ exponent, Dyadic (exponent + 1) lower upper := by
  rcases located.fit.dyadic with ⟨exponent, dyadic⟩
  have count := located.fit.count
  have few : bucket.ids.length ≤ upper - lower := by
    have distinct : (bucket.ids.map number).Nodup :=
      located.fit.distinct.map fun first second same =>
        Field.ext (value_injective (first.length_eq.trans second.length_eq.symm) same)
    have within : ∀ n ∈ bucket.ids.map number, lower ≤ n ∧ n < upper := by
      intro n mem
      rcases List.mem_map.mp mem with ⟨id, held, rfl⟩
      exact located.fit.inside id held
    have bound := length_le_of_nodup distinct within
    rwa [List.length_map] at bound
  cases exponent with
  | zero =>
      have length := dyadic.length
      omega
  | succ exponent => exact ⟨exponent, dyadic⟩

end Changes

/-! ## Learning about a node -/

section Learn

variable {sa : Sockaddr} {confirm : Nat} {id : Field 20}

/-- `new_node` returns, since its bucket gets smaller with every split. -/
theorem learn_evolves (fuel : Nat) {t : Table} {before after : List (Bucket sa.family)}
    {lower upper : Nat} {bucket : Bucket sa.family}
    (located : Located t sa.family before lower bucket upper after)
    (within : lower ≤ number id ∧ number id < upper) (enough : upper - lower < 2 ^ fuel) :
    ∃ t', t.learn sa confirm id fuel = .ok t' ∧ Evolves sa.family t t' := by
  induction fuel generalizing t before bucket after lower upper with
  | zero =>
      have positive : 0 < upper - lower := Nat.sub_pos_of_lt located.wide
      rw [pow_zero] at enough
      omega
  | succ fuel ih =>
      have learning : Learning sa confirm id fuel t before.length bucket _ :=
        learn_succ (located.findBucket within) located.getElem?
      generalize t.learn sa confirm id (fuel + 1) = result at learning
      cases learning with
      | kept keeps => exact ⟨_, rfl, keeps.evolves⟩
      | replaced keeps foreign new n =>
          rcases located.keeps keeps with ⟨before', bucket', after', kept, length, shape⟩
          have ids : bucket'.ids = bucket.ids := congrArg (·.2.2) shape
          have sound := kept.fit.replace (Table.freshNode t.now id ⟨sa, rfl⟩ confirm) rfl
            (keeps.self ▸ foreign) (ids ▸ new) within n
          exact ⟨_, rfl, keeps.evolves.trans (length ▸ kept.modifyBucket sound)⟩
      | added keeps foreign new room =>
          rcases located.keeps keeps with ⟨before', bucket', after', kept, length, shape⟩
          have ids : bucket'.ids = bucket.ids := congrArg (·.2.2) shape
          have count : bucket'.count = bucket.count := congrArg (·.2.1) shape
          have sound := kept.fit.add (Table.freshNode t.now id ⟨sa, rfl⟩ confirm) rfl
            (keeps.self ▸ foreign) (ids ▸ new) within (count ▸ room)
          exact ⟨_, rfl, keeps.evolves.trans (length ▸ kept.modifyBucket sound)⟩
      | @split t' keeps foreign new full =>
          rcases located.keeps keeps with ⟨before', bucket', after', kept, length, shape⟩
          rcases located.wide_of_full full with ⟨exponent, dyadic⟩
          have split := Evolves.splitBucket kept dyadic
          have less : 2 ^ exponent < 2 ^ fuel := by
            rw [dyadic.length, Nat.add_sub_cancel_left] at enough
            have smaller := (Nat.pow_lt_pow_iff_right (a := 2) (by decide)).mp enough
            exact Nat.pow_lt_pow_right (by decide) (Nat.lt_of_succ_lt_succ smaller)
          rcases splitBucket_halves kept dyadic with ⟨front, low, high, back, left, right⟩
          have learnt : ∃ t'', (t'.splitBucket sa.family before'.length).learn sa confirm id fuel =
              .ok t'' ∧ Evolves sa.family (t'.splitBucket sa.family before'.length) t'' := by
            by_cases below : number id < lower + 2 ^ exponent
            · exact ih left ⟨within.1, below⟩ (by omega)
            · refine ih right ⟨not_lt.mp below, within.2⟩ ?_
              rw [dyadic.length, pow_succ]
              omega
          rcases learnt with ⟨t'', returned, evolves⟩
          rw [← length]
          exact ⟨t'', returned, (keeps.evolves.trans split).trans evolves⟩

/-- `new_node` with an id of twenty bytes returns and keeps the shape. -/
theorem newNode_evolves (id : Field 20) (confirm : Nat) {t : Table}
    (shape : t.bucketsOf sa.family = [] ∨ Tiled t.self.myid (t.bucketsOf sa.family)) :
    ∃ t', t.newNode id.bytes sa confirm = .ok t' ∧ Evolves sa.family t t' := by
  unfold Table.newNode
  split
  · exact ⟨t, rfl, .refl t⟩
  · next open_ =>
    have tiled := shape.resolve_left fun closed => open_ (by rw [closed]; rfl)
    rw [Field.read_bytes]
    rcases located_of_tiled tiled id with ⟨before, lower, bucket, upper, after, located, within⟩
    apply learn_evolves Table.splitFuel located within
    have top := located.back.le
    have more : 2 ^ 160 < 2 ^ Table.splitFuel := Nat.pow_lt_pow_right (by decide) (by decide)
    omega

end Learn

end Dnsp2p.Dht
