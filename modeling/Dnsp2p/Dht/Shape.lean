import Dnsp2p.Dht.Change
import Dnsp2p.Dht.Halving

/-!
# The shape of the routing table

The buckets of a family tile the ids: each covers an aligned range whose length is
a power of two and holds at most eight different ids of that range, none of them
our own.  `new_node` keeps this and returns, because every split halves the bucket
that it is called for.
-/

namespace Dnsp2p.Dht

open Dnsp2p.Tiling

/-! ## Buckets on their ranges -/

/-- A bucket whose range goes from `lo` to `hi`. -/
structure Sound (myid : Field 20) {af : Family} (lo hi : Nat) (bucket : Bucket af) : Prop where
  first : number bucket.first = lo
  dyadic : ∃ exponent, Dyadic exponent lo hi
  inside : ∀ id ∈ bucket.ids, lo ≤ number id ∧ number id < hi
  distinct : bucket.ids.Nodup
  foreign : myid ∉ bucket.ids
  count : bucket.count = bucket.ids.length
  atMost : bucket.ids.length ≤ 8

/-- The buckets of a family tile all ids. -/
abbrev Tiled (myid : Field 20) {af : Family} (buckets : List (Bucket af)) : Prop :=
  Tiles (Sound myid) 0 (2 ^ 160) buckets

section Sound

variable {myid : Field 20} {af : Family} {lo hi : Nat} {bucket : Bucket af}

/-- What fits on a range is decided by the shape of a bucket. -/
theorem Sound.of_shape {bucket' : Bucket af} (same : bucket'.shape = bucket.shape)
    (sound : Sound myid lo hi bucket) : Sound myid lo hi bucket' := by
  simp only [Bucket.shape, Prod.mk.injEq] at same
  rcases same with ⟨first, count, ids⟩
  constructor
  · rw [first]
    exact sound.first
  · exact sound.dyadic
  · rw [ids]
    exact sound.inside
  · rw [ids]
    exact sound.distinct
  · rw [ids]
    exact sound.foreign
  · rw [count, ids]
    exact sound.count
  · rw [ids]
    exact sound.atMost

theorem tiles_of_shapes {buckets buckets' : List (Bucket af)}
    (same : shapes buckets' = shapes buckets) (tiles : Tiles (Sound myid) lo hi buckets) :
    Tiles (Sound myid) lo hi buckets' :=
  tiles.of_map_eq Bucket.shape (fun same sound => sound.of_shape same) same

/-- Ids may leave a bucket. -/
theorem Sound.of_sublist {bucket' : Bucket af} (sound : Sound myid lo hi bucket)
    (first : bucket'.first = bucket.first) (fewer : bucket'.ids.Sublist bucket.ids)
    (count : bucket'.count = bucket'.ids.length) : Sound myid lo hi bucket' where
  first := by rw [first, sound.first]
  dyadic := sound.dyadic
  inside := fun id mem => sound.inside id (fewer.subset mem)
  distinct := sound.distinct.sublist fewer
  foreign := fun mem => sound.foreign (fewer.subset mem)
  count := count
  atMost := fewer.length_le.trans sound.atMost

variable {id : Field 20}

/-- A new id may take the place of another one. -/
theorem Sound.replace (sound : Sound myid lo hi bucket) (node : Node af) (same : node.id = id)
    (foreign : id ≠ myid) (new : id ∉ bucket.ids) (within : lo ≤ number id ∧ number id < hi)
    (n : Nat) :
    Sound myid lo hi { bucket with nodes := bucket.nodes.modify n fun _ => node } := by
  have ids : Bucket.ids { bucket with nodes := bucket.nodes.modify n fun _ => node } =
      bucket.ids.set n id :=
    map_modify_const Node.id (fun _ => same) _ _
  have listed {other : Field 20} (mem : other ∈ bucket.ids.set n id) :
      other ∈ bucket.ids ∨ other = id :=
    List.mem_or_eq_of_mem_set mem
  constructor
  · exact sound.first
  · exact sound.dyadic
  · intro other mem
    rcases listed (ids ▸ mem) with old | rfl
    · exact sound.inside other old
    · exact within
  · rw [ids]
    by_cases there : n < bucket.ids.length
    · rw [nodup_set_iff sound.distinct there]
      intro i listed
      exact absurd (List.mem_of_getElem? listed) new
    · rw [List.set_eq_of_length_le (not_lt.mp there)]
      exact sound.distinct
  · rw [ids]
    intro mem
    rcases listed mem with old | own
    · exact sound.foreign old
    · exact foreign own.symm
  · rw [ids, List.length_set]
    exact sound.count
  · rw [ids, List.length_set]
    exact sound.atMost

/-- A new id may be added where there is room. -/
theorem Sound.add (sound : Sound myid lo hi bucket) (node : Node af) (same : node.id = id)
    (foreign : id ≠ myid) (new : id ∉ bucket.ids) (within : lo ≤ number id ∧ number id < hi)
    (room : bucket.count < 8) :
    Sound myid lo hi { bucket with nodes := node :: bucket.nodes, count := bucket.count + 1 } := by
  have ids : Bucket.ids { bucket with nodes := node :: bucket.nodes, count := bucket.count + 1 } =
      id :: bucket.ids := by
    simp [Bucket.ids, same]
  have count := sound.count
  constructor
  · exact sound.first
  · exact sound.dyadic
  · rw [ids]
    exact List.forall_mem_cons.mpr ⟨within, sound.inside⟩
  · rw [ids]
    exact sound.distinct.cons new
  · rw [ids]
    rw [List.mem_cons, not_or]
    exact ⟨foreign.symm, sound.foreign⟩
  · rw [ids, List.length_cons]
    push_cast
    rw [count]
  · rw [ids, List.length_cons]
    omega

/-- Where a range ends is seen from the bucket behind it. -/
theorem upperBound_head? {buckets : List (Bucket af)}
    (tiles : Tiles (Sound myid) lo (2 ^ 160) buckets) : upperBound buckets.head? = lo := by
  cases tiles with
  | nil => rfl
  | cons _ fit _ => exact fit.first

end Sound

/-! ## Finding a bucket -/

section Find

variable {af : Family} {fits : Nat → Nat → Bucket af → Prop} {lo hi lower upper : Nat}
  {before after : List (Bucket af)} {bucket : Bucket af} {id : Field 20}

theorem idCmp_neg_iff (id1 id2 : Field 20) : idCmp id1 id2 < 0 ↔ number id1 < number id2 :=
  memcmp_neg_iff (id1.length_eq.trans id2.length_eq.symm)

/-- `find_bucket` finds the bucket whose range an id is in. -/
theorem findBucketFrom_around
    (starts : ∀ {lo hi bucket}, fits lo hi bucket → number bucket.first = lo)
    (around : Around fits lo hi before lower bucket upper after)
    (within : lower ≤ number id ∧ number id < upper) :
    findBucketFrom id (before ++ bucket :: after) = before.length := by
  induction before generalizing lo with
  | nil =>
      rcases around with ⟨_, _, _, _ | ⟨_, fit, _⟩⟩
      · rfl
      · have less : idCmp id _ < 0 := (idCmp_neg_iff id _).mpr (starts fit ▸ within.2)
        exact if_pos less
  | cons first before ih =>
      rcases around with ⟨_ | ⟨_, _, front⟩, wide, fit, back⟩
      have found := ih ⟨front, wide, fit, back⟩
      have passes {next : Bucket af} (le : number next.first ≤ lower) :
          ¬ idCmp id next.first < 0 := by
        rw [idCmp_neg_iff]
        omega
      cases front with
      | nil =>
          rw [List.cons_append, List.nil_append, findBucketFrom, if_neg (passes (starts fit).le)]
          rw [List.nil_append] at found
          rw [found]
          rfl
      | cons wide' fit' rest =>
          have le := (starts fit').le.trans (wide'.le.trans rest.le)
          rw [List.cons_append, List.cons_append, findBucketFrom, if_neg (passes le)]
          rw [List.cons_append] at found
          rw [found]
          rfl

theorem findBucket_around (starts : ∀ {lo hi bucket}, fits lo hi bucket → number bucket.first = lo)
    (around : Around fits lo hi before lower bucket upper after)
    (within : lower ≤ number id ∧ number id < upper) :
    findBucket (before ++ bucket :: after) id = some before.length := by
  rw [findBucket, if_neg (by simp), findBucketFrom_around starts around within]

end Find

/-! ## Splitting a bucket -/

section Split

variable {myid : Field 20} {af : Family} {fits : Nat → Nat → Bucket af → Prop}
  {lo mid hi top : Nat} {before after : List (Bucket af)}

/-- `insert_node` puts a node into the bucket whose range its id is in. -/
theorem insertNode_around (starts : ∀ {lo hi bucket}, fits lo hi bucket → number bucket.first = lo)
    {bucket : Bucket af} (around : Around fits 0 top before lo bucket hi after) {node : Node af}
    (within : lo ≤ number node.id ∧ number node.id < hi) :
    insertNode (before ++ bucket :: after) node =
      before ++ { bucket with nodes := node :: bucket.nodes, count := bucket.count + 1 } ::
        after := by
  rw [insertNode, findBucket_around starts around within]
  exact modify_append_cons before after bucket _

/-- A bucket that a split fills with ids, the last one first. -/
def Bucket.Filled (bucket bucket' : Bucket af) (ids : List (Field 20)) : Prop :=
  bucket'.shape = (bucket.first, bucket.count + ids.length, ids.reverse ++ bucket.ids)

theorem Bucket.Filled.nil (bucket : Bucket af) : bucket.Filled bucket [] := by
  simp [Bucket.Filled, Bucket.shape]

/-- The first node is inserted before the others. -/
theorem Bucket.Filled.cons {bucket bucket' : Bucket af} {node : Node af} {ids : List (Field 20)}
    (filled : Bucket.Filled
      { bucket with nodes := node :: bucket.nodes, count := bucket.count + 1 } bucket' ids) :
    bucket.Filled bucket' (node.id :: ids) := by
  simp only [Bucket.Filled, Bucket.ids, List.map_cons] at filled
  simp only [Bucket.Filled, filled, Bucket.ids, List.length_cons, List.reverse_cons,
    List.append_assoc, List.singleton_append, Nat.cast_add, Nat.cast_one]
  rw [Int.add_assoc, Int.add_comm 1]

/-- The loop of `split_bucket` puts each node into the half that its id is in. -/
theorem foldl_insertNode (nodes : List (Node af)) (low high : Bucket af)
    (front : Tiles (fun lo _ bucket => number bucket.first = lo) 0 lo before)
    (back : Tiles (fun lo _ bucket => number bucket.first = lo) hi top after)
    (ascending : lo < mid ∧ mid < hi) (lowFirst : number low.first = lo)
    (highFirst : number high.first = mid)
    (inside : ∀ node ∈ nodes, lo ≤ number node.id ∧ number node.id < hi) :
    ∃ low' high', nodes.foldl insertNode (before ++ low :: high :: after) =
        before ++ low' :: high' :: after ∧
      low.Filled low' ((nodes.map (·.id)).filter fun id => number id < mid) ∧
      high.Filled high' ((nodes.map (·.id)).filter fun id => mid ≤ number id) := by
  induction nodes generalizing low high with
  | nil => exact ⟨low, high, rfl, .nil low, .nil high⟩
  | cons node nodes ih =>
      have within := inside node List.mem_cons_self
      have rest := fun node mem => inside node (List.mem_cons_of_mem _ mem)
      by_cases below : number node.id < mid
      · have around : Around (fun lo _ bucket => number bucket.first = lo) 0 top before lo low mid
            (high :: after) :=
          ⟨front, ascending.1, lowFirst, .cons ascending.2 highFirst back⟩
        obtain ⟨low', high', folded, filled, filled'⟩ :=
          ih { low with nodes := node :: low.nodes, count := low.count + 1 }
            high lowFirst highFirst rest
        refine ⟨low', high', ?_, ?_, ?_⟩
        · rw [List.foldl_cons, insertNode_around (fun first => first) around ⟨within.1, below⟩]
          exact folded
        · simpa [below] using filled.cons
        · simpa [not_le.mpr below] using filled'
      · have around : Around (fun lo _ bucket => number bucket.first = lo) 0 top
          (before ++ [low]) mid
            high hi after :=
          ⟨front.append (.singleton ascending.1 lowFirst), ascending.2, highFirst, back⟩
        obtain ⟨low', high', folded, filled, filled'⟩ :=
          ih low { high with nodes := node :: high.nodes, count := high.count + 1 }
            lowFirst highFirst rest
        refine ⟨low', high', ?_, ?_, ?_⟩
        · have inserted := insertNode_around (fun first => first) around ⟨not_lt.mp below, within.2⟩
          simp only [List.append_assoc, List.singleton_append] at inserted
          rw [List.foldl_cons, inserted]
          exact folded
        · simpa [below] using filled
        · simpa [not_lt.mp below] using filled'.cons

/-- An empty bucket that is filled with some of the ids of another one. -/
theorem Sound.of_filled {bucket new new' : Bucket af} (sound : Sound myid lo hi bucket)
    {lower upper exponent : Nat} (first : number new.first = lower) (empty : new.nodes = [])
    (zero : new.count = 0) (dyadic : Dyadic exponent lower upper) {p : Field 20 → Bool}
    (filled : new.Filled new' (bucket.ids.filter p))
    (kept : ∀ id ∈ bucket.ids, p id = true → lower ≤ number id ∧ number id < upper) :
    Sound myid lower upper new' := by
  simp only [Bucket.Filled, Bucket.shape, Prod.mk.injEq, Bucket.ids, empty, zero, List.map_nil,
    List.append_nil, Int.zero_add] at filled
  rcases filled with ⟨first', count', ids'⟩
  have perm : new'.ids.Perm (bucket.ids.filter p) := by
    rw [Bucket.ids, ids']
    exact List.reverse_perm _
  have subset : ∀ id ∈ new'.ids, id ∈ bucket.ids ∧ p id = true := fun id mem =>
    List.mem_filter.mp (perm.subset mem)
  constructor
  · rw [first']
    exact first
  · exact ⟨exponent, dyadic⟩
  · intro id mem
    exact kept id (subset id mem).1 (subset id mem).2
  · exact perm.nodup_iff.mpr (sound.distinct.filter p)
  · intro mem
    exact sound.foreign (subset myid mem).1
  · rw [count', perm.length_eq]
    rfl
  · rw [perm.length_eq]
    exact (List.length_filter_le p _).trans sound.atMost

end Split

end Dnsp2p.Dht
