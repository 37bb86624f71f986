import Dnsp2p.Dht.Closest

/-!
# Saving the nodes

`dht_get_nodes` copies the addresses of the good nodes for the next start of the
program, those of our own bucket first, and `dht_nodes` counts them.
-/

namespace Dnsp2p.Dht

open Dnsp2p.Tiling

/-- The loop of `dht_get_nodes` over the nodes of a bucket; `found` are the addresses that
were copied so far. -/
def collectNodes {af : Family} (now num : Int) :
    List (Node af) → List (Endpoint af) → List (Endpoint af)
  | [], found => found
  | n :: rest, found =>
      if found.length < num then
        collectNodes now num rest (if nodeGood now n then found ++ [n.ss] else found)
      else found

/-- The loop of `dht_get_nodes` over the buckets that are not ours. -/
def collectBuckets {af : Family} (myid : Field 20) (now num : Int) :
    List (Bucket af) → List (Endpoint af) → List (Endpoint af)
  | [], found => found
  | b :: rest, found =>
      if found.length < num then
        collectBuckets myid now num rest
          (if !inBucket myid b rest.head? then collectNodes now num b.nodes found else found)
      else found

/-- The part of `dht_get_nodes` for a family. -/
def collect (t : Table) (af : Family) (num : Int) : List (Endpoint af) :=
  match findBucket (t.bucketsOf af) t.self.myid with
  | none => []
  | some b =>
      match (t.bucketsOf af)[b]? with
      | none => []
      | some bucket =>
          collectBuckets t.self.myid t.now num (t.bucketsOf af)
            (collectNodes t.now num bucket.nodes [])

/-- `dht_get_nodes`: its result and the addresses in the two arrays, whose lengths are stored
in `*num` and `*num6`. -/
def dhtGetNodes (t : Table) (num num6 : Int) :
    Int × List (Endpoint .inet) × List (Endpoint .inet6) :=
  let sin := collect t .inet num
  let sin6 := collect t .inet6 num6
  ((sin.length : Int) + sin6.length, sin, sin6)

/-- The numbers that `dht_nodes` stores. -/
structure NodeCounts where
  good : Int
  dubious : Int
  cached : Int
  incoming : Int
  deriving DecidableEq

/-- The inner loop of `dht_nodes`. -/
def NodeCounts.node {af : Family} (now : Int) (counts : NodeCounts) (n : Node af) : NodeCounts :=
  if nodeGood now n then
    { counts with
      good := counts.good + 1
      incoming := if n.replyTime < n.time then counts.incoming + 1 else counts.incoming }
  else { counts with dubious := counts.dubious + 1 }

/-- The outer loop of `dht_nodes`. -/
def NodeCounts.bucket {af : Family} (now : Int) (counts : NodeCounts) (b : Bucket af) :
    NodeCounts :=
  let counts := b.nodes.foldl (NodeCounts.node now) counts
  { counts with cached := if b.cached.isSome then counts.cached + 1 else counts.cached }

/-- `dht_nodes`: its result and the numbers that it stores. -/
def dhtNodes (t : Table) (af : Family) : Int × NodeCounts :=
  let counts := (t.bucketsOf af).foldl (NodeCounts.bucket t.now) ⟨0, 0, 0, 0⟩
  (counts.good + counts.dubious, counts)

/-! ## What is copied -/

section Collect

variable {af : Family} {now num : Int}

/-- The good nodes among some nodes. -/
def goodOf (now : Int) (nodes : List (Node af)) : List (Endpoint af) :=
  (nodes.filter (nodeGood now)).map (·.ss)

theorem collectNodes_eq (nodes : List (Node af)) {found : List (Endpoint af)}
    (room : found.length ≤ num.toNat) :
    collectNodes now num nodes found = (found ++ goodOf now nodes).take num.toNat := by
  induction nodes generalizing found with
  | nil => simp [collectNodes, goodOf, List.take_of_length_le room]
  | cons n nodes ih =>
      rw [collectNodes]
      by_cases open_ : (found.length : Int) < num
      · rw [if_pos open_, ih]
        · by_cases good : nodeGood now n = true
          · simp [goodOf, good]
          · simp [goodOf, good]
        · split
          · simp
            omega
          · omega
      · have full : num.toNat = found.length := by omega
        rw [if_neg open_, full, List.take_left]

theorem goodOf_append (nodes nodes' : List (Node af)) :
    goodOf now (nodes ++ nodes') = goodOf now nodes ++ goodOf now nodes' := by
  simp [goodOf]

/-- What was cut off stays cut off. -/
theorem take_take_append {α : Type} (front back : List α) (n : Nat) :
    (front.take n ++ back).take n = (front ++ back).take n := by
  by_cases short : front.length ≤ n
  · rw [List.take_of_length_le short]
  · rw [List.take_append_of_le_length (by simp; omega), List.take_append_of_le_length (by omega),
      List.take_take, min_self]

/-- The nodes of some buckets. -/
def nodesOf (buckets : List (Bucket af)) : List (Node af) :=
  buckets.flatMap (·.nodes)

/-- A bucket that is not ours is copied. -/
theorem collectBuckets_cons {myid : Field 20} {b : Bucket af} {rest : List (Bucket af)}
    (other : ¬ inBucket myid b rest.head? = true) {found : List (Endpoint af)}
    (room : found.length ≤ num.toNat) {others : List (Node af)}
    (later : ∀ found : List (Endpoint af), found.length ≤ num.toNat →
      collectBuckets myid now num rest found = (found ++ goodOf now others).take num.toNat) :
    collectBuckets myid now num (b :: rest) found =
      (found ++ goodOf now (b.nodes ++ others)).take num.toNat := by
  rw [collectBuckets]
  by_cases open_ : (found.length : Int) < num
  · rw [if_pos open_, if_pos (by simpa using other), collectNodes_eq _ room,
      later _ (List.length_take_le _ _), take_take_append, goodOf_append, List.append_assoc]
  · have full : num.toNat = found.length := by omega
    rw [if_neg open_, full, List.take_left]

variable {myid : Field 20} {lo hi lower upper : Nat} {buckets : List (Bucket af)}

/-- All buckets behind ours are copied. -/
theorem collectBuckets_behind (tiles : Tiles (Sound myid) lo hi buckets)
    (below : number myid < lo) {found : List (Endpoint af)} (room : found.length ≤ num.toNat) :
    collectBuckets myid now num buckets found =
      (found ++ goodOf now (nodesOf buckets)).take num.toNat := by
  induction tiles generalizing found with
  | nil => simp [collectBuckets, nodesOf, goodOf, List.take_of_length_le room]
  | @cons lo mid hi bucket buckets wide fit rest ih =>
      have other : ¬ inBucket myid bucket buckets.head? = true := by
        rw [inBucket_iff, fit.first]
        omega
      exact collectBuckets_cons other room fun found room => ih (by omega) room

/-- Our own bucket is skipped and all others are copied. -/
theorem collectBuckets_around {before after : List (Bucket af)} {bucket : Bucket af}
    (around : Around (Sound myid) lo (2 ^ 160) before lower bucket upper after)
    (within : lower ≤ number myid ∧ number myid < upper) {found : List (Endpoint af)}
    (room : found.length ≤ num.toNat) :
    collectBuckets myid now num (before ++ bucket :: after) found =
      (found ++ goodOf now (nodesOf (before ++ after))).take num.toNat := by
  induction before generalizing lo found with
  | nil =>
      have own : inBucket myid bucket after.head? = true := by
        rw [inBucket_iff, around.fit.first, upperBound_head? around.back]
        exact within
      have rest : collectBuckets myid now num after found =
          (found ++ goodOf now (nodesOf after)).take num.toNat :=
        collectBuckets_behind around.back within.2 room
      rw [List.nil_append, List.nil_append, collectBuckets]
      split
      · rw [if_neg (by simp [own]), rest]
      · have full : num.toNat = found.length := by omega
        rw [full, List.take_left]
  | cons first before ih =>
      rcases around with ⟨_ | ⟨wideFirst, fitFirst, front⟩, wide, fit, back⟩
      have inner : Around (Sound myid) _ (2 ^ 160) before lower bucket upper after :=
        ⟨front, wide, fit, back⟩
      have tiles := inner.tiles
      have le := front.le
      have other : ¬ inBucket myid first (before ++ bucket :: after).head? = true := by
        rw [inBucket_iff, upperBound_head? tiles]
        omega
      exact collectBuckets_cons other room fun found room => ih inner room

end Collect

/-! ## What is counted -/

section Count

variable {af : Family} (now : Int)

theorem NodeCounts.foldl_node (nodes : List (Node af)) (counts : NodeCounts) :
    (nodes.foldl (NodeCounts.node now) counts).good =
        counts.good + (goodOf now nodes).length ∧
      (nodes.foldl (NodeCounts.node now) counts).good +
          (nodes.foldl (NodeCounts.node now) counts).dubious =
        counts.good + counts.dubious + nodes.length := by
  induction nodes generalizing counts with
  | nil => simp [goodOf]
  | cons n nodes ih =>
      rcases ih (NodeCounts.node now counts n) with ⟨good, all⟩
      rw [List.foldl_cons, all, good]
      by_cases isGood : nodeGood now n = true
      · simp [NodeCounts.node, goodOf, isGood]
        omega
      · simp [NodeCounts.node, goodOf, isGood]
        omega

theorem NodeCounts.foldl_bucket (buckets : List (Bucket af)) (counts : NodeCounts) :
    (buckets.foldl (NodeCounts.bucket now) counts).good =
        counts.good + (goodOf now (nodesOf buckets)).length ∧
      (buckets.foldl (NodeCounts.bucket now) counts).good +
          (buckets.foldl (NodeCounts.bucket now) counts).dubious =
        counts.good + counts.dubious + (nodesOf buckets).length := by
  induction buckets generalizing counts with
  | nil => simp [goodOf, nodesOf]
  | cons b buckets ih =>
      rcases ih (NodeCounts.bucket now counts b) with ⟨good, all⟩
      rcases NodeCounts.foldl_node now b.nodes counts with ⟨good', all'⟩
      have split : nodesOf (b :: buckets) = b.nodes ++ nodesOf buckets := rfl
      rw [List.foldl_cons, all, good, split, goodOf_append, List.length_append, List.length_append]
      simp only [NodeCounts.bucket]
      omega

end Count

/-! ## Runs -/

/-- The addresses that are saved for a family: those of the good nodes of our own bucket, then
those of the other buckets, as many as there is room for. -/
structure Saved (t : Table) (af : Family) (num : Int) (saved : List (Endpoint af)) : Prop where
  own : ∀ b, findBucket (t.bucketsOf af) t.self.myid = some b →
    ∃ before bucket after, t.bucketsOf af = before ++ bucket :: after ∧ before.length = b ∧
      saved = (goodOf t.now bucket.nodes ++ goodOf t.now (nodesOf (before ++ after))).take num.toNat
  number : (saved.length : Int) = min (max num 0) (dhtNodes t af).2.good
  all : (dhtNodes t af).1 = (nodesOf (t.bucketsOf af)).length

theorem collect_saved {myid : Field 20} {t : Table} {af : Family} (self : t.self.myid = myid)
    (shape : t.bucketsOf af = [] ∨ Tiled myid (t.bucketsOf af)) (num : Int) :
    Saved t af num (collect t af num) := by
  have counted := NodeCounts.foldl_bucket t.now (t.bucketsOf af) ⟨0, 0, 0, 0⟩
  simp only [Int.zero_add] at counted
  rcases shape with closed | tiled
  · have no : findBucket (t.bucketsOf af) t.self.myid = none := by
      rw [closed]
      rfl
    have empty : collect t af num = [] := by rw [collect, no]
    refine ⟨?_, ?_, counted.2⟩
    · intro b found
      rw [no] at found
      cases found
    · rw [empty, dhtNodes, counted.1, closed]
      simp [nodesOf, goodOf]
  · subst self
    obtain ⟨before, lower, bucket, upper, after, cut, around, low, high⟩ :=
      tiled.around_of_mem (Nat.zero_le (number t.self.myid)) (number_lt t.self.myid)
    have found : findBucket (t.bucketsOf af) t.self.myid = some before.length := by
      rw [cut]
      exact findBucket_around Sound.first around ⟨low, high⟩
    have there : (t.bucketsOf af)[before.length]? = some bucket := by simp [cut]
    have saved : collect t af num = (goodOf t.now bucket.nodes ++
        goodOf t.now (nodesOf (before ++ after))).take num.toNat := by
      simp only [collect, found, there]
      rw [collectNodes_eq _ (by simp), List.nil_append, cut,
        collectBuckets_around around ⟨low, high⟩ (List.length_take_le _ _), take_take_append]
    refine ⟨?_, ?_, counted.2⟩
    · intro b found'
      cases found.symm.trans found'
      exact ⟨before, bucket, after, cut, rfl, saved⟩
    · have total : (goodOf t.now (nodesOf (t.bucketsOf af))).length =
          (goodOf t.now bucket.nodes ++ goodOf t.now (nodesOf (before ++ after))).length := by
        simp only [cut, nodesOf, List.flatMap_append, List.flatMap_cons, goodOf_append,
          List.length_append]
        omega
      rw [saved, dhtNodes, counted.1, total, List.length_take]
      omega

/-- In every state of the routing table that is reached, `dht_get_nodes` copies the good nodes
of our own bucket first and then those of the other buckets, each once, and as many of
them as `dht_nodes` counts unless there is less room. -/
theorem dhtGetNodes_saved {s s6 : Int} {myid : Field 20} {v : Option (Field 4)} {now : Int}
    {random : Nat → Nat} {steps : List (Int × Step)} {d : State}
    (ran : Run.run State.take (State.init s s6 myid v now random) steps = .ok d)
    (num num6 : Int) :
    ∃ (sin : List (Endpoint .inet)) (sin6 : List (Endpoint .inet6)),
      dhtGetNodes d.toTable num num6 = ((sin.length : Int) + sin6.length, sin, sin6) ∧
      Saved d.toTable .inet num sin ∧ Saved d.toTable .inet6 num6 sin6 := by
  have upright := upright_of_run ran
  exact ⟨_, _, rfl, collect_saved upright.self (upright.shape .inet) num,
    collect_saved upright.self (upright.shape .inet6) num6⟩

/-- Of three nodes that answered two are saved. -/
theorem dhtGetNodes_saved_three :
    ∃ d, ∃ (sin : List (Endpoint .inet)) (sin6 : List (Endpoint .inet6)),
      Run.run State.take (State.init 3 (-1) (.zero 20) none 1000 fun _ => 0)
        [answering 2, answering 1, answering 3] = .ok d ∧
      dhtGetNodes d.toTable 2 0 = ((sin.length : Int) + sin6.length, sin, sin6) ∧
      Saved d.toTable .inet 2 sin ∧ Saved d.toTable .inet6 0 sin6 := by
  have ran : Run.run State.take (State.init 3 (-1) (.zero 20) none 1000 fun _ => 0)
      [answering 2, answering 1, answering 3] = .ok _ := rfl
  rcases dhtGetNodes_saved ran 2 0 with ⟨sin, sin6, result, saved, saved6⟩
  exact ⟨_, sin, sin6, ran, result, saved, saved6⟩

end Dnsp2p.Dht
