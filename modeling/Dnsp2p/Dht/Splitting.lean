import Dnsp2p.Dht.TableRun

/-!
# The splits of one call

`new_node` calls `split_bucket`, does not look at its result, and calls itself
again.  This ends because a bucket that is full has a range that can be halved: what
is asked of `split_bucket` it can do, and the bucket of the id gets smaller.
-/

namespace Dnsp2p.Dht

open Dnsp2p.Tiling

/-! ## What one call asks for -/

/-- The call of `split_bucket` that `new_node` makes before it calls itself: the table
at that time and the bucket. -/
def Table.asksSplit (sa : Sockaddr) (confirm : Nat) (id : Field 20) (t : Table) :
    Option (Table × Nat) :=
  let af := sa.family
  match findBucket (t.bucketsOf af) id with
  | none => none
  | some b =>
      match (t.bucketsOf af)[b]? with
      | none => none
      | some bucket =>
          if idCmp id t.self.myid = 0 then none
          else if isMartian sa then none
          else
            let mybucket := inBucket t.self.myid bucket (t.bucketsOf af)[b + 1]?
            let t := if confirm = 2 then
                t.modifyBucket af b fun bucket => { bucket with time := t.now }
              else t
            match bucket.nodes.findIdx? fun node => idCmp node.id id = 0 with
            | some _ => none
            | none =>
                let t := if mybucket then t.growMybucket af else t
                match bucket.nodes.findIdx? fun node =>
                    3 ≤ node.pinged && node.pingedTime < t.now - 15 with
                | some _ => none
                | none =>
                    if 8 ≤ bucket.count then
                      let dubious := bucket.nodes.any fun node => !nodeGood t.now node
                      let t := t.pingDubious af b bucket
                      if mybucket ∧ (dubious = false ∨ (t.bucketsOf af).length = 1) then some (t, b)
                      else none
                    else none

section Asks

variable {sa : Sockaddr} {confirm : Nat} {id : Field 20} {t t' : Table} {b : Nat}

/-- `new_node` goes on with the table that `split_bucket` leaves, and without a split
it does not call itself. -/
theorem learn_eq (fuel : Nat) :
    t.learn sa confirm id (fuel + 1) = (t.asksSplit sa confirm id).elim
      (t.learn sa confirm id 1)
      fun call => (call.1.splitBucket sa.family call.2).learn sa confirm id fuel := by
  dsimp only [Table.asksSplit]
  rw [Table.learn, Table.learn]
  cases findBucket (t.bucketsOf sa.family) id with
  | none => rfl
  | some b =>
      dsimp only
      cases (t.bucketsOf sa.family)[b]? with
      | none => rfl
      | some bucket =>
          dsimp only
          by_cases own : idCmp id t.self.myid = 0
          · rw [if_pos own, if_pos own, if_pos own]
            rfl
          · rw [if_neg own, if_neg own, if_neg own]
            by_cases martian : isMartian sa = true
            · rw [if_pos martian, if_pos martian, if_pos martian]
              rfl
            · rw [if_neg martian, if_neg martian, if_neg martian]
              generalize (if confirm = 2 then
                t.modifyBucket sa.family b fun bucket => { bucket with time := t.now }
                else t) = t₁
              cases bucket.nodes.findIdx? fun node => idCmp node.id id = 0 with
              | some n => rfl
              | none =>
                  dsimp only
                  generalize (if inBucket t.self.myid bucket (t.bucketsOf sa.family)[b + 1]? then
                    t₁.growMybucket sa.family else t₁) = t₂
                  cases bucket.nodes.findIdx? fun node =>
                      3 ≤ node.pinged && node.pingedTime < t₂.now - 15 with
                  | some n => rfl
                  | none =>
                      dsimp only
                      split
                      · split <;> rfl
                      · rfl

/-- What is known when a split is asked for: the table kept its shape so far, and the
bucket of the id is full. -/
theorem asksSplit_eq_some (asks : t.asksSplit sa confirm id = some (t', b)) :
    ∃ bucket, findBucket (t.bucketsOf sa.family) id = some b ∧
      (t.bucketsOf sa.family)[b]? = some bucket ∧ Keeps sa.family t t' ∧ 8 ≤ bucket.count := by
  dsimp only [Table.asksSplit] at asks
  cases found : findBucket (t.bucketsOf sa.family) id with
  | none => simp [found] at asks
  | some b' =>
      cases there : (t.bucketsOf sa.family)[b']? with
      | none => simp [found, there] at asks
      | some bucket =>
          simp only [found, there] at asks
          split at asks
          · cases asks
          · split at asks
            · cases asks
            · have confirmed : Keeps sa.family t (if confirm = 2 then
                  t.modifyBucket sa.family b' fun bucket => { bucket with time := t.now }
                  else t) := by
                split
                · exact .modifyBucket t b' fun _ => rfl
                · exact .refl t
              generalize (if confirm = 2 then
                t.modifyBucket sa.family b' fun bucket => { bucket with time := t.now }
                else t) = t₁ at asks confirmed
              split at asks
              · cases asks
              · have grown : Keeps sa.family t (if inBucket t.self.myid bucket
                    (t.bucketsOf sa.family)[b' + 1]? then t₁.growMybucket sa.family else t₁) := by
                  split
                  · exact confirmed.trans (.growMybucket t₁)
                  · exact confirmed
                generalize (if inBucket t.self.myid bucket (t.bucketsOf sa.family)[b' + 1]? then
                  t₁.growMybucket sa.family else t₁) = t₂ at asks grown
                split at asks
                · cases asks
                · split at asks
                  · next full =>
                    split at asks
                    · cases asks
                      exact ⟨bucket, rfl, there, grown.trans (.pingDubious t₂ b bucket), full⟩
                    · cases asks
                  · cases asks

end Asks

/-! ## What the chain of calls asks for -/

/-- The calls of `split_bucket` in the chain of calls that starts with `new_node`. -/
inductive Asked (sa : Sockaddr) (confirm : Nat) (id : Field 20) : Table → Table → Nat → Prop where
  | now {t t' : Table} {b : Nat} (asks : t.asksSplit sa confirm id = some (t', b)) :
      Asked sa confirm id t t' b
  | later {t t' t'' : Table} {b b' : Nat} (asks : t.asksSplit sa confirm id = some (t', b))
      (rest : Asked sa confirm id (t'.splitBucket sa.family b) t'' b') :
      Asked sa confirm id t t'' b'

/-- `bucket_middle` finds a middle, so that `split_bucket` splits. -/
def Divisible (t : Table) (af : Family) (b : Nat) : Prop :=
  ∃ bucket middle, (t.bucketsOf af)[b]? = some bucket ∧
    bucketMiddle bucket (t.bucketsOf af)[b + 1]? = some middle

section Chain

variable {sa : Sockaddr} {confirm : Nat} {id : Field 20} {t t' : Table} {b : Nat}

/-- A bucket that is full has a middle. -/
theorem divisible_of_full {af : Family} {before after : List (Bucket af)} {lower upper : Nat}
    {bucket : Bucket af} (located : Located t af before lower bucket upper after)
    (full : 8 ≤ bucket.count) : Divisible t af before.length := by
  rcases located.wide_of_full full with ⟨exponent, dyadic⟩
  rcases middle_of_located located dyadic with ⟨middle, halved, _⟩
  exact ⟨bucket, middle, located.getElem?, by rw [located.next?, halved]⟩

/-- The bucket that is to be split, when the buckets tile all ids. -/
theorem located_of_asksSplit (tiled : Tiled t.self.myid (t.bucketsOf sa.family))
    (asks : t.asksSplit sa confirm id = some (t', b)) :
    ∃ before lower bucket upper after, Located t' sa.family before lower bucket upper after ∧
      before.length = b ∧ 8 ≤ bucket.count := by
  rcases asksSplit_eq_some asks with ⟨bucket, found, there, keeps, full⟩
  rcases located_of_tiled tiled id with ⟨before, lower, bucket', upper, after, located, within⟩
  obtain rfl : before.length = b := Option.some.inj ((located.findBucket within).symm.trans found)
  obtain rfl : bucket' = bucket := Option.some.inj (located.getElem?.symm.trans there)
  rcases located.keeps keeps with ⟨before', bucket'', after', kept, length, shape⟩
  have count : bucket''.count = bucket'.count := congrArg (·.2.1) shape
  exact ⟨before', lower, bucket'', upper, after', kept, length, count ▸ full⟩

/-- Every bucket that the chain of calls asks to split can be split. -/
theorem Asked.divisible (asked : Asked sa confirm id t t' b)
    (tiled : Tiled t.self.myid (t.bucketsOf sa.family)) : Divisible t' sa.family b := by
  induction asked with
  | now asks =>
      rcases located_of_asksSplit tiled asks with ⟨before, lower, bucket, upper, after, located,
        rfl, full⟩
      exact divisible_of_full located full
  | later asks rest ih =>
      rcases located_of_asksSplit tiled asks with ⟨before, lower, bucket, upper, after, located,
        rfl, full⟩
      rcases located.wide_of_full full with ⟨exponent, dyadic⟩
      have evolves := Evolves.splitBucket located dyadic
      apply ih
      rw [evolves.self]
      exact evolves.tiled (located.buckets ▸ located.tiles)

/-- `new_node` with any id returns, and splits only what can be split. -/
def Ends (t : Table) : Prop :=
  ∀ (id : Field 20) (sa : Sockaddr) (confirm : Nat),
    (∃ t', t.newNode id.bytes sa confirm = .ok t') ∧
      ∀ t' b, Asked sa confirm id t t' b → Divisible t' sa.family b

theorem Upright.ends {opened : Family → Prop} {myid : Field 20}
    (upright : Upright opened myid t) : Ends t := by
  intro id sa confirm
  by_cases isOpen : opened sa.family
  · have tiled : Tiled t.self.myid (t.bucketsOf sa.family) := by
      rw [upright.self]
      exact upright.tiled _ isOpen
    rcases newNode_evolves id confirm (.inr tiled) with ⟨t', returned, _⟩
    exact ⟨⟨t', returned⟩, fun _ _ asked => asked.divisible tiled⟩
  · have closed := upright.closed _ isOpen
    rcases newNode_evolves id confirm (.inl closed) with ⟨t', returned, _⟩
    refine ⟨⟨t', returned⟩, fun t'' b asked => ?_⟩
    have silent : t.asksSplit sa confirm id = none := by
      simp [Table.asksSplit, closed, findBucket]
    cases asked with
    | now asks => cases silent.symm.trans asks
    | later asks => cases silent.symm.trans asks

end Chain

/-! ## Runs -/

/-- A change of the routing table, or a call of `split_bucket` for any bucket. -/
inductive Growing where
  | change (step : Step)
  | splitBucket (af : Family) (b : Nat)

/-- The function is called at a given time. -/
def State.grow (d : State) : Int × Growing → Except Fault State
  | (now, .change step) => d.take (now, step)
  | (now, .splitBucket af b) =>
      .ok { d with toTable := { d.toTable with now := now }.splitBucket af b }

/-- A bucket with a single id is not split. -/
theorem splitBucket_of_single {t : Table} {af : Family} {before after : List (Bucket af)}
    {lower upper : Nat} {bucket : Bucket af}
    (located : Located t af before lower bucket upper after) (dyadic : Dyadic 0 lower upper) :
    t.splitBucket af before.length = t := by
  have range : Dyadic 0 (number bucket.first) (upperBound after.head?) := by
    rw [located.fit.first, located.upperBound]
    exact dyadic
  have undivided : bucketMiddle bucket after.head? = none := by
    rw [bucketMiddle, splitBit_eq (Nat.zero_le _) range]
    rfl
  rw [Table.splitBucket]
  simp only [located.getElem?, located.next?, undivided]

/-- `split_bucket` halves the range of a bucket or leaves the table alone. -/
theorem Evolves.splitAny {t : Table} {af : Family}
    (shape : t.bucketsOf af = [] ∨ Tiled t.self.myid (t.bucketsOf af)) (b : Nat) :
    Evolves af t (t.splitBucket af b) := by
  cases there : (t.bucketsOf af)[b]? with
  | none =>
      simp only [Table.splitBucket, there]
      exact .refl t
  | some bucket =>
      rcases shape with closed | tiled
      · simp [closed] at there
      · rcases tiled.around_of_getElem? there with
          ⟨before, lower, upper, after, buckets, rfl, around⟩
        have located : Located t af before lower bucket upper after := ⟨around, buckets⟩
        rcases located.fit.dyadic with ⟨exponent, dyadic⟩
        cases exponent with
        | zero =>
            rw [splitBucket_of_single located dyadic]
            exact .refl t
        | succ exponent => exact .splitBucket located dyadic

theorem Upright.grow {opened : Family → Prop} {myid : Field 20} {d : State}
    (upright : Upright opened myid d.toTable) (step : Int × Growing) :
    ∃ d', d.grow step = .ok d' ∧ Upright opened myid d'.toTable := by
  rcases step with ⟨now, change | ⟨af, b⟩⟩
  · exact upright.take (now, change)
  · have later : Upright opened myid { d.toTable with now := now } :=
      upright.of_same rfl fun af => by cases af <;> rfl
    refine ⟨_, rfl, later.evolves (.splitAny ?_ b)⟩
    rw [later.self]
    by_cases isOpen : opened af
    · exact .inr (later.tiled af isOpen)
    · exact .inl (later.closed af isOpen)

/-- After any changes of the table at any times `new_node` ends, for every id, address,
level of confirmation and time, and every bucket that it asks `split_bucket` to split
can be split. -/
theorem newNode_ends (s s6 : Int) (myid : Field 20) (v : Option (Field 4)) (now : Int)
    (random : Nat → Nat) (steps : List (Int × Growing)) :
    (∃ last, Run.run State.grow (State.init s s6 myid v now random) steps = .ok last) ∧
      Run.Always State.grow (fun d => ∀ now, Ends { d.toTable with now := now })
        (State.init s s6 myid v now random) steps := by
  refine Run.always_of_total (fun d => Upright (opens s s6) myid d.toTable) ?_ ?_
    (upright_init s s6 myid v now random) steps
  · exact fun step upright => upright.grow step
  · intro d upright now
    have later : Upright (opens s s6) myid { d.toTable with now := now } :=
      upright.of_same rfl fun af => by cases af <;> rfl
    exact later.ends

end Dnsp2p.Dht
