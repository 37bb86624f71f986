import Dnsp2p.Dht.Change
import Dnsp2p.Dht.Halving
import Dnsp2p.Dht.State
import Dnsp2p.Library.Least
import Dnsp2p.Library.Run

/-!
# The candidates of a search

The nodes of a search are in the order of their distance to its target, where the
distance of two ids is their exclusive or as a number.  `insert_search_node` offers
a node to this list, which keeps the fourteen closest ones.
-/

namespace Dnsp2p.Dht

/-! ## Distance -/

/-- The distance of an id from a target. -/
def distance (target id : Field 20) : Nat :=
  number id ^^^ number target

theorem distance_injective (target : Field 20) : Function.Injective (distance target) := by
  intro id id' same
  have cancelled : number id = number id' := by
    simpa [distance, Nat.xor_assoc] using congrArg (· ^^^ number target) same
  exact Field.ext (value_injective (id.length_eq.trans id'.length_eq.symm) cancelled)

/-- `xorcmp` compares like `memcmp` after the exclusive or. -/
theorem xorcmp_neg_iff_memcmp {id1 id2 ref : Bytes} (length1 : id1.length = ref.length)
    (length2 : id2.length = ref.length) :
    xorcmp id1 id2 ref < 0 ↔
      memcmp (List.zipWith (· ^^^ ·) id1 ref) (List.zipWith (· ^^^ ·) id2 ref) < 0 := by
  induction ref generalizing id1 id2 with
  | nil =>
      obtain rfl := List.length_eq_zero_iff.mp length1
      simp [xorcmp, memcmp]
  | cons byte rest ih =>
      cases id1 with
      | nil => simp at length1
      | cons byte1 rest1 =>
          cases id2 with
          | nil => simp at length2
          | cons byte2 rest2 =>
              simp only [xorcmp, memcmp, List.zipWith_cons_cons]
              by_cases same : byte1 = byte2
              · rw [if_pos same, if_pos (by rw [same])]
                exact ih (Nat.succ.inj length1) (Nat.succ.inj length2)
              · have differ : byte1 ^^^ byte ≠ byte2 ^^^ byte := by
                  simpa using same
                rw [if_neg same, if_neg differ]
                by_cases less : byte1 ^^^ byte < byte2 ^^^ byte
                · have := UInt8.lt_iff_toNat_lt.mp less
                  simp only [if_pos less]
                  omega
                · have := UInt8.lt_iff_toNat_lt.not.mp less
                  simp only [if_neg less]
                  omega

/-- `xorcmp` tells which id is closer to the target. -/
theorem xorcmp_neg_iff (id1 id2 target : Field 20) :
    xorcmp id1.bytes id2.bytes target.bytes < 0 ↔ distance target id1 < distance target id2 := by
  have length1 : id1.bytes.length = target.bytes.length := by rw [id1.length_eq, target.length_eq]
  have length2 : id2.bytes.length = target.bytes.length := by rw [id2.length_eq, target.length_eq]
  rw [xorcmp_neg_iff_memcmp length1 length2, memcmp_neg_iff (by simp [length1, length2]),
    value_xor length1, value_xor length2]
  rfl

/-! ## One call -/

namespace Search

variable {sr : Search}

/-- How far the nodes of a search are from its target. -/
def distances (sr : Search) : List Nat :=
  sr.nodes.map fun n => distance sr.id n.id

/-- The nodes are in the order of their distance, no id is repeated, and they fit. -/
structure InOrder (sr : Search) : Prop where
  increasing : sr.nodes.Pairwise fun n n' => distance sr.id n.id < distance sr.id n'.id
  distinct : (sr.nodes.map (·.id)).Nodup
  bounded : sr.nodes.length ≤ searchNodes

theorem InOrder.of_sublist {nodes : List SearchNode} (inOrder : sr.InOrder)
    (sublist : nodes.Sublist sr.nodes) : InOrder { sr with nodes } where
  increasing := inOrder.increasing.sublist sublist
  distinct := inOrder.distinct.sublist (sublist.map _)
  bounded := sublist.length_le.trans inOrder.bounded

theorem InOrder.of_distances (increasing : sr.distances.Pairwise (· < ·))
    (bounded : sr.nodes.length ≤ searchNodes) : sr.InOrder where
  increasing := List.pairwise_map.mp increasing
  distinct := by
    have distinct : ((sr.nodes.map (·.id)).map (distance sr.id)).Nodup := by
      rw [List.map_map]
      exact increasing.imp ne_of_lt
    exact distinct.of_map _
  bounded := bounded

end Search

@[simp]
theorem updateSearchNode_id (now : Int) (ss : Sockaddr) (replied : Bool) (token : Option Bytes)
    (n : SearchNode) : (updateSearchNode now ss replied token n).id = n.id := by
  unfold updateSearchNode
  grind

/-- The loop of `insert_search_node` stops at the first node that is not closer. -/
theorem stops_iff {id target : Field 20} {n : SearchNode} :
    (idCmp id n.id = 0 || xorcmp id.bytes n.id.bytes target.bytes < 0 : Bool) = true ↔
      distance target id ≤ distance target n.id := by
  rw [Bool.or_eq_true, decide_eq_true_iff, decide_eq_true_iff, idCmp_eq_zero_iff, xorcmp_neg_iff,
    le_iff_eq_or_lt, (distance_injective target).eq_iff]

/-- `insert_search_node` offers the distance of a node to the list of distances. -/
theorem distances_insertSearchNode {sr : Search} (inOrder : sr.InOrder) (now : Int)
    (id : Field 20) {sa : Sockaddr} (family : sa.family = sr.af) (replied : Bool)
    (token : Option Bytes) :
    (insertSearchNode now id sa replied token sr).distances =
      offer searchNodes sr.distances (distance sr.id id) := by
  rcases findIdx_cut (fun n => idCmp id n.id = 0 || xorcmp id.bytes n.id.bytes sr.id.bytes < 0)
    sr.nodes with ⟨front, back, cut, place, before, stop⟩
  have bounded := inOrder.bounded
  have increasing := inOrder.increasing
  rw [cut, List.length_append] at bounded
  rw [cut, List.pairwise_append] at increasing
  have closer : ∀ d ∈ front.map (fun n => distance sr.id n.id), d < distance sr.id id := by
    intro d mem
    rcases List.mem_map.mp mem with ⟨n, inFront, rfl⟩
    exact not_le.mp fun le => by simpa [before n inFront] using stops_iff.mpr le
  have distances : sr.distances =
      front.map (fun n => distance sr.id n.id) ++ back.map fun n => distance sr.id n.id := by
    rw [Search.distances, cut, List.map_append]
  simp only [insertSearchNode, family, ne_eq, not_true_eq_false, if_false, place]
  rw [distances]
  cases back with
  | nil =>
      rw [List.append_nil] at cut
      rw [List.map_nil, offer_between searchNodes closer (by simp)]
      have behind : sr.nodes[front.length]? = none := by simp [cut]
      simp only [behind]
      split
      · next full =>
        rw [distances, List.map_nil, List.append_nil, List.take_left' (by simpa using full)]
      · next room =>
        rw [List.take_of_length_le (by simp at bounded ⊢; omega)]
        simp [Search.distances, cut, SearchNode.zero]
  | cons n rest =>
      have there : sr.nodes[front.length]? = some n := by simp [cut]
      simp only [there]
      split
      · next known =>
        rw [offer_of_mem]
        · simp [Search.distances, cut]
        · simp [idCmp_eq_zero_iff.mp known]
      · next unknown =>
        have foreign : distance sr.id id ≠ distance sr.id n.id := fun same =>
          unknown (idCmp_eq_zero_iff.mpr (distance_injective sr.id same))
        have less := lt_of_le_of_ne (stops_iff.mp (stop n rfl)) foreign
        have farther : ∀ d ∈ (n :: rest).map (fun n => distance sr.id n.id),
            distance sr.id id < d := by
          rw [List.map_cons, List.forall_mem_cons]
          refine ⟨less, fun d mem => ?_⟩
          rcases List.mem_map.mp mem with ⟨n', inRest, rfl⟩
          exact less.trans ((List.pairwise_cons.mp increasing.2.1).1 n' inRest)
        rw [offer_between searchNodes closer farther, if_neg (by simp at bounded; omega)]
        simp [Search.distances, cut, insertIdx_append, List.map_take, SearchNode.zero]

/-! ## Nodes that are dropped -/

/-- Deleting the node at a place is deleting the node with its id. -/
theorem eraseIdx_eq_filter {nodes : List SearchNode} (distinct : (nodes.map (·.id)).Nodup) {i : Nat}
    {n : SearchNode} (there : nodes[i]? = some n) :
    nodes.eraseIdx i = nodes.filter fun other => other.id ≠ n.id := by
  induction nodes generalizing i with
  | nil => simp at there
  | cons first rest ih =>
      rw [List.map_cons, List.nodup_cons] at distinct
      cases i with
      | zero =>
          obtain rfl : first = n := by simpa using there
          have others : ∀ other ∈ rest, other.id ≠ first.id := fun other mem same =>
            distinct.1 (same ▸ List.mem_map_of_mem mem)
          have kept : rest.filter (fun other => other.id ≠ first.id) = rest :=
            List.filter_eq_self.mpr fun other mem => by simpa using others other mem
          simpa using kept.symm
      | succ i =>
          have later : rest[i]? = some n := by simpa using there
          have other : first.id ≠ n.id := fun same =>
            distinct.1 (same ▸ List.mem_map_of_mem (List.mem_of_getElem? later))
          simp [ih distinct.2 later, other]

/-- The loop of `broken_node` deletes the nodes with an id, when no two that are next
to each other have it. -/
theorem discardNode_eq_filter (id : Field 20) {nodes : List SearchNode}
    (distinct : (nodes.map (·.id)).Nodup) :
    State.discardNode id nodes = nodes.filter fun n => n.id ≠ id := by
  fun_induction State.discardNode id nodes with
  | case1 => rfl
  | case2 n same => simp [idCmp_eq_zero_iff.mp same]
  | case3 n other => simp [idCmp_eq_zero_iff.not.mp other]
  | case4 n next rest same ih =>
      have own := idCmp_eq_zero_iff.mp same
      simp only [List.map_cons, List.nodup_cons, List.mem_cons, not_or] at distinct
      have different : next.id ≠ id := fun again => distinct.1.1 (own.trans again.symm)
      simp [own, different, ih distinct.2.2]
  | case5 n next rest other ih =>
      have different := idCmp_eq_zero_iff.not.mp other
      rw [ih (List.nodup_cons.mp distinct).2]
      simp [different]

/-! ## Runs -/

/-- A call that changes the nodes of a search. -/
inductive Tending where
  | insert (now : Int) (id : Field 20) (sa : Sockaddr) (replied : Bool) (token : Option Bytes)
  | flush (i : Nat)
  | broken (id : Option (Field 20)) (sa : Sockaddr)

/-- One call, for the search at a place of the search list; only nodes that the search
has are flushed. -/
def State.tend (place : Nat) (d : State) : Tending → Except Fault State
  | .insert now id sa replied token =>
      .ok { d with searches := d.searches.modify place (insertSearchNode now id sa replied token) }
  | .flush i =>
      match d.searches[place]? with
      | none => .error .nullPointer
      | some sr =>
          if i < sr.nodes.length then
            .ok { d with searches := d.searches.set place (flushSearchNode i sr) }
          else .error .outOfBounds
  | .broken id sa => d.brokenNode (id.map (·.bytes)) sa

/-- What one call does to the search. -/
def Tending.apply : Tending → Search → Search
  | .insert now id sa replied token, sr => insertSearchNode now id sa replied token sr
  | .flush i, sr => flushSearchNode i sr
  | .broken none _, sr => sr
  | .broken (some id) _, sr => { sr with nodes := State.discardNode id sr.nodes }

/-- Is the call one of `insert_search_node`? -/
def Tending.inserts : Tending → Bool
  | .insert .. => true
  | _ => false

/-- The ids of a family for which `insert_search_node` was called. -/
def insertedIds (af : Family) (steps : List Tending) : List (Field 20) :=
  steps.filterMap fun
    | .insert _ id sa _ _ => if sa.family = af then some id else none
    | _ => none

section Runs

variable {place : Nat} {d d' : State} {sr : Search}

theorem brokenNode_searches (id : Option (Field 20)) (sa : Sockaddr)
    (there : d.searches[place]? = some sr) :
    ∃ d', d.brokenNode (id.map (·.bytes)) sa = .ok d' ∧
      d'.searches[place]? = some ((Tending.broken id sa).apply sr) := by
  cases id with
  | none => exact ⟨_, rfl, there⟩
  | some id =>
      have read : Field.read 20 id.bytes = some id := Field.read_bytes id
      simp only [State.brokenNode, Option.map_some, read, ok_bind]
      refine ⟨_, rfl, ?_⟩
      simp [State.breakNode, there, Tending.apply]

theorem searches_tend {step : Tending} (there : d.searches[place]? = some sr)
    (tended : d.tend place step = .ok d') : d'.searches[place]? = some (step.apply sr) := by
  cases step with
  | insert now id sa replied token =>
      cases tended
      simp [there, Tending.apply]
  | flush i =>
      simp only [State.tend, there] at tended
      split at tended
      · cases tended
        simp [List.getElem?_set_self (List.getElem?_eq_some_iff.mp there).1, Tending.apply]
      · cases tended
  | broken id sa =>
      rcases brokenNode_searches id sa there with ⟨d'', returned, found⟩
      cases returned.symm.trans tended
      exact found

@[simp]
theorem insertSearchNode_id (now : Int) (id : Field 20) (sa : Sockaddr) (replied : Bool)
    (token : Option Bytes) (sr : Search) :
    (insertSearchNode now id sa replied token sr).id = sr.id ∧
      (insertSearchNode now id sa replied token sr).af = sr.af := by
  unfold insertSearchNode
  grind

theorem apply_same (step : Tending) (sr : Search) :
    (step.apply sr).id = sr.id ∧ (step.apply sr).af = sr.af := by
  cases step with
  | insert now id sa replied token => exact insertSearchNode_id now id sa replied token sr
  | flush i => exact ⟨rfl, rfl⟩
  | broken id sa => cases id <;> exact ⟨rfl, rfl⟩

/-- A node of the other family is refused. -/
theorem insertSearchNode_refused {now : Int} {id : Field 20} {sa : Sockaddr} {replied : Bool}
    {token : Option Bytes} (other : sa.family ≠ sr.af) :
    insertSearchNode now id sa replied token sr = sr :=
  if_pos other

/-- Every call keeps the nodes in order. -/
theorem Search.InOrder.apply (inOrder : sr.InOrder) (step : Tending) : (step.apply sr).InOrder := by
  cases step with
  | insert now id sa replied token =>
      by_cases family : sa.family = sr.af
      · have offered := distances_insertSearchNode inOrder now id family replied token
        have kept := LeastOf.self (List.pairwise_map.mpr inOrder.increasing)
          ((List.length_map _).trans_le inOrder.bounded)
        have least := kept.offer (distance sr.id id)
        apply Search.InOrder.of_distances
        · rw [Tending.apply, offered]
          exact least.increasing
        · have length := congrArg List.length offered
          rw [Search.distances, List.length_map] at length
          rw [Tending.apply, length]
          exact least.length.trans_le (Nat.min_le_left _ _)
      · rw [Tending.apply, insertSearchNode_refused family]
        exact inOrder
  | flush i => exact inOrder.of_sublist (List.eraseIdx_sublist _ i)
  | broken id sa =>
      cases id with
      | none => exact inOrder
      | some id =>
          apply inOrder.of_sublist
          rw [discardNode_eq_filter id inOrder.distinct]
          exact List.filter_sublist

/-- The nodes are the closest of some ids, as many as fit. -/
structure Search.Closest (sr : Search) (ids : List (Field 20)) : Prop where
  number : sr.nodes.length = min searchNodes ids.toFinset.card
  among : ∀ n ∈ sr.nodes, n.id ∈ ids
  closer : ∀ id ∈ ids, id ∉ sr.nodes.map (·.id) →
    ∀ n ∈ sr.nodes, distance sr.id n.id < distance sr.id id

/-- The least distances belong to the closest ids. -/
theorem Search.Closest.of_leastOf {ids : List (Field 20)}
    (least : LeastOf searchNodes (ids.map (distance sr.id)).toFinset sr.distances) :
    sr.Closest ids where
  number := by
    have length := least.length
    have image : (ids.map (distance sr.id)).toFinset = ids.toFinset.image (distance sr.id) := by
      ext d
      simp
    rw [image, Finset.card_image_of_injective _ (distance_injective sr.id), Search.distances,
      List.length_map] at length
    exact length
  among := by
    intro n mem
    have seen := least.subset (distance sr.id n.id) (List.mem_map_of_mem mem)
    rcases List.mem_map.mp (List.mem_toFinset.mp seen) with ⟨id, offered, same⟩
    rwa [← distance_injective sr.id same]
  closer := by
    intro id offered dropped n mem
    apply least.least (distance sr.id id)
    · exact List.mem_toFinset.mpr (List.mem_map_of_mem offered)
    · intro kept
      rcases List.mem_map.mp kept with ⟨n', mem', same⟩
      exact dropped (distance_injective sr.id same ▸ List.mem_map_of_mem mem')
    · exact List.mem_map_of_mem mem

/-- What a run leaves of a search that is in order. -/
theorem searches_run {steps : List Tending} {last : State} (there : d.searches[place]? = some sr)
    (inOrder : sr.InOrder) (ran : Run.run (State.tend place) d steps = .ok last) :
    ∃ sr', last.searches[place]? = some sr' ∧ sr'.id = sr.id ∧ sr'.af = sr.af ∧ sr'.InOrder ∧
      ((∀ step ∈ steps, step.inserts) →
        sr'.distances = ((insertedIds sr.af steps).map (distance sr.id)).foldl
          (offer searchNodes) sr.distances) := by
  induction steps generalizing d sr with
  | nil =>
      cases ran
      exact ⟨sr, there, rfl, rfl, inOrder, fun _ => rfl⟩
  | cons step steps ih =>
      cases tended : d.tend place step with
      | error fault =>
          rw [Run.run, tended] at ran
          cases ran
      | ok next =>
          rw [Run.run_cons_of_ok tended] at ran
          rcases ih (searches_tend there tended) (inOrder.apply step) ran with
            ⟨sr', found, sameId, sameAf, inOrder', closest⟩
          rcases apply_same step sr with ⟨keptId, keptAf⟩
          refine ⟨sr', found, sameId.trans keptId, sameAf.trans keptAf, inOrder', fun inserts => ?_⟩
          rw [List.forall_mem_cons] at inserts
          rw [closest inserts.2, keptId, keptAf]
          cases step with
          | flush i => cases inserts.1
          | broken id sa => cases inserts.1
          | insert now id sa replied token =>
              by_cases family : sa.family = sr.af
              · rw [Tending.apply, distances_insertSearchNode inOrder now id family]
                simp [insertedIds, family]
              · rw [Tending.apply, insertSearchNode_refused family]
                simp [insertedIds, family]

end Runs

/-- A search that starts without nodes has, after any calls, its nodes in the order of
their distance, none twice and at most fourteen.  When all calls were insertions these
are the closest of the ids inserted.  Flushing a node or finding one broken takes out
exactly the node with that id. -/
theorem candidates_of_run {place : Nat} {d last : State} {sr : Search} {steps : List Tending}
    (there : d.searches[place]? = some sr) (begins : sr.nodes = [])
    (ran : Run.run (State.tend place) d steps = .ok last) :
    ∃ sr', last.searches[place]? = some sr' ∧ sr'.id = sr.id ∧ sr'.InOrder ∧
      ((∀ step ∈ steps, step.inserts) → sr'.Closest (insertedIds sr.af steps)) ∧
      (∀ i n, sr'.nodes[i]? = some n → ∃ d', last.tend place (.flush i) = .ok d' ∧
        d'.searches[place]? =
          some { sr' with nodes := sr'.nodes.filter fun other => other.id ≠ n.id }) ∧
      ∀ id sa, ∃ d', last.tend place (.broken (some id) sa) = .ok d' ∧
        d'.searches[place]? =
          some { sr' with nodes := sr'.nodes.filter fun other => other.id ≠ id } := by
  have inOrder : sr.InOrder := by constructor <;> simp [begins]
  rcases searches_run there inOrder ran with ⟨sr', found, sameId, sameAf, inOrder', closest⟩
  refine ⟨sr', found, sameId, inOrder', fun inserts => ?_, fun i n held => ?_, fun id sa => ?_⟩
  · apply Search.Closest.of_leastOf
    have none_yet : sr.distances = [] := by simp [Search.distances, begins]
    rw [closest inserts, none_yet, sameId]
    exact .foldl searchNodes _
  · have inside := (List.getElem?_eq_some_iff.mp held).1
    have flushed : last.tend place (.flush i) = .ok { last with
        searches := last.searches.set place (flushSearchNode i sr') } := by
      simp only [State.tend, found, if_pos inside]
    refine ⟨_, flushed, ?_⟩
    rw [searches_tend found flushed, Tending.apply, flushSearchNode,
      eraseIdx_eq_filter inOrder'.distinct held]
  · rcases brokenNode_searches (some id) sa found with ⟨d', returned, there'⟩
    refine ⟨d', returned, ?_⟩
    rw [there', Tending.apply, discardNode_eq_filter id inOrder'.distinct]

/-- A node with one search that has no nodes yet. -/
def searchingNode : State :=
  { State.init 3 (-1) (.zero 20) none 0 (fun _ => 0) with searches := [.zero] }

/-- A call of `insert_search_node` for an id of twenty equal bytes. -/
def insertion (byte : UInt8) : Tending :=
  .insert 0 ⟨List.replicate 20 byte, by simp⟩ (.inet ⟨⟨[0, 80], rfl⟩, .zero 4⟩) false none

/-- Three ids in an order that is not that of their distances, one of them twice. -/
theorem candidates_of_run_example :
    ∃ last, Run.run (State.tend 0) searchingNode
        [insertion 2, insertion 1, insertion 2, insertion 3] = .ok last ∧
      ∃ sr', last.searches[0]? = some sr' ∧ sr'.id = Search.zero.id ∧ sr'.InOrder ∧
        ((∀ step ∈ [insertion 2, insertion 1, insertion 2, insertion 3], step.inserts) →
          sr'.Closest (insertedIds Search.zero.af
            [insertion 2, insertion 1, insertion 2, insertion 3])) ∧
        (∀ i n, sr'.nodes[i]? = some n → ∃ d', last.tend 0 (.flush i) = .ok d' ∧
          d'.searches[0]? =
            some { sr' with nodes := sr'.nodes.filter fun other => other.id ≠ n.id }) ∧
        ∀ id sa, ∃ d', last.tend 0 (.broken (some id) sa) = .ok d' ∧
          d'.searches[0]? =
            some { sr' with nodes := sr'.nodes.filter fun other => other.id ≠ id } :=
  ⟨_, rfl, candidates_of_run rfl rfl rfl⟩

end Dnsp2p.Dht
