import Dnsp2p.Dht.Candidates
import Dnsp2p.Dht.TableRun
import Dnsp2p.Library.Records
import Dnsp2p.Message.Fitting

/-!
# The closest nodes

The answer to a question for an id: `send_closest_nodes` looks at the bucket of the id
and at the two buckets next to it, and keeps the good nodes that are closest to the id
in a block of eight compact records, which is kept sorted by moving bytes.
-/

namespace Dnsp2p.Dht

open Dnsp2p.Message Dnsp2p.Tiling

/-! ## Compact records -/

/-- The size of a compact node record. -/
def recordSize : Family → Nat
  | .inet => 26
  | .inet6 => 38

/-- The address and the port of a socket address, as they lie in memory. -/
def Sockaddr.addrBytes : Sockaddr → Bytes
  | .inet sin => sin.addr.bytes
  | .inet6 sin6 => sin6.addr.bytes

/-- The port of a socket address, as it lies in memory. -/
def Sockaddr.portField : Sockaddr → Field 2
  | .inet sin => sin.port
  | .inet6 sin6 => sin6.port

/-- An access that must stay inside its block. -/
def inBounds {α : Type} : Option α → Except Fault α
  | some value => .ok value
  | none => .error .outOfBounds

@[simp]
theorem inBounds_some {α : Type} (value : α) : inBounds (some value) = .ok value :=
  rfl

/-- The loop of `insert_closest_node` from record `i` on: where it stops, unless it finds
the id of the node. -/
def closestPlace (size : Nat) (nodes : Bytes) (nodeId id : Field 20) :
    Nat → Nat → Except Fault (Option Nat)
  | 0, i => .ok (some i)
  | left + 1, i => do
      let other ← inBounds (Field.read 20 (nodes.drop (size * i)))
      if idCmp nodeId other = 0 then .ok none
      else if xorcmp nodeId.bytes other.bytes id.bytes < 0 then .ok (some i)
      else closestPlace size nodes nodeId id left (i + 1)

/-- `insert_closest_node` behind its loop, which stopped at place `i`: the block and the
number of records in it. -/
def storeClosestNode {af : Family} (nodes : Bytes) (numnodes i : Nat) (n : Node af) :
    Except Fault (Bytes × Nat) :=
  let size := recordSize af
  if i = 8 then .ok (nodes, numnodes)
  else do
    let numnodes := if numnodes < 8 then numnodes + 1 else numnodes
    let nodes ← inBounds (if i < numnodes - 1 then
        memmove nodes (size * (i + 1)) (size * i) (size * (numnodes - i - 1))
      else some nodes)
    let nodes ← inBounds (memcpy nodes (size * i) n.id.bytes)
    let nodes ← inBounds (memcpy nodes (size * i + 20) n.ss.1.addrBytes)
    let nodes ← inBounds (memcpy nodes (size * i + (size - 2)) n.ss.1.portField.bytes)
    .ok (nodes, numnodes)

/-- `insert_closest_node`. -/
def insertClosestNode {af : Family} (nodes : Bytes) (numnodes : Nat) (id : Field 20)
    (n : Node af) : Except Fault (Bytes × Nat) := do
  match ← closestPlace (recordSize af) nodes n.id id numnodes 0 with
  | none => .ok (nodes, numnodes)
  | some i => storeClosestNode nodes numnodes i n

/-- The compact record of a node. -/
def Node.record {af : Family} (n : Node af) : Bytes :=
  n.id.bytes ++ (n.ss.1.addrBytes ++ n.ss.1.portField.bytes)

theorem length_addrBytes {af : Family} (ss : Endpoint af) :
    ss.1.addrBytes.length + 22 = recordSize af := by
  rcases ss with ⟨sa, rfl⟩
  cases sa with
  | inet sin => simp [Sockaddr.addrBytes, sin.addr.length_eq, Sockaddr.family, recordSize]
  | inet6 sin6 => simp [Sockaddr.addrBytes, sin6.addr.length_eq, Sockaddr.family, recordSize]

theorem Node.length_record {af : Family} (n : Node af) : n.record.length = recordSize af := by
  have address := length_addrBytes n.ss
  simp only [Node.record, List.length_append, n.id.length_eq, n.ss.1.portField.length_eq]
  omega

/-- The record is written in three copies. -/
theorem memcpy_record {af : Family} (block : Bytes) (dst : Nat) (n : Node af) :
    ((memcpy block dst n.id.bytes).bind fun block =>
      (memcpy block (dst + 20) n.ss.1.addrBytes).bind fun block =>
        memcpy block (dst + (recordSize af - 2)) n.ss.1.portField.bytes) =
      memcpy block dst n.record := by
  have address := length_addrBytes n.ss
  have behind : dst + (recordSize af - 2) = dst + 20 + n.ss.1.addrBytes.length := by omega
  have joined := memcpy_memcpy block n.id.bytes (n.ss.1.addrBytes ++ n.ss.1.portField.bytes) dst
  rw [n.id.length_eq] at joined
  simp only [behind, memcpy_memcpy]
  exact joined

/-- The id at the start of a record. -/
theorem read_record {af : Family} {n : Node af} {memory : Bytes} (starts : n.record <+: memory) :
    Field.read 20 memory = some n.id := by
  rcases starts with ⟨rest, rfl⟩
  rw [Node.record, List.append_assoc]
  exact Field.read_append n.id _

section Place

variable {af : Family} {nodes : Bytes} {nodeId id : Field 20}

/-- The loop passes the nodes that are closer and stops at the first one that is not. -/
theorem closestPlace_eq (front : List (Node af)) {closer back : List (Node af)}
    (holds : Records (recordSize af) 8 nodes ((front ++ (closer ++ back)).map Node.record))
    (passed : ∀ n ∈ closer, distance id n.id < distance id nodeId)
    (stop : ∀ n ∈ back.head?, distance id nodeId ≤ distance id n.id) :
    closestPlace (recordSize af) nodes nodeId id (closer ++ back).length front.length =
      .ok (if back.head?.map (·.id) = some nodeId then none
        else some (front ++ closer).length) := by
  induction closer generalizing front with
  | nil =>
      cases back with
      | nil => simp [closestPlace]
      | cons n back =>
          simp only [List.nil_append, List.map_append, List.map_cons] at holds
          have starts := holds.drop
          rw [List.length_map] at starts
          have le := stop n rfl
          rw [List.nil_append, List.length_cons, closestPlace, read_record starts]
          simp only [inBounds_some, ok_bind, idCmp_eq_zero_iff, xorcmp_neg_iff, List.head?_cons,
            Option.map_some, Option.some.injEq, List.append_nil]
          by_cases own : nodeId = n.id
          · rw [if_pos own, if_pos own.symm]
          · have less : distance id nodeId < distance id n.id :=
              lt_of_le_of_ne le fun same => own (distance_injective id same)
            rw [if_neg own, if_pos less, if_neg (Ne.symm own)]
  | cons n closer ih =>
      rw [List.forall_mem_cons] at passed
      have later := ih (front ++ [n]) (by simpa using holds) passed.2
      simp only [List.cons_append, List.map_append, List.map_cons] at holds
      have starts := holds.drop
      rw [List.length_map] at starts
      have other : nodeId ≠ n.id := fun same => absurd passed.1 (same ▸ lt_irrefl _)
      rw [List.cons_append, List.length_cons, closestPlace, read_record starts]
      simp only [inBounds_some, ok_bind, idCmp_eq_zero_iff, if_neg other, xorcmp_neg_iff,
        if_neg passed.1.not_gt]
      simpa using later

end Place

/-- A record is stored at its place, and the last one makes room for it when there are
eight. -/
theorem storeClosestNode_eq {af : Family} {nodes : Bytes} {closer back : List (Node af)}
    (records : Records (recordSize af) 8 nodes ((closer ++ back).map Node.record))
    (atMost : (closer ++ back).length ≤ 8) (n : Node af) :
    ∃ nodes', storeClosestNode nodes (closer ++ back).length closer.length n =
        .ok (nodes', ((closer ++ n :: back).take 8).length) ∧
      Records (recordSize af) 8 nodes' (((closer ++ n :: back).take 8).map Node.record) := by
  have room := atMost
  rw [List.length_append] at room
  by_cases full : closer.length = 8
  · have none : back = [] := List.length_eq_zero_iff.mp (by omega)
    subst none
    rw [List.append_nil] at records
    refine ⟨nodes, ?_, ?_⟩
    · rw [storeClosestNode, if_pos full, List.take_left' full, List.append_nil]
    · rw [List.take_left' full]
      exact records
  · rw [List.map_append] at records
    have counted : (if (closer ++ back).length < 8 then (closer ++ back).length + 1
        else (closer ++ back).length) =
          min 8 ((closer.map Node.record ++ back.map Node.record).length + 1) := by
      simp only [List.length_append, List.length_map]
      split <;> omega
    rcases records.insert (by simpa using atMost) (by simp; omega) n.length_record counted with
      ⟨moved, nodes', ran, copied, stored, number⟩
    rw [List.length_map] at ran copied
    have written := memcpy_record moved (recordSize af * closer.length) n
    rw [copied, Option.bind_eq_some_iff] at written
    rcases written with ⟨first, one, written⟩
    rcases Option.bind_eq_some_iff.mp written with ⟨second, two, three⟩
    rw [← List.map_cons, ← List.map_append, ← List.map_take] at stored number
    rw [List.length_map] at number
    rw [number] at ran
    refine ⟨nodes', ?_, stored⟩
    simp only [storeClosestNode, if_neg full, number, ran, inBounds_some, ok_bind, one, two, three]

/-- The block holds the nodes that are closest to an id among those that were offered. -/
structure Holding (af : Family) (id : Field 20) (buffer : Bytes × Nat) (kept : List (Node af))
    (offered : List (Node af)) : Prop where
  records : Records (recordSize af) 8 buffer.1 (kept.map Node.record)
  numnodes : buffer.2 = kept.length
  among : ∀ n ∈ kept, n ∈ offered
  least : LeastOf 8 (offered.map fun n => distance id n.id).toFinset
    (kept.map fun n => distance id n.id)

section Insert

variable {af : Family} {id : Field 20} {buffer : Bytes × Nat} {kept offered : List (Node af)}

theorem Holding.atMost (holding : Holding af id buffer kept offered) : kept.length ≤ 8 := by
  have length := holding.least.length
  rw [List.length_map] at length
  omega

/-- The block is not initialised. -/
theorem Holding.fresh (id : Field 20) {fresh : Bytes} (length : fresh.length = recordSize af * 8) :
    Holding af id (fresh, 0) [] [] where
  records := .empty length
  numnodes := rfl
  among := by simp
  least := .empty 8

/-- `insert_closest_node` offers a node to the block. -/
theorem Holding.insert (holding : Holding af id buffer kept offered) (n : Node af) :
    ∃ buffer' kept', insertClosestNode buffer.1 buffer.2 id n = .ok buffer' ∧
      Holding af id buffer' kept' (offered ++ [n]) := by
  rcases findIdx_cut (fun n' => decide (distance id n.id ≤ distance id n'.id)) kept with
    ⟨closer, back, rfl, _, passed, stop⟩
  have atMost := holding.atMost
  have passed : ∀ n' ∈ closer, distance id n'.id < distance id n.id := fun n' mem => by
    simpa using passed n' mem
  have stop : ∀ n' ∈ back.head?, distance id n.id ≤ distance id n'.id := fun n' mem => by
    simpa using stop n' mem
  have place := closestPlace_eq [] holding.records passed stop
  have seen : (((offered ++ [n]).map fun n => distance id n.id).toFinset) =
      Insert.insert (distance id n.id) (offered.map fun n => distance id n.id).toFinset := by
    simp
  have least := holding.least.offer (distance id n.id)
  rw [← seen] at least
  rw [insertClosestNode, holding.numnodes]
  simp only [List.length_nil] at place
  rw [place, ok_bind]
  by_cases known : back.head?.map (·.id) = some n.id
  · rw [if_pos known]
    refine ⟨_, _, rfl, holding.records, rfl, ?_, ?_⟩
    · exact fun n' mem => List.mem_append_left _ (holding.among n' mem)
    · rw [offer_of_mem] at least
      · exact least
      · rcases Option.map_eq_some_iff.mp known with ⟨n', head, same⟩
        rw [← same]
        have mem : n' ∈ back := List.mem_of_mem_head? head
        exact List.mem_map_of_mem (List.mem_append_right _ mem)
  · rw [if_neg known]
    have farther : ∀ d ∈ back.map (fun n => distance id n.id), distance id n.id < d := by
      cases back with
      | nil => simp
      | cons n' back =>
          have le := stop n' rfl
          have other : distance id n.id ≠ distance id n'.id := fun same =>
            known (congrArg some (distance_injective id same).symm)
          have increasing := holding.least.increasing
          simp only [List.map_append, List.map_cons] at increasing
          have behind := List.pairwise_cons.mp (List.pairwise_append.mp increasing).2.1
          rw [List.map_cons, List.forall_mem_cons]
          exact ⟨lt_of_le_of_ne le other, fun d mem => (lt_of_le_of_ne le other).trans
            (behind.1 d mem)⟩
    have nearer : ∀ d ∈ closer.map (fun n => distance id n.id), d < distance id n.id := by
      intro d mem
      rcases List.mem_map.mp mem with ⟨n', inCloser, rfl⟩
      exact passed n' inCloser
    have taken : offer 8 ((closer ++ back).map fun n => distance id n.id) (distance id n.id) =
        ((closer ++ n :: back).take 8).map fun n => distance id n.id := by
      rw [List.map_append, offer_between 8 nearer farther, List.map_take, List.map_append,
        List.map_cons]
    rw [taken] at least
    rcases storeClosestNode_eq holding.records atMost n with ⟨nodes', stored, records⟩
    refine ⟨_, (closer ++ n :: back).take 8, stored, records, rfl, ?_, least⟩
    intro n' mem
    have mem := List.mem_of_mem_take mem
    rw [List.mem_append, List.mem_cons] at mem
    rw [List.mem_append, List.mem_singleton]
    rcases mem with inCloser | rfl | inBack
    · exact .inl (holding.among n' (List.mem_append_left _ inCloser))
    · exact .inr rfl
    · exact .inl (holding.among n' (List.mem_append_right _ inBack))

/-- The good nodes of a bucket, if there is one. -/
def goodNodes {af : Family} (now : Int) (b? : Option (Bucket af)) : List (Node af) :=
  match b? with
  | none => []
  | some b => b.nodes.filter (nodeGood now)

end Insert

/-! ## The answer -/

/-- A bucket list has these places side by side, or they are one. -/
def Beside (b b' : Nat) : Prop :=
  b' = b ∨ b' = b + 1 ∨ b' + 1 = b

/-- The nodes that answer a question for an id whose bucket is at place `b`: the closest
good nodes of this bucket and of those next to it.  They include all good nodes of the
bucket of the id, which are the closest ones in the whole table. -/
structure Nearest (now : Int) {af : Family} (buckets : List (Bucket af)) (target : Field 20)
    (b : Nat) (answer : List (Node af)) : Prop where
  atMost : answer.length ≤ 8
  increasing : answer.Pairwise fun n n' => distance target n.id < distance target n'.id
  among : ∀ n ∈ answer, ∃ b', Beside b b' ∧ n ∈ goodNodes now buckets[b']?
  closest : ∀ b', Beside b b' → ∀ n ∈ goodNodes now buckets[b']?, n ∉ answer →
    answer.length = 8 ∧ ∀ n' ∈ answer, distance target n'.id < distance target n.id
  own : ∀ n ∈ goodNodes now buckets[b]?, n ∈ answer
  ownFirst : ∀ n ∈ goodNodes now buckets[b]?, ∀ b' ≠ b, ∀ n' ∈ goodNodes now buckets[b']?,
    distance target n.id < distance target n'.id

section Answer

variable {myid : Field 20} {af : Family} {t : Table} {now : Int} {buckets : List (Bucket af)}
  {target : Field 20} {b : Nat} {bucket : Bucket af}

/-- The nodes that are sent for a family. -/
structure Answers (t : Table) (af : Family) (wanted : Bool) (target : Field 20)
    (answer : List (Node af)) : Prop where
  nearest : wanted = true → ∀ b, findBucket (t.bucketsOf af) target = some b →
    Nearest t.now (t.bucketsOf af) target b answer
  none : wanted = false ∨ findBucket (t.bucketsOf af) target = none → answer = []

theorem Answers.length_le {wanted : Bool} {answer : List (Node af)}
    (answers : Answers t af wanted target answer) :
    (answer.flatMap Node.record).length ≤ recordSize af * 8 := by
  have atMost : answer.length ≤ 8 := by
    cases wanted with
    | false => simp [answers.none (.inl rfl)]
    | true =>
        cases found : findBucket (t.bucketsOf af) target with
        | none => simp [answers.none (.inr found)]
        | some b => exact (answers.nearest rfl b found).atMost
  simp only [List.length_flatMap, Node.length_record, List.map_const', List.sum_replicate_nat]
  rw [Nat.mul_comm]
  exact Nat.mul_le_mul_left _ atMost

end Answer

/-! ## What the other side reads -/

/-- The address that a compact record keeps. -/
def Sockaddr.compact : Sockaddr → Sockaddr
  | .inet sin => .inet sin
  | .inet6 sin6 => .inet6 { sin6 with flowinfo := Field.zero 4, scopeId := Field.zero 4 }

/-- A family has no buckets, or its buckets tile all ids. -/
theorem Upright.shape {opened : Family → Prop} {myid : Field 20} {t : Table}
    (upright : Upright opened myid t) (af : Family) :
    t.bucketsOf af = [] ∨ Tiled myid (t.bucketsOf af) := by
  by_cases isOpen : opened af
  · exact .inr (upright.tiled af isOpen)
  · exact .inl (upright.closed af isOpen)

theorem upright_of_run {s s6 : Int} {myid : Field 20} {v : Option (Field 4)} {now : Int}
    {random : Nat → Nat} {steps : List (Int × Step)} {d : State}
    (ran : Run.run State.take (State.init s s6 myid v now random) steps = .ok d) :
    Upright (opens s s6) myid d.toTable := by
  have always : Run.Always State.take (fun d => Upright (opens s s6) myid d.toTable)
      (State.init s s6 myid v now random) steps :=
    (Run.always_of_total (fun d : State => Upright (opens s s6) myid d.toTable)
      (fun step upright => upright.take step) (fun upright => upright)
      (upright_init s s6 myid v now random) steps).2
  exact always.last ran

/-- A field of equal bytes. -/
def evenField (width : Nat) (byte : UInt8) : Field width :=
  ⟨List.replicate width byte, List.length_replicate⟩

/-- A node of the first family whose id is twenty equal bytes answers. -/
def answering (byte : UInt8) : Int × Step :=
  (1000, .newNode (evenField 20 byte) (.inet ⟨evenField 2 1, .zero 4⟩) 2)

end Dnsp2p.Dht
