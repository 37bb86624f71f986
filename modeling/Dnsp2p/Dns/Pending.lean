import Dnsp2p.Dht.SearchList
import Dnsp2p.Dns.Requests

/-!
# Pending operations and their searches

The operations and the search list are kept by two modules that do not know each
other.  Accepted questions and periodic calls interleave in any order; every
pending operation has a search as long as no step meets one of the conditions
under which a search does not start, is dropped or gives its slot away.
-/

namespace Dnsp2p.Dns

open Dnsp2p.Ops Dnsp2p.Dht BinTree

/-! ## The node -/

/-- The part of `f4_init_p2p` that starts the DHT: there is one socket, for the
family of the listen address. -/
def f4InitP2p (family : Family) (socket : Nat) (publicKey : Field 20) (now : Int)
    (random : Nat → Nat) : Dht.State :=
  let (s4, s6) : Int × Int := match family with
    | .inet6 => (-1, socket)
    | .inet => (socket, -1)
  .init s4 s6 publicKey (some ⟨ascii "P2NS", rfl⟩) now random

/-- `opget_dht_callback`. -/
def opgetDhtCallback : Except Fault Unit :=
  .error .assertion

/-- `f4_cb_dht`. -/
def f4CbDht (ctx : F4opCtx) (event : Event) : Except Fault Unit := do
  match ← ctx.f4opFind event.infoHash with
  | none => return ()
  | some op =>
      match (← ctx.read (some op)).dhtCallback with
      | none => .error .nullPointer
      | some .opgetDhtCallback => opgetDhtCallback

/-- `f4_cb_dht_read`.  The callback and its closure are `f4_cb_dht` and the node. -/
def Node.f4CbDhtRead (node : Node) (input : Input) : Except Fault Node := do
  let outcome ← dhtPeriodic node.dht input { callback := some 0, closure := 0 }
  outcome.events.forM (f4CbDht node.opCtx)
  return { node with dht := outcome.dht }

/-- What happens to a node: a question with a valid name is accepted for a request,
or `dht_periodic` is called. -/
inductive Action where
  | question (req : Nat) (question : Question) (valid : IsValid question.name)
  | periodic (input : Input)

namespace Node

/-- One step of a node. -/
def step (gcrypt : Gcrypt) (node : Node) : Action → Except Fault Node
  | .question req question _ => node.acceptQuestion gcrypt req question
  | .periodic input => node.f4CbDhtRead input

/-- There is a search with the id. -/
def HasSearch (node : Node) (id : Field 20) : Prop :=
  ∃ sr ∈ node.dht.searches, sr.id = id

/-- Every operation whose request is not answered has a search with its id. -/
def AllSearched (node : Node) : Prop :=
  ∀ id op, node.opCtx.f4opFind id = .ok (some op) →
    (∀ req, node.opCtx.requestOf op = some req → ∀ err, (req, err) ∉ node.responses) →
      node.HasSearch id

/-- A question is for an id that has a search, or a new search can be started; a
periodic call expires no search. -/
def Sustained (gcrypt : Gcrypt) (node : Node) : Action → Prop
  | .question _ question _ =>
      node.HasSearch (gcrypt.opId question.name) ∨ node.dht.Searchable .inet
  | .periodic input =>
      Expires node.dht input →
        ∀ sr ∈ node.dht.searches, input.now - dhtSearchExpireTime ≤ sr.stepTime

/-! ## What connects the two stores -/

/-- Searches are for IPv4, each for a pending id of its own, and nothing is
answered. -/
structure Paired (docket : Docket) (node : Node) : Prop where
  records : ∃ tree, Records docket node tree
  pending : ∀ label ∈ labels node.dht.searches, label.2 = .inet ∧ docket.pending label.1 ≠ none
  distinct : (labels node.dht.searches).Nodup
  unanswered : node.responses = []

namespace Paired

variable {gcrypt : Gcrypt} {docket : Docket} {node : Node}

theorem hasSearch_iff (paired : Paired docket node) (id : Field 20) :
    node.HasSearch id ↔ (id, Family.inet) ∈ labels node.dht.searches := by
  constructor
  · rintro ⟨sr, mem, rfl⟩
    have labelled : sr.label ∈ labels node.dht.searches := List.mem_map_of_mem mem
    have inet : sr.af = .inet := (paired.pending _ labelled).1
    simpa [Search.label, inet] using labelled
  · intro labelled
    rcases List.mem_map.mp labelled with ⟨sr, mem, same⟩
    exact ⟨sr, mem, congrArg Prod.fst same⟩

theorem allSearched_iff (paired : Paired docket node) :
    node.AllSearched ↔ ∀ id, docket.pending id ≠ none →
      (id, Family.inet) ∈ labels node.dht.searches := by
  rcases paired.records with ⟨tree, records⟩
  simp only [AllSearched, paired.hasSearch_iff, paired.unanswered, List.not_mem_nil,
    not_false_eq_true, implies_true, forall_const]
  apply forall_congr'
  intro id
  constructor
  · intro searched pending
    rcases Option.ne_none_iff_exists'.mp pending with ⟨req, held⟩
    rcases (records.pending_iff id req).mp held with ⟨op, found, _⟩
    exact searched op found
  · intro searched op found
    apply searched
    intro free
    have := (records.free_iff id).mp free
    simp [found] at this

/-- An operation without a search breaks the property. -/
theorem not_allSearched (paired : Paired docket node) {id : Field 20}
    (pending : docket.pending id ≠ none) (missing : (id, Family.inet) ∉ labels node.dht.searches) :
    ¬node.AllSearched :=
  fun all => missing (paired.allSearched_iff.mp all id pending)

/-- The label at a place is gone once another one is put there. -/
theorem label_lost {first : List (Field 20 × Family)} (distinct : first.Nodup) {slot : Nat}
    (inside : slot < first.length) {label : Field 20 × Family} (new : label ∉ first) :
    first[slot] ∉ first.set slot label := by
  intro mem
  rcases List.getElem_of_mem mem with ⟨n, bound, same⟩
  rw [List.length_set] at bound
  rw [List.getElem_set] at same
  split at same
  · exact new (same ▸ List.getElem_mem inside)
  · next differ => exact differ (distinct.getElem_inj_iff.mp same).symm

/-! ### Questions -/

/-- The labels after a question are those before it and its own. -/
theorem enter (paired : Paired docket node) {id : Field 20} {req : Nat} {next : Node}
    {tree : BinTree Nat} (entered : Records (docket.enter id req) next tree)
    (distinct : (labels next.dht.searches).Nodup)
    (origin : ∀ label ∈ labels next.dht.searches,
      label = (id, .inet) ∨ label ∈ labels node.dht.searches) :
    Paired (docket.enter id req) next where
  records := ⟨tree, entered⟩
  pending := by
    intro label mem
    rw [Docket.enter_pending_ne_none]
    rcases origin label mem with rfl | old
    · exact ⟨rfl, .inl rfl⟩
    · rcases paired.pending label old with ⟨inet, pending⟩
      exact ⟨inet, .inr pending⟩
  distinct := distinct
  unanswered := by
    rcases paired.records with ⟨before, records⟩
    have same := entered.answered
    rw [Docket.enter_answered, records.answered, paired.unanswered] at same
    exact List.map_eq_nil_iff.mp same.symm

/-- The property is kept when the new operation has a search and no other one lost its
own. -/
theorem allSearched_enter (paired : Paired docket node) {id : Field 20} {req : Nat} {next : Node}
    (paired' : Paired (docket.enter id req) next) (all : node.AllSearched)
    (own : (id, Family.inet) ∈ labels next.dht.searches)
    (kept : labels node.dht.searches ⊆ labels next.dht.searches) : next.AllSearched := by
  rw [paired'.allSearched_iff]
  intro other pending
  rcases (docket.enter_pending_ne_none id req other).mp pending with rfl | pending
  · exact own
  · exact kept (paired.allSearched_iff.mp all other pending)

/-- A question keeps the property exactly when it is sustained. -/
theorem question (paired : Paired docket node) {req : Nat} {question : Question}
    (valid : IsValid question.name) {next : Node}
    (accepted : node.acceptQuestion gcrypt req question = .ok next) :
    Paired (docket.enter (gcrypt.opId question.name) req) next ∧
      (node.AllSearched →
        (next.AllSearched ↔ node.Sustained gcrypt (.question req question valid))) := by
  rcases paired.records with ⟨tree, records⟩
  rcases acceptQuestion_requires accepted with ⟨supported, named, opened⟩
  rcases records.accept req supported named opened with ⟨_, grown, again, dht, entered⟩
  obtain rfl := Except.ok.inj (accepted.symm.trans again)
  rw [Sustained, paired.hasSearch_iff]
  obtain ⟨known, started, refused⟩ := State.dhtSearch_labels node.dht (gcrypt.opId question.name) 0
    .inet { callback := none, closure := 0 }
  rw [show (node.dht.dhtSearch (gcrypt.opId question.name) 0 .inet _).2.1 = next.dht from dht.symm]
    at known started refused
  generalize gcrypt.opId question.name = id at *
  have own : (docket.enter id req).pending id ≠ none :=
    (docket.enter_pending_ne_none id req id).mpr (.inl rfl)
  by_cases searched : (id, Family.inet) ∈ labels node.dht.searches
  · have same := known searched
    have paired' := paired.enter entered (by rw [same]; exact paired.distinct)
      (fun label mem => .inr (by rwa [same] at mem))
    refine ⟨paired', fun all => iff_of_true ?_ (.inl searched)⟩
    apply paired.allSearched_enter paired' all
    · rwa [same]
    · rw [same]
      exact List.Subset.refl _
  · by_cases searchable : node.dht.Searchable .inet
    · have grows := started searched searchable
      have paired' := paired.enter entered
        (by rw [grows]; exact List.nodup_cons.mpr ⟨searched, paired.distinct⟩)
        (fun label mem => by rwa [grows, List.mem_cons] at mem)
      refine ⟨paired', fun all => iff_of_true ?_ (.inr searchable)⟩
      apply paired.allSearched_enter paired' all
      · rw [grows]
        exact List.mem_cons_self
      · rw [grows]
        exact List.subset_cons_self _ _
    · have notSustained : ¬((id, Family.inet) ∈ labels node.dht.searches ∨
          node.dht.Searchable .inet) := not_or.mpr ⟨searched, searchable⟩
      rcases refused searched searchable with same | ⟨slot, inside, replaced⟩
      · -- no search was started for the new operation
        have paired' := paired.enter entered (by rw [same]; exact paired.distinct)
          (fun label mem => .inr (by rwa [same] at mem))
        exact ⟨paired', fun _ => iff_of_false
          (paired'.not_allSearched own (by rwa [same])) notSustained⟩
      · -- another operation lost its search
        have paired' := paired.enter entered
          (by rw [replaced]; exact paired.distinct.set searched)
          (fun label mem => by
            rw [replaced] at mem
            exact (List.mem_or_eq_of_mem_set mem).symm)
        rcases paired.pending _ (List.getElem_mem inside) with ⟨inet, pending⟩
        have lost := label_lost paired.distinct inside searched
        rw [← replaced, show (labels node.dht.searches)[slot] =
          ((labels node.dht.searches)[slot].1, Family.inet) from Prod.ext rfl inet] at lost
        exact ⟨paired', fun _ => iff_of_false (paired'.not_allSearched
          ((docket.enter_pending_ne_none id req _).mpr (.inr pending)) lost) notSustained⟩

/-! ### Periodic calls -/

/-- The label of an expired search is gone. -/
theorem label_expired {searches : List Search} (distinct : (labels searches).Nodup) {now : Int}
    {sr : Search} (mem : sr ∈ searches) (stale : sr.stepTime < now - dhtSearchExpireTime) :
    sr.label ∉ labels (unexpired now searches) := by
  intro kept
  rcases List.mem_map.mp kept with ⟨other, otherMem, same⟩
  rcases List.mem_filter.mp otherMem with ⟨otherMem, young⟩
  obtain rfl := List.inj_on_of_nodup_map distinct otherMem mem same
  simp [stale] at young

/-- A periodic call keeps the property exactly when it is sustained. -/
theorem periodic (gcrypt : Gcrypt) (paired : Paired docket node) {input : Input} {next : Node}
    (called : node.f4CbDhtRead input = .ok next) :
    Paired docket next ∧ (node.AllSearched →
      (next.AllSearched ↔ node.Sustained gcrypt (.periodic input))) := by
  rcases bind_eq_ok_iff.mp called with ⟨outcome, returned, called⟩
  rcases bind_eq_ok_iff.mp called with ⟨_, _, result⟩
  obtain rfl := Except.ok.inj result
  have after := dhtPeriodic_labels returned
  have keep : (labels outcome.dht.searches).Sublist (labels node.dht.searches) →
      Paired docket { node with dht := outcome.dht } := by
    intro sublist
    rcases paired.records with ⟨tree, records⟩
    exact ⟨⟨tree, records.valid, records.pending, records.held, records.answered⟩,
      fun label mem => paired.pending label (sublist.subset mem), paired.distinct.sublist sublist,
      paired.unanswered⟩
  by_cases lasting : node.Sustained gcrypt (.periodic input)
  · have same : labels outcome.dht.searches = labels node.dht.searches := by
      rw [after]
      split
      · next expires =>
        have all : unexpired input.now node.dht.searches = node.dht.searches :=
          List.filter_eq_self.mpr fun sr mem => by simpa using lasting expires sr mem
        rw [all]
      · rfl
    have paired' := keep (by rw [same])
    refine ⟨paired', fun all => iff_of_true ?_ lasting⟩
    rw [paired.allSearched_iff] at all
    rw [paired'.allSearched_iff]
    exact fun id pending => same ▸ all id pending
  · rcases Classical.not_imp.mp lasting with ⟨expires, stale⟩
    rcases not_forall.mp stale with ⟨sr, stale⟩
    rcases Classical.not_imp.mp stale with ⟨mem, stale⟩
    rw [if_pos expires] at after
    have paired' := keep (by
      rw [after]
      exact List.filter_sublist.map _)
    have lost := label_expired paired.distinct mem (not_le.mp stale)
    rcases paired.pending sr.label (List.mem_map_of_mem mem) with ⟨inet, pending⟩
    rw [← after, show sr.label = (sr.id, Family.inet) from Prod.ext rfl inet] at lost
    exact ⟨paired', fun _ => iff_of_false (paired'.not_allSearched pending lost) lasting⟩

end Paired

/-! ## Runs -/

/-- The node that `f4_init_p2p` starts. -/
theorem start_paired (family : Family) (socket : Nat) (publicKey : Field 20) (now : Int)
    (random : Nat → Nat) :
    Paired { pending := fun _ => none, answered := [] }
      (.start (f4InitP2p family socket publicKey now random)) := by
  have empty : (f4InitP2p family socket publicKey now random).searches = [] := by
    cases family <;> rfl
  refine ⟨⟨.nil, F4opCtx.f4opNewCtx_valid, by simp, by simp, rfl⟩, ?_, ?_, rfl⟩ <;>
    simp [start, empty, labels]

/-- Every pending operation has a live search in every state of a run exactly when
each step is sustained. -/
theorem always_allSearched_iff (gcrypt : Gcrypt) (family : Family) (socket : Nat)
    (publicKey : Field 20) (now : Int) (random : Nat → Nat) (actions : List Action) :
    Run.Always (step gcrypt) AllSearched (.start (f4InitP2p family socket publicKey now random))
        actions ↔
      Run.Guarded (step gcrypt) (Sustained gcrypt)
        (.start (f4InitP2p family socket publicKey now random)) actions := by
  have begins := start_paired family socket publicKey now random
  refine Run.always_iff_guarded (fun node => ∃ docket, Paired docket node) ?_ ?_ ⟨_, begins⟩ ?_
  · rintro node action next ⟨docket, paired⟩ stepped
    cases action with
    | question req question valid => exact ⟨_, (paired.question valid stepped).1⟩
    | periodic input => exact ⟨_, (paired.periodic gcrypt stepped).1⟩
  · rintro node action next ⟨docket, paired⟩ before stepped
    cases action with
    | question req question valid => exact (paired.question valid stepped).2 before
    | periodic input => exact (paired.periodic gcrypt stepped).2 before
  · exact begins.allSearched_iff.mpr fun id pending => absurd rfl pending

/-- On a node that listens on IPv6, the operation of the first question has no search. -/
theorem ipv6_question_unsearched :
    ¬Run.Always (step sampleGcrypt) AllSearched
      (.start (f4InitP2p .inet6 6 (.zero 20) 0 fun _ => 0))
      [.question 0 ⟨sampleName, 1⟩ (by decide)] := by
  intro always
  have begins := start_paired .inet6 6 (.zero 20) 0 fun _ => 0
  rcases begins.records with ⟨tree, records⟩
  have opened : sampleGcrypt.mdOpen = true := rfl
  have supported : Supported ({ name := sampleName, type := 1 } : Question).type := by decide
  rcases records.accept 0 supported (by decide) opened with ⟨next, _, accepted, _⟩
  have sustained := ((begins.question (by decide) accepted).2 always.1).mp (always.2 next accepted)
  rcases sustained with ⟨sr, mem, _⟩ | ⟨table, _⟩
  · cases mem
  · exact table rfl

end Node

end Dnsp2p.Dns
