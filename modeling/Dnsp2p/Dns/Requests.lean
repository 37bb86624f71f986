import Dnsp2p.Library.Run
import Dnsp2p.Dns.Survival

/-!
# Requests over whole runs

A service receives one request after another; a request is the number of requests
before it.  Two properties of all states of a run are reduced to a condition on
each request: that no request is lost, and that an answered request is released.
-/

namespace Dnsp2p.Dns

open Dnsp2p.Ops Dnsp2p.Dht BinTree

/-- A node and the requests that it received. -/
structure Service where
  node : Node
  received : List (List Question)

/-- The next request. -/
def Service.serve (gcrypt : Gcrypt) (service : Service) (questions : List Question) :
    Except Fault Service := do
  let node ← service.node.f4dnsCbDnsserver gcrypt service.received.length questions
  return { node, received := service.received ++ [questions] }

/-- A service with an empty operation context. -/
def Service.start (dht : Dht.State) : Service where
  node := .start dht
  received := []

namespace Service

/-- The request was given to `evdns_server_request_respond`. -/
def Answered (service : Service) (req : Nat) : Prop :=
  ∃ err, (req, err) ∈ service.node.responses

/-- An operation that `f4op_find` reaches under an id holds the request. -/
def Holds (service : Service) (id : Field 20) (req : Nat) : Prop :=
  ∃ op, service.node.opCtx.f4opFind id = .ok (some op) ∧
    service.node.opCtx.requestOf op = some req

/-- Every request is answered or held under the hash of one of its names. -/
def NoRequestLost (gcrypt : Gcrypt) (service : Service) : Prop :=
  ∀ req questions, service.received[req]? = some questions →
    service.Answered req ∨ ∃ question ∈ questions, service.Holds (gcrypt.opId question.name) req

/-- No request is answered twice, and no operation holds an answered request. -/
def Released (service : Service) : Prop :=
  (service.node.responses.map Prod.fst).Nodup ∧
    ∀ req, service.Answered req → ∀ id, ¬service.Holds id req

/-- `f4op_find` finds nothing under the hash of the name. -/
def IsNew (gcrypt : Gcrypt) (service : Service) (question : Question) : Prop :=
  service.node.opCtx.f4opFind (gcrypt.opId question.name) = .ok none

/-- Some question of the request is invalid, or one is for a new name. -/
def Kept (gcrypt : Gcrypt) (service : Service) (questions : List Question) : Prop :=
  (∃ question ∈ questions, ¬IsValid question.name) ∨
    ∃ question ∈ questions, service.IsNew gcrypt question

/-- All questions are valid, or none before the first invalid one is for a new name. -/
def Unheld (gcrypt : Gcrypt) (service : Service) (questions : List Question) : Prop :=
  (∀ question ∈ questions, IsValid question.name) ∨
    ∀ question ∈ validPrefix questions, ¬service.IsNew gcrypt question

/-! ## The docket of a service -/

/-- The docket of the node, in which there are only requests that were received. -/
structure Keeps (docket : Docket) (service : Service) : Prop where
  records : ∃ tree, Records docket service.node tree
  pending_lt : ∀ id req, docket.pending id = some req → req < service.received.length
  answered_lt : ∀ req ∈ docket.answered, req < service.received.length

namespace Keeps

variable {gcrypt : Gcrypt} {docket : Docket} {service : Service}

theorem holds_iff (keeps : Keeps docket service) (id : Field 20) (req : Nat) :
    service.Holds id req ↔ docket.pending id = some req := by
  rcases keeps.records with ⟨tree, records⟩
  exact (records.pending_iff id req).symm

theorem answered_iff (keeps : Keeps docket service) (req : Nat) :
    service.Answered req ↔ req ∈ docket.answered := by
  rcases keeps.records with ⟨tree, records⟩
  simp [Answered, records.answered]

theorem isNew_iff (keeps : Keeps docket service) (question : Question) :
    service.IsNew gcrypt question ↔ docket.pending (gcrypt.opId question.name) = none := by
  rcases keeps.records with ⟨tree, records⟩
  exact (records.free_iff _).symm

/-- A service starts with an empty docket. -/
theorem start (dht : Dht.State) :
    Keeps { pending := fun _ => none, answered := [] } (.start dht) where
  records := ⟨.nil, F4opCtx.f4opNewCtx_valid, by simp, by simp, rfl⟩
  pending_lt := by simp
  answered_lt := by simp

/-- A request does to the docket what `Docket.serve` says. -/
theorem serve (keeps : Keeps docket service) {questions : List Question} {next : Service}
    (served : service.serve gcrypt questions = .ok next) :
    next.received = service.received ++ [questions] ∧
      Keeps (docket.serve gcrypt service.received.length questions) next := by
  rcases keeps.records with ⟨tree, records⟩
  rcases bind_eq_ok_iff.mp served with ⟨node, ran, result⟩
  obtain rfl := Except.ok.inj result
  refine ⟨rfl, records.serve ran, fun id req pending => ?_, fun req mem => ?_⟩
  · rw [Docket.serve_pending] at pending
    simp only [List.length_append, List.length_singleton]
    split at pending
    · obtain rfl := Option.some.inj pending
      omega
    · exact Nat.lt_succ_of_lt (keeps.pending_lt id req pending)
  · rw [Docket.serve_answered] at mem
    simp only [List.length_append, List.length_singleton]
    split at mem
    · exact Nat.lt_succ_of_lt (keeps.answered_lt req mem)
    · rcases List.mem_append.mp mem with old | new
      · exact Nat.lt_succ_of_lt (keeps.answered_lt req old)
      · rw [List.mem_singleton.mp new]
        omega

/-- The number of a request is new. -/
theorem fresh (keeps : Keeps docket service) :
    service.received.length ∉ docket.answered ∧
      ∀ id, docket.pending id ≠ some service.received.length :=
  ⟨fun mem => lt_irrefl _ (keeps.answered_lt _ mem),
    fun id pending => lt_irrefl _ (keeps.pending_lt id _ pending)⟩

/-! ### Lost requests -/

theorem noRequestLost_iff (keeps : Keeps docket service) :
    service.NoRequestLost gcrypt ↔ ∀ req questions, service.received[req]? = some questions →
      req ∈ docket.answered ∨
        ∃ question ∈ questions, docket.pending (gcrypt.opId question.name) = some req := by
  simp only [NoRequestLost, keeps.answered_iff, keeps.holds_iff]

/-- A request loses nothing exactly when it is kept itself. -/
theorem serve_noRequestLost (keeps : Keeps docket service) {questions : List Question}
    {next : Service} (served : service.serve gcrypt questions = .ok next)
    (before : service.NoRequestLost gcrypt) :
    next.NoRequestLost gcrypt ↔ service.Kept gcrypt questions := by
  rcases keeps.serve served with ⟨received, nextKeeps⟩
  rcases keeps.fresh with ⟨notAnswered, notPending⟩
  rw [keeps.noRequestLost_iff] at before
  simp only [nextKeeps.noRequestLost_iff, Kept, keeps.isNew_iff, received, Docket.serve_answered]
  constructor
  · intro after
    by_cases allValid : ∀ question ∈ questions, IsValid question.name
    · right
      rcases after service.received.length questions (by simp) with answered | held
      · rw [if_pos allValid] at answered
        exact absurd answered notAnswered
      · rcases held with ⟨question, mem, pending⟩
        rw [Docket.serve_pending] at pending
        split at pending
        · next new => exact ⟨question, mem, new.1⟩
        · exact absurd pending (notPending _)
    · left
      simpa using allValid
  · intro kept req asked receivedAt
    rcases lt_trichotomy req service.received.length with old | rfl | beyond
    · -- an earlier request is where it was
      rw [List.getElem?_append_left old] at receivedAt
      rcases before req asked receivedAt with answered | ⟨question, mem, pending⟩
      · left
        split
        · exact answered
        · exact List.mem_append_left _ answered
      · right
        refine ⟨question, mem, ?_⟩
        rw [Docket.serve_pending, if_neg (by simp [pending]), pending]
    · obtain rfl : questions = asked := by simpa using receivedAt
      by_cases allValid : ∀ question ∈ questions, IsValid question.name
      · right
        rcases kept with ⟨question, mem, invalid⟩ | ⟨question, mem, free⟩
        · exact absurd (allValid question mem) invalid
        · have whole : validPrefix questions = questions :=
            List.takeWhile_eq_self_iff.mpr fun other otherMem => by simp [allValid other otherMem]
          refine ⟨question, mem, ?_⟩
          rw [Docket.serve_pending, if_pos ⟨free, question, by rwa [whole], rfl⟩]
      · left
        simp [allValid]
    · rw [List.getElem?_eq_none (by simp; omega)] at receivedAt
      cases receivedAt

/-! ### Released requests -/

theorem released_iff (keeps : Keeps docket service) :
    service.Released ↔ docket.answered.Nodup ∧
      ∀ req ∈ docket.answered, ∀ id, docket.pending id ≠ some req := by
  rcases keeps.records with ⟨tree, records⟩
  simp only [Released, keeps.answered_iff, keeps.holds_iff, ← records.answered, ne_eq]

/-- A request is answered at most once, and released when it is not held. -/
theorem serve_released (keeps : Keeps docket service) {questions : List Question}
    {next : Service} (served : service.serve gcrypt questions = .ok next)
    (before : service.Released) :
    next.Released ↔ service.Unheld gcrypt questions := by
  rcases keeps.serve served with ⟨received, nextKeeps⟩
  rcases keeps.fresh with ⟨notAnswered, notPending⟩
  rw [keeps.released_iff] at before
  rw [nextKeeps.released_iff, Docket.serve_answered]
  by_cases allValid : ∀ question ∈ questions, IsValid question.name
  · rw [if_pos allValid]
    refine ⟨fun _ => .inl allValid, fun _ => ⟨before.1, fun req answered id pending => ?_⟩⟩
    rw [Docket.serve_pending] at pending
    split at pending
    · obtain rfl := Option.some.inj pending
      exact notAnswered answered
    · exact before.2 req answered id pending
  · rw [if_neg allValid]
    simp only [Unheld, allValid, false_or, keeps.isNew_iff]
    constructor
    · rintro ⟨_, released⟩ question mem free
      apply released service.received.length (by simp) (gcrypt.opId question.name)
      rw [Docket.serve_pending, if_pos ⟨free, question, mem, rfl⟩]
    · intro unheld
      refine ⟨List.nodup_append.mpr ⟨before.1, by simp, ?_⟩, fun req answered id pending => ?_⟩
      · rintro req old other new rfl
        exact notAnswered (List.mem_singleton.mp new ▸ old)
      · rw [Docket.serve_pending] at pending
        split at pending
        · next new =>
          rcases new with ⟨free, question, mem, rfl⟩
          exact unheld question mem free
        · rcases List.mem_append.mp answered with old | new
          · exact before.2 req old id pending
          · exact notPending id (List.mem_singleton.mp new ▸ pending)

/-- A survivable request is served. -/
theorem serve_returns (keeps : Keeps docket service) (opened : gcrypt.mdOpen = true)
    (questions : List Question) (survivable : Survivable questions) :
    ∃ next, service.serve gcrypt questions = .ok next := by
  rcases keeps.records with ⟨tree, records⟩
  obtain ⟨node, served⟩ := (f4dnsCbDnsserver_cases service.received.length questions
    opened records.valid).1 survivable
  exact ⟨_, by rw [Service.serve, served]; rfl⟩

end Keeps

/-! ## Runs -/

/-- No request is ever lost exactly when each request has an invalid question or a
question for a new name. -/
theorem always_noRequestLost_iff (gcrypt : Gcrypt) (dht : Dht.State)
    (requests : List (List Question)) :
    Run.Always (serve gcrypt) (NoRequestLost gcrypt) (start dht) requests ↔
      Run.Guarded (serve gcrypt) (Kept gcrypt) (start dht) requests := by
  refine Run.always_iff_guarded (fun service => ∃ docket, Keeps docket service) ?_ ?_
    ⟨_, .start dht⟩ ?_
  · rintro service questions next ⟨docket, keeps⟩ served
    exact ⟨_, (keeps.serve served).2⟩
  · rintro service questions next ⟨docket, keeps⟩ before served
    exact keeps.serve_noRequestLost served before
  · intro req questions receivedAt
    simp [start] at receivedAt

/-- The second request for a name is lost when the first one is pending. -/
theorem second_request_lost :
    ¬Run.Always (serve sampleGcrypt) (NoRequestLost sampleGcrypt) (start sampleDht)
      [[⟨sampleName, 1⟩], [⟨sampleName, 28⟩]] := by
  intro always
  have begins := Keeps.start sampleDht
  have opened : sampleGcrypt.mdOpen = true := rfl
  rcases begins.serve_returns opened [⟨sampleName, 1⟩] (by decide) with ⟨middle, first⟩
  have keeps := (begins.serve first).2
  rcases keeps.serve_returns opened [⟨sampleName, 28⟩] (by decide) with ⟨last, second⟩
  rcases always.2 middle first with ⟨_, always⟩
  have kept := (keeps.serve_noRequestLost second (by assumption)).mp (always last second)
  have valid : IsValid sampleName := by decide
  simp [Kept, valid, keeps.isNew_iff, Docket.serve, Docket.enter] at kept

/-- Answered requests are always released exactly when each request with an invalid
question has no question for a new name before it. -/
theorem always_released_iff (gcrypt : Gcrypt) (dht : Dht.State)
    (requests : List (List Question)) :
    Run.Always (serve gcrypt) Released (start dht) requests ↔
      Run.Guarded (serve gcrypt) (Unheld gcrypt) (start dht) requests := by
  refine Run.always_iff_guarded (fun service => ∃ docket, Keeps docket service) ?_ ?_
    ⟨_, .start dht⟩ ?_
  · rintro service questions next ⟨docket, keeps⟩ served
    exact ⟨_, (keeps.serve served).2⟩
  · rintro service questions next ⟨docket, keeps⟩ before served
    exact keeps.serve_released served before
  · exact ⟨by simp [start, Node.start], by simp [Answered, start, Node.start]⟩

/-- A request is answered for its second name while an operation holds it for the
first. -/
theorem answered_request_held :
    ¬Run.Always (serve sampleGcrypt) Released (start sampleDht)
      [[⟨sampleName, 1⟩, ⟨ascii "invalid", 1⟩]] := by
  intro always
  have begins := Keeps.start sampleDht
  have opened : sampleGcrypt.mdOpen = true := rfl
  obtain ⟨last, served⟩ := begins.serve_returns opened
    [⟨sampleName, 1⟩, ⟨ascii "invalid", 1⟩] (by decide)
  have unheld := (begins.serve_released served always.1).mp (always.2 last served)
  have valid : IsValid sampleName := by decide
  have invalid : ¬IsValid (ascii "invalid") := by decide
  simp [Unheld, valid, invalid, validPrefix, begins.isNew_iff] at unheld

end Service

end Dnsp2p.Dns
