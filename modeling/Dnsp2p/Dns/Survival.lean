import Dnsp2p.Dns.Docket

/-!
# Requests that the resolver survives

Which requests `_f4dns_cb_dnsserver` handles without a failing assertion, in any
state of the operation tree.
-/

namespace Dnsp2p.Dns

open Dnsp2p.Ops BinTree

/-- Every question up to the first invalid one has a name of more than three
bytes, and every valid question before it has a type that the `switch` names. -/
def Survivable : List Question → Prop
  | [] => True
  | question :: questions =>
      3 < question.name.length ∧
        (IsValid question.name → Supported question.type ∧ Survivable questions)

instance : DecidablePred Survivable := go
where
  go : (questions : List Question) → Decidable (Survivable questions)
    | [] => isTrue trivial
    | _ :: questions =>
        haveI := go questions
        inferInstanceAs (Decidable (_ ∧ (_ → _ ∧ _)))

/-! ## A sample request -/

/-- The name of thirty-two letters `a` below `key`. -/
def sampleName : Bytes :=
  List.replicate 32 97 ++ ascii ".key"

/-- libgcrypt, as far as `sampleName` is hashed. -/
def sampleGcrypt : Gcrypt where
  mdOpen := true
  sha1 := fun _ =>
    ⟨[69, 88, 209, 34, 218, 155, 103, 164, 182, 216, 4, 137, 139, 215, 132, 35, 177, 109, 166, 232],
      rfl⟩

/-- A node without operations. -/
def Node.start (dht : Dht.State) : Node where
  opCtx := f4opNewCtx
  dht := dht
  responses := []

/-- A DHT that listens on an IPv6 socket. -/
def sampleDht : Dht.State :=
  .init (-1) 6 (.zero 20) none 0 fun _ => 0

/-! ## The callback -/

section Callback

variable {gcrypt : Gcrypt} {node : Node} {tree : BinTree Nat}

/-- A valid question of a supported type is accepted in every valid context. -/
theorem acceptQuestion_returns (req : Nat) {question : Question} (opened : gcrypt.mdOpen = true)
    (valid : node.opCtx.Valid tree) (supported : Supported question.type)
    (named : question.name ≠ []) :
    ∃ next grown, node.acceptQuestion gcrypt req question = .ok next ∧ next.opCtx.Valid grown := by
  rcases (recordType_returns_iff _).mpr supported with ⟨rType, typed⟩
  obtain ⟨made, madeValid, ops, accepted⟩ :=
    acceptQuestion_eq req valid typed named opened
  have live : (made.ops.cell node.opCtx.ops.bound).isSome := by simp [ops]
  rcases F4opCtx.f4opFind_returns madeValid (made.idOf node.opCtx.ops.bound) with ⟨found, finds⟩
  cases found with
  | some holder =>
      refine ⟨{ node with opCtx := made, dht := searched gcrypt node.dht question }, tree, ?_,
        madeValid⟩
      rw [accepted, F4opCtx.f4opAdd_present madeValid live finds]
      rfl
  | none =>
      obtain ⟨opCtx, grown, added, _, grownValid, _⟩ :=
        F4opCtx.f4opAdd_absent madeValid live finds
      refine ⟨{ node with opCtx, dht := searched gcrypt node.dht question }, grown, ?_, grownValid⟩
      rw [accepted, added]
      rfl

/-- A question of another type fails an assertion. -/
theorem acceptQuestion_unsupported {req : Nat} {question : Question}
    (unsupported : ¬Supported question.type) :
    node.acceptQuestion gcrypt req question = .error .assertion := by
  have untyped : recordType question.type = .error .assertion := by
    have none := (recordType_returns_iff question.type).not.mpr unsupported
    unfold recordType at none ⊢
    split <;> first | rfl | simp_all
  rw [Node.acceptQuestion, untyped]
  rfl

/-- The callback returns for the survivable requests, and fails an assertion for
the others. -/
theorem f4dnsCbDnsserver_cases (req : Nat) (questions : List Question)
    (opened : gcrypt.mdOpen = true)
    (valid : node.opCtx.Valid tree) :
    (Survivable questions → ∃ next, node.f4dnsCbDnsserver gcrypt req questions = .ok next) ∧
      (¬Survivable questions →
        node.f4dnsCbDnsserver gcrypt req questions = .error .assertion) := by
  induction questions generalizing node tree with
  | nil => exact ⟨fun _ => ⟨node, rfl⟩, fun no => absurd trivial no⟩
  | cons question questions ih =>
      rw [Node.f4dnsCbDnsserver, Survivable]
      by_cases short : question.name.length ≤ 3
      · rw [f4dnsIsValid_short short]
        exact ⟨fun both => by omega, fun _ => rfl⟩
      · have long : 3 < question.name.length := by omega
        rcases (f4dnsIsValid_returns_iff _).mpr long with ⟨answer, checked⟩
        cases answer with
        | false =>
            have invalid : ¬IsValid question.name := by simp [IsValid, checked]
            rw [checked]
            exact ⟨fun _ => ⟨_, rfl⟩, fun no => absurd ⟨long, fun yes => absurd yes invalid⟩ no⟩
        | true =>
            have accepted : IsValid question.name := checked
            have named : question.name ≠ [] := List.ne_nil_of_length_pos (by omega)
            rw [checked, ok_bind, if_pos rfl]
            by_cases supported : Supported question.type
            · obtain ⟨next, grown, accept, nextValid⟩ :=
                acceptQuestion_returns req opened valid supported named
              simpa [accept, long, accepted, supported] using ih nextValid
            · rw [acceptQuestion_unsupported supported]
              exact ⟨fun both => absurd (both.2 accepted).1 supported, fun _ => rfl⟩

/-- The callback returns exactly for the survivable requests; for the others it
fails an assertion. -/
theorem f4dnsCbDnsserver_returns_iff (req : Nat) (questions : List Question)
    (opened : gcrypt.mdOpen = true)
    (valid : node.opCtx.Valid tree) :
    ((∃ next, node.f4dnsCbDnsserver gcrypt req questions = .ok next) ↔ Survivable questions) ∧
      (¬Survivable questions →
        node.f4dnsCbDnsserver gcrypt req questions = .error .assertion) := by
  rcases f4dnsCbDnsserver_cases req questions opened valid with ⟨returns, aborts⟩
  refine ⟨⟨?_, returns⟩, aborts⟩
  rintro ⟨next, returned⟩
  by_contra no
  rw [aborts no] at returned
  cases returned

end Callback

/-- The callback returns for a request of two questions for the sample name. -/
theorem f4dnsCbDnsserver_returns_iff_sample :
    ∃ next, (Node.start sampleDht).f4dnsCbDnsserver sampleGcrypt 0
      [⟨sampleName, 1⟩, ⟨sampleName, 28⟩] = .ok next :=
  (f4dnsCbDnsserver_returns_iff 0 [⟨sampleName, 1⟩, ⟨sampleName, 28⟩] rfl
    F4opCtx.f4opNewCtx_valid).1.mpr (by decide)

/-- The root name and the type ANY abort the resolver. -/
theorem f4dnsCbDnsserver_aborts :
    (Node.start sampleDht).f4dnsCbDnsserver sampleGcrypt 0 [⟨[], 1⟩] = .error .assertion ∧
      (Node.start sampleDht).f4dnsCbDnsserver sampleGcrypt 0 [⟨sampleName, 255⟩] =
        .error .assertion := by
  refine ⟨rfl, ?_⟩
  have valid : f4dnsIsValid sampleName = .ok true := by decide
  rw [Node.f4dnsCbDnsserver, valid]
  rfl

end Dnsp2p.Dns
