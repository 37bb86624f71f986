import Mathlib.Logic.Basic

/-!
# Faults of the C program

A modelled function returns `Except Fault`.  The faults are the ways in which a
run of the C program stops having a meaning: undefined behaviour, a failing
assertion, or a loop that does not end.  A fault is never caught.
-/

namespace Dnsp2p

/-- Why a run of the C program has no result. -/
inductive Fault where
  /-- A field of a `dht_message_t` that holds NULL is dereferenced. -/
  | nullField
  /-- `as.bstr` is read through an object that is absent or of another type. -/
  | notByteString
  /-- Any other NULL pointer is dereferenced. -/
  | nullPointer
  /-- A variable or a list head that was never assigned is used. -/
  | unassigned
  /-- Memory past the end of an allocation is read. -/
  | outOfBounds
  /-- Memory that is not allocated any more is read or written. -/
  | useAfterFree
  /-- A C string function finds no NUL before the end of an allocation. -/
  | unterminated
  /-- A failing `assert`, or `abort`. -/
  | assertion
  /-- The recursion or loop did not end within its fuel. -/
  | nonterminating
  deriving DecidableEq, Repr

section Except

variable {α β : Type}

@[simp]
theorem ok_bind (value : α) (next : α → Except Fault β) :
    ((Except.ok value : Except Fault α) >>= next) = next value :=
  rfl

@[simp]
theorem error_bind (fault : Fault) (next : α → Except Fault β) :
    ((Except.error fault : Except Fault α) >>= next) = Except.error fault :=
  rfl

@[simp]
theorem pure_eq_ok (value : α) : (pure value : Except Fault α) = Except.ok value :=
  rfl

/-- A sequence returns exactly when its first part returns and the rest does. -/
theorem bind_eq_ok_iff {first : Except Fault α} {next : α → Except Fault β} {result : β} :
    (first >>= next) = .ok result ↔ ∃ value, first = .ok value ∧ next value = .ok result := by
  cases first <;> simp

/-- A sequence faults in its first part or, after it, in the rest. -/
theorem bind_eq_error_iff {first : Except Fault α} {next : α → Except Fault β} {fault : Fault} :
    (first >>= next) = .error fault ↔
      first = .error fault ∨ ∃ value, first = .ok value ∧ next value = .error fault := by
  cases first <;> simp

/-! ## Results that are returned -/

/-- Every result that is returned has a property. -/
def Returns (result : Except Fault α) (property : α → Prop) : Prop :=
  ∀ value, result = .ok value → property value

namespace Returns

theorem ok {value : α} {property : α → Prop} (holds : property value) :
    Returns (.ok value) property := by
  rintro _ ⟨rfl⟩
  exact holds

theorem fault (fault : Fault) (property : α → Prop) : Returns (.error fault) property := by
  rintro value ⟨⟩

theorem trivial (result : Except Fault α) : Returns result fun _ => True :=
  fun _ _ => .intro

/-- A property of the first part is at hand in the rest of a sequence. -/
theorem bind {first : Except Fault α} {next : α → Except Fault β} {middle : α → Prop}
    {property : β → Prop} (returns : Returns first middle)
    (rest : ∀ value, middle value → Returns (next value) property) :
    Returns (first >>= next) property := by
  intro result returned
  rcases bind_eq_ok_iff.mp returned with ⟨value, ran, continued⟩
  exact rest value (returns value ran) result continued

/-- Nothing is known about what the first part reads. -/
theorem bind_any {first : Except Fault α} {next : α → Except Fault β} {property : β → Prop}
    (rest : ∀ value, Returns (next value) property) : Returns (first >>= next) property :=
  (trivial first).bind fun value _ => rest value

theorem ite {condition : Prop} [Decidable condition] {yes no : Except Fault α}
    {property : α → Prop} (returnsYes : Returns yes property) (returnsNo : Returns no property) :
    Returns (if condition then yes else no) property := by
  split
  · exact returnsYes
  · exact returnsNo

end Returns

end Except

end Dnsp2p
