import Dnsp2p.Fault
import Dnsp2p.Library.Bytes

/-!
# Names

`count_char` and `f4dns_is_valid`.  A NUL-terminated string is the list of the
bytes before the NUL, and a pointer into it is the rest of the string from there.
-/

namespace Dnsp2p.Dns

/-- `count_char`. -/
def countChar (str : Bytes) (c : UInt8) : Nat :=
  str.count c

/-- `strchr`. -/
def strchr (c : UInt8) : Bytes → Option Bytes
  | [] => none
  | byte :: rest => if byte = c then some (byte :: rest) else strchr c rest

/-- `'.'`. -/
abbrev dot : UInt8 := 46

/-- `'-'`. -/
abbrev dash : UInt8 := 45

/-- The loop of `f4dns_is_valid`: `b` goes to the last label and `a` to the label
before it. -/
def lastLabels : Nat → Option Bytes → Bytes → Except Fault (Option Bytes × Bytes)
  | 0, _, _ => .error .nonterminating
  | fuel + 1, a, b => match strchr dot b with
    | none => .ok (a, b)
    | some tmp => lastLabels fuel (some b) (tmp.drop 1)

/-- `f4dns_is_valid`.  The number of dashes is stored in an `int`. -/
def f4dnsIsValid (fqdn : Bytes) : Except Fault Bool :=
  if fqdn.length ≤ 3 then .error .assertion
  else if fqdn.head? = some dot then .ok false
  else do
    let (a, b) ← lastLabels (fqdn.length + 1) none fqdn
    match a with
    | none => return false
    | some a =>
        if b ≠ ascii "key" then return false
        else match strchr dot a with
          | none => .error .assertion
          | some tmp =>
              let dashes := Int.bmod (countChar a dash) (2 ^ 32)
              return (a.length - tmp.length : Int) - dashes = 32

/-- The name is accepted. -/
def IsValid (fqdn : Bytes) : Prop :=
  f4dnsIsValid fqdn = .ok true
  deriving Decidable

theorem strchr_suffix {c : UInt8} {str tmp : Bytes} (found : strchr c str = some tmp) :
    tmp ≠ [] ∧ tmp.length ≤ str.length := by
  induction str with
  | nil => simp [strchr] at found
  | cons byte rest ih =>
      rw [strchr] at found
      split at found
      · obtain rfl := Option.some.inj found
        simp
      · rcases ih found with ⟨inner, shorter⟩
        exact ⟨inner, shorter.trans (Nat.le_succ _)⟩

/-- The loop ends, and `a` points to a label that a dot follows. -/
theorem lastLabels_returns {fuel : Nat} {a : Option Bytes} {b : Bytes} (enough : b.length < fuel)
    (dotted : ∀ label ∈ a, (strchr dot label).isSome) :
    ∃ last, lastLabels fuel a b = .ok last ∧ ∀ label ∈ last.1, (strchr dot label).isSome := by
  induction fuel generalizing a b with
  | zero => omega
  | succ fuel ih =>
      rw [lastLabels]
      cases found : strchr dot b with
      | none => exact ⟨(a, b), rfl, dotted⟩
      | some tmp =>
          rcases strchr_suffix found with ⟨inner, shorter⟩
          have positive := List.length_pos_iff.mpr inner
          apply ih (by rw [List.length_drop]; omega)
          intro label same
          obtain rfl := Option.mem_some.mp same
          simp [found]

/-- `f4dns_is_valid` returns exactly for strings longer than three bytes. -/
theorem f4dnsIsValid_returns_iff (fqdn : Bytes) :
    (∃ valid, f4dnsIsValid fqdn = .ok valid) ↔ 3 < fqdn.length := by
  rw [f4dnsIsValid]
  by_cases short : fqdn.length ≤ 3
  · simp [short]
  · rw [if_neg short]
    refine ⟨fun _ => by omega, fun _ => ?_⟩
    split
    · exact ⟨false, rfl⟩
    · obtain ⟨⟨a, b⟩, loop, dotted⟩ :=
        lastLabels_returns (a := none) (Nat.lt_succ_self fqdn.length) (by simp)
      rw [loop, ok_bind]
      cases a with
      | none => exact ⟨false, rfl⟩
      | some a =>
          rcases Option.isSome_iff_exists.mp (dotted a rfl) with ⟨tmp, found⟩
          by_cases key : b = ascii "key" <;> simp [key, found]

theorem f4dnsIsValid_short {fqdn : Bytes} (short : fqdn.length ≤ 3) :
    f4dnsIsValid fqdn = .error .assertion :=
  if_pos short

end Dnsp2p.Dns
