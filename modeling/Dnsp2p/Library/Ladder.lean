import Mathlib.Algebra.Order.Ring.Nat
import Mathlib.Data.Nat.Bitwise
import Mathlib.Tactic.Ring

/-!
# The binary method

A power or a multiple is computed from the bits of its exponent, the highest one
first: each bit doubles what is there, and a set bit adds the base once more.
-/

namespace Dnsp2p

universe u

variable {α : Type u}

/-- The turns of the method for the bits below a place. -/
def ladder (double add : α → α) (exp : Nat) : Nat → α → α
  | 0, acc => acc
  | n + 1, acc =>
      ladder double add exp n (if exp.testBit n then add (double acc) else double acc)

/-- The bits below the next place are the bit at this place and those below it. -/
theorem mod_two_pow_succ (exp n : Nat) :
    exp % 2 ^ (n + 1) = 2 ^ n * (exp.testBit n).toNat + exp % 2 ^ n := by
  rw [Nat.testBit_eq_decide_div_mod_eq, Nat.pow_succ, Nat.mod_mul]
  rcases Nat.mod_two_eq_zero_or_one (exp / 2 ^ n) with even | odd
  · simp [even]
  · simp [odd, Nat.add_comm]

section

variable {double add : α → α} {Stands : α → Nat → Prop}
  (doubled : ∀ acc k, Stands acc k → Stands (double acc) (2 * k))
  (added : ∀ acc k, Stands acc k → Stands (add acc) (k + 1))

include doubled added

/-- If what is accumulated stands for a multiple, then after the turns it stands for that
multiple with the bits of the exponent appended. -/
theorem ladder_stands (exp : Nat) {n k : Nat} {acc : α} (start : Stands acc k) :
    Stands (ladder double add exp n acc) (2 ^ n * k + exp % 2 ^ n) := by
  induction n generalizing acc k with
  | zero => simpa [ladder, Nat.mod_one] using start
  | succ n ih =>
      rw [ladder, mod_two_pow_succ]
      cases bit : exp.testBit n with
      | false =>
          have rest := ih (doubled acc k start)
          have sum : 2 ^ (n + 1) * k + (2 ^ n * false.toNat + exp % 2 ^ n) =
              2 ^ n * (2 * k) + exp % 2 ^ n := by
            rw [Bool.toNat_false]
            ring
          rw [sum]
          exact rest
      | true =>
          have rest := ih (added _ _ (doubled acc k start))
          have sum : 2 ^ (n + 1) * k + (2 ^ n * true.toNat + exp % 2 ^ n) =
              2 ^ n * (2 * k + 1) + exp % 2 ^ n := by
            rw [Bool.toNat_true]
            ring
          rw [sum]
          exact rest

/-- From nothing on, with a place for each bit, the method gives the multiple by the exponent. -/
theorem ladder_stands_exp {exp n : Nat} {acc : α} (start : Stands acc 0) (room : exp < 2 ^ n) :
    Stands (ladder double add exp n acc) exp := by
  have stands := ladder_stands doubled added exp (n := n) start
  rwa [Nat.mul_zero, Nat.zero_add, Nat.mod_eq_of_lt room] at stands

end

end Dnsp2p
