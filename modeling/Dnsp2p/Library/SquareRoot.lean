import Mathlib.Algebra.Field.Basic
import Mathlib.Tactic.LinearCombination

/-!
# Square roots by successive corrections

The invariant of the method of Tonelli and Shanks, over any field.  The state is a
candidate for the root, its error, and an element of order `2 ^ r`; a correction lowers
the order of the error until nothing of it is left.
-/

namespace SquareRoot

universe u

variable {F : Type u} [Field F]

/-- The least number of squarings, at least one, that takes an element to 1. -/
structure SquaringsToOne (b : F) (m : Nat) : Prop where
  pos : 0 < m
  one : b ^ 2 ^ m = 1
  least : ∀ j, 0 < j → j < m → b ^ 2 ^ j ≠ 1

/-- `x` is a root of `a` up to the error `b`, whose order divides `2 ^ (r - 1)`, and `y` has
the order `2 ^ r`. -/
structure RootUpTo (a : F) (r : Nat) (y x b : F) : Prop where
  pos : 0 < r
  error : x * x = a * b
  order : b ^ 2 ^ (r - 1) = 1
  generator : y ^ 2 ^ (r - 1) = -1

namespace RootUpTo

variable {a y x b : F} {r m : Nat}

/-- The error vanishes before its bound is reached. -/
theorem squarings_lt (state : RootUpTo a r y x b) (wrong : b ≠ 1) (squarings : SquaringsToOne b m) :
    m < r := by
  have pos := state.pos
  have room : 0 < r - 1 := by
    by_contra none
    have order := state.order
    rw [Nat.eq_zero_of_not_pos none, pow_zero, pow_one] at order
    exact wrong order
  by_contra late
  exact squarings.least (r - 1) room (by omega) state.order

/-- One squaring before 1 comes minus 1. -/
theorem last_squaring (wrong : b ≠ 1) (squarings : SquaringsToOne b m) :
    b ^ 2 ^ (m - 1) = -1 := by
  have pos := squarings.pos
  have square : b ^ 2 ^ (m - 1) * b ^ 2 ^ (m - 1) = 1 := by
    rw [← pow_two, ← pow_mul, ← pow_succ, Nat.sub_add_cancel pos]
    exact squarings.one
  rcases mul_self_eq_one_iff.mp square with one | minus
  · exfalso
    by_cases first : m = 1
    · subst first
      rw [Nat.sub_self, pow_zero, pow_one] at one
      exact wrong one
    · exact squarings.least (m - 1) (by omega) (by omega) one
  · exact minus

/-- A correction by a power of the generator lowers the bound on the order of the error. -/
theorem correct (state : RootUpTo a r y x b) (wrong : b ≠ 1) (squarings : SquaringsToOne b m)
    {t : F} (power : t = y ^ 2 ^ (r - m - 1)) : RootUpTo a m (t * t) (x * t) (b * (t * t)) := by
  have below := state.squarings_lt wrong squarings
  have pos := squarings.pos
  have generator : (t * t) ^ 2 ^ (m - 1) = -1 := by
    have places : r - m - 1 + (m - 1 + 1) = r - 1 := by omega
    rw [power, ← pow_two, ← pow_mul, ← pow_succ', ← pow_mul, ← pow_add, places]
    exact state.generator
  constructor
  · exact pos
  · linear_combination t * t * state.error
  · rw [mul_pow, generator, last_squaring wrong squarings, neg_mul_neg, one_mul]
  · exact generator

end RootUpTo

end SquareRoot
