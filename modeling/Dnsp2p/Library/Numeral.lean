import Mathlib.Algebra.Order.Ring.Nat
import Mathlib.Data.List.Induction
import Mathlib.Data.Nat.Log
import Mathlib.Tactic.Ring

/-!
# Numerals of a fixed width

The digits of a number in a base, the most significant first, cut off or padded
with zeros to a width; and the number that a list of digits stands for.
-/

namespace Dnsp2p.Numeral

variable (base : Nat)

/-- The last digits of a number. -/
def digits : Nat → Nat → List Nat
  | 0, _ => []
  | width + 1, n => digits width (n / base) ++ [n % base]

/-- The number of a list of digits, read on from a number. -/
def number (n : Nat) (numeral : List Nat) : Nat :=
  numeral.foldl (fun n digit => n * base + digit) n

variable {base}

@[simp]
theorem length_digits (width n : Nat) : (digits base width n).length = width := by
  induction width generalizing n with
  | zero => rfl
  | succ width ih => simp [digits, ih]

theorem lt_of_mem_digits {width n digit : Nat} (positive : 0 < base)
    (mem : digit ∈ digits base width n) : digit < base := by
  induction width generalizing n with
  | zero => cases mem
  | succ width ih =>
      rcases List.mem_append.mp mem with front | last
      · exact ih front
      · rw [List.mem_singleton.mp last]
        exact Nat.mod_lt n positive

@[simp]
theorem number_append_singleton (n : Nat) (numeral : List Nat) (digit : Nat) :
    number base n (numeral ++ [digit]) = number base n numeral * base + digit := by
  simp [number]

/-- The digits of a number stand for it, up to what does not fit. -/
theorem number_digits (width n : Nat) : number base 0 (digits base width n) = n % base ^ width := by
  induction width generalizing n with
  | zero => simp [digits, number, Nat.mod_one]
  | succ width ih =>
      rw [digits, number_append_singleton, ih, pow_succ', Nat.mod_mul]
      ring

/-- Numerals of one width are the same when their numbers are, up to what does not fit. -/
theorem digits_eq_iff {width m n : Nat} (positive : 0 < base) :
    digits base width m = digits base width n ↔ m % base ^ width = n % base ^ width := by
  constructor
  · intro same
    rw [← number_digits, same, number_digits]
  · intro same
    induction width generalizing m n with
    | zero => rfl
    | succ width ih =>
        rw [pow_succ', Nat.mod_mul, Nat.mod_mul] at same
        have last : m % base = n % base := by
          have both := congrArg (· % base) same
          simpa [Nat.add_mul_mod_self_left] using both
        have front : m / base % base ^ width = n / base % base ^ width := by
          rw [last] at same
          exact Nat.eq_of_mul_eq_mul_left positive (Nat.add_left_cancel same)
        rw [digits, digits, ih front, last]

/-- A numeral is cut into one of the quotient and one of the rest. -/
theorem digits_add (base width width' n : Nat) :
    digits base (width + width') n = digits base width (n / base ^ width') ++
      digits base width' n := by
  induction width' generalizing n with
  | zero => simp [digits]
  | succ width' ih =>
      rw [← Nat.add_assoc, digits, ih, digits, Nat.div_div_eq_div_mul, pow_succ', List.append_assoc]

theorem digits_zero (width : Nat) : digits base width 0 = List.replicate width 0 := by
  induction width with
  | zero => rfl
  | succ width ih => rw [digits, Nat.zero_div, ih, Nat.zero_mod, List.replicate_succ']

/-- The digits of the number of a numeral are the numeral. -/
theorem digits_number {numeral : List Nat} (below : ∀ digit ∈ numeral, digit < base) :
    digits base numeral.length (number base 0 numeral) = numeral := by
  induction numeral using List.reverseRecOn with
  | nil => rfl
  | append_singleton front digit ih =>
      have last : digit < base := below digit (by simp)
      have rest := ih fun other mem => below other (List.mem_append_left _ mem)
      have quotient : (number base 0 front * base + digit) / base = number base 0 front := by
        rw [Nat.mul_comm, Nat.mul_add_div (by omega), Nat.div_eq_of_lt last, Nat.add_zero]
      have remainder : (number base 0 front * base + digit) % base = digit := by
        rw [Nat.mul_comm, Nat.mul_add_mod, Nat.mod_eq_of_lt last]
      rw [List.length_append, List.length_singleton, digits, number_append_singleton, quotient,
        remainder, rest]

theorem number_lt {numeral : List Nat} (positive : 0 < base)
    (below : ∀ digit ∈ numeral, digit < base) :
    number base 0 numeral < base ^ numeral.length := by
  have whole : number base 0 (digits base numeral.length (number base 0 numeral)) = _ :=
    number_digits numeral.length (number base 0 numeral)
  rw [digits_number below] at whole
  rw [whole]
  exact Nat.mod_lt _ (Nat.pow_pos positive)

end Dnsp2p.Numeral
