import Dnsp2p.Library.Bytes
import Mathlib.Tactic.IntervalCases

/-!
# The bits of a byte string

Bits are counted from the start of a byte string, the most significant bit of
each byte first, so that the bits of a string are those of its big-endian value
read backwards.
-/

namespace Dnsp2p

/-- The bit of a byte with a given place, counted from the most significant one. -/
def mask (place : Nat) : UInt8 :=
  0x80 >>> UInt8.ofNat place

theorem toNat_mask {place : Nat} (small : place < 8) : (mask place).toNat = 2 ^ (7 - place) := by
  interval_cases place <;> rfl

theorem and_mask_eq_zero_iff (byte : UInt8) {place : Nat} (small : place < 8) :
    byte &&& mask place = 0 ↔ byte.toNat.testBit (7 - place) = false := by
  rw [← UInt8.toNat_inj, UInt8.toNat_and, toNat_mask small]
  constructor
  · intro none
    have bit := congrArg (·.testBit (7 - place)) none
    simpa using bit
  · intro unset
    apply Nat.eq_of_testBit_eq
    intro i
    rw [Nat.testBit_and, Nat.testBit_two_pow]
    by_cases here : 7 - place = i
    · subst here
      simp [unset]
    · simp [here]

/-- Setting a bit that is not set adds its worth. -/
theorem toNat_or_mask {byte : UInt8} {place : Nat} (small : place < 8)
    (unset : byte &&& mask place = 0) :
    (byte ||| mask place).toNat = byte.toNat + 2 ^ (7 - place) := by
  have apart : byte.toBitVec &&& (mask place).toBitVec = 0#8 := congrArg UInt8.toBitVec unset
  rw [← toNat_mask small]
  calc (byte ||| mask place).toNat = (byte.toBitVec ||| (mask place).toBitVec).toNat := rfl
    _ = (byte.toBitVec + (mask place).toBitVec).toNat := by
      rw [BitVec.add_eq_or_of_and_eq_zero _ _ apart]
    _ = byte.toNat + (mask place).toNat := BitVec.toNat_add_of_and_eq_zero apart

/-! ## Byte strings -/

/-- A byte string around one of its bytes. -/
theorem value_append_cons (front : Bytes) (byte : UInt8) (back : Bytes) :
    value (front ++ byte :: back) =
      (value front * 256 + byte.toNat) * 256 ^ back.length + value back := by
  induction front with
  | nil => simp [value]
  | cons first front ih =>
      simp only [List.cons_append, value, ih, List.length_append, List.length_cons, pow_add,
        pow_succ]
      ring

/-- The bits of a byte are found in the value of the string that it is part of. -/
theorem testBit_value (front : Bytes) (byte : UInt8) (back : Bytes) {place : Nat}
    (small : place < 8) :
    (value (front ++ byte :: back)).testBit (8 * back.length + place) =
      byte.toNat.testBit place := by
  have width : 256 ^ back.length = 2 ^ (8 * back.length) := by
    rw [pow_mul]
    rfl
  have below := value_lt back
  rw [value_append_cons, width, Nat.mul_comm, Nat.testBit_two_pow_mul_add _ (width ▸ below),
    if_neg (by omega), Nat.add_sub_cancel_left, Nat.mul_comm, show 256 = 2 ^ 8 from rfl,
    Nat.testBit_two_pow_mul_add _ byte.toNat_lt, if_pos small]

/-- The value of two strings combined bit by bit with exclusive or. -/
theorem value_xor {left right : Bytes} (sameLength : left.length = right.length) :
    value (List.zipWith (· ^^^ ·) left right) = value left ^^^ value right := by
  induction left generalizing right with
  | nil =>
      cases right with
      | nil => rfl
      | cons => simp at sameLength
  | cons byte rest ih =>
      cases right with
      | nil => simp at sameLength
      | cons byte' rest' =>
          have restLength : rest.length = rest'.length := by simpa using sameLength
          have width : 256 ^ rest.length = 2 ^ (8 * rest.length) := by
            rw [pow_mul]
            rfl
          have below := width ▸ value_lt rest
          have below' := width ▸ restLength ▸ value_lt rest'
          have length : (List.zipWith (· ^^^ ·) rest rest').length = rest.length := by
            simp [restLength]
          simp only [List.zipWith_cons_cons, value, length, ← restLength, width, ih restLength]
          apply Nat.eq_of_testBit_eq
          intro i
          rw [Nat.testBit_xor, Nat.mul_comm,
            Nat.testBit_two_pow_mul_add _ (Nat.xor_lt_two_pow below below'),
            Nat.mul_comm byte.toNat, Nat.testBit_two_pow_mul_add _ below,
            Nat.mul_comm byte'.toNat, Nat.testBit_two_pow_mul_add _ below']
          split
          · rw [Nat.testBit_xor]
          · rw [UInt8.toNat_xor, Nat.testBit_xor]

/-- A power of two divides a number when the bits below it are not set. -/
theorem two_pow_dvd_iff_testBit {exponent n : Nat} :
    2 ^ exponent ∣ n ↔ ∀ place < exponent, n.testBit place = false := by
  rw [Nat.dvd_iff_mod_eq_zero]
  constructor
  · intro divides place below
    have bit := congrArg (·.testBit place) divides
    simpa [Nat.testBit_mod_two_pow, below] using bit
  · intro unset
    apply Nat.eq_of_testBit_eq
    intro place
    rw [Nat.testBit_mod_two_pow, Nat.zero_testBit]
    by_cases below : place < exponent
    · simp [below, unset place below]
    · simp [below]

end Dnsp2p
