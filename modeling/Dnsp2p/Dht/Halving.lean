import Dnsp2p.Dht.Table
import Dnsp2p.Library.Bits
import Dnsp2p.Library.Place
import Dnsp2p.Library.Tiling

/-!
# The middle of a bucket

`bucket_middle` finds the bit that a split decides from the lowest bits that are
set in the first ids of two neighbouring buckets.  When a bucket covers an aligned
range whose length is a power of two, the new first id halves that range.
-/

namespace Dnsp2p.Dht

open Dnsp2p.Tiling

/-! ## Bits of an id -/

/-- The number that an id stands for in network order. -/
abbrev number (id : Field 20) : Nat :=
  value id.bytes

theorem number_lt (id : Field 20) : number id < 2 ^ 160 := by
  have below := value_lt id.bytes
  rw [id.length_eq] at below
  exact below

/-- An id around the byte that holds one of its bits. -/
theorem bytes_around (id : Field 20) {bit : Nat} (small : bit < 160) :
    ∃ front back, id.bytes = front ++ octet id (bit / 8) :: back ∧ front.length = bit / 8 ∧
      159 - bit = 8 * back.length + (7 - bit % 8) := by
  have inside : bit / 8 < id.bytes.length := by
    rw [id.length_eq]
    omega
  refine ⟨id.bytes.take (bit / 8), id.bytes.drop (bit / 8 + 1), ?_, ?_, ?_⟩
  · simp [octet, inside]
  · simp [inside.le]
  · rw [List.length_drop, id.length_eq]
    omega

/-- Bits that are numbered from the start are those of the number read backwards. -/
theorem bitAt_eq_testBit (id : Field 20) {bit : Nat} (small : bit < 160) :
    bitAt id bit = (number id).testBit (159 - bit) := by
  rcases bytes_around id small with ⟨front, back, bytes, _, place⟩
  have bound : bit % 8 < 8 := Nat.mod_lt _ (by decide)
  rw [number, bytes, place, testBit_value _ _ _ (by omega)]
  have unset := (and_mask_eq_zero_iff (octet id (bit / 8)) bound).not
  rw [Bool.not_eq_false, ← ne_eq] at unset
  rw [bitAt, Bool.eq_iff_iff, decide_eq_true_iff]
  exact unset

/-- Setting a bit that is not set adds its worth to the number. -/
theorem number_setBit (id : Field 20) {bit : Nat} (small : bit < 160)
    (unset : bitAt id bit = false) :
    number (modifyByte id (bit / 8) fun byte => byte ||| (0x80 >>> UInt8.ofNat (bit % 8))) =
      number id + 2 ^ (159 - bit) := by
  rcases bytes_around id small with ⟨front, back, bytes, here, place⟩
  have bound : bit % 8 < 8 := Nat.mod_lt _ (by decide)
  have clear : octet id (bit / 8) &&& mask (bit % 8) = 0 := by
    simpa [bitAt, mask] using unset
  have set : (modifyByte id (bit / 8) fun byte => byte ||| mask (bit % 8)).bytes =
      front ++ (octet id (bit / 8) ||| mask (bit % 8)) :: back := by
    change id.bytes.modify (bit / 8) _ = _
    generalize octet id (bit / 8) = byte at bytes ⊢
    rw [bytes, ← here, modify_append_cons]
  have width : 256 ^ back.length = 2 ^ (8 * back.length) := by
    rw [pow_mul]
    rfl
  calc number (modifyByte id (bit / 8) fun byte => byte ||| mask (bit % 8))
      = (value front * 256 + (octet id (bit / 8) ||| mask (bit % 8)).toNat) * 256 ^ back.length +
          value back := by rw [number, set, value_append_cons]
    _ = (value front * 256 + (octet id (bit / 8)).toNat) * 256 ^ back.length + value back +
          2 ^ (7 - bit % 8) * 256 ^ back.length := by
        rw [toNat_or_mask bound clear]
        ring
    _ = number id + 2 ^ (159 - bit) := by
        rw [← value_append_cons, ← bytes, place, width, pow_add, Nat.mul_comm (2 ^ (7 - bit % 8))]

/-! ## The lowest bit -/

/-- The last of the numbers below a bound that have a property. -/
theorem getLast?_filter_range {n last : Nat} {p : Nat → Bool}
    (found : ((List.range n).filter p).getLast? = some last) :
    last < n ∧ p last = true ∧ ∀ i < n, p i = true → i ≤ last := by
  rcases List.getLast?_eq_some_iff.mp found with ⟨front, split⟩
  have member : last ∈ (List.range n).filter p := by
    rw [split]
    exact List.mem_append_right _ (List.mem_singleton_self _)
  have ascending : (front ++ [last]).Pairwise (· < ·) :=
    split ▸ List.Pairwise.filter _ List.pairwise_lt_range
  rcases List.mem_filter.mp member with ⟨below, holds⟩
  refine ⟨List.mem_range.mp below, holds, fun i less has => ?_⟩
  have listed : i ∈ front ++ [last] := split ▸ List.mem_filter.mpr ⟨List.mem_range.mpr less, has⟩
  rcases List.mem_append.mp listed with earlier | here
  · exact ((List.pairwise_append.mp ascending).2.2 i earlier last (List.mem_singleton_self _)).le
  · exact (List.mem_singleton.mp here).le

theorem lowbit_lt_iff_bitAt (id : Field 20) (bit : Nat) :
    lowbit id < bit ↔ ∀ i < 160, bit ≤ i → bitAt id i = false := by
  unfold lowbit
  split
  · next last found =>
    rcases getLast?_filter_range found with ⟨inside, holds, greatest⟩
    constructor
    · intro less i below le
      by_contra set
      have bound := greatest i below (Bool.eq_true_of_not_eq_false set)
      omega
    · intro clear
      by_contra notLess
      have unset := clear last inside (by omega)
      rw [holds] at unset
      cases unset
  · next none =>
    have empty := List.filter_eq_nil_iff.mp (List.getLast?_eq_none_iff.mp none)
    constructor
    · intro _ i below _
      exact Bool.eq_false_of_not_eq_true (empty i (List.mem_range.mpr below))
    · intro _
      omega

/-- The lowest bit that is set says which powers of two divide the number. -/
theorem lowbit_lt_iff (id : Field 20) {bit : Nat} (small : bit ≤ 160) :
    lowbit id < bit ↔ 2 ^ (160 - bit) ∣ number id := by
  rw [lowbit_lt_iff_bitAt, two_pow_dvd_iff_testBit]
  constructor
  · intro clear place below
    have unset := clear (159 - place) (by omega) (by omega)
    rw [bitAt_eq_testBit id (by omega)] at unset
    rwa [show 159 - (159 - place) = place by omega] at unset
  · intro clear i below le
    rw [bitAt_eq_testBit id below]
    exact clear _ (by omega)

/-! ## The middle -/

section Middle

variable {af : Family} {bucket : Bucket af} {next : Option (Bucket af)}

/-- Where the range of a bucket ends: at the bucket behind it, or behind all ids. -/
def upperBound : Option (Bucket af) → Nat
  | none => 2 ^ 160
  | some next => number next.first

theorem splitBit_le_iff {bit : Nat} (small : bit ≤ 160) :
    splitBit bucket next ≤ bit ↔
      2 ^ (160 - bit) ∣ number bucket.first ∧ 2 ^ (160 - bit) ∣ upperBound next := by
  rw [← lowbit_lt_iff _ small]
  cases next with
  | none =>
      have all : 2 ^ (160 - bit) ∣ upperBound (none : Option (Bucket af)) :=
        pow_dvd_pow 2 (Nat.sub_le 160 bit)
      simp only [splitBit, all, and_true]
      omega
  | some next =>
      simp only [splitBit, upperBound, ← lowbit_lt_iff _ small]
      omega

variable {exponent lo : Nat}

/-- The bit of a split is the first one that the range leaves open. -/
theorem splitBit_eq (small : exponent ≤ 160)
    (dyadic : Dyadic exponent (number bucket.first) (upperBound next)) :
    splitBit bucket next = 160 - exponent := by
  have upper : splitBit bucket next ≤ 160 - exponent := by
    rw [splitBit_le_iff (Nat.sub_le _ _), dyadic.dvd_both_iff]
    omega
  have lower := (splitBit_le_iff (by omega)).mp (le_refl (splitBit bucket next))
  rw [dyadic.dvd_both_iff] at lower
  omega

/-- A bucket of more than one id is cut in two halves. -/
theorem bucketMiddle_eq_some (small : exponent < 160)
    (dyadic : Dyadic (exponent + 1) (number bucket.first) (upperBound next)) :
    ∃ middle, bucketMiddle bucket next = some middle ∧
      number middle = number bucket.first + 2 ^ exponent := by
  have bit : splitBit bucket next = 159 - exponent := by
    rw [splitBit_eq small dyadic]
    omega
  have place : 159 - (159 - exponent) = exponent := by omega
  have unset : bitAt bucket.first (159 - exponent) = false := by
    rw [bitAt_eq_testBit _ (by omega), place]
    exact two_pow_dvd_iff_testBit.mp dyadic.aligned exponent (Nat.lt_succ_self _)
  unfold bucketMiddle
  rw [bit]
  refine ⟨_, if_neg (by omega), ?_⟩
  rw [number_setBit _ (by omega) unset, place]

end Middle

end Dnsp2p.Dht
