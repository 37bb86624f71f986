import Dnsp2p.Fault
import Dnsp2p.Library.Bits
import Dnsp2p.Library.Numeral
import Mathlib.Data.List.Nodup

/-!
# Serialized integers

The display formats of integers: big-endian bytes, and digits of base 36 or 90 in a
fixed number of places.  Integers of libgcrypt are natural numbers.
-/

namespace Dnsp2p.Seccure

/-- `enum disp_format`. -/
inductive DispFormat where
  | bin
  | compact
  | base36
  deriving DecidableEq, Repr

/-- `compact_digits`. -/
def compactDigits : Bytes :=
  ascii "!#$%&()*+,-./0123456789:;<=>?@ABCDEFGHIJKLMNOPQRSTUVWXYZ[]^_abcdefghijklmnopqrstuvwxyz\x7b|\x7d~"

/-- `base36_digits`. -/
def base36Digits : Bytes :=
  ascii "0123456789abcdefghijklmnopqrstuvwxyz"

/-- `get_digits`. -/
def getDigits : DispFormat → Except Fault Bytes
  | .base36 => .ok base36Digits
  | .compact => .ok compactDigits
  | .bin => .error .assertion

/-- `get_digit_count`. -/
def getDigitCount : DispFormat → Except Fault Nat
  | .base36 => .ok 36
  | .compact => .ok 90
  | .bin => .error .assertion

/-- `gcry_mpi_get_nbits`. -/
def nbits (x : Nat) : Nat :=
  if x = 0 then 0 else x.log2 + 1

/-- The loop of `get_serialization_len`: divisions until nothing is left. -/
def countDivisions (base : Nat) : Nat → Nat → Except Fault Nat
  | 0, _ => .error .nonterminating
  | fuel + 1, q =>
      if q = 0 then .ok 0
      else do
        let res ← countDivisions base fuel (q / base)
        .ok (res + 1)

/-- `get_serialization_len`. -/
def getSerializationLen (x : Nat) (df : DispFormat) : Except Fault Nat :=
  match df with
  | .bin => .ok ((nbits x + 7) / 8)
  | .base36 | .compact => do countDivisions (← getDigitCount df) (nbits x + 1) x

/-- The loop of `serialize_mpi` over the places of a buffer, from the last one on: the
characters written, and what is left of the number. -/
def serializeLoop (digits : Bytes) (digitCount : Nat) : Nat → Nat → Except Fault (Bytes × Nat)
  | 0, q => .ok ([], q)
  | i + 1, q =>
      let digit := q % digitCount
      match digits[digit]? with
      | none => .error .outOfBounds
      | some char =>
          if digit < digitCount then do
            let (front, q) ← serializeLoop digits digitCount i (q / digitCount)
            .ok (front ++ [char], q)
          else .error .assertion

/-- `serialize_mpi`: the bytes that are stored in the buffer. -/
def serializeMpi (outlen : Nat) (df : DispFormat) (x : Nat) : Except Fault Bytes :=
  match df with
  | .bin =>
      let len := (nbits x + 7) / 8
      if len ≤ outlen then
        .ok (List.replicate (outlen - len) 0 ++ (Numeral.digits 256 len x).map UInt8.ofNat)
      else .error .assertion
  | .base36 | .compact => do
      let (outbuf, q) ← serializeLoop (← getDigits df) (← getDigitCount df) outlen x
      if q = 0 then .ok outbuf else .error .assertion

/-- The loop of `deserialize_mpi` over the characters of a buffer. -/
def deserializeLoop (digits : Bytes) (digitCount : Nat) :
    Nat → Bytes → Nat → Except Fault (Option Nat)
  | 0, _, x => .ok (some x)
  | _ + 1, [], _ => .error .outOfBounds
  | i + 1, char :: buf, x =>
      match (digits.take digitCount).findIdx? (· = char) with
      | none => .ok none
      | some d => deserializeLoop digits digitCount i buf (x * digitCount + d)

/-- `deserialize_mpi`: absent when it returns 0. -/
def deserializeMpi (df : DispFormat) (buf : Bytes) (inlen : Nat) : Except Fault (Option Nat) :=
  match df with
  | .bin => if inlen ≤ buf.length then .ok (some (value (buf.take inlen))) else .error .outOfBounds
  | .base36 | .compact => do deserializeLoop (← getDigits df) (← getDigitCount df) inlen buf 0

/-! ## The digit tables -/

/-- The characters of a format, and how many there are, or none for bytes. -/
def table : DispFormat → Option Bytes
  | .base36 => some base36Digits
  | .compact => some compactDigits
  | .bin => none

theorem table_of_text {df : DispFormat} (text : df ≠ .bin) : ∃ chars, table df = some chars := by
  cases df with
  | bin => exact absurd rfl text
  | compact => exact ⟨_, rfl⟩
  | base36 => exact ⟨_, rfl⟩

/-- The tables are as long as their digit counts say, and have no character twice and
no NUL. -/
theorem table_spec {df : DispFormat} {digits : Bytes} (tabled : table df = some digits) :
    getDigits df = .ok digits ∧ getDigitCount df = .ok digits.length ∧ 2 ≤ digits.length ∧
      digits.Nodup ∧ 0 ∉ digits := by
  cases df with
  | bin => cases tabled
  | compact =>
      cases tabled
      exact ⟨rfl, by decide +kernel⟩
  | base36 =>
      cases tabled
      exact ⟨rfl, by decide +kernel⟩

/-! ## Lengths -/

theorem lt_two_pow_nbits (x : Nat) : x < 2 ^ nbits x := by
  unfold nbits
  split
  · omega
  · exact Nat.lt_log2_self

/-- The number of divisions is the number of places that a number needs. -/
theorem countDivisions_spec {base fuel x : Nat} (many : 2 ≤ base) (enough : x < 2 ^ fuel) :
    ∃ res, countDivisions base (fuel + 1) x = .ok res ∧ x < base ^ res ∧
      (res ≠ 0 → base ^ (res - 1) ≤ x) := by
  induction fuel generalizing x with
  | zero =>
      obtain rfl : x = 0 := by simpa using enough
      exact ⟨0, rfl, by simp, by simp⟩
  | succ fuel ih =>
      by_cases nothing : x = 0
      · exact ⟨0, by simp [countDivisions, nothing], by simp [nothing], by simp⟩
      · have smaller : x / base < 2 ^ fuel := by
          rw [Nat.div_lt_iff_lt_mul (by omega)]
          rw [pow_succ] at enough
          exact enough.trans_le (Nat.mul_le_mul_left _ many)
        rcases ih smaller with ⟨res, counted, fits, needs⟩
        refine ⟨res + 1, by rw [countDivisions, if_neg nothing, counted]; rfl, ?_, fun _ => ?_⟩
        · rw [pow_succ]
          exact (Nat.div_lt_iff_lt_mul (by omega)).mp fits
        · rw [Nat.add_sub_cancel]
          cases res with
          | zero => simp only [pow_zero]; omega
          | succ res =>
              have front := needs (by simp)
              rw [Nat.add_sub_cancel] at front
              rw [pow_succ]
              exact (Nat.le_div_iff_mul_le (by omega)).mp front

/-- A length is returned, and numbers up to the given one have as many places. -/
theorem getSerializationLen_spec {df : DispFormat} {digits : Bytes}
    (tabled : table df = some digits)
    (x : Nat) : ∃ len, getSerializationLen x df = .ok len ∧ x < digits.length ^ len ∧
      (len ≠ 0 → digits.length ^ (len - 1) ≤ x) := by
  rcases table_spec tabled with ⟨_, counted, many, _, _⟩
  rcases countDivisions_spec many (lt_two_pow_nbits x) with ⟨len, returned, fits, needs⟩
  refine ⟨len, ?_, fits, needs⟩
  cases df with
  | bin => cases tabled
  | compact => rw [getSerializationLen, counted]; exact returned
  | base36 => rw [getSerializationLen, counted]; exact returned

/-! ## The round trip -/

/-- The places are the digits of the number, and what is left is the rest of it. -/
theorem serializeLoop_eq {chars : Bytes} (positive : 0 < chars.length) (width q : Nat) :
    serializeLoop chars chars.length width q =
      .ok ((Numeral.digits chars.length width q).map fun d => chars.getD d 0,
        q / chars.length ^ width) := by
  induction width generalizing q with
  | zero => simp [serializeLoop, Numeral.digits]
  | succ width ih =>
      have inside := Nat.mod_lt q positive
      rw [serializeLoop]
      dsimp only
      rw [List.getElem?_eq_getElem inside]
      dsimp only
      rw [if_pos inside, ih, ok_bind, Numeral.digits, List.map_append, Nat.div_div_eq_div_mul,
        pow_succ']
      simp [List.getD_eq_getElem?_getD, List.getElem?_eq_getElem inside]

/-- The digits are found again. -/
theorem deserializeLoop_eq {chars : Bytes} (single : chars.Nodup) {numeral : List Nat}
    (below : ∀ d ∈ numeral, d < chars.length) (more : Bytes) (x : Nat) :
    deserializeLoop chars chars.length numeral.length
        (numeral.map (fun d => chars.getD d 0) ++ more) x =
      .ok (some (Numeral.number chars.length x numeral)) := by
  induction numeral generalizing x with
  | nil => rfl
  | cons d numeral ih =>
      have inside : d < chars.length := below d List.mem_cons_self
      have found : (chars.take chars.length).findIdx? (· = chars.getD d 0) = some d := by
        rw [List.take_length, List.findIdx?_eq_some_iff_getElem]
        refine ⟨inside, by simp [List.getD_eq_getElem?_getD, inside], fun j before same => ?_⟩
        simp only [List.getD_eq_getElem?_getD, List.getElem?_eq_getElem inside, Option.getD_some,
          decide_eq_true_eq] at same
        have equal : j = d := (List.Nodup.getElem_inj_iff single).mp same
        omega
      have rest := ih (fun d mem => below d (List.mem_cons_of_mem _ mem)) (x * chars.length + d)
      rw [List.length_cons, List.map_cons, List.cons_append, deserializeLoop, found]
      exact rest

/-- A number that fits is written to its places. -/
theorem serializeMpi_eq {df : DispFormat} {chars : Bytes} (tabled : table df = some chars)
    {width x : Nat} (fits : x < chars.length ^ width) :
    serializeMpi width df x =
      .ok ((Numeral.digits chars.length width x).map fun d => chars.getD d 0) := by
  rcases table_spec tabled with ⟨got, counted, many, _, _⟩
  have nothing : x / chars.length ^ width = 0 := Nat.div_eq_of_lt fits
  cases df with
  | bin => cases tabled
  | compact =>
      rw [serializeMpi, got, counted, ok_bind, ok_bind, serializeLoop_eq (by omega), nothing]
      rfl
  | base36 =>
      rw [serializeMpi, got, counted, ok_bind, ok_bind, serializeLoop_eq (by omega), nothing]
      rfl

/-- A number that is written fits, as the assertion at the end says. -/
theorem lt_of_serializeMpi {df : DispFormat} {chars : Bytes} (tabled : table df = some chars)
    {width x : Nat} {outbuf : Bytes} (written : serializeMpi width df x = .ok outbuf) :
    x < chars.length ^ width := by
  rcases table_spec tabled with ⟨got, counted, many, _, _⟩
  have positive : 0 < chars.length ^ width := Nat.pow_pos (by omega)
  by_contra large
  have rest : x / chars.length ^ width ≠ 0 := by
    rw [Ne, Nat.div_eq_zero_iff_lt positive]
    exact large
  cases df with
  | bin => cases tabled
  | compact =>
      rw [serializeMpi, got, counted, ok_bind, ok_bind, serializeLoop_eq (by omega), ok_bind]
        at written
      dsimp only at written
      rw [if_neg rest] at written
      cases written
  | base36 =>
      rw [serializeMpi, got, counted, ok_bind, ok_bind, serializeLoop_eq (by omega), ok_bind]
        at written
      dsimp only at written
      rw [if_neg rest] at written
      cases written

/-- What is written has a character of the table in each place. -/
theorem serializeMpi_chars {df : DispFormat} {chars : Bytes} (tabled : table df = some chars)
    {width x : Nat} (fits : x < chars.length ^ width) {outbuf : Bytes}
    (written : serializeMpi width df x = .ok outbuf) :
    outbuf.length = width ∧ ∀ char ∈ outbuf, char ∈ chars := by
  rcases table_spec tabled with ⟨_, _, many, _, _⟩
  rw [serializeMpi_eq tabled fits] at written
  obtain rfl := Except.ok.inj written
  refine ⟨by simp, fun char mem => ?_⟩
  rcases List.mem_map.mp mem with ⟨d, place, rfl⟩
  have inside := Numeral.lt_of_mem_digits (by omega) place
  rw [List.getD_eq_getElem?_getD, List.getElem?_eq_getElem inside, Option.getD_some]
  exact List.getElem_mem inside

/-- A number that fits is read back from its places. -/
theorem deserializeMpi_serializeMpi {df : DispFormat} {chars : Bytes}
    (tabled : table df = some chars)
    {width x : Nat} (fits : x < chars.length ^ width) {outbuf : Bytes}
    (written : serializeMpi width df x = .ok outbuf) (more : Bytes) :
    deserializeMpi df (outbuf ++ more) width = .ok (some x) := by
  rcases table_spec tabled with ⟨got, counted, many, single, _⟩
  rw [serializeMpi_eq tabled fits] at written
  obtain rfl := Except.ok.inj written
  have below : ∀ d ∈ Numeral.digits chars.length width x, d < chars.length := fun d mem =>
    Numeral.lt_of_mem_digits (by omega) mem
  have read := deserializeLoop_eq single below more 0
  rw [Numeral.number_digits, Nat.mod_eq_of_lt fits, Numeral.length_digits] at read
  cases df with
  | bin => cases tabled
  | compact => rw [deserializeMpi, got, counted, ok_bind, ok_bind]; exact read
  | base36 => rw [deserializeMpi, got, counted, ok_bind, ok_bind]; exact read

/-- What is read consists of characters of the table, one for each digit. -/
theorem deserializeLoop_inv {chars : Bytes} {width x y : Nat} {buf : Bytes}
    (read : deserializeLoop chars chars.length width buf x = .ok (some y)) :
    ∃ numeral : List Nat, numeral.length = width ∧ (∀ d ∈ numeral, d < chars.length) ∧
      buf.take width = numeral.map (fun d => chars.getD d 0) ∧
      y = Numeral.number chars.length x numeral := by
  induction width generalizing buf x with
  | zero =>
      cases read
      exact ⟨[], rfl, by simp, by simp, rfl⟩
  | succ width ih =>
      cases buf with
      | nil => cases read
      | cons char buf =>
          rw [deserializeLoop, List.take_length] at read
          cases found : chars.findIdx? (· = char) with
          | none =>
              rw [found] at read
              cases read
          | some d =>
              rw [found] at read
              rcases List.findIdx?_eq_some_iff_getElem.mp found with ⟨inside, same, _⟩
              rcases ih read with ⟨numeral, length, below, taken, number⟩
              refine ⟨d :: numeral, by simp [length], ?_, ?_, number⟩
              · intro other mem
                rcases List.mem_cons.mp mem with rfl | rest
                · exact inside
                · exact below other rest
              · have here : chars.getD d 0 = char := by
                  simpa [List.getD_eq_getElem?_getD, inside] using same
                rw [List.take_succ_cons, taken, List.map_cons, here]

/-- A buffer from which a number is read is the one that the number is written to. -/
theorem serializeMpi_deserializeMpi {df : DispFormat} {chars : Bytes}
    (tabled : table df = some chars) {width x : Nat} {buf : Bytes}
    (read : deserializeMpi df buf width = .ok (some x)) :
    serializeMpi width df x = .ok (buf.take width) := by
  rcases table_spec tabled with ⟨got, counted, many, _, _⟩
  have looped : deserializeLoop chars chars.length width buf 0 = .ok (some x) := by
    cases df with
    | bin => cases tabled
    | compact => rwa [deserializeMpi, got, counted, ok_bind, ok_bind] at read
    | base36 => rwa [deserializeMpi, got, counted, ok_bind, ok_bind] at read
  rcases deserializeLoop_inv looped with ⟨numeral, rfl, below, taken, rfl⟩
  rw [serializeMpi_eq tabled (Numeral.number_lt (by omega) below), Numeral.digits_number below,
    taken]

/-- Bytes are written to all places of a buffer. -/
theorem serializeMpi_bin {outlen x : Nat} (fits : x < 256 ^ outlen) :
    serializeMpi outlen .bin x = .ok ((Numeral.digits 256 outlen x).map UInt8.ofNat) := by
  have bits : nbits x ≤ 8 * outlen := by
    unfold nbits
    split
    · omega
    · rename_i positive
      rw [Nat.add_one_le_iff, Nat.log2_lt positive, pow_mul]
      exact fits
  have short : (nbits x + 7) / 8 ≤ outlen := by omega
  have small : x < 256 ^ ((nbits x + 7) / 8) := by
    have room : 2 ^ nbits x ≤ 2 ^ (8 * ((nbits x + 7) / 8)) :=
      Nat.pow_le_pow_right (by omega) (by omega)
    rw [pow_mul] at room
    exact (lt_two_pow_nbits x).trans_le room
  rw [serializeMpi, if_pos short]
  generalize (nbits x + 7) / 8 = len at *
  have whole := Numeral.digits_add 256 (outlen - len) len x
  rw [Nat.sub_add_cancel short, Nat.div_eq_of_lt small, Numeral.digits_zero] at whole
  rw [whole, List.map_append, List.map_replicate]
  rfl

theorem toNat_digits (width n : Nat) :
    ((Numeral.digits 256 width n).map UInt8.ofNat).map UInt8.toNat =
      Numeral.digits 256 width n := by
  rw [List.map_map]
  have same : ∀ digit ∈ Numeral.digits 256 width n, (UInt8.toNat ∘ UInt8.ofNat) digit = digit := by
    intro digit mem
    have below := Numeral.lt_of_mem_digits (by decide) mem
    simp only [Function.comp_apply, UInt8.toNat_ofNat']
    omega
  rw [List.map_congr_left same, List.map_id']

/-- The value of bytes is that of a numeral of base 256. -/
theorem value_eq_number (bytes : Bytes) :
    value bytes = Numeral.number 256 0 (bytes.map UInt8.toNat) := by
  induction bytes using List.reverseRecOn with
  | nil => rfl
  | append_singleton front byte ih =>
      have value_nil : value [] = 0 := rfl
      rw [value_append_cons, ih, List.map_append, List.map_singleton,
        Numeral.number_append_singleton, List.length_nil, pow_zero, Nat.mul_one, value_nil,
        Nat.add_zero]

/-- Bytes that are written are those from which the number is read. -/
theorem serializeMpi_bin_iff {outlen x : Nat} {buf : Bytes} :
    serializeMpi outlen .bin x = .ok buf ↔ buf.length = outlen ∧ value buf = x := by
  constructor
  · intro written
    have short : (nbits x + 7) / 8 ≤ outlen := by
      by_contra long
      rw [serializeMpi, if_neg long] at written
      cases written
    have fits : x < 256 ^ outlen := by
      have room : 2 ^ nbits x ≤ 2 ^ (8 * outlen) := Nat.pow_le_pow_right (by omega) (by omega)
      rw [pow_mul] at room
      exact (lt_two_pow_nbits x).trans_le room
    rw [serializeMpi_bin fits] at written
    obtain rfl := Except.ok.inj written
    refine ⟨by simp, ?_⟩
    rw [value_eq_number, toNat_digits, Numeral.number_digits, Nat.mod_eq_of_lt fits]
  · rintro ⟨rfl, rfl⟩
    have below : ∀ digit ∈ buf.map UInt8.toNat, digit < 256 := by
      intro digit mem
      rcases List.mem_map.mp mem with ⟨byte, _, rfl⟩
      exact byte.toNat_lt
    have numeral := Numeral.digits_number below
    rw [List.length_map, ← value_eq_number] at numeral
    rw [serializeMpi_bin (value_lt buf), numeral, List.map_map]
    simp [Function.comp_def]

/-- For every format: the bytes that are written for a number are those from which it is
read, in each place of the buffer. -/
theorem serializeMpi_iff {df : DispFormat} {width x : Nat} {buf : Bytes} :
    serializeMpi width df x = .ok buf ↔
      buf.length = width ∧ deserializeMpi df buf width = .ok (some x) := by
  by_cases binary : df = .bin
  · subst binary
    rw [serializeMpi_bin_iff, deserializeMpi]
    constructor
    · rintro ⟨rfl, rfl⟩
      simp
    · rintro ⟨rfl, read⟩
      simpa using read
  · rcases table_of_text binary with ⟨chars, tabled⟩
    constructor
    · intro written
      have fits := lt_of_serializeMpi tabled written
      have read := deserializeMpi_serializeMpi tabled fits written []
      rw [List.append_nil] at read
      exact ⟨(serializeMpi_chars tabled fits written).1, read⟩
    · rintro ⟨rfl, read⟩
      have written := serializeMpi_deserializeMpi tabled read
      rwa [List.take_length] at written

end Dnsp2p.Seccure
