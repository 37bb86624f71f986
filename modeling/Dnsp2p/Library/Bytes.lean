import Mathlib.Data.Int.Order.Basic
import Mathlib.Data.List.TakeWhile
import Mathlib.Order.Basic
import Mathlib.Tactic.Ring
import Mathlib.Tactic.Linarith

/-!
# Bytes, fixed-width fields and decimal digits

Byte strings are lists of `UInt8`.  This file collects the byte-level
vocabulary of C programs: fixed-width fields, `memcmp`, the length of a
NUL-terminated string inside a finite allocation, and the decimal digits that
`printf` writes and a parser reads back.
-/

namespace Dnsp2p

/-- A byte string. -/
abbrev Bytes := List UInt8

/-- The bytes of an ASCII literal. -/
def ascii (text : String) : Bytes :=
  text.toList.map fun char => UInt8.ofNat char.toNat

/-! ## Fixed-width fields -/

/-- Exactly `width` bytes. -/
@[ext]
structure Field (width : Nat) where
  bytes : Bytes
  length_eq : bytes.length = width
  deriving DecidableEq

namespace Field

/-- The field that starts at the head of an allocation, when the allocation is
long enough to hold it. -/
def read (width : Nat) (memory : Bytes) : Option (Field width) :=
  if fits : width ≤ memory.length then
    some ⟨memory.take width, by simp [fits]⟩
  else
    none

/-- A field of zero bytes. -/
def zero (width : Nat) : Field width :=
  ⟨List.replicate width 0, by simp⟩

theorem read_eq_none_iff {width : Nat} {memory : Bytes} :
    read width memory = none ↔ memory.length < width := by
  unfold read
  split <;> simp <;> omega

@[simp]
theorem read_bytes {width : Nat} (field : Field width) :
    read width field.bytes = some field := by
  rcases field with ⟨bytes, rfl⟩
  simp [read]

theorem read_append {width : Nat} (field : Field width) (rest : Bytes) :
    read width (field.bytes ++ rest) = some field := by
  rcases field with ⟨bytes, rfl⟩
  simp [read]

end Field

/-! ## Unsigned comparison -/

/-- The big-endian value of a byte string. -/
def value : Bytes → Nat
  | [] => 0
  | byte :: rest => byte.toNat * 256 ^ rest.length + value rest

/-- `memcmp` on two blocks of one length: the difference at the first byte
where they differ. -/
def memcmp : Bytes → Bytes → Int
  | left :: lefts, right :: rights =>
      if left = right then memcmp lefts rights else (left.toNat : Int) - right.toNat
  | _, _ => 0

theorem value_lt (bytes : Bytes) : value bytes < 256 ^ bytes.length := by
  induction bytes with
  | nil => simp [value]
  | cons byte rest ih =>
      have byteLt : byte.toNat + 1 ≤ 256 := byte.toNat_lt
      have scaled := Nat.mul_le_mul_right (256 ^ rest.length) byteLt
      simp only [value, List.length_cons, pow_succ]
      linarith

/-- Two blocks of one length compare as their big-endian values. -/
theorem memcmp_neg_iff {left right : Bytes} (sameLength : left.length = right.length) :
    memcmp left right < 0 ↔ value left < value right := by
  induction left generalizing right with
  | nil =>
      cases right with
      | nil => simp [memcmp, value]
      | cons => simp at sameLength
  | cons byte rest ih =>
      cases right with
      | nil => simp at sameLength
      | cons byte' rest' =>
          have restLength : rest.length = rest'.length := by simpa using sameLength
          by_cases same : byte = byte'
          · subst same
            simp [memcmp, value, restLength, ih restLength]
          · have valueLt := value_lt rest
            have valueLt' := value_lt rest'
            have differ : byte.toNat ≠ byte'.toNat := fun equal => same (UInt8.toNat_inj.mp equal)
            simp only [memcmp, if_neg same, value, restLength] at *
            constructor
            · intro less
              have step : byte.toNat + 1 ≤ byte'.toNat := by omega
              have scaled := Nat.mul_le_mul_right (256 ^ rest'.length) step
              linarith
            · intro less
              by_contra notLess
              have step : byte'.toNat + 1 ≤ byte.toNat := by omega
              have scaled := Nat.mul_le_mul_right (256 ^ rest'.length) step
              linarith

theorem memcmp_eq_zero_iff {left right : Bytes} (sameLength : left.length = right.length) :
    memcmp left right = 0 ↔ left = right := by
  induction left generalizing right with
  | nil =>
      cases right with
      | nil => simp [memcmp]
      | cons => simp at sameLength
  | cons byte rest ih =>
      cases right with
      | nil => simp at sameLength
      | cons byte' rest' =>
          by_cases same : byte = byte'
          · simp [memcmp, same, ih (by simpa using sameLength)]
          · have differ : byte.toNat ≠ byte'.toNat := fun equal => same (UInt8.toNat_inj.mp equal)
            simp only [memcmp, same, if_false, List.cons.injEq, false_and, iff_false]
            omega

theorem memcmp_swap (left right : Bytes) : memcmp right left = -memcmp left right := by
  induction left generalizing right with
  | nil => cases right <;> simp [memcmp]
  | cons byte rest ih =>
      cases right with
      | nil => simp [memcmp]
      | cons byte' rest' =>
          by_cases same : byte = byte'
          · simp [memcmp, same, ih]
          · have other : ¬ byte' = byte := fun equal => same equal.symm
            simp [memcmp, same, other]

theorem memcmp_pos_iff {left right : Bytes} (sameLength : left.length = right.length) :
    0 < memcmp left right ↔ value right < value left := by
  rw [← memcmp_neg_iff sameLength.symm, memcmp_swap left right]
  omega

theorem value_injective {left right : Bytes} (sameLength : left.length = right.length)
    (equal : value left = value right) : left = right := by
  rw [← memcmp_eq_zero_iff sameLength]
  have notNeg := (memcmp_neg_iff sameLength).not.mpr (by omega)
  have notPos := (memcmp_pos_iff sameLength).not.mpr (by omega)
  omega

/-- Fields of one width are ordered as `memcmp` orders them. -/
instance {width : Nat} : LinearOrder (Field width) :=
  LinearOrder.lift' (fun field => value field.bytes) fun left right equal =>
    Field.ext (value_injective (left.length_eq.trans right.length_eq.symm) equal)

namespace Field

variable {width : Nat} (left right : Field width)

theorem lt_iff_memcmp : left < right ↔ memcmp left.bytes right.bytes < 0 :=
  (memcmp_neg_iff (left.length_eq.trans right.length_eq.symm)).symm

theorem eq_iff_memcmp : left = right ↔ memcmp left.bytes right.bytes = 0 := by
  rw [memcmp_eq_zero_iff (left.length_eq.trans right.length_eq.symm)]
  exact Field.ext_iff

theorem gt_iff_memcmp : right < left ↔ 0 < memcmp left.bytes right.bytes :=
  (memcmp_pos_iff (left.length_eq.trans right.length_eq.symm)).symm

end Field

/-! ## NUL-terminated strings inside an allocation -/

/-- `strlen` of the string at the head of an allocation; `none` when no NUL is
found before the allocation ends. -/
def strlen : Bytes → Option Nat
  | [] => none
  | byte :: rest => if byte = 0 then some 0 else (strlen rest).map (· + 1)

/-- `strcmp` of two allocations; `none` when the comparison reads past the end
of one of them. -/
def strcmp : Bytes → Bytes → Option Int
  | left :: lefts, right :: rights =>
      if left ≠ right then some ((left.toNat : Int) - right.toNat)
      else if left = 0 then some 0
      else strcmp lefts rights
  | _, _ => none

theorem strlen_eq_none_iff {memory : Bytes} : strlen memory = none ↔ 0 ∉ memory := by
  induction memory with
  | nil => simp [strlen]
  | cons byte rest ih =>
      by_cases terminator : byte = 0
      · simp [strlen, terminator]
      · have other : ¬ (0 : UInt8) = byte := fun equal => terminator equal.symm
        simp [strlen, terminator, other, ih]

/-- `strdup`: the bytes up to and including the first NUL. -/
def strdup : Bytes → Bytes
  | [] => []
  | byte :: rest => if byte = 0 then [0] else byte :: strdup rest

/-- The bytes before the first NUL. -/
def untilNul (memory : Bytes) : Bytes :=
  memory.takeWhile (· ≠ 0)

theorem untilNul_of_not_mem {memory : Bytes} (clean : 0 ∉ memory) :
    untilNul memory = memory := by
  rw [untilNul, List.takeWhile_eq_self_iff]
  intro byte member
  have notNul : byte ≠ 0 := fun equal => clean (equal ▸ member)
  simpa using notNul

theorem not_mem_untilNul (memory : Bytes) : 0 ∉ untilNul memory := by
  intro member
  simpa using List.mem_takeWhile_imp member

theorem strdup_append_nul (memory : Bytes) : strdup (memory ++ [0]) = untilNul memory ++ [0] := by
  induction memory with
  | nil => simp [strdup, untilNul]
  | cons byte rest ih =>
      by_cases terminator : byte = 0
      · simp [strdup, untilNul, terminator]
      · rw [List.cons_append, strdup, if_neg terminator, ih]
        simp [untilNul, terminator]

/-- The copy made by `strdup` is a prefix of what it copies. -/
theorem untilNul_append_nul_isPrefix (memory : Bytes) :
    untilNul memory ++ [0] <+: memory ++ [0] := by
  induction memory with
  | nil => simp [untilNul]
  | cons byte rest ih =>
      by_cases terminator : byte = 0
      · simp [untilNul, terminator]
      · simpa [untilNul, terminator] using ih

/-! ## Decimal digits -/

/-- Is the character one of `0` to `9`? -/
def isDigit (char : UInt8) : Bool :=
  48 ≤ char && char ≤ 57

/-- `printf`'s digits of a number, for every number below the fuel. -/
def digits : Nat → Nat → Bytes
  | 0, _ => []
  | fuel + 1, number =>
      if number < 10 then [UInt8.ofNat (48 + number)]
      else digits fuel (number / 10) ++ [UInt8.ofNat (48 + number % 10)]

/-- The decimal digits of a natural number, most significant first. -/
def decimal (number : Nat) : Bytes :=
  digits (number + 1) number

/-- The number that a string of decimal digits denotes. -/
def readDecimal (text : Bytes) : Nat :=
  text.foldl (fun total char => total * 10 + (char.toNat - 48)) 0

@[simp]
theorem readDecimal_append_singleton (text : Bytes) (char : UInt8) :
    readDecimal (text ++ [char]) = readDecimal text * 10 + (char.toNat - 48) := by
  simp [readDecimal]

private theorem digit_toNat {number : Nat} (small : number < 10) :
    (UInt8.ofNat (48 + number)).toNat = 48 + number := by
  simp
  omega

theorem isDigit_ofNat {number : Nat} (small : number < 10) :
    isDigit (UInt8.ofNat (48 + number)) = true := by
  have toNat := digit_toNat small
  simp only [isDigit, Bool.and_eq_true, decide_eq_true_eq, UInt8.le_iff_toNat_le, toNat]
  constructor
  · change 48 ≤ _
    omega
  · change _ ≤ 57
    omega

theorem readDecimal_digits (fuel number : Nat) (enough : number < fuel) :
    readDecimal (digits fuel number) = number := by
  induction fuel generalizing number with
  | zero => omega
  | succ fuel ih =>
      unfold digits
      split
      · rename_i small
        simp only [readDecimal, List.foldl_cons, List.foldl_nil, digit_toNat small]
        omega
      · rename_i large
        rw [readDecimal_append_singleton, ih (number / 10) (by omega),
          digit_toNat (Nat.mod_lt _ (by decide))]
        omega

@[simp]
theorem readDecimal_decimal (number : Nat) : readDecimal (decimal number) = number :=
  readDecimal_digits _ _ (Nat.lt_succ_self number)

theorem isDigit_of_mem_digits (fuel number : Nat) :
    ∀ char ∈ digits fuel number, isDigit char = true := by
  induction fuel generalizing number with
  | zero => simp [digits]
  | succ fuel ih =>
      unfold digits
      split
      · rename_i small
        simpa using isDigit_ofNat small
      · intro char member
        rcases List.mem_append.mp member with earlier | last
        · exact ih _ char earlier
        · rw [List.mem_singleton.mp last]
          exact isDigit_ofNat (Nat.mod_lt _ (by decide))

theorem isDigit_of_mem_decimal {number : Nat} {char : UInt8} (member : char ∈ decimal number) :
    isDigit char = true :=
  isDigit_of_mem_digits _ _ char member

theorem decimal_ne_nil (number : Nat) : decimal number ≠ [] := by
  unfold decimal digits
  split <;> simp

theorem zero_not_mem_decimal (number : Nat) : 0 ∉ decimal number := by
  intro member
  exact absurd (isDigit_of_mem_decimal member) (by decide)

end Dnsp2p
