import Dnsp2p.Benc.Encode

/-!
# Reading back what was written

`bdec_mem` on a buffer that holds the text of an object, as `bobj_encode` leaves it.  The
decoder may stand anywhere in the buffer, and what lies behind the text does not matter.
-/

namespace Dnsp2p.Benc

/-! ## A text in front of the pointer -/

/-- The text lies at the pointer of a buffer that is declared as long as it is. -/
structure Ahead (b : Bbuf) (text : Bytes) : Prop where
  placed : b.addr + b.mem.length < 2 ^ 63
  len : b.len = b.mem.length
  text : text <+: b.mem.drop b.ptr

section Ahead

variable {b : Bbuf} {char : UInt8} {text first rest : Bytes}

theorem Ahead.advance (ahead : Ahead b (first ++ rest)) : Ahead (b.advance first.length) rest where
  placed := ahead.placed
  len := ahead.len
  text := by
    rcases ahead.text with ⟨behind, lies⟩
    refine ⟨behind, ?_⟩
    have moved := congrArg (List.drop first.length) lies
    rw [List.append_assoc, List.drop_left, List.drop_drop] at moved
    exact moved

theorem Ahead.next (ahead : Ahead b (char :: rest)) : Ahead (b.advance 1) rest :=
  (show Ahead b ([char] ++ rest) from ahead).advance

theorem Ahead.left (ahead : Ahead b (first ++ rest)) : Ahead b first where
  placed := ahead.placed
  len := ahead.len
  text := (List.prefix_append first rest).trans ahead.text

theorem Ahead.deref (ahead : Ahead b (char :: rest)) : b.deref = .ok char := by
  rcases ahead.text with ⟨behind, lies⟩
  have here : b.mem[b.ptr]? = some char := by
    rw [← List.head?_drop, ← lies]
    rfl
  rw [Bbuf.deref, here]

/-- The text ends inside the buffer. -/
theorem Ahead.inside (ahead : Ahead b text) (nonempty : text ≠ []) :
    b.ptr + text.length ≤ b.mem.length := by
  have length := ahead.text.length_le
  have positive := List.length_pos_iff.mpr nonempty
  rw [List.length_drop] at length
  omega

theorem Ahead.bbufIncPtr (ahead : Ahead b (char :: rest)) :
    bbufIncPtr b = (true, b.advance 1) := by
  have inside := ahead.inside (by simp)
  rw [List.length_cons] at inside
  rw [Benc.bbufIncPtr, ahead.len, decide_eq_true (by omega)]

theorem note_false (b : Bbuf) : b.note false = b := by
  rw [Bbuf.note, Bool.or_false]

theorem advance_advance (b : Bbuf) (count count' : Nat) :
    (b.advance count).advance count' = b.advance (count + count') := by
  simp [Bbuf.advance, Nat.add_assoc]

end Ahead

/-! ## Byte strings -/

section Strings

variable {b : Bbuf} {text rest : Bytes}

/-- The loop of `benc_bstr_decode` reads the digits up to the colon. -/
theorem bencBstrLength_digits {fuel len : Nat} {b : Bbuf}
    (numeral : ∀ char ∈ text, isDigit char = true)
    (ahead : Ahead b (text ++ chr ':' :: rest)) (enough : text.length < fuel)
    (small : readFrom len text < sizeMod) :
    bencBstrLength fuel len b = .ok (some (readFrom len text), b.advance text.length) := by
  induction text generalizing fuel len b with
  | nil =>
      cases fuel with
      | zero => omega
      | succ fuel =>
          rw [List.nil_append] at ahead
          rw [bencBstrLength, ahead.deref, ok_bind, if_neg (by decide), if_pos rfl]
          rfl
  | cons char text ih =>
      cases fuel with
      | zero => omega
      | succ fuel =>
          rw [List.forall_mem_cons] at numeral
          rw [List.cons_append] at ahead
          have grown := le_readFrom (len * 10 + digitValue char) text
          have unfolded : readFrom len (char :: text) =
              readFrom (len * 10 + digitValue char) text := rfl
          rw [unfolded] at small ⊢
          have uncut : decide (sizeMod ≤ len * 10 + digitValue char) = false := by
            rw [decide_eq_false_iff_not]
            omega
          rw [bencBstrLength, ahead.deref, ok_bind, if_pos numeral.1]
          simp only [uncut, note_false, ahead.bbufIncPtr, if_true]
          rw [Nat.mod_eq_of_lt (by omega), ih numeral.2 ahead.next (by simpa using enough) small,
            advance_advance, List.length_cons, Nat.add_comm 1]

/-- What follows the colon is copied. -/
theorem bencBstrBody_text {bytes : Bytes} (nonempty : bytes ≠ [])
    (ahead : Ahead b (chr ':' :: bytes)) :
    bencBstrBody bytes.length b = .ok (some bytes, b.advance (1 + bytes.length)) := by
  have inside := ahead.inside (by simp)
  have placed := ahead.placed
  have positive := List.length_pos_iff.mpr nonempty
  rw [List.length_cons] at inside
  have uncut : decide (sizeMod ≤ b.addr + (b.ptr + 1) + bytes.length) = false := by
    rw [decide_eq_false_iff_not]
    simp only [sizeMod]
    omega
  have fits : ¬ (b.addr + b.len) % sizeMod <
      (b.addr + (b.ptr + 1) + bytes.length) % sizeMod := by
    rw [ahead.len, Nat.mod_eq_of_lt (by simp only [sizeMod]; omega),
      Nat.mod_eq_of_lt (by simp only [sizeMod]; omega)]
    omega
  have copied : (b.advance 1).memcpy bytes.length = .ok bytes := by
    have lies := List.prefix_iff_eq_take.mp ahead.next.text
    have room : (b.advance 1).ptr + bytes.length ≤ (b.advance 1).mem.length := by
      simp only [Bbuf.advance]
      omega
    rw [Bbuf.memcpy, if_pos room, ← lies]
  have allocated : bencBstrNew bytes.length = some bytes.length :=
    if_pos ⟨positive, by omega⟩
  rw [bencBstrBody]
  simp only [ahead.bbufIncPtr, Bbuf.advance, uncut, note_false, if_neg fits, allocated]
  simp only [Bbuf.advance] at copied
  rw [copied, ok_bind, Nat.add_assoc]

/-- `benc_bstr_decode` reads a string back that is not empty. -/
theorem bencBstrDecode_text {fuel : Nat} {bytes : Bytes} (nonempty : bytes ≠ [])
    (ahead : Ahead b (bstrText bytes)) (enough : (bstrText bytes).length ≤ fuel) :
    bencBstrDecode fuel b = .ok (some bytes, b.advance (bstrText bytes).length) := by
  have inside := ahead.inside (by simp [bstrText])
  have placed := ahead.placed
  have value : readFrom 0 (decimal bytes.length) = bytes.length :=
    readDecimal_decimal bytes.length
  have length : (bstrText bytes).length = (decimal bytes.length).length + (1 + bytes.length) := by
    simp only [bstrText, List.length_append, List.length_cons]
    omega
  have small : readFrom 0 (decimal bytes.length) < sizeMod := by
    rw [value]
    simp only [sizeMod]
    omega
  have read := bencBstrLength_digits (fun char => isDigit_of_mem_decimal) ahead
    (show (decimal bytes.length).length < fuel by omega) small
  rw [value] at read
  rw [bencBstrDecode, read, ok_bind]
  change bencBstrBody bytes.length (b.advance (decimal bytes.length).length) = _
  rw [bencBstrBody_text nonempty ahead.advance, advance_advance, length]

end Strings

/-! ## Integers -/

section Integers

variable {b : Bbuf} {text rest : Bytes}

/-- The loop of `benc_int_decode` reads the digits up to the end. -/
theorem bencIntDigits_text {fuel : Nat} {total : Int} {b : Bbuf} {char : UInt8}
    (numeral : ∀ char ∈ text, isDigit char = true)
    (ahead : Ahead b (char :: (text ++ chr 'e' :: rest))) (enough : text.length < fuel) :
    bencIntDigits fuel total b = .ok (some (wrapFrom total text), b.advance (text.length + 2)) := by
  induction text generalizing fuel total b char with
  | nil =>
      cases fuel with
      | zero => omega
      | succ fuel =>
          rw [List.nil_append] at ahead
          simp only [bencIntDigits, ahead.bbufIncPtr, if_true, ahead.next.deref, ok_bind,
            ahead.next.bbufIncPtr, advance_advance]
          rw [if_neg (by decide)]
          rfl
  | cons digit text ih =>
      cases fuel with
      | zero => omega
      | succ fuel =>
          rw [List.forall_mem_cons] at numeral
          rw [List.cons_append] at ahead
          simp only [bencIntDigits, ahead.bbufIncPtr, if_true, ahead.next.deref, ok_bind,
            if_pos numeral.1]
          rw [ih numeral.2 ahead.next (by simpa using enough), advance_advance, List.length_cons]
          congr 3
          omega

/-- A number that was read digit by digit. -/
theorem wrapInt_of_digits {total factor : Int} {number : Nat}
    (read : total % (sizeMod : Int) = (number : Int) % (sizeMod : Int))
    (least : -2 ^ 63 ≤ number * factor) (most : number * factor < 2 ^ 63) :
    wrapInt (total * factor) = number * factor := by
  have same : wrapInt (total * factor) = wrapInt (number * factor) := by
    apply wrapInt_eq_of_emod_eq
    rw [Int.mul_emod, read, ← Int.mul_emod]
  have modulus : ((sizeMod : Nat) : Int) = 2 ^ 64 := rfl
  rw [same, wrapInt, Int.bmod_eq_of_le_mul_two] <;> omega

/-- `benc_int_decode` reads a number back. -/
theorem bencIntDecode_text {fuel : Nat} {i : Int} (least : -2 ^ 63 ≤ i) (most : i < 2 ^ 63)
    (ahead : Ahead b (bobjText (.int i))) (enough : (bobjText (.int i)).length ≤ fuel) :
    bencIntDecode fuel b = .ok (some i, b.advance (bobjText (.int i)).length) := by
  rw [bobjText] at ahead enough ⊢
  simp only [List.length_cons, List.length_append, List.length_nil] at enough ⊢
  simp only [bencIntDecode, ahead.bbufIncPtr]
  cases i with
  | ofNat number =>
      rw [decimalInt] at ahead enough ⊢
      have numeral : ∀ char ∈ decimal number, isDigit char = true :=
        fun char => isDigit_of_mem_decimal
      have value := readDecimal_decimal number
      cases digits : decimal number with
      | nil => exact absurd digits (decimal_ne_nil number)
      | cons digit text =>
          rw [digits] at ahead enough numeral value
          rw [List.forall_mem_cons] at numeral
          rw [List.length_cons] at enough
          have body := ahead.next
          rw [List.cons_append] at body
          have notSign : digit ≠ chr '-' := by
            rintro rfl
            exact absurd numeral.1 (by decide)
          have read : bencIntDigits fuel (digitValue digit) (b.advance 1) = _ :=
            bencIntDigits_text numeral.2 body (by omega)
          have total : wrapFrom (digitValue digit) text % (sizeMod : Int) =
              (readFrom (digitValue digit) text : Int) % (sizeMod : Int) := wrapFrom_emod rfl text
          have number_ : readFrom (digitValue digit) text = number := by
            rw [← value]
            simp [readDecimal, readFrom, digitValue]
          rw [number_] at total
          rw [body.deref, ok_bind, if_neg notSign, if_pos numeral.1, read, ok_bind]
          simp only [advance_advance]
          have bound : (number : Int) < 2 ^ 63 := most
          rw [wrapInt_of_digits total (by omega) (by omega), Int.mul_one, List.length_cons]
          congr 3
          omega
  | negSucc number =>
      rw [decimalInt] at ahead enough ⊢
      rw [List.length_cons] at enough
      have body := ahead.next
      rw [List.cons_append] at body
      have read : bencIntDigits fuel 0 (b.advance 1) = _ :=
        bencIntDigits_text (fun char => isDigit_of_mem_decimal) body (by omega)
      have total : wrapFrom 0 (decimal (number + 1)) % (sizeMod : Int) =
          (readFrom 0 (decimal (number + 1)) : Int) % (sizeMod : Int) := wrapFrom_emod rfl _
      have value : readFrom 0 (decimal (number + 1)) = number + 1 :=
        readDecimal_decimal (number + 1)
      rw [value] at total
      rw [body.deref, ok_bind, if_pos rfl, read, ok_bind]
      simp only [advance_advance]
      rw [wrapInt_of_digits total (by omega) (by omega), List.length_cons]
      congr 3
      · omega
      · omega

end Integers

/-! ## Objects -/

theorem length_bobjText_pos (obj : Bobj) : 0 < (bobjText obj).length := by
  cases obj <;> simp [bobjText, bstrText]

theorem bencListDecode_end {fuel : Nat} {b : Bbuf} (ahead : Ahead b [chr 'e'])
    (enough : 0 < fuel) : bencListDecode fuel b = .ok (some .null, b.advance 1) := by
  cases fuel with
  | zero => omega
  | succ fuel => rw [bencListDecode, ahead.deref, ok_bind, if_pos rfl, ahead.bbufIncPtr]

theorem bencDictDecode_end {fuel : Nat} {b : Bbuf} (ahead : Ahead b [chr 'e'])
    (enough : 0 < fuel) : bencDictDecode fuel b = .ok (some .null, b.advance 1) := by
  cases fuel with
  | zero => omega
  | succ fuel => rw [bencDictDecode, ahead.deref, ok_bind, if_pos rfl, ahead.bbufIncPtr]

mutual
/-- `bdec_mem` reads an object back. -/
theorem bdecMem_text (obj : Bobj) (decodable : obj.Decodable) (nonempty : obj.NoEmptyString)
    {fuel : Nat} {b : Bbuf} (ahead : Ahead b (bobjText obj))
    (enough : 2 * (bobjText obj).length < fuel) :
    bdecMem fuel b = .ok (some obj, b.advance (bobjText obj).length) := by
  cases fuel with
  | zero => omega
  | succ fuel =>
      cases obj with
      | int value =>
          have read := bencIntDecode_text decodable.1 decodable.2 ahead
            (show (bobjText (.int value)).length ≤ fuel by omega)
          rw [bobjText] at ahead
          rw [bdecMem, ahead.deref, ok_bind, if_pos rfl, read]
          rfl
      | bstr bytes =>
          rw [bobjText] at ahead enough
          have read := bencBstrDecode_text nonempty ahead
            (show (bstrText bytes).length ≤ fuel by omega)
          rcases bstrText_head bytes with ⟨char, rest, text, digit⟩
          have notInt : char ≠ chr 'i' := by rintro rfl; exact absurd digit (by decide)
          have notList : char ≠ chr 'l' := by rintro rfl; exact absurd digit (by decide)
          have notDict : char ≠ chr 'd' := by rintro rfl; exact absurd digit (by decide)
          rw [text] at ahead
          rw [bdecMem, ahead.deref, ok_bind, if_neg notInt, if_neg notList, if_neg notDict,
            if_pos digit, read, bobjText]
          rfl
      | list head =>
          rw [bobjText] at ahead enough ⊢
          simp only [List.length_cons, List.length_append, List.length_nil] at enough ⊢
          rw [bdecMem, ahead.deref, ok_bind, if_neg (by decide), if_pos rfl, ahead.bbufIncPtr]
          cases head with
          | unassigned =>
              rw [bencListDecode_end ahead.next (by omega), ok_bind]
              rfl
          | null => exact decodable.elim
          | entry elem next =>
              rw [bencListDecode_text (.entry elem next) decodable nonempty ahead.next (by omega),
                ok_bind, advance_advance, Nat.add_comm 1]
              rfl
      | dict head =>
          rw [bobjText] at ahead enough ⊢
          simp only [List.length_cons, List.length_append, List.length_nil] at enough ⊢
          rw [bdecMem, ahead.deref, ok_bind, if_neg (by decide), if_neg (by decide), if_pos rfl,
            ahead.bbufIncPtr]
          cases head with
          | unassigned =>
              rw [bencDictDecode_end ahead.next (by omega), ok_bind]
              rfl
          | null => exact decodable.elim
          | entry key val next =>
              rw [bencDictDecode_text (.entry key val next) decodable nonempty ahead.next
                (by omega), ok_bind, advance_advance, Nat.add_comm 1]
              rfl

/-- The loop of `benc_list_decode` reads the elements back. -/
theorem bencListDecode_text (head : BencList) (decodable : head.Decodable)
    (nonempty : head.NoEmptyString) {fuel : Nat} {b : Bbuf}
    (ahead : Ahead b (listText head ++ [chr 'e']))
    (enough : 2 * (listText head).length + 1 < fuel) :
    bencListDecode fuel b = .ok (some head, b.advance ((listText head).length + 1)) := by
  cases fuel with
  | zero => omega
  | succ fuel =>
      cases head with
      | unassigned => exact decodable.elim
      | null =>
          rw [listText, List.nil_append] at ahead
          exact bencListDecode_end ahead (Nat.succ_pos fuel)
      | entry elem next =>
          rw [listText, List.append_assoc] at ahead
          rw [listText, List.length_append] at enough ⊢
          have positive := length_bobjText_pos elem
          have first := bdecMem_text elem decodable.1 nonempty.1 ahead.left
            (show 2 * (bobjText elem).length < fuel by omega)
          have others := bencListDecode_text next decodable.2 nonempty.2 ahead.advance
            (show 2 * (listText next).length + 1 < fuel by omega)
          rcases bobjText_head elem with ⟨char, rest, text, notEnd⟩
          rw [text, List.cons_append] at ahead
          rw [bencListDecode, ahead.deref, ok_bind, if_neg notEnd, first, ok_bind]
          simp only [others, ok_bind, advance_advance, Nat.add_assoc]

/-- The loop of `benc_dict_decode` reads the pairs back. -/
theorem bencDictDecode_text (head : BencDict) (decodable : head.Decodable)
    (nonempty : head.NoEmptyString) {fuel : Nat} {b : Bbuf}
    (ahead : Ahead b (dictText head ++ [chr 'e']))
    (enough : 2 * (dictText head).length + 1 < fuel) :
    bencDictDecode fuel b = .ok (some head, b.advance ((dictText head).length + 1)) := by
  cases fuel with
  | zero => omega
  | succ fuel =>
      cases head with
      | unassigned => exact decodable.elim
      | null =>
          rw [dictText, List.nil_append] at ahead
          exact bencDictDecode_end ahead (Nat.succ_pos fuel)
      | entry key val next =>
          rw [dictText, List.append_assoc, List.append_assoc] at ahead
          rw [dictText, List.length_append, List.length_append] at enough ⊢
          have positive := length_bobjText_pos val
          have name := bencBstrDecode_text nonempty.1 ahead.left
            (show (bstrText key).length ≤ fuel by omega)
          have value := bdecMem_text val decodable.1 nonempty.2.1 ahead.advance.left
            (show 2 * (bobjText val).length < fuel by omega)
          have others := bencDictDecode_text next decodable.2 nonempty.2.2 ahead.advance.advance
            (show 2 * (dictText next).length + 1 < fuel by omega)
          rcases bstrText_not_end key with ⟨char, rest, text, notEnd⟩
          rw [text, List.cons_append] at ahead
          rw [bencDictDecode, ahead.deref, ok_bind, if_neg notEnd, name, ok_bind]
          simp only [value, ok_bind, others]
          simp only [advance_advance, Nat.add_assoc]
end

/-! ## Writing and reading -/

/-- An object of any kind that has room is written as its canonical text, nothing around
the text is touched, and `bobj_repsize` is the exact size; without room the encoder
runs over the end of the buffer. -/
theorem bobjEncode_exact {obj : Bobj} (writable : obj.Writable) (b : Bbuf) :
    bobjRepsize obj = .ok ((bobjText obj).length % sizeMod) ∧
      (b.ptr + (bobjText obj).length ≤ b.mem.length →
        bobjEncode b obj = .ok { b with
          mem := b.mem.take b.ptr ++ bobjText obj ++ b.mem.drop (b.ptr + (bobjText obj).length)
          ptr := b.ptr + (bobjText obj).length }) ∧
      (b.mem.length < b.ptr + (bobjText obj).length →
        bobjEncode b obj = .error .outOfBounds) := by
  rw [bobjEncode_eq obj writable b]
  refine ⟨bobjRepsize_eq obj writable, ?_, b.write_eq_error⟩
  intro room
  rw [Bbuf.write, Dnsp2p.memcpy, if_pos room]

/-- A dictionary with a number, a string with a NUL in it and a list. -/
def sampleObject : Bobj :=
  .dict (.entry (ascii "a") (.int (-12)) (.entry (ascii "b") (.list
    (.entry (.bstr [0, 255]) .null)) .null))

theorem bobjEncode_exact_sampleObject :
    bobjEncode (bbufNew 4096 20 (List.replicate 20 0)) sampleObject =
      .ok { bbufNew 4096 20 (ascii "d1:ai-12e1:bl2:" ++ [0, 255] ++ ascii "ee" ++ [0]) with
        ptr := 19 } := by
  have writable : sampleObject.Writable := by
    simp [sampleObject, Bobj.Writable, BencDict.Writable, BencList.Writable]
  rw [(bobjEncode_exact writable _).2.1 (by decide)]
  decide

/-- An object that is written into a buffer of the size that `bobj_repsize` gives is read back
by `bdec_mem`, when no string and no container in it is empty. -/
theorem bdecMem_bobjEncode {obj : Bobj} (writable : obj.Writable) (decodable : obj.Decodable)
    (nonempty : obj.NoEmptyString) {addr size : Nat} {mem : Bytes}
    (repsize : bobjRepsize obj = .ok size) (length : mem.length = size)
    (small : (bobjText obj).length < sizeMod) (placed : addr + size < 2 ^ 63) :
    ∃ b, bobjEncode (bbufNew addr size mem) obj = .ok b ∧ b.ptr = size ∧
      bdecMem (fuelFor size) { b with ptr := 0 } = .ok (some obj, b) := by
  rw [bobjRepsize_eq obj writable, Nat.mod_eq_of_lt small] at repsize
  cases repsize
  let written : Bbuf := bbufNew addr (bobjText obj).length (bobjText obj)
  have encoded : bobjEncode (bbufNew addr (bobjText obj).length mem) obj =
      .ok { written with ptr := (bobjText obj).length } := by
    rw [bobjEncode_eq obj writable, Bbuf.write, Dnsp2p.memcpy]
    simp [bbufNew, length, written]
  have ahead : Ahead written (bobjText obj) := ⟨placed, rfl, List.prefix_refl _⟩
  have decoded := bdecMem_text obj decodable nonempty ahead
    (show 2 * (bobjText obj).length < fuelFor (bobjText obj).length by unfold fuelFor; omega)
  refine ⟨_, encoded, rfl, ?_⟩
  change bdecMem (fuelFor (bobjText obj).length) written = _
  rw [decoded]
  simp [written, Bbuf.advance, bbufNew]

theorem bdecMem_bobjEncode_sampleObject :
    ∃ b, bobjEncode (bbufNew 4096 19 (List.replicate 19 0)) sampleObject = .ok b ∧ b.ptr = 19 ∧
      bdecMem (fuelFor 19) { b with ptr := 0 } = .ok (some sampleObject, b) := by
  apply bdecMem_bobjEncode
  · simp [sampleObject, Bobj.Writable, BencDict.Writable, BencList.Writable]
  · simp [sampleObject, Bobj.Decodable, BencDict.Decodable, BencList.Decodable]
  · simp [sampleObject, Bobj.NoEmptyString, BencDict.NoEmptyString, BencList.NoEmptyString, ascii]
  · decide
  · decide
  · decide
  · decide

end Dnsp2p.Benc
