import Dnsp2p.Benc.Text
import Dnsp2p.Library.Records

/-!
# The bencode encoder

`bobj_encode` and the functions it recurses through write into a `bbuf_t` without a
check of its length, which the caller takes from `bobj_repsize`.  The digits of a
number are written from the last one to the first, into room that is left for them.
-/

namespace Dnsp2p.Benc

/-! ## Writing into a buffer -/

namespace Bbuf

/-- `*(b->ptr) = char`. -/
def store (b : Bbuf) (char : UInt8) : Except Fault Bbuf :=
  if b.ptr < b.mem.length then .ok { b with mem := b.mem.set b.ptr char }
  else .error .outOfBounds

/-- `*(b->ptr)++ = char`. -/
def put (b : Bbuf) (char : UInt8) : Except Fault Bbuf := do
  .ok ((← b.store char).advance 1)

/-- `--(b->ptr)`. -/
def retreat (b : Bbuf) : Bbuf :=
  { b with ptr := b.ptr - 1 }

/-- `memcpy(b->ptr, text, len)` and `b->ptr += len`. -/
def write (b : Bbuf) (text : Bytes) : Except Fault Bbuf :=
  match Dnsp2p.memcpy b.mem b.ptr text with
  | some mem => .ok { b with mem, ptr := b.ptr + text.length }
  | none => .error .outOfBounds

end Bbuf

/-! ## Numbers -/

/-- The loop of `pseudo_log10_size_t` and `pseudo_log10_benc_int_t`. -/
def pseudoLog : Nat → Int → Nat
  | 0, _ => 0
  | fuel + 1, x => (if 0 < x.tdiv 10 then pseudoLog fuel (x.tdiv 10) else 0) + 1

/-- `pseudo_log10_size_t`. -/
def pseudoLog10SizeT (x : Nat) : Nat :=
  pseudoLog (x + 1) x

/-- `pseudo_log10_benc_int_t`. -/
def pseudoLog10BencIntT (i : Int) : Nat :=
  pseudoLog (i.toNat + 1) i

/-- The `do … while` loop that writes digits in front of the pointer. -/
def storeDigits : Nat → Int → Bbuf → Except Fault Bbuf
  | 0, _, _ => .error .nonterminating
  | fuel + 1, x, b => do
      let b ← b.retreat.store (48 + UInt8.ofInt (x.tmod 10))
      if 0 < x.tdiv 10 then storeDigits fuel (x.tdiv 10) b else .ok b

/-- `benc_int_repsize`. -/
def bencIntRepsize (i : Int) : Nat :=
  if i < 0 then (3 + pseudoLog10BencIntT (wrapInt (-i))) % sizeMod
  else (2 + pseudoLog10BencIntT i) % sizeMod

/-- `benc_int_encode` behind the sign. -/
def bencIntBody (b : Bbuf) (i : Int) : Except Fault Bbuf := do
  let b := b.advance (pseudoLog10BencIntT i)
  let resume := b.ptr
  let b ← storeDigits (i.toNat + 1) i b
  { b with ptr := resume }.put (chr 'e')

/-- `benc_int_encode`. -/
def bencIntEncode (b : Bbuf) (i : Int) : Except Fault Bbuf := do
  let b ← b.put (chr 'i')
  if i < 0 then do
    let b ← b.put (chr '-')
    bencIntBody b (wrapInt (-i))
  else bencIntBody b i

/-- `benc_bstr_repsize`. -/
def bencBstrRepsize (s : Bytes) : Nat :=
  (1 + pseudoLog10SizeT s.length + s.length) % sizeMod

/-- `benc_bstr_encode`. -/
def bencBstrEncode (b : Bbuf) (s : Bytes) : Except Fault Bbuf := do
  let b := b.advance (pseudoLog10SizeT s.length)
  let resume := b.ptr
  let b ← storeDigits (s.length + 1) s.length b
  let b ← { b with ptr := resume }.put (chr ':')
  b.write s

/-! ## Objects -/

mutual
/-- `bobj_repsize`. -/
def bobjRepsize : Bobj → Except Fault Nat
  | .int value => .ok (bencIntRepsize value)
  | .bstr bytes => .ok (bencBstrRepsize bytes)
  | .list head => bencListRepsize 2 head
  | .dict head => bencDictRepsize 2 head

/-- The loop of `benc_list_repsize`, which starts with `repsize = 2`. -/
def bencListRepsize (repsize : Nat) : BencList → Except Fault Nat
  | .unassigned => .error .unassigned
  | .null => .ok repsize
  | .entry elem next => do
      let size ← bobjRepsize elem
      bencListRepsize ((repsize + size) % sizeMod) next

/-- The loop of `benc_dict_repsize`, which starts with `repsize = 2`. -/
def bencDictRepsize (repsize : Nat) : BencDict → Except Fault Nat
  | .unassigned => .error .unassigned
  | .null => .ok repsize
  | .entry key val next => do
      let size ← bobjRepsize val
      bencDictRepsize ((repsize + bencBstrRepsize key + size) % sizeMod) next
end

mutual
/-- `bobj_encode`. -/
def bobjEncode (b : Bbuf) : Bobj → Except Fault Bbuf
  | .int value => bencIntEncode b value
  | .bstr bytes => bencBstrEncode b bytes
  | .list head => do
      let b ← b.put (chr 'l')
      let b ← bencListEncode b head
      b.put (chr 'e')
  | .dict head => do
      let b ← b.put (chr 'd')
      let b ← bencDictEncode b head
      b.put (chr 'e')

/-- The loop of `benc_list_encode`. -/
def bencListEncode (b : Bbuf) : BencList → Except Fault Bbuf
  | .unassigned => .error .unassigned
  | .null => .ok b
  | .entry elem next => do
      let b ← bobjEncode b elem
      bencListEncode b next

/-- The loop of `benc_dict_encode`. -/
def bencDictEncode (b : Bbuf) : BencDict → Except Fault Bbuf
  | .unassigned => .error .unassigned
  | .null => .ok b
  | .entry key val next => do
      let b ← bencBstrEncode b key
      let b ← bobjEncode b val
      bencDictEncode b next
end

/-! ## What is written -/

section Write

variable (b : Bbuf)

/-- What is written one behind the other is written at once. -/
theorem Bbuf.write_write (first second : Bytes) :
    (b.write first >>= fun b => b.write second) = b.write (first ++ second) := by
  have joined := memcpy_memcpy b.mem first second b.ptr
  unfold Bbuf.write
  cases copied : Dnsp2p.memcpy b.mem b.ptr first with
  | none =>
      rw [copied, Option.bind_none] at joined
      simp only [error_bind, ← joined]
  | some mem =>
      rw [copied, Option.bind_some] at joined
      simp only [ok_bind, joined]
      cases Dnsp2p.memcpy b.mem b.ptr (first ++ second) with
      | none => rfl
      | some mem' => simp [Nat.add_assoc]

theorem Bbuf.put_eq (char : UInt8) : b.put char = b.write [char] := by
  unfold Bbuf.put Bbuf.store Bbuf.write Dnsp2p.memcpy
  by_cases inside : b.ptr < b.mem.length
  · have fits : b.ptr + [char].length ≤ b.mem.length := inside
    rw [if_pos inside, if_pos fits, List.set_eq_take_append_cons_drop, if_pos inside]
    simp [Bbuf.advance]
  · have outside : ¬ b.ptr + [char].length ≤ b.mem.length := inside
    rw [if_neg inside, if_neg outside]
    rfl

/-! ## Digits -/

theorem digit_eq (number : Nat) :
    48 + UInt8.ofInt ((number : Int).tmod 10) = UInt8.ofNat (48 + number % 10) := by
  have small : number % 10 < 10 := Nat.mod_lt _ (by decide)
  have table : ∀ digit < 10, 48 + UInt8.ofInt (digit : Nat) = UInt8.ofNat (48 + digit) := by decide
  rw [← table _ small]
  rfl

/-- A digit remains to be written. -/
theorem tdiv_pos_iff (number : Nat) : 0 < (number : Int).tdiv 10 ↔ ¬ number < 10 := by
  have quotient : (number : Int).tdiv 10 = ((number / 10 : Nat) : Int) := rfl
  rw [quotient]
  omega

theorem pseudoLog_eq {fuel number : Nat} (enough : number < fuel) :
    pseudoLog fuel number = (digits fuel number).length := by
  induction fuel generalizing number with
  | zero => omega
  | succ fuel ih =>
      have quotient : (number : Int).tdiv 10 = ((number / 10 : Nat) : Int) := rfl
      rw [pseudoLog, digits]
      by_cases last : number < 10
      · rw [if_neg (by rw [tdiv_pos_iff]; omega), if_pos last]
        rfl
      · rw [if_pos ((tdiv_pos_iff number).mpr last), if_neg last, quotient, ih (by omega)]
        simp

theorem pseudoLog10SizeT_eq (x : Nat) : pseudoLog10SizeT x = (decimal x).length :=
  pseudoLog_eq (Nat.lt_succ_self x)

theorem pseudoLog10BencIntT_eq (x : Nat) : pseudoLog10BencIntT x = (decimal x).length :=
  pseudoLog_eq (Nat.lt_succ_self x)

/-- The digits are written from the last one to the first. -/
theorem storeDigits_eq {fuel number : Nat} (enough : number < fuel) {front hole back : Bytes}
    (mem : b.mem = front ++ hole ++ back) (ptr : b.ptr = (front ++ hole).length)
    (room : hole.length = (digits fuel number).length) :
    storeDigits fuel number b =
      .ok { b with mem := front ++ digits fuel number ++ back, ptr := front.length } := by
  induction fuel generalizing number b hole back with
  | zero => omega
  | succ fuel ih =>
      have quotient : (number : Int).tdiv 10 = ((number / 10 : Nat) : Int) := rfl
      have nonempty : hole ≠ [] := by
        rintro rfl
        rw [digits] at room
        split at room <;> simp at room
      rcases List.eq_nil_or_concat hole with rfl | ⟨hole, last, rfl⟩
      · exact absurd rfl nonempty
      rw [List.concat_eq_append] at mem ptr room
      have here : b.retreat.ptr = (front ++ hole).length := by
        simp only [Bbuf.retreat, ptr, List.length_append, List.length_singleton]
        omega
      have stored : b.retreat.store (48 + UInt8.ofInt ((number : Int).tmod 10)) =
          .ok { b with mem := front ++ hole ++ UInt8.ofNat (48 + number % 10) :: back,
                       ptr := (front ++ hole).length } := by
        have same : b.retreat.mem = front ++ hole ++ last :: back := by
          simp [Bbuf.retreat, mem]
        rw [Bbuf.store, here, same, if_pos (by simp), digit_eq, List.set_append_right _ _ le_rfl]
        simp [Bbuf.retreat]
      rw [storeDigits, stored, ok_bind]
      rw [digits] at room ⊢
      by_cases last : number < 10
      · rw [if_pos last] at room ⊢
        rw [if_neg (by rw [tdiv_pos_iff]; omega)]
        have none : hole = [] := by simpa using room
        subst none
        simp [Nat.mod_eq_of_lt last]
      · rw [if_neg last] at room ⊢
        rw [if_pos ((tdiv_pos_iff number).mpr last), quotient]
        let written : Bbuf :=
          { b with mem := front ++ hole ++ UInt8.ofNat (48 + number % 10) :: back,
                   ptr := (front ++ hole).length }
        have rest := ih written (show number / 10 < fuel by omega) rfl rfl (by simpa using room)
        rw [rest]
        simp [written]

/-- A part of a buffer that can be written is a part between two others. -/
theorem Bbuf.write_eq_ok {text : Bytes} (room : b.ptr + text.length ≤ b.mem.length) :
    ∃ front hole back, b.mem = front ++ hole ++ back ∧ b.ptr = front.length ∧
      hole.length = text.length ∧ b.write text =
        .ok { b with mem := front ++ text ++ back, ptr := b.ptr + text.length } := by
  refine ⟨b.mem.take b.ptr, (b.mem.drop b.ptr).take text.length,
    b.mem.drop (b.ptr + text.length), ?_, ?_, ?_, ?_⟩
  · rw [List.append_assoc, ← List.drop_drop, List.take_append_drop, List.take_append_drop]
  · rw [List.length_take]
    omega
  · rw [List.length_take, List.length_drop]
    omega
  · rw [Bbuf.write, Dnsp2p.memcpy, if_pos room]

theorem Bbuf.write_eq_error {text : Bytes} (full : b.mem.length < b.ptr + text.length) :
    b.write text = .error .outOfBounds := by
  rw [Bbuf.write, Dnsp2p.memcpy, if_neg (Nat.not_le.mpr full)]

/-- The digits of a number and the character behind them. -/
theorem number_eq (number : Nat) (char : UInt8) :
    (storeDigits (number + 1) number (b.advance (decimal number).length) >>= fun b' =>
        ({ b' with ptr := b.ptr + (decimal number).length } : Bbuf).put char) =
      b.write (decimal number ++ [char]) := by
  by_cases room : b.ptr + (decimal number).length ≤ b.mem.length
  · rcases b.write_eq_ok room with ⟨front, hole, back, mem, ptr, length, written⟩
    have stored := storeDigits_eq (b.advance (decimal number).length) (Nat.lt_succ_self number)
      mem (by rw [List.length_append, length, ← ptr]; rfl) length
    rw [stored, ok_bind, ← Bbuf.write_write, written, ok_bind, ← Bbuf.put_eq]
    rfl
  · have nonempty := List.length_pos_iff.mpr (decimal_ne_nil number)
    have outside : ¬ (b.advance (decimal number).length).retreat.ptr <
        (b.advance (decimal number).length).retreat.mem.length := by
      simp only [Bbuf.advance, Bbuf.retreat]
      omega
    rw [storeDigits, Bbuf.store, if_neg outside, error_bind, error_bind,
      Bbuf.write_eq_error _ (by rw [List.length_append]; omega)]

/-- `benc_bstr_encode` writes the text of the string. -/
theorem bencBstrEncode_eq (s : Bytes) : bencBstrEncode b s = b.write (bstrText s) := by
  have text : bstrText s = decimal s.length ++ [chr ':'] ++ s := by simp [bstrText]
  rw [text, ← Bbuf.write_write, ← number_eq, bencBstrEncode, pseudoLog10SizeT_eq]
  simp only [Bbuf.advance, bind_assoc]

/-- The opposite of a negative number that is not the least one. -/
theorem wrapInt_neg {number : Nat} (least : -2 ^ 63 < Int.negSucc number) :
    wrapInt (-Int.negSucc number) = ((number + 1 : Nat) : Int) := by
  have modulus : ((sizeMod : Nat) : Int) = 2 ^ 64 := rfl
  rw [Int.neg_negSucc, wrapInt, Int.bmod_eq_of_le_mul_two]
  · omega
  · omega

/-- `benc_int_encode` writes the text of the number, unless it is the least one. -/
theorem bencIntEncode_eq {i : Int} (least : -2 ^ 63 < i) (most : i < 2 ^ 63) :
    bencIntEncode b i = b.write (bobjText (.int i)) := by
  have body (b : Bbuf) (number : Nat) :
      bencIntBody b number = b.write (decimal number ++ [chr 'e']) := by
    rw [← number_eq, bencIntBody, pseudoLog10BencIntT_eq]
    rfl
  rw [bencIntEncode, Bbuf.put_eq, bobjText]
  cases i with
  | ofNat number =>
      have positive : ¬ (Int.ofNat number < 0) := Int.not_lt.mpr (Int.natCast_nonneg number)
      simp only [if_neg positive]
      exact (congrArg _ (funext fun b => body b number)).trans (Bbuf.write_write b _ _)
  | negSucc number =>
      have negative : Int.negSucc number < 0 := Int.negSucc_lt_zero number
      simp only [if_pos negative, Bbuf.put_eq, wrapInt_neg least, body]
      have joined (b : Bbuf) : (b.write [chr '-'] >>= fun b =>
          b.write (decimal (number + 1) ++ [chr 'e'])) =
            b.write (decimalInt (Int.negSucc number) ++ [chr 'e']) :=
        Bbuf.write_write b _ _
      simp only [joined]
      exact Bbuf.write_write b _ _

end Write

/-! ## Objects that are written -/

mutual
/-- Every head is assigned, and every integer has an opposite in its type. -/
def Bobj.Writable : Bobj → Prop
  | .int value => -2 ^ 63 < value ∧ value < 2 ^ 63
  | .bstr _ => True
  | .list head => head.Writable
  | .dict head => head.Writable

/-- Every element is written. -/
def BencList.Writable : BencList → Prop
  | .unassigned => False
  | .null => True
  | .entry elem next => elem.Writable ∧ next.Writable

/-- Every value is written. -/
def BencDict.Writable : BencDict → Prop
  | .unassigned => False
  | .null => True
  | .entry _ val next => val.Writable ∧ next.Writable
end

mutual
/-- `bobj_encode` writes the text of an object. -/
theorem bobjEncode_eq (obj : Bobj) (writable : obj.Writable) (b : Bbuf) :
    bobjEncode b obj = b.write (bobjText obj) := by
  cases obj with
  | int value =>
      rw [bobjEncode]
      exact bencIntEncode_eq b writable.1 writable.2
  | bstr bytes =>
      rw [bobjEncode]
      exact bencBstrEncode_eq b bytes
  | list head =>
      rw [bobjEncode, bobjText, Bbuf.put_eq]
      simp only [Bbuf.put_eq, ← bind_assoc, bencListEncode_eq head writable, Bbuf.write_write]
      simp
  | dict head =>
      rw [bobjEncode, bobjText, Bbuf.put_eq]
      simp only [Bbuf.put_eq, ← bind_assoc, bencDictEncode_eq head writable, Bbuf.write_write]
      simp

/-- The loop of `benc_list_encode` behind what was written before. -/
theorem bencListEncode_eq (head : BencList) (writable : head.Writable) (b : Bbuf)
    (before : Bytes) : (b.write before >>= fun b => bencListEncode b head) =
      b.write (before ++ listText head) := by
  cases head with
  | unassigned => exact writable.elim
  | null =>
      rw [listText, List.append_nil]
      exact bind_pure (b.write before)
  | entry elem next =>
      simp only [bencListEncode, listText, bobjEncode_eq elem writable.1]
      rw [← bind_assoc, Bbuf.write_write, bencListEncode_eq next writable.2, List.append_assoc]

/-- The loop of `benc_dict_encode` behind what was written before. -/
theorem bencDictEncode_eq (head : BencDict) (writable : head.Writable) (b : Bbuf)
    (before : Bytes) : (b.write before >>= fun b => bencDictEncode b head) =
      b.write (before ++ dictText head) := by
  cases head with
  | unassigned => exact writable.elim
  | null =>
      rw [dictText, List.append_nil]
      exact bind_pure (b.write before)
  | entry key val next =>
      simp only [bencDictEncode, dictText, bencBstrEncode_eq, bobjEncode_eq val writable.1]
      rw [← bind_assoc, Bbuf.write_write, ← bind_assoc, Bbuf.write_write,
        bencDictEncode_eq next writable.2, List.append_assoc, List.append_assoc]
end

/-! ## The size of an object -/

theorem bencBstrRepsize_eq (s : Bytes) : bencBstrRepsize s = (bstrText s).length % sizeMod := by
  rw [bencBstrRepsize, pseudoLog10SizeT_eq, bstrText, List.length_append, List.length_cons]
  congr 1
  omega

theorem bencIntRepsize_eq {i : Int} (least : -2 ^ 63 < i) (most : i < 2 ^ 63) :
    bencIntRepsize i = (bobjText (.int i)).length % sizeMod := by
  rw [bencIntRepsize, bobjText]
  cases i with
  | ofNat number =>
      have positive : ¬ (Int.ofNat number < 0) := Int.not_lt.mpr (Int.natCast_nonneg number)
      rw [if_neg positive]
      change (2 + pseudoLog10BencIntT number) % sizeMod = _
      rw [pseudoLog10BencIntT_eq, decimalInt]
      simp only [List.length_cons, List.length_append, List.length_nil]
      congr 1
      omega
  | negSucc number =>
      rw [if_pos (Int.negSucc_lt_zero number), wrapInt_neg least, pseudoLog10BencIntT_eq,
        decimalInt]
      simp only [List.length_cons, List.length_append, List.length_nil]
      congr 1
      omega

mutual
/-- `bobj_repsize` is the length of the text, as far as it fits a `size_t`. -/
theorem bobjRepsize_eq (obj : Bobj) (writable : obj.Writable) :
    bobjRepsize obj = .ok ((bobjText obj).length % sizeMod) := by
  cases obj with
  | int value => rw [bobjRepsize, bencIntRepsize_eq writable.1 writable.2]
  | bstr bytes => rw [bobjRepsize, bencBstrRepsize_eq, bobjText]
  | list head =>
      rw [bobjRepsize, bencListRepsize_eq head writable (by decide), bobjText, List.length_cons,
        List.length_append, List.length_singleton]
      congr 2
      omega
  | dict head =>
      rw [bobjRepsize, bencDictRepsize_eq head writable (by decide), bobjText, List.length_cons,
        List.length_append, List.length_singleton]
      congr 2
      omega

theorem bencListRepsize_eq (head : BencList) (writable : head.Writable) {repsize : Nat}
    (small : repsize < sizeMod) :
    bencListRepsize repsize head = .ok ((repsize + (listText head).length) % sizeMod) := by
  cases head with
  | unassigned => exact writable.elim
  | null => rw [bencListRepsize, listText, List.length_nil, Nat.add_zero, Nat.mod_eq_of_lt small]
  | entry elem next =>
      have below : (repsize + (bobjText elem).length % sizeMod) % sizeMod < sizeMod :=
        Nat.mod_lt _ (by decide)
      rw [bencListRepsize, bobjRepsize_eq elem writable.1, ok_bind,
        bencListRepsize_eq next writable.2 below, listText, List.length_append, Nat.add_mod_mod,
        Nat.mod_add_mod, Nat.add_assoc]

theorem bencDictRepsize_eq (head : BencDict) (writable : head.Writable) {repsize : Nat}
    (small : repsize < sizeMod) :
    bencDictRepsize repsize head = .ok ((repsize + (dictText head).length) % sizeMod) := by
  cases head with
  | unassigned => exact writable.elim
  | null => rw [bencDictRepsize, dictText, List.length_nil, Nat.add_zero, Nat.mod_eq_of_lt small]
  | entry key val next =>
      have below : (repsize + bencBstrRepsize key + (bobjText val).length % sizeMod) % sizeMod <
          sizeMod := Nat.mod_lt _ (by decide)
      rw [bencDictRepsize, bobjRepsize_eq val writable.1, ok_bind,
        bencDictRepsize_eq next writable.2 below, bencBstrRepsize_eq, dictText, List.length_append,
        List.length_append]
      congr 1
      simp only [sizeMod]
      omega
end

end Dnsp2p.Benc
