import Dnsp2p.Benc.Safety

/-!
# Written objects

The text of an object, the lists of pairs and elements it is written from, and
what the decoder makes of such a text.  Wherever a text stands in a datagram,
the datagram `Denotes` its object there.  The decoder then reads the object
back or faults: it never refuses and never cuts a length.
-/

namespace Dnsp2p.Benc

/-! ## The text of an object -/

/-- The digits that `%d` prints. -/
def decimalInt : Int → Bytes
  | .ofNat number => decimal number
  | .negSucc number => chr '-' :: decimal (number + 1)

/-- The text of a byte string. -/
def bstrText (bytes : Bytes) : Bytes :=
  decimal bytes.length ++ chr ':' :: bytes

mutual
/-- The text of an object. -/
def bobjText : Bobj → Bytes
  | .int value => chr 'i' :: (decimalInt value ++ [chr 'e'])
  | .bstr bytes => bstrText bytes
  | .list head => chr 'l' :: (listText head ++ [chr 'e'])
  | .dict head => chr 'd' :: (dictText head ++ [chr 'e'])

/-- The texts of the elements, without the end of the list. -/
def listText : BencList → Bytes
  | .unassigned => []
  | .null => []
  | .entry elem next => bobjText elem ++ listText next

/-- The texts of the pairs, without the end of the dictionary. -/
def dictText : BencDict → Bytes
  | .unassigned => []
  | .null => []
  | .entry key val next => bstrText key ++ (bobjText val ++ dictText next)
end

/-- The linked list of these elements. -/
def BencList.ofList : List Bobj → BencList
  | [] => .null
  | elem :: rest => .entry elem (BencList.ofList rest)

/-- The linked list of these pairs. -/
def BencDict.ofList : List (Bytes × Bobj) → BencDict
  | [] => .null
  | pair :: rest => .entry pair.1 pair.2 (BencDict.ofList rest)

/-- The text of a list of pairs. -/
def pairsText (pairs : List (Bytes × Bobj)) : Bytes :=
  pairs.flatMap fun pair => bstrText pair.1 ++ bobjText pair.2

@[simp]
theorem listText_assigned (head : BencList) : listText head.assigned = listText head := by
  cases head <;> rfl

@[simp]
theorem dictText_assigned (head : BencDict) : dictText head.assigned = dictText head := by
  cases head <;> rfl

@[simp]
theorem listText_ofList (elems : List Bobj) :
    listText (BencList.ofList elems) = elems.flatMap bobjText := by
  induction elems with
  | nil => rfl
  | cons elem rest ih => simp [BencList.ofList, listText, ih]

@[simp]
theorem dictText_ofList (pairs : List (Bytes × Bobj)) :
    dictText (BencDict.ofList pairs) = pairsText pairs := by
  induction pairs with
  | nil => rfl
  | cons pair rest ih => simp [BencDict.ofList, dictText, pairsText, ih]

@[simp]
theorem pairsText_append (left right : List (Bytes × Bobj)) :
    pairsText (left ++ right) = pairsText left ++ pairsText right := by
  simp [pairsText]

/-- Looking a key up in a dictionary of short keys. -/
theorem bencDictLookup_ofList {key : Bytes} {pairs : List (Bytes × Bobj)}
    (short : key.length < 2 ^ 31) (shortKeys : ∀ pair ∈ pairs, pair.1.length < 2 ^ 31) :
    bencDictLookup key (BencDict.ofList pairs) = .ok (pairs.lookup key) := by
  induction pairs with
  | nil => rfl
  | cons pair rest ih =>
      rcases pair with ⟨name, val⟩
      have compared := bencBstrCompare_eq_zero_iff short (shortKeys (name, val) (by simp))
      have later := ih fun pair member => shortKeys pair (List.mem_cons_of_mem _ member)
      by_cases same : key = name
      · rw [BencDict.ofList, bencDictLookup, if_pos (compared.mpr same)]
        simp [same]
      · have differ : (key == name) = false := by simpa using same
        simp [BencDict.ofList, bencDictLookup, compared, same, later, List.lookup_cons, differ]

/-! ## Objects that can be read back -/

mutual
/-- Integers fit their type, and a list or dictionary without entries has no
head. -/
def Bobj.Decodable : Bobj → Prop
  | .int value => -2 ^ 63 ≤ value ∧ value < 2 ^ 63
  | .bstr _ => True
  | .list .unassigned => True
  | .list .null => False
  | .list (.entry elem next) => elem.Decodable ∧ next.Decodable
  | .dict .unassigned => True
  | .dict .null => False
  | .dict (.entry _ val next) => val.Decodable ∧ next.Decodable

/-- Every element can be read back. -/
def BencList.Decodable : BencList → Prop
  | .unassigned => False
  | .null => True
  | .entry elem next => elem.Decodable ∧ next.Decodable

/-- Every value can be read back. -/
def BencDict.Decodable : BencDict → Prop
  | .unassigned => False
  | .null => True
  | .entry _ val next => val.Decodable ∧ next.Decodable
end

mutual
/-- No byte string inside the object, key or value, is empty. -/
def Bobj.NoEmptyString : Bobj → Prop
  | .int _ => True
  | .bstr bytes => bytes ≠ []
  | .list head => head.NoEmptyString
  | .dict head => head.NoEmptyString

/-- No byte string inside an element is empty. -/
def BencList.NoEmptyString : BencList → Prop
  | .unassigned => True
  | .null => True
  | .entry elem next => elem.NoEmptyString ∧ next.NoEmptyString

/-- No key and no byte string inside a value is empty. -/
def BencDict.NoEmptyString : BencDict → Prop
  | .unassigned => True
  | .null => True
  | .entry key val next => key ≠ [] ∧ val.NoEmptyString ∧ next.NoEmptyString
end

theorem BencList.decodable_ofList {elems : List Bobj} :
    (BencList.ofList elems).Decodable ↔ ∀ elem ∈ elems, elem.Decodable := by
  induction elems with
  | nil => simp [BencList.ofList, BencList.Decodable]
  | cons elem rest ih => simp [BencList.ofList, BencList.Decodable, ih]

theorem BencDict.decodable_ofList {pairs : List (Bytes × Bobj)} :
    (BencDict.ofList pairs).Decodable ↔ ∀ pair ∈ pairs, pair.2.Decodable := by
  induction pairs with
  | nil => simp [BencDict.ofList, BencDict.Decodable]
  | cons pair rest ih => simp [BencDict.ofList, BencDict.Decodable, ih]

theorem BencList.noEmptyString_ofList {elems : List Bobj} :
    (BencList.ofList elems).NoEmptyString ↔ ∀ elem ∈ elems, elem.NoEmptyString := by
  induction elems with
  | nil => simp [BencList.ofList, BencList.NoEmptyString]
  | cons elem rest ih => simp [BencList.ofList, BencList.NoEmptyString, ih]

theorem BencDict.noEmptyString_ofList {pairs : List (Bytes × Bobj)} :
    (BencDict.ofList pairs).NoEmptyString ↔
      ∀ pair ∈ pairs, pair.1 ≠ [] ∧ pair.2.NoEmptyString := by
  induction pairs with
  | nil => simp [BencDict.ofList, BencDict.NoEmptyString]
  | cons pair rest ih => simp [BencDict.ofList, BencDict.NoEmptyString, ih, and_assoc]

theorem BencList.noEmptyString_assigned {head : BencList} :
    head.assigned.NoEmptyString ↔ head.NoEmptyString := by
  cases head <;> simp [BencList.assigned, BencList.NoEmptyString]

theorem BencDict.noEmptyString_assigned {head : BencDict} :
    head.assigned.NoEmptyString ↔ head.NoEmptyString := by
  cases head <;> simp [BencDict.assigned, BencDict.NoEmptyString]

theorem Bobj.decodable_list {entries : BencList} :
    (Bobj.list entries.assigned).Decodable ↔ entries.Decodable ∨ entries = .unassigned := by
  cases entries <;> simp [BencList.assigned, Bobj.Decodable, BencList.Decodable]

theorem Bobj.decodable_dict {entries : BencDict} :
    (Bobj.dict entries.assigned).Decodable ↔ entries.Decodable ∨ entries = .unassigned := by
  cases entries <;> simp [BencDict.assigned, Bobj.Decodable, BencDict.Decodable]

/-! ## A text inside a datagram -/

/-- The text stands at an offset of the datagram. -/
def TextAt (buf : Bytes) (p : Nat) (text : Bytes) : Prop :=
  ∃ before behind, buf = before ++ text ++ behind ∧ before.length = p

section TextAt

variable {buf : Bytes} {p : Nat}

theorem TextAt.left {first rest : Bytes} (standing : TextAt buf p (first ++ rest)) :
    TextAt buf p first := by
  rcases standing with ⟨before, behind, whole, offset⟩
  exact ⟨before, rest ++ behind, by simp [whole], offset⟩

theorem TextAt.right {first rest : Bytes} (standing : TextAt buf p (first ++ rest)) :
    TextAt buf (p + first.length) rest := by
  rcases standing with ⟨before, behind, whole, offset⟩
  exact ⟨before ++ first, behind, by simp [whole], by simp [offset]⟩

theorem TextAt.tail {char : UInt8} {rest : Bytes} (standing : TextAt buf p (char :: rest)) :
    TextAt buf (p + 1) rest := by
  have split : TextAt buf p ([char] ++ rest) := standing
  exact split.right

theorem TextAt.charAt {char : UInt8} {rest : Bytes} (standing : TextAt buf p (char :: rest)) :
    charAt buf p = some char := by
  rcases standing with ⟨before, behind, rfl, rfl⟩
  simp [Benc.charAt]

theorem TextAt.fits {text : Bytes} (standing : TextAt buf p text) :
    p + text.length ≤ buf.length := by
  rcases standing with ⟨before, behind, rfl, rfl⟩
  simp only [List.length_append]
  omega

theorem TextAt.take_drop {text : Bytes} (standing : TextAt buf p text) :
    (buf.drop p).take text.length = text := by
  rcases standing with ⟨before, behind, rfl, rfl⟩
  simp

/-- Digits in front of another character are the digits that a reader sees. -/
theorem TextAt.digitsAt {text rest : Bytes} {char : UInt8}
    (standing : TextAt buf p (text ++ char :: rest)) (allDigits : ∀ digit ∈ text, isDigit digit)
    (other : isDigit char = false) : digitsAt buf p = text := by
  induction text generalizing p with
  | nil => exact digitsAt_of_not_digit standing.charAt other
  | cons digit text ih =>
      rw [digitsAt_of_digit standing.charAt (allDigits digit (by simp)),
        ih standing.tail fun digit member => allDigits digit (List.mem_cons_of_mem _ member)]

/-- The text of a byte string denotes it. -/
theorem denotesString_of_textAt {bytes : Bytes} (standing : TextAt buf p (bstrText bytes)) :
    DenotesString buf p bytes (p + (bstrText bytes).length) := by
  have digitsEq : digitsAt buf p = decimal bytes.length :=
    standing.digitsAt (fun _ member => isDigit_of_mem_decimal member) (by decide)
  have behind := standing.right
  have lengthEq : declaredLength buf p = bytes.length := by
    rw [declaredLength, digitsEq, readDecimal_decimal]
  have behindEq : behindDigits buf p = p + (decimal bytes.length).length := by
    rw [behindDigits, digitsEq]
  constructor
  · rw [behindEq]
    exact behind.charAt
  · simp only [stringEnd, behindEq, lengthEq, bstrText, List.length_append, List.length_cons]
    omega
  · exact standing.fits
  · rw [behindEq, lengthEq]
    exact behind.tail.take_drop.symm

private theorem wrapInt_of_bounds {value : Int} (low : -2 ^ 63 ≤ value) (high : value < 2 ^ 63) :
    wrapInt value = value := by
  unfold wrapInt
  exact Int.bmod_eq_of_le_mul_two (by simp only [sizeMod]; omega) (by simp only [sizeMod]; omega)

/-- The text of an integer denotes it. -/
theorem denotesInt_of_textAt {value : Int} (low : -2 ^ 63 ≤ value) (high : value < 2 ^ 63)
    (standing : TextAt buf (p + 1) (decimalInt value ++ [chr 'e'])) :
    DenotesInt buf p value (p + 1 + (decimalInt value ++ [chr 'e']).length) := by
  cases value with
  | ofNat number =>
      have digitsEq : digitsAt buf (p + 1) = decimal number :=
        standing.digitsAt (fun _ member => isDigit_of_mem_decimal member) (by decide)
      have behindEq : behindDigits buf (p + 1) = p + 1 + (decimal number).length := by
        rw [behindDigits, digitsEq]
      have inner : digitsAt buf (p + 1) ≠ [] := by
        rw [digitsEq]
        exact decimal_ne_nil number
      have read := DenotesInt.positive inner (by rw [behindEq]; exact standing.right.charAt)
      have exact : wrapInt (number : Int) = Int.ofNat number := wrapInt_of_bounds low high
      rw [declaredLength, digitsEq, readDecimal_decimal, behindEq, exact] at read
      simpa [decimalInt, Nat.add_assoc] using read
  | negSucc number =>
      have standing' : TextAt buf (p + 1) (chr '-' :: (decimal (number + 1) ++ [chr 'e'])) :=
        standing
      have digitsEq : digitsAt buf (p + 2) = decimal (number + 1) :=
        standing'.tail.digitsAt (fun _ member => isDigit_of_mem_decimal member) (by decide)
      have behindEq : behindDigits buf (p + 2) = p + 2 + (decimal (number + 1)).length := by
        rw [behindDigits, digitsEq]
      have read := DenotesInt.negative standing'.charAt
        (by rw [behindEq]; exact standing'.tail.right.charAt)
      have negated : (-((number + 1 : Nat) : Int)) = Int.negSucc number := by omega
      rw [declaredLength, digitsEq, readDecimal_decimal, behindEq, negated,
        wrapInt_of_bounds low high] at read
      have lengthEq : p + 1 + (decimalInt (Int.negSucc number) ++ [chr 'e']).length =
          p + 2 + (decimal (number + 1)).length + 1 := by
        simp only [decimalInt, List.length_append, List.length_cons, List.length_nil]
        omega
      rw [lengthEq]
      exact read

end TextAt

/-- A text begins with a digit or with one of the three letters. -/
theorem bstrText_head (bytes : Bytes) :
    ∃ char rest, bstrText bytes = char :: rest ∧ isDigit char = true := by
  have nonempty := decimal_ne_nil bytes.length
  have allDigits : ∀ char ∈ decimal bytes.length, isDigit char = true :=
    fun _ member => isDigit_of_mem_decimal member
  unfold bstrText
  generalize decimal bytes.length = text at nonempty allDigits
  cases text with
  | nil => exact absurd rfl nonempty
  | cons char rest => exact ⟨char, _, rfl, allDigits char (by simp)⟩

theorem bobjText_head (obj : Bobj) :
    ∃ char rest, bobjText obj = char :: rest ∧ char ≠ chr 'e' := by
  cases obj with
  | int value => exact ⟨_, _, rfl, by decide⟩
  | list head => exact ⟨_, _, rfl, by decide⟩
  | dict head => exact ⟨_, _, rfl, by decide⟩
  | bstr bytes =>
      rcases bstrText_head bytes with ⟨char, rest, textEq, digit⟩
      refine ⟨char, rest, textEq, ?_⟩
      rintro rfl
      exact absurd digit (by decide)

section Denotes

variable {buf : Bytes}

theorem TextAt.not_end {p : Nat} {text rest : Bytes} (standing : TextAt buf p (text ++ rest))
    (head : ∃ char rest, text = char :: rest ∧ char ≠ chr 'e') :
    Benc.charAt buf p ≠ some (chr 'e') := by
  rcases head with ⟨char, _, rfl, differ⟩
  rw [standing.left.charAt]
  exact fun equal => differ (Option.some.inj equal)

theorem bstrText_not_end (bytes : Bytes) :
    ∃ char rest, bstrText bytes = char :: rest ∧ char ≠ chr 'e' := by
  simpa [bobjText] using bobjText_head (.bstr bytes)

mutual
/-- The text of an object denotes the object. -/
theorem denotes_of_textAt (obj : Bobj) (p : Nat) (decodable : obj.Decodable)
    (standing : TextAt buf p (bobjText obj)) :
    Denotes buf p obj (p + (bobjText obj).length) := by
  match obj, decodable, standing with
  | .int value, decodable, standing =>
      simp only [Bobj.Decodable] at decodable
      have body := denotesInt_of_textAt decodable.1 decodable.2 standing.tail
      have read := Denotes.int standing.charAt body
      simpa [bobjText, Nat.add_assoc, Nat.add_comm, Nat.add_left_comm] using read
  | .bstr bytes, _, standing =>
      rcases bstrText_head bytes with ⟨char, rest, textEq, digit⟩
      have head : TextAt buf p (char :: rest) := textEq ▸ standing
      exact .bstr head.charAt digit (denotesString_of_textAt standing)
  | .list .unassigned, _, standing =>
      exact Denotes.list standing.charAt (.nil standing.tail.charAt)
  | .list .null, decodable, _ => exact absurd decodable (by simp [Bobj.Decodable])
  | .list (.entry elem next), decodable, standing =>
      have body := denotesList_of_textAt (.entry elem next) (p + 1)
        (by simpa [Bobj.Decodable, BencList.Decodable] using decodable) standing.tail
      have read := Denotes.list standing.charAt body
      simpa [bobjText, BencList.assigned, Nat.add_assoc, Nat.add_comm, Nat.add_left_comm] using read
  | .dict .unassigned, _, standing =>
      exact Denotes.dict standing.charAt (.nil standing.tail.charAt)
  | .dict .null, decodable, _ => exact absurd decodable (by simp [Bobj.Decodable])
  | .dict (.entry key val next), decodable, standing =>
      have body := denotesDict_of_textAt (.entry key val next) (p + 1)
        (by simpa [Bobj.Decodable, BencDict.Decodable] using decodable) standing.tail
      have read := Denotes.dict standing.charAt body
      simpa [bobjText, BencDict.assigned, Nat.add_assoc, Nat.add_comm, Nat.add_left_comm] using read

theorem denotesList_of_textAt (head : BencList) (p : Nat) (decodable : head.Decodable)
    (standing : TextAt buf p (listText head ++ [chr 'e'])) :
    DenotesList buf p head (p + (listText head ++ [chr 'e']).length) := by
  match head, decodable, standing with
  | .unassigned, decodable, _ => exact absurd decodable (by simp [BencList.Decodable])
  | .null, _, standing => exact .nil standing.charAt
  | .entry elem next, decodable, standing =>
      simp only [BencList.Decodable] at decodable
      simp only [listText, List.append_assoc] at standing
      have first := denotes_of_textAt elem p decodable.1 standing.left
      have rest := denotesList_of_textAt next _ decodable.2 standing.right
      have read := DenotesList.cons (standing.not_end (bobjText_head elem)) first rest
      simpa [listText, Nat.add_assoc, Nat.add_comm, Nat.add_left_comm] using read

theorem denotesDict_of_textAt (head : BencDict) (p : Nat) (decodable : head.Decodable)
    (standing : TextAt buf p (dictText head ++ [chr 'e'])) :
    DenotesDict buf p head (p + (dictText head ++ [chr 'e']).length) := by
  match head, decodable, standing with
  | .unassigned, decodable, _ => exact absurd decodable (by simp [BencDict.Decodable])
  | .null, _, standing => exact .nil standing.charAt
  | .entry key val next, decodable, standing =>
      simp only [BencDict.Decodable] at decodable
      simp only [dictText, List.append_assoc] at standing
      have name := denotesString_of_textAt standing.left
      have value := denotes_of_textAt val _ decodable.1 standing.right.left
      have rest := denotesDict_of_textAt next _ decodable.2 standing.right.right
      have read := DenotesDict.cons (standing.not_end (bstrText_not_end key)) name value rest
      simpa [dictText, Nat.add_assoc, Nat.add_comm, Nat.add_left_comm] using read
end

end Denotes

/-! ## Reading a denoted object back -/

section ReadBack

variable {addr : Nat} {buf : Bytes}

/-- The decoder delivered the object and stopped behind it, or it faulted. -/
def ReadBack {α : Type} (addr : Nat) (buf : Bytes) (value : α) (q : Nat)
    (result : Except Fault (Option α × Bbuf)) : Prop :=
  result = .ok (some value, cursor addr buf q) ∨ ∃ fault, result = .error fault

private theorem ReadBack.bind {α β : Type} {value : α} {value' : β} {q q' : Nat}
    {first : Except Fault (Option α × Bbuf)}
    {next : Option α × Bbuf → Except Fault (Option β × Bbuf)}
    (read : ReadBack addr buf value q first)
    (rest : ReadBack addr buf value' q' (next (some value, cursor addr buf q))) :
    ReadBack addr buf value' q' (first >>= next) := by
  rcases read with rfl | ⟨fault, rfl⟩
  · exact rest
  · exact .inr ⟨fault, rfl⟩

private theorem readBack_behind {α : Type} {value : α} {p q : Nat} (outside : nulAt buf < p)
    (next : UInt8 → Except Fault (Option α × Bbuf)) :
    ReadBack addr buf value q ((cursor addr buf p).deref >>= next) := by
  rw [cursor_deref_behind outside]
  exact .inr ⟨_, rfl⟩

/-- A string that a datagram denotes is never cut or refused. -/
theorem bencBstrDecode_readBack (fuel : Nat) {p q : Nat} {bytes : Bytes}
    (placed : addr + buf.length < 2 ^ 63) (inside : p ≤ nulAt buf)
    (enough : nulAt buf - p < fuel) (denoted : DenotesString buf p bytes q) :
    ReadBack addr buf bytes q (bencBstrDecode fuel (cursor addr buf p)) := by
  have fits := denoted.fits
  rw [denoted.end_eq] at fits
  have short : declaredLength buf p < sizeMod := by
    simp only [stringEnd, sizeMod] at fits ⊢
    omega
  have addressed : addr + stringEnd buf p < sizeMod := by
    simp only [sizeMod]
    omega
  have loop := (bencBstrLength_cursor addr fuel 0 inside enough (by decide)).1 short
  have declared : readFrom 0 (digitsAt buf p) = declaredLength buf p := rfl
  rw [bencBstrDecode, loop, if_pos denoted.separator, declared, ok_bind]
  change ReadBack addr buf bytes q
    (bencBstrBody (declaredLength buf p) (cursor addr buf (behindDigits buf p)))
  rw [bencBstrBody_cursor _ placed addressed]
  rw [if_neg (show ¬ buf.length < behindDigits buf p + 1 + declaredLength buf p from
    Nat.not_lt.mpr fits)]
  split
  · exact .inr ⟨_, rfl⟩
  split
  · rw [denoted.bytes_eq, denoted.end_eq]
    exact .inl rfl
  · exact .inr ⟨_, rfl⟩

/-- An integer that a datagram denotes is read back. -/
theorem bencIntDecode_readBack (fuel : Nat) {p q : Nat} {value : Int} (inside : p < nulAt buf)
    (enough : nulAt buf - p < fuel) (denoted : DenotesInt buf p value q) :
    ReadBack addr buf value q (bencIntDecode fuel (cursor addr buf p)) := by
  have outcome := bencIntDecode_outcome addr fuel inside enough
  generalize bencIntDecode fuel (cursor addr buf p) = result at outcome
  cases outcome with
  | spoiled met => exact met.elim
  | decoded _ denoted' =>
      rcases denoted.unique denoted' with ⟨rfl, rfl⟩
      exact .inl rfl
  | rejected _ nothing => exact absurd denoted (nothing _ _)

theorem DenotesString.forward {p q : Nat} {bytes : Bytes} (denoted : DenotesString buf p bytes q) :
    p < q := by
  rw [denoted.end_eq]
  simp only [stringEnd, behindDigits]
  omega

theorem DenotesInt.forward {p q : Nat} {value : Int} (denoted : DenotesInt buf p value q) :
    p < q := by
  cases denoted <;> simp only [behindDigits] <;> omega

mutual
theorem Denotes.forward {p q : Nat} {obj : Bobj} : Denotes buf p obj q → p < q
  | .int _ body => body.forward
  | .bstr _ _ body => body.forward
  | .list _ body => Nat.lt_of_succ_lt body.forward
  | .dict _ body => Nat.lt_of_succ_lt body.forward

theorem DenotesList.forward {p q : Nat} {head : BencList} : DenotesList buf p head q → p < q
  | .nil _ => Nat.lt_succ_self p
  | .cons _ first rest => first.forward.trans rest.forward

theorem DenotesDict.forward {p q : Nat} {head : BencDict} : DenotesDict buf p head q → p < q
  | .nil _ => Nat.lt_succ_self p
  | .cons _ name value rest => (name.forward.trans value.forward).trans rest.forward
end

mutual
/-- An object that a datagram denotes is never cut or refused. -/
theorem bdecMem_readBack (fuel : Nat) {p q : Nat} {obj : Bobj}
    (placed : addr + buf.length < 2 ^ 63) (enough : 2 * (nulAt buf + 1 - p) < fuel)
    (denoted : Denotes buf p obj q) :
    ReadBack addr buf obj q (bdecMem fuel (cursor addr buf p)) := by
  cases fuel with
  | zero => omega
  | succ fuel =>
      rw [bdecMem]
      by_cases outside : nulAt buf < p
      · exact readBack_behind outside _
      have inside := Nat.not_lt.mp outside
      cases denoted with
      | int head body =>
          have below := lt_nulAt inside head (by decide)
          rw [cursor_deref inside head, ok_bind, if_pos rfl]
          exact (bencIntDecode_readBack fuel below (by omega) body).bind (.inl rfl)
      | bstr head digit body =>
          rename_i char _
          have notInt : char ≠ chr 'i' := by rintro rfl; exact absurd digit (by decide)
          have notList : char ≠ chr 'l' := by rintro rfl; exact absurd digit (by decide)
          have notDict : char ≠ chr 'd' := by rintro rfl; exact absurd digit (by decide)
          rw [cursor_deref inside head, ok_bind, if_neg notInt, if_neg notList, if_neg notDict,
            if_pos digit]
          exact (bencBstrDecode_readBack fuel placed inside (by omega) body).bind (.inl rfl)
      | list head body =>
          rw [cursor_deref inside head, ok_bind, if_neg (by decide), if_pos rfl,
            cursor_bbufIncPtr]
          exact (bencListDecode_readBack fuel placed (by omega) body).bind (.inl rfl)
      | dict head body =>
          rw [cursor_deref inside head, ok_bind, if_neg (by decide), if_neg (by decide),
            if_pos rfl, cursor_bbufIncPtr]
          exact (bencDictDecode_readBack fuel placed (by omega) body).bind (.inl rfl)
termination_by fuel

theorem bencListDecode_readBack (fuel : Nat) {p q : Nat} {head : BencList}
    (placed : addr + buf.length < 2 ^ 63) (enough : 2 * (nulAt buf + 1 - p) + 1 < fuel)
    (denoted : DenotesList buf p head q) :
    ReadBack addr buf head q (bencListDecode fuel (cursor addr buf p)) := by
  cases fuel with
  | zero => omega
  | succ fuel =>
      rw [bencListDecode]
      by_cases outside : nulAt buf < p
      · exact readBack_behind outside _
      have inside := Nat.not_lt.mp outside
      cases denoted with
      | nil terminator =>
          rw [cursor_deref inside terminator, ok_bind, if_pos rfl]
          exact .inl rfl
      | cons more first rest =>
          rcases exists_charAt inside with ⟨char, head⟩
          have notEnd : char ≠ chr 'e' := by rintro rfl; exact more head
          have forward := first.forward
          rw [cursor_deref inside head, ok_bind, if_neg notEnd]
          exact (bdecMem_readBack fuel placed (by omega) first).bind
            ((bencListDecode_readBack fuel placed (by omega) rest).bind (.inl rfl))
termination_by fuel

theorem bencDictDecode_readBack (fuel : Nat) {p q : Nat} {head : BencDict}
    (placed : addr + buf.length < 2 ^ 63) (enough : 2 * (nulAt buf + 1 - p) + 1 < fuel)
    (denoted : DenotesDict buf p head q) :
    ReadBack addr buf head q (bencDictDecode fuel (cursor addr buf p)) := by
  cases fuel with
  | zero => omega
  | succ fuel =>
      rw [bencDictDecode]
      by_cases outside : nulAt buf < p
      · exact readBack_behind outside _
      have inside := Nat.not_lt.mp outside
      cases denoted with
      | nil terminator =>
          rw [cursor_deref inside terminator, ok_bind, if_pos rfl]
          exact .inl rfl
      | cons more name value rest =>
          rcases exists_charAt inside with ⟨char, head⟩
          have notEnd : char ≠ chr 'e' := by rintro rfl; exact more head
          have forward := name.forward
          have forward' := value.forward
          rw [cursor_deref inside head, ok_bind, if_neg notEnd]
          exact (bencBstrDecode_readBack fuel placed inside (by omega) name).bind
            ((bdecMem_readBack fuel placed (by omega) value).bind
              ((bencDictDecode_readBack fuel placed (by omega) rest).bind (.inl rfl)))
termination_by fuel
end

/-- Pairs that are followed by a NUL instead of the end of their dictionary are
never read as a dictionary. -/
theorem bencDictDecode_cut (fuel : Nat) (head : BencDict) {p : Nat}
    (placed : addr + buf.length < 2 ^ 63) (enough : 2 * (nulAt buf + 1 - p) + 1 < fuel)
    (decodable : head.Decodable) (standing : TextAt buf p (dictText head))
    (stop : charAt buf (p + (dictText head).length) = some 0) (entries : BencDict) (b : Bbuf) :
    bencDictDecode fuel (cursor addr buf p) ≠ .ok (some entries, b) := by
  cases fuel with
  | zero => omega
  | succ fuel =>
      rw [bencDictDecode]
      by_cases outside : nulAt buf < p
      · rw [cursor_deref_behind outside]
        simp
      have inside := Nat.not_lt.mp outside
      rcases exists_charAt inside with ⟨char, first⟩
      rw [cursor_deref inside first, ok_bind]
      cases head with
      | unassigned => exact absurd decodable (by simp [BencDict.Decodable])
      | null =>
          have isNul : char = 0 := Option.some.inj (first.symm.trans stop)
          subst isNul
          have refused : bencBstrDecode fuel (cursor addr buf p) =
              .ok (none, cursor addr buf p) := by
            have loop := (bencBstrLength_cursor addr fuel 0 inside (by omega) (by decide)).1
            rw [digitsAt_of_not_digit first (by decide),
              behindDigits_of_not_digit first (by decide), first] at loop
            rw [bencBstrDecode, loop (by decide)]
            rfl
          rw [if_neg (by decide), refused]
          simp
      | entry key val next =>
          simp only [BencDict.Decodable] at decodable
          simp only [dictText] at standing
          have notEnd : char ≠ chr 'e' := by
            rintro rfl
            exact standing.not_end (bstrText_not_end key) first
          have name := denotesString_of_textAt standing.left
          have value := denotes_of_textAt val _ decodable.1 standing.right.left
          have forward := name.forward
          have forward' := value.forward
          rw [if_neg notEnd]
          rcases bencBstrDecode_readBack fuel placed inside (by omega) name with
            read | ⟨fault, read⟩
          · rcases bdecMem_readBack fuel placed (by omega) value with
              read' | ⟨fault, read'⟩
            · have offset : p + (bstrText key).length + (bobjText val).length +
                  (dictText next).length = p + (dictText (.entry key val next)).length := by
                simp only [dictText, List.length_append]
                omega
              have rest := bencDictDecode_cut fuel next placed (by omega) decodable.2
                standing.right.right (by rw [offset]; exact stop)
              simp only [read, ok_bind, read']
              intro whole
              rcases bind_eq_ok_iff.mp whole with ⟨⟨tail?, b'⟩, decoded, shape⟩
              cases tail? with
              | none => cases shape
              | some tail => exact rest tail b' decoded
            · simp [read, read']
          · simp [read]

/-! ## Texts that are read without a hazard -/

/-- The string is read if it is not empty and ends in front of the first NUL. -/
theorem DenotesString.not_hazardous {p q : Nat} {bytes : Bytes}
    (denoted : DenotesString buf p bytes q) (placed : addr + buf.length < 2 ^ 63)
    (nonempty : bytes ≠ []) (reach : q ≤ nulAt buf + 1) : ¬ HazardousString addr buf p := by
  have fits := denoted.fits
  rw [denoted.end_eq] at fits reach
  rintro (cut | ⟨_, empty | noAddress | ⟨_, outside⟩⟩)
  · simp only [stringEnd, sizeMod] at fits cut
    omega
  · exact nonempty (by rw [denoted.bytes_eq, empty, List.take_zero])
  · simp only [sizeMod] at noAddress
    omega
  · omega

theorem DenotesString.nonempty {p q : Nat} {bytes : Bytes} (denoted : DenotesString buf p bytes q)
    (clean : ¬ HazardousString addr buf p) : bytes ≠ [] := by
  intro empty
  have fits := denoted.fits
  have lengthEq := congrArg List.length denoted.bytes_eq
  rw [denoted.end_eq, stringEnd] at fits
  rw [empty, List.length_take, List.length_drop, List.length_nil] at lengthEq
  exact clean (.inr ⟨denoted.separator, .inl (by omega)⟩)

mutual
/-- An object without empty strings that ends in front of the first NUL is
read without a hazard. -/
theorem Denotes.not_hazard {p q : Nat} {obj : Bobj} (placed : addr + buf.length < 2 ^ 63) :
    Denotes buf p obj q → obj.NoEmptyString → q ≤ nulAt buf + 1 → ¬ Hazard addr buf p
  | .int head body, _, reach => by
      have forward := body.forward
      exact Hazard.not_int (by omega) head
  | .bstr head digit body, nonempty, reach => by
      intro met
      have forward := body.forward
      exact body.not_hazardous placed nonempty reach (met.bstr_body (by omega) head digit)
  | .list head body, nonempty, reach => by
      intro met
      have forward := body.forward
      exact body.not_hazard placed (BencList.noEmptyString_assigned.mp nonempty) reach
        (met.list_body (by omega) head)
  | .dict head body, nonempty, reach => by
      intro met
      have forward := body.forward
      exact body.not_hazard placed (BencDict.noEmptyString_assigned.mp nonempty) reach
        (met.dict_body (by omega) head)

theorem DenotesList.not_hazard {p q : Nat} {head : BencList}
    (placed : addr + buf.length < 2 ^ 63) :
    DenotesList buf p head q → head.NoEmptyString → q ≤ nulAt buf + 1 → ¬ HazardList addr buf p
  | .nil terminator, _, reach => by
      rintro (behind | ⟨more, _⟩ | ⟨more, _⟩)
      · omega
      all_goals exact more terminator
  | .cons more first rest, nonempty, reach => by
      have forward := first.forward
      have forward' := rest.forward
      exact HazardList.not_cons (by omega) (first.not_hazard placed nonempty.1 (by omega)) first
        (rest.not_hazard placed nonempty.2 reach)

theorem DenotesDict.not_hazard {p q : Nat} {head : BencDict}
    (placed : addr + buf.length < 2 ^ 63) :
    DenotesDict buf p head q → head.NoEmptyString → q ≤ nulAt buf + 1 → ¬ HazardDict addr buf p
  | .nil terminator, _, reach => by
      rintro (behind | ⟨more, _⟩ | ⟨more, _⟩ | ⟨more, _⟩)
      · omega
      all_goals exact more terminator
  | .cons more name value rest, nonempty, reach => by
      have forward := name.forward
      have forward' := value.forward
      have forward'' := rest.forward
      exact HazardDict.not_cons (by omega) (name.not_hazardous placed nonempty.1 (by omega)) name
        (value.not_hazard placed nonempty.2.1 (by omega)) value
        (rest.not_hazard placed nonempty.2.2 reach)
end

mutual
/-- An object that is read without a hazard has no empty strings. -/
theorem Denotes.noEmptyString {p q : Nat} {obj : Bobj} :
    Denotes buf p obj q → ¬ Hazard addr buf p → obj.NoEmptyString
  | .int _ _, _ => trivial
  | .bstr head digit body, clean => body.nonempty fun met => clean (.bstr head digit met)
  | .list head body, clean =>
      BencList.noEmptyString_assigned.mpr (body.noEmptyString fun met => clean (.list head met))
  | .dict head body, clean =>
      BencDict.noEmptyString_assigned.mpr (body.noEmptyString fun met => clean (.dict head met))

theorem DenotesList.noEmptyString {p q : Nat} {head : BencList} :
    DenotesList buf p head q → ¬ HazardList addr buf p → head.NoEmptyString
  | .nil _, _ => trivial
  | .cons more first rest, clean =>
      ⟨first.noEmptyString fun met => clean (.elem more met),
        rest.noEmptyString fun met => clean (.next more first met)⟩

theorem DenotesDict.noEmptyString {p q : Nat} {head : BencDict} :
    DenotesDict buf p head q → ¬ HazardDict addr buf p → head.NoEmptyString
  | .nil _, _ => trivial
  | .cons more name value rest, clean =>
      ⟨name.nonempty fun met => clean (.key more met),
        value.noEmptyString fun met => clean (.val more name met),
        rest.noEmptyString fun met => clean (.next more name value met)⟩
end

/-! ## Strings in front of the first NUL -/

mutual
/-- No byte string inside the object holds a NUL. -/
def Bobj.NulFree : Bobj → Prop
  | .int _ => True
  | .bstr bytes => 0 ∉ bytes
  | .list head => head.NulFree
  | .dict head => head.NulFree

/-- No byte string inside an element holds a NUL. -/
def BencList.NulFree : BencList → Prop
  | .unassigned => True
  | .null => True
  | .entry elem next => elem.NulFree ∧ next.NulFree

/-- No byte string inside a value holds a NUL. -/
def BencDict.NulFree : BencDict → Prop
  | .unassigned => True
  | .null => True
  | .entry _ val next => val.NulFree ∧ next.NulFree
end

theorem DenotesString.nulFree {p q : Nat} {bytes : Bytes} (denoted : DenotesString buf p bytes q)
    (inside : q ≤ nulAt buf) : 0 ∉ bytes := by
  have endEq := denoted.end_eq
  have bound := nulAt_le_length buf
  simp only [stringEnd] at endEq
  have slice : ((untilNul buf ++ [0]).drop (behindDigits buf p + 1)).take (declaredLength buf p) =
      (buf.drop (behindDigits buf p + 1)).take (declaredLength buf p) :=
    copy_slice (by omega) (by omega)
  rw [denoted.bytes_eq, ← slice, List.drop_append_of_le_length (by rw [← nulAt]; omega),
    List.take_append_of_le_length (by rw [List.length_drop, ← nulAt]; omega)]
  intro member
  exact not_mem_untilNul buf (List.mem_of_mem_drop (List.mem_of_mem_take member))

@[simp]
theorem BencList.nulFree_assigned {head : BencList} : head.assigned.NulFree ↔ head.NulFree := by
  cases head <;> simp [BencList.assigned, BencList.NulFree]

@[simp]
theorem BencDict.nulFree_assigned {head : BencDict} : head.assigned.NulFree ↔ head.NulFree := by
  cases head <;> simp [BencDict.assigned, BencDict.NulFree]

mutual
/-- Whatever is written in front of the first NUL holds no NUL. -/
theorem Denotes.nulFree {p q : Nat} {obj : Bobj} :
    Denotes buf p obj q → q ≤ nulAt buf → obj.NulFree
  | .int _ _, _ => trivial
  | .bstr _ _ body, inside => body.nulFree inside
  | .list _ body, inside =>
      BencList.nulFree_assigned.mpr (body.nulFree (Nat.le_succ_of_le inside))
  | .dict _ body, inside =>
      BencDict.nulFree_assigned.mpr (body.nulFree (Nat.le_succ_of_le inside))

theorem DenotesList.nulFree {p q : Nat} {head : BencList} :
    DenotesList buf p head q → q ≤ nulAt buf + 1 → head.NulFree
  | .nil _, _ => trivial
  | .cons _ first rest, reach =>
      ⟨first.nulFree (Nat.le_of_lt_succ (Nat.lt_of_lt_of_le rest.forward reach)),
        rest.nulFree reach⟩

theorem DenotesDict.nulFree {p q : Nat} {head : BencDict} :
    DenotesDict buf p head q → q ≤ nulAt buf + 1 → head.NulFree
  | .nil _, _ => trivial
  | .cons _ _ value rest, reach =>
      ⟨value.nulFree (Nat.le_of_lt_succ (Nat.lt_of_lt_of_le rest.forward reach)),
        rest.nulFree reach⟩
end

theorem BencDict.NulFree.lookup {head : BencDict} (free : head.NulFree) {key : Bytes} {val : Bobj}
    (found : bencDictLookup key head = .ok (some val)) : val.NulFree := by
  match head, free, found with
  | .unassigned, _, found => simp [bencDictLookup] at found
  | .null, _, found => simp [bencDictLookup] at found
  | .entry key' val' next, free, found =>
      rw [bencDictLookup] at found
      split at found
      · cases found
        exact free.1
      · exact BencDict.NulFree.lookup free.2 found

/-- No byte string of a decoded dictionary holds a NUL. -/
theorem Denotes.nulFree_dict {p q : Nat} {head : BencDict} (denoted : Denotes buf p (.dict head) q)
    (reach : q ≤ nulAt buf + 1) : head.NulFree := by
  generalize same : Bobj.dict head = obj at denoted
  cases denoted with
  | dict _ body =>
      cases same
      exact BencDict.nulFree_assigned.mpr (body.nulFree reach)
  | int => cases same
  | bstr => cases same
  | list => cases same

end ReadBack

end Dnsp2p.Benc
