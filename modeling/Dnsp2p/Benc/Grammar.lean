import Dnsp2p.Benc.Decode

/-!
# What a datagram says

The language that the decoder reads, as relations between offsets of a
datagram: `Denotes buf p obj q` when `obj` is written from `p` up to `q`.  The
datagram is followed by one NUL byte, as in the buffer of its receiver.  The
relations do not mention the decoder, its copy of the datagram or its fuel.

`Hazard addr buf p` says that reading left to right from `p` meets one of the
byte strings that the decoder cannot handle, or the bytes behind the first NUL.
-/

namespace Dnsp2p.Benc

/-- The character at an offset of the terminated datagram. -/
def charAt (buf : Bytes) (p : Nat) : Option UInt8 :=
  (buf ++ [0])[p]?

/-- The offset of the first NUL byte. -/
def nulAt (buf : Bytes) : Nat :=
  (untilNul buf).length

/-- The longest run of digits at an offset. -/
def digitsAt (buf : Bytes) (p : Nat) : Bytes :=
  ((buf ++ [0]).drop p).takeWhile isDigit

/-- The length that the digits at an offset declare. -/
def declaredLength (buf : Bytes) (p : Nat) : Nat :=
  readDecimal (digitsAt buf p)

/-- The offset behind the digits. -/
def behindDigits (buf : Bytes) (p : Nat) : Nat :=
  p + (digitsAt buf p).length

/-- Where the data of a byte string at an offset ends. -/
def stringEnd (buf : Bytes) (p : Nat) : Nat :=
  behindDigits buf p + 1 + declaredLength buf p

/-- The byte string `bytes` is written from `p` up to `q`. -/
structure DenotesString (buf : Bytes) (p : Nat) (bytes : Bytes) (q : Nat) : Prop where
  separator : charAt buf (behindDigits buf p) = some (chr ':')
  end_eq : q = stringEnd buf p
  fits : q ≤ buf.length
  bytes_eq : bytes = (buf.drop (behindDigits buf p + 1)).take (declaredLength buf p)

/-- The integer `value` is written from `p` up to `q`. -/
inductive DenotesInt (buf : Bytes) (p : Nat) : Int → Nat → Prop
  | negative (sign : charAt buf (p + 1) = some (chr '-'))
      (terminator : charAt buf (behindDigits buf (p + 2)) = some (chr 'e')) :
      DenotesInt buf p (wrapInt (-(declaredLength buf (p + 2) : Int)))
        (behindDigits buf (p + 2) + 1)
  | positive (nonempty : digitsAt buf (p + 1) ≠ [])
      (terminator : charAt buf (behindDigits buf (p + 1)) = some (chr 'e')) :
      DenotesInt buf p (wrapInt (declaredLength buf (p + 1))) (behindDigits buf (p + 1) + 1)

mutual
/-- The object is written from `p` up to `q`. -/
inductive Denotes (buf : Bytes) : Nat → Bobj → Nat → Prop
  | int {p value q} (head : charAt buf p = some (chr 'i'))
      (body : DenotesInt buf p value q) : Denotes buf p (.int value) q
  | bstr {p char bytes q} (head : charAt buf p = some char) (digit : isDigit char = true)
      (body : DenotesString buf p bytes q) : Denotes buf p (.bstr bytes) q
  | list {p entries q} (head : charAt buf p = some (chr 'l'))
      (body : DenotesList buf (p + 1) entries q) : Denotes buf p (.list entries.assigned) q
  | dict {p entries q} (head : charAt buf p = some (chr 'd'))
      (body : DenotesDict buf (p + 1) entries q) : Denotes buf p (.dict entries.assigned) q

/-- The remaining elements of a list and its end are written from `p` up to `q`. -/
inductive DenotesList (buf : Bytes) : Nat → BencList → Nat → Prop
  | nil {p} (terminator : charAt buf p = some (chr 'e')) : DenotesList buf p .null (p + 1)
  | cons {p elem q next r} (more : charAt buf p ≠ some (chr 'e'))
      (first : Denotes buf p elem q) (rest : DenotesList buf q next r) :
      DenotesList buf p (.entry elem next) r

/-- The remaining pairs of a dictionary and its end are written from `p` up to `q`. -/
inductive DenotesDict (buf : Bytes) : Nat → BencDict → Nat → Prop
  | nil {p} (terminator : charAt buf p = some (chr 'e')) : DenotesDict buf p .null (p + 1)
  | cons {p key q val r next s} (more : charAt buf p ≠ some (chr 'e'))
      (name : DenotesString buf p key q) (value : Denotes buf q val r)
      (rest : DenotesDict buf r next s) : DenotesDict buf p (.entry key val next) s
end

/-! ## Hazards -/

/-- The length declared at `p` is cut by `size_t`; or a string of length zero
is declared; or a string whose end has no address; or a string that ends
behind the byte after the first NUL. -/
def HazardousString (addr : Nat) (buf : Bytes) (p : Nat) : Prop :=
  sizeMod ≤ declaredLength buf p ∨
    charAt buf (behindDigits buf p) = some (chr ':') ∧
      (declaredLength buf p = 0 ∨ sizeMod ≤ addr + stringEnd buf p ∨
        stringEnd buf p ≤ buf.length ∧ nulAt buf + 1 < stringEnd buf p)

mutual
/-- Reading an object at `p` meets a hazardous string, or `p` lies behind the
first NUL. -/
inductive Hazard (addr : Nat) (buf : Bytes) : Nat → Prop
  | behind {p} (nul : nulAt buf < p) : Hazard addr buf p
  | bstr {p char} (head : charAt buf p = some char) (digit : isDigit char = true)
      (body : HazardousString addr buf p) : Hazard addr buf p
  | list {p} (head : charAt buf p = some (chr 'l'))
      (body : HazardList addr buf (p + 1)) : Hazard addr buf p
  | dict {p} (head : charAt buf p = some (chr 'd'))
      (body : HazardDict addr buf (p + 1)) : Hazard addr buf p

/-- Reading the remaining elements of a list at `p` meets a hazard. -/
inductive HazardList (addr : Nat) (buf : Bytes) : Nat → Prop
  | behind {p} (nul : nulAt buf < p) : HazardList addr buf p
  | elem {p} (more : charAt buf p ≠ some (chr 'e')) (body : Hazard addr buf p) :
      HazardList addr buf p
  | next {p elem q} (more : charAt buf p ≠ some (chr 'e')) (first : Denotes buf p elem q)
      (rest : HazardList addr buf q) : HazardList addr buf p

/-- Reading the remaining pairs of a dictionary at `p` meets a hazard. -/
inductive HazardDict (addr : Nat) (buf : Bytes) : Nat → Prop
  | behind {p} (nul : nulAt buf < p) : HazardDict addr buf p
  | key {p} (more : charAt buf p ≠ some (chr 'e')) (body : HazardousString addr buf p) :
      HazardDict addr buf p
  | val {p key q} (more : charAt buf p ≠ some (chr 'e')) (name : DenotesString buf p key q)
      (body : Hazard addr buf q) : HazardDict addr buf p
  | next {p key q val r} (more : charAt buf p ≠ some (chr 'e'))
      (name : DenotesString buf p key q) (value : Denotes buf q val r)
      (rest : HazardDict addr buf r) : HazardDict addr buf p
end

/-! ## The relations are functional -/

theorem DenotesString.unique {buf : Bytes} {p : Nat} {bytes bytes' : Bytes} {q q' : Nat}
    (left : DenotesString buf p bytes q) (right : DenotesString buf p bytes' q') :
    bytes = bytes' ∧ q = q' :=
  ⟨left.bytes_eq.trans right.bytes_eq.symm, left.end_eq.trans right.end_eq.symm⟩

theorem digitsAt_of_not_digit {buf : Bytes} {p : Nat} {char : UInt8}
    (head : charAt buf p = some char) (other : isDigit char = false) : digitsAt buf p = [] := by
  rcases List.getElem?_eq_some_iff.mp head with ⟨inside, charEq⟩
  rw [digitsAt, List.drop_eq_getElem_cons inside, charEq, List.takeWhile_cons]
  simp [other]

theorem digitsAt_of_digit {buf : Bytes} {p : Nat} {char : UInt8}
    (head : charAt buf p = some char) (digit : isDigit char = true) :
    digitsAt buf p = char :: digitsAt buf (p + 1) := by
  rcases List.getElem?_eq_some_iff.mp head with ⟨inside, charEq⟩
  rw [digitsAt, List.drop_eq_getElem_cons inside, charEq, List.takeWhile_cons, if_pos digit]
  rfl

theorem DenotesInt.unique {buf : Bytes} {p : Nat} {value value' : Int} {q q' : Nat}
    (left : DenotesInt buf p value q) (right : DenotesInt buf p value' q') :
    value = value' ∧ q = q' := by
  have minus_not_digit : isDigit (chr '-') = false := by decide
  cases left with
  | negative sign terminator =>
      cases right with
      | negative => exact ⟨rfl, rfl⟩
      | positive nonempty => exact absurd (digitsAt_of_not_digit sign minus_not_digit) nonempty
  | positive nonempty terminator =>
      cases right with
      | negative sign => exact absurd (digitsAt_of_not_digit sign minus_not_digit) nonempty
      | positive => exact ⟨rfl, rfl⟩

mutual
/-- A datagram says one thing at each offset. -/
theorem Denotes.unique {buf : Bytes} {p : Nat} {obj obj' : Bobj} {q q' : Nat} :
    Denotes buf p obj q → Denotes buf p obj' q' → obj = obj' ∧ q = q'
  | .int _ body, .int _ body' => by
      rcases body.unique body' with ⟨rfl, rfl⟩
      exact ⟨rfl, rfl⟩
  | .bstr _ _ body, .bstr _ _ body' => by
      rcases body.unique body' with ⟨rfl, rfl⟩
      exact ⟨rfl, rfl⟩
  | .list _ body, .list _ body' => by
      rcases body.unique body' with ⟨rfl, rfl⟩
      exact ⟨rfl, rfl⟩
  | .dict _ body, .dict _ body' => by
      rcases body.unique body' with ⟨rfl, rfl⟩
      exact ⟨rfl, rfl⟩
  | .int head _, .bstr head' digit _ => by cases head.symm.trans head'; simp [isDigit] at digit
  | .int head _, .list head' _ => by cases head.symm.trans head'
  | .int head _, .dict head' _ => by cases head.symm.trans head'
  | .bstr head' digit _, .int head _ => by cases head.symm.trans head'; simp [isDigit] at digit
  | .bstr head' digit _, .list head _ => by cases head.symm.trans head'; simp [isDigit] at digit
  | .bstr head' digit _, .dict head _ => by cases head.symm.trans head'; simp [isDigit] at digit
  | .list head _, .int head' _ => by cases head.symm.trans head'
  | .list head _, .bstr head' digit _ => by cases head.symm.trans head'; simp [isDigit] at digit
  | .list head _, .dict head' _ => by cases head.symm.trans head'
  | .dict head _, .int head' _ => by cases head.symm.trans head'
  | .dict head _, .bstr head' digit _ => by cases head.symm.trans head'; simp [isDigit] at digit
  | .dict head _, .list head' _ => by cases head.symm.trans head'

theorem DenotesList.unique {buf : Bytes} {p : Nat} {entries entries' : BencList} {q q' : Nat} :
    DenotesList buf p entries q → DenotesList buf p entries' q' → entries = entries' ∧ q = q'
  | .nil _, .nil _ => ⟨rfl, rfl⟩
  | .nil terminator, .cons more _ _ => absurd terminator more
  | .cons more _ _, .nil terminator => absurd terminator more
  | .cons _ first rest, .cons _ first' rest' => by
      rcases first.unique first' with ⟨rfl, rfl⟩
      rcases rest.unique rest' with ⟨rfl, rfl⟩
      exact ⟨rfl, rfl⟩

theorem DenotesDict.unique {buf : Bytes} {p : Nat} {entries entries' : BencDict} {q q' : Nat} :
    DenotesDict buf p entries q → DenotesDict buf p entries' q' → entries = entries' ∧ q = q'
  | .nil _, .nil _ => ⟨rfl, rfl⟩
  | .nil terminator, .cons more _ _ _ => absurd terminator more
  | .cons more _ _ _, .nil terminator => absurd terminator more
  | .cons _ name value rest, .cons _ name' value' rest' => by
      rcases name.unique name' with ⟨rfl, rfl⟩
      rcases value.unique value' with ⟨rfl, rfl⟩
      rcases rest.unique rest' with ⟨rfl, rfl⟩
      exact ⟨rfl, rfl⟩
end

/-! ## Reading a hazard back -/

section Inversion

variable {addr : Nat} {buf : Bytes} {p : Nat}

theorem Hazard.list_body (met : Hazard addr buf p) (inside : p ≤ nulAt buf)
    (head : charAt buf p = some (chr 'l')) : HazardList addr buf (p + 1) := by
  rcases met with behind | ⟨head', digit, _⟩ | ⟨_, body⟩ | ⟨head', _⟩
  · exact absurd behind (Nat.not_lt.mpr inside)
  · cases head.symm.trans head'
    simp [isDigit] at digit
  · exact body
  · cases head.symm.trans head'

theorem Hazard.dict_body (met : Hazard addr buf p) (inside : p ≤ nulAt buf)
    (head : charAt buf p = some (chr 'd')) : HazardDict addr buf (p + 1) := by
  rcases met with behind | ⟨head', digit, _⟩ | ⟨head', _⟩ | ⟨_, body⟩
  · exact absurd behind (Nat.not_lt.mpr inside)
  · cases head.symm.trans head'
    simp [isDigit] at digit
  · cases head.symm.trans head'
  · exact body

theorem Hazard.bstr_body {char : UInt8} (met : Hazard addr buf p) (inside : p ≤ nulAt buf)
    (head : charAt buf p = some char) (digit : isDigit char = true) :
    HazardousString addr buf p := by
  rcases met with behind | ⟨_, _, body⟩ | ⟨head', _⟩ | ⟨head', _⟩
  · exact absurd behind (Nat.not_lt.mpr inside)
  · exact body
  · cases head.symm.trans head'
    simp [isDigit] at digit
  · cases head.symm.trans head'
    simp [isDigit] at digit

theorem Hazard.not_int (inside : p ≤ nulAt buf) (head : charAt buf p = some (chr 'i')) :
    ¬ Hazard addr buf p := by
  rintro (behind | ⟨head', digit, _⟩ | ⟨head', _⟩ | ⟨head', _⟩)
  · exact absurd behind (Nat.not_lt.mpr inside)
  all_goals cases head.symm.trans head'
  simp [isDigit] at digit

/-- A list whose first element and whose rest are harmless is harmless. -/
theorem HazardList.not_cons {elem : Bobj} {q : Nat} (inside : p ≤ nulAt buf)
    (clean : ¬ Hazard addr buf p) (first : Denotes buf p elem q)
    (cleanRest : ¬ HazardList addr buf q) : ¬ HazardList addr buf p := by
  rintro (behind | ⟨_, met⟩ | ⟨_, first', met⟩)
  · exact absurd behind (Nat.not_lt.mpr inside)
  · exact clean met
  · rcases first.unique first' with ⟨_, rfl⟩
    exact cleanRest met

/-- A dictionary whose first pair and whose rest are harmless is harmless. -/
theorem HazardDict.not_cons {key : Bytes} {val : Bobj} {q r : Nat} (inside : p ≤ nulAt buf)
    (cleanKey : ¬ HazardousString addr buf p) (name : DenotesString buf p key q)
    (cleanVal : ¬ Hazard addr buf q) (value : Denotes buf q val r)
    (cleanRest : ¬ HazardDict addr buf r) : ¬ HazardDict addr buf p := by
  rintro (behind | ⟨_, met⟩ | ⟨_, name', met⟩ | ⟨_, name', value', met⟩)
  · exact absurd behind (Nat.not_lt.mpr inside)
  · exact cleanKey met
  · rcases name.unique name' with ⟨_, rfl⟩
    exact cleanVal met
  · rcases name.unique name' with ⟨_, rfl⟩
    rcases value.unique value' with ⟨_, rfl⟩
    exact cleanRest met

end Inversion

/-! ## Reading an object back -/

section Bodies

variable {buf : Bytes} {p q : Nat} {obj : Bobj}

theorem denotes_int_iff (head : charAt buf p = some (chr 'i')) :
    Denotes buf p obj q ↔ ∃ value, obj = .int value ∧ DenotesInt buf p value q := by
  constructor
  · rintro (⟨_, body⟩ | ⟨head', digit, _⟩ | ⟨head', _⟩ | ⟨head', _⟩)
    · exact ⟨_, rfl, body⟩
    all_goals cases head.symm.trans head'
    simp [isDigit] at digit
  · rintro ⟨value, rfl, body⟩
    exact .int head body

theorem denotes_bstr_iff {char : UInt8} (head : charAt buf p = some char)
    (digit : isDigit char = true) :
    Denotes buf p obj q ↔ ∃ bytes, obj = .bstr bytes ∧ DenotesString buf p bytes q := by
  constructor
  · rintro (⟨head', _⟩ | ⟨_, _, body⟩ | ⟨head', _⟩ | ⟨head', _⟩)
    case bstr => exact ⟨_, rfl, body⟩
    all_goals
      cases head.symm.trans head'
      simp [isDigit] at digit
  · rintro ⟨bytes, rfl, body⟩
    exact .bstr head digit body

theorem denotes_list_iff (head : charAt buf p = some (chr 'l')) :
    Denotes buf p obj q ↔
      ∃ entries : BencList, obj = .list entries.assigned ∧ DenotesList buf (p + 1) entries q := by
  constructor
  · rintro (⟨head', _⟩ | ⟨head', digit, _⟩ | ⟨_, body⟩ | ⟨head', _⟩)
    case list => exact ⟨_, rfl, body⟩
    all_goals cases head.symm.trans head'
    simp [isDigit] at digit
  · rintro ⟨entries, rfl, body⟩
    exact .list head body

theorem denotes_dict_iff (head : charAt buf p = some (chr 'd')) :
    Denotes buf p obj q ↔
      ∃ entries : BencDict, obj = .dict entries.assigned ∧ DenotesDict buf (p + 1) entries q := by
  constructor
  · rintro (⟨head', _⟩ | ⟨head', digit, _⟩ | ⟨head', _⟩ | ⟨_, body⟩)
    case dict => exact ⟨_, rfl, body⟩
    all_goals cases head.symm.trans head'
    simp [isDigit] at digit
  · rintro ⟨entries, rfl, body⟩
    exact .dict head body

/-- A list goes on behind its first element. -/
theorem denotesList_cons_iff {elem : Bobj} {entries : BencList} {r : Nat}
    (more : charAt buf p ≠ some (chr 'e')) (first : Denotes buf p elem q) :
    DenotesList buf p entries r ↔ ∃ next, entries = .entry elem next ∧
      DenotesList buf q next r := by
  constructor
  · rintro (terminator | ⟨_, first', rest⟩)
    · exact absurd terminator more
    · rcases first.unique first' with ⟨rfl, rfl⟩
      exact ⟨_, rfl, rest⟩
  · rintro ⟨next, rfl, rest⟩
    exact .cons more first rest

/-- A dictionary goes on behind its first pair. -/
theorem denotesDict_cons_iff {key : Bytes} {val : Bobj} {entries : BencDict} {r s : Nat}
    (more : charAt buf p ≠ some (chr 'e')) (name : DenotesString buf p key q)
    (value : Denotes buf q val r) :
    DenotesDict buf p entries s ↔ ∃ next, entries = .entry key val next ∧
      DenotesDict buf r next s := by
  constructor
  · rintro (terminator | ⟨_, name', value', rest⟩)
    · exact absurd terminator more
    · rcases name.unique name' with ⟨rfl, rfl⟩
      rcases value.unique value' with ⟨rfl, rfl⟩
      exact ⟨_, rfl, rest⟩
  · rintro ⟨next, rfl, rest⟩
    exact .cons more name value rest

end Bodies

end Dnsp2p.Benc
