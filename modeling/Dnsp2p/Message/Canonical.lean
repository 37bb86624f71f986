import Dnsp2p.Benc.Text
import Dnsp2p.Message.Safety

/-!
# Decoding an encoded value

A value is an object whose lists and dictionaries end with NULL and whose
integers have 64 bits; its text is the datagram that encodes it.  Decoding that
datagram either faults or delivers the value with every empty list and
dictionary left without a head.
-/

namespace Dnsp2p.Benc

/-! ## Values -/

mutual
/-- Every integer inside the object fits `benc_int_t`. -/
def Bobj.IntsFit : Bobj → Prop
  | .int value => -2 ^ 63 ≤ value ∧ value < 2 ^ 63
  | .bstr _ => True
  | .list head => head.IntsFit
  | .dict head => head.IntsFit

/-- Every integer inside an element fits. -/
def BencList.IntsFit : BencList → Prop
  | .unassigned => True
  | .null => True
  | .entry elem next => elem.IntsFit ∧ next.IntsFit

/-- Every integer inside a value fits. -/
def BencDict.IntsFit : BencDict → Prop
  | .unassigned => True
  | .null => True
  | .entry _ val next => val.IntsFit ∧ next.IntsFit
end

mutual
/-- No list and no dictionary inside the object is empty. -/
def Bobj.NoEmptyContainer : Bobj → Prop
  | .int _ => True
  | .bstr _ => True
  | .list head => head ≠ .null ∧ head.NoEmptyContainer
  | .dict head => head ≠ .null ∧ head.NoEmptyContainer

/-- No list and no dictionary inside an element is empty. -/
def BencList.NoEmptyContainer : BencList → Prop
  | .unassigned => True
  | .null => True
  | .entry elem next => elem.NoEmptyContainer ∧ next.NoEmptyContainer

/-- No list and no dictionary inside a value is empty. -/
def BencDict.NoEmptyContainer : BencDict → Prop
  | .unassigned => True
  | .null => True
  | .entry _ val next => val.NoEmptyContainer ∧ next.NoEmptyContainer
end

/-- A bencode value.  A dictionary is the list of its pairs in the order in which
they are written. -/
structure Value where
  obj : Bobj
  headed : obj.HeadsAssigned
  fits : obj.IntsFit

/-! ## What is left of an empty container -/

mutual
/-- The object with every empty list and dictionary left without a head. -/
def Bobj.beheaded : Bobj → Bobj
  | .int value => .int value
  | .bstr bytes => .bstr bytes
  | .list head => .list head.beheaded.assigned
  | .dict head => .dict head.beheaded.assigned

/-- The entries with every empty container below them left without a head. -/
def BencList.beheaded : BencList → BencList
  | .unassigned => .unassigned
  | .null => .null
  | .entry elem next => .entry elem.beheaded next.beheaded

/-- The entries with every empty container below them left without a head. -/
def BencDict.beheaded : BencDict → BencDict
  | .unassigned => .unassigned
  | .null => .null
  | .entry key val next => .entry key val.beheaded next.beheaded
end

mutual
/-- The text does not tell an empty container from one without a head. -/
theorem bobjText_beheaded (obj : Bobj) : bobjText obj.beheaded = bobjText obj := by
  cases obj with
  | int value => rfl
  | bstr bytes => rfl
  | list head => simp [Bobj.beheaded, bobjText, listText_beheaded head]
  | dict head => simp [Bobj.beheaded, bobjText, dictText_beheaded head]

theorem listText_beheaded (head : BencList) : listText head.beheaded = listText head := by
  cases head with
  | unassigned => rfl
  | null => rfl
  | entry elem next =>
      simp [BencList.beheaded, listText, bobjText_beheaded elem, listText_beheaded next]

theorem dictText_beheaded (head : BencDict) : dictText head.beheaded = dictText head := by
  cases head with
  | unassigned => rfl
  | null => rfl
  | entry key val next =>
      simp [BencDict.beheaded, dictText, bobjText_beheaded val, dictText_beheaded next]
end

mutual
/-- A value without heads on its empty containers is what a decoder can deliver. -/
theorem Bobj.beheaded_decodable (obj : Bobj) (headed : obj.HeadsAssigned) (fits : obj.IntsFit) :
    obj.beheaded.Decodable := by
  cases obj with
  | int value => simpa [Bobj.beheaded, Bobj.Decodable, Bobj.IntsFit] using fits
  | bstr bytes => simp [Bobj.beheaded, Bobj.Decodable]
  | list head =>
      exact Bobj.decodable_list.mpr (.inl (BencList.beheaded_decodable head headed fits))
  | dict head =>
      exact Bobj.decodable_dict.mpr (.inl (BencDict.beheaded_decodable head headed fits))

theorem BencList.beheaded_decodable (head : BencList) (headed : head.HeadsAssigned)
    (fits : head.IntsFit) : head.beheaded.Decodable := by
  cases head with
  | unassigned => exact headed.elim
  | null => trivial
  | entry elem next =>
      exact ⟨elem.beheaded_decodable headed.1 fits.1, next.beheaded_decodable headed.2 fits.2⟩

theorem BencDict.beheaded_decodable (head : BencDict) (headed : head.HeadsAssigned)
    (fits : head.IntsFit) : head.beheaded.Decodable := by
  cases head with
  | unassigned => exact headed.elim
  | null => trivial
  | entry key val next =>
      exact ⟨val.beheaded_decodable headed.1 fits.1, next.beheaded_decodable headed.2 fits.2⟩
end

mutual
/-- Exactly the values without empty containers keep all their heads. -/
theorem Bobj.beheaded_eq_iff (obj : Bobj) (headed : obj.HeadsAssigned) :
    obj.beheaded = obj ↔ obj.NoEmptyContainer := by
  cases obj with
  | int value => simp [Bobj.beheaded, Bobj.NoEmptyContainer]
  | bstr bytes => simp [Bobj.beheaded, Bobj.NoEmptyContainer]
  | list head =>
      rw [Bobj.beheaded, Bobj.list.injEq, Bobj.NoEmptyContainer,
        ← BencList.beheaded_eq_iff head headed]
      cases head with
      | unassigned => exact headed.elim
      | null => simp [BencList.beheaded, BencList.assigned]
      | entry elem next => simp [BencList.beheaded, BencList.assigned]
  | dict head =>
      rw [Bobj.beheaded, Bobj.dict.injEq, Bobj.NoEmptyContainer,
        ← BencDict.beheaded_eq_iff head headed]
      cases head with
      | unassigned => exact headed.elim
      | null => simp [BencDict.beheaded, BencDict.assigned]
      | entry key val next => simp [BencDict.beheaded, BencDict.assigned]

theorem BencList.beheaded_eq_iff (head : BencList) (headed : head.HeadsAssigned) :
    head.beheaded = head ↔ head.NoEmptyContainer := by
  cases head with
  | unassigned => exact headed.elim
  | null => simp [BencList.beheaded, BencList.NoEmptyContainer]
  | entry elem next =>
      rw [BencList.beheaded, BencList.entry.injEq, BencList.NoEmptyContainer,
        Bobj.beheaded_eq_iff elem headed.1, BencList.beheaded_eq_iff next headed.2]

theorem BencDict.beheaded_eq_iff (head : BencDict) (headed : head.HeadsAssigned) :
    head.beheaded = head ↔ head.NoEmptyContainer := by
  cases head with
  | unassigned => exact headed.elim
  | null => simp [BencDict.beheaded, BencDict.NoEmptyContainer]
  | entry key val next =>
      rw [BencDict.beheaded, BencDict.entry.injEq, BencDict.NoEmptyContainer,
        Bobj.beheaded_eq_iff val headed.1, BencDict.beheaded_eq_iff next headed.2]
      simp
end

end Dnsp2p.Benc

namespace Dnsp2p.Message

open Dnsp2p.Benc

/-- The datagram that encodes a value. -/
def encoding (value : Value) : Bytes :=
  bobjText value.obj

/-- From the encoding of a value `bdec_mem` delivers the value, with the pointer
behind its last byte. -/
def DecodedExactly (addr : Nat) (value : Value) : Prop :=
  ∃ b, copyAndDecode addr (encoding value) = .ok (some value.obj, b) ∧
    b.ptr = (encoding value).length

/-- The copy of a datagram is as long as the datagram if only its last byte may be
a NUL. -/
theorem length_le_nulAt_iff {buf : Bytes} : buf.length ≤ nulAt buf + 1 ↔ 0 ∉ buf.dropLast := by
  rcases List.eq_nil_or_concat buf with rfl | ⟨front, last, rfl⟩
  · simp
  rw [List.concat_eq_append, List.dropLast_concat, List.length_append, List.length_singleton,
    Nat.add_le_add_iff_right]
  constructor
  · intro reach inside
    rcases List.append_of_mem inside with ⟨before, behind, rfl⟩
    have stops : nulAt (before ++ 0 :: behind ++ [last]) ≤ before.length := by
      rw [nulAt, untilNul, List.append_assoc, List.takeWhile_append]
      split
      · simp
      · exact List.IsPrefix.length_le (List.takeWhile_prefix _)
    simp only [List.length_append, List.length_cons] at reach stops
    omega
  · intro clean
    have whole := untilNul_of_not_mem clean
    rw [nulAt, untilNul, List.takeWhile_append_of_pos, List.length_append]
    · omega
    · intro byte member
      have notNul : byte ≠ 0 := fun equal => clean (equal ▸ member)
      simpa using notNul

section Encoding

variable {addr : Nat} (value : Value)

/-- What the encoding of a value says. -/
theorem denotes_encoding :
    Denotes (encoding value) 0 value.obj.beheaded (encoding value).length := by
  have standing : TextAt (encoding value) 0 (bobjText value.obj.beheaded) :=
    ⟨[], [], by simp [encoding, bobjText_beheaded], rfl⟩
  have denoted := denotes_of_textAt _ 0
    (value.obj.beheaded_decodable value.headed value.fits) standing
  rwa [bobjText_beheaded, Nat.zero_add] at denoted

/-- An encoding that is decoded gives the value without heads on its empty
containers, and is read to its end. -/
theorem copyAndDecode_encoding (placed : addr + (encoding value).length < 2 ^ 63) :
    ReadBack addr (encoding value) value.obj.beheaded (encoding value).length
      (copyAndDecode addr (encoding value)) := by
  rw [copyAndDecode_eq_bdecMem]
  apply bdecMem_readBack _ placed _ (denotes_encoding value)
  have bound := nulAt_le_length (encoding value)
  unfold fuelFor
  omega

/-- A value is recovered from its encoding exactly when it holds no empty string,
no empty list and no empty dictionary, and no NUL stands in front of the last byte
of the encoding. -/
theorem decodedExactly_iff (placed : addr + (encoding value).length < 2 ^ 63) :
    DecodedExactly addr value ↔
      value.obj.NoEmptyString ∧ value.obj.NoEmptyContainer ∧ 0 ∉ (encoding value).dropLast := by
  have read := copyAndDecode_encoding value placed
  have outcome := copyAndDecode_outcome placed
  constructor
  · rintro ⟨b, decoded, _⟩
    rw [decoded] at read outcome
    have kept : value.obj.beheaded = value.obj := by
      rcases read with same | ⟨fault, failed⟩
      · injection same with pair
        exact (Option.some.inj (congrArg Prod.fst pair)).symm
      · cases failed
    cases outcome with
    | spoiled met broken =>
        rcases read with same | ⟨fault, failed⟩
        · injection same with pair
          have same := congrArg Prod.snd pair
          subst same
          cases broken
        · cases failed
    | decoded clean denoted forward inside =>
        rename_i q
        have denoted' := denotes_encoding value
        rw [kept] at denoted'
        rcases denoted.unique denoted' with ⟨_, rfl⟩
        exact ⟨denoted.noEmptyString clean, (Bobj.beheaded_eq_iff _ value.headed).mp kept,
          length_le_nulAt_iff.mp inside⟩
  · rintro ⟨nonempty, inhabited, clean⟩
    have kept := (Bobj.beheaded_eq_iff _ value.headed).mpr inhabited
    have denoted := denotes_encoding value
    rw [kept] at denoted
    have harmless := denoted.not_hazard placed nonempty (length_le_nulAt_iff.mpr clean)
    exact ⟨_, copyAndDecode_of_denotes placed harmless denoted, rfl⟩

/-- The encoding of the empty string. -/
def emptyString : Value where
  obj := .bstr []
  headed := trivial
  fits := trivial

/-- The empty string is not recovered. -/
theorem emptyString_not_decodedExactly : ¬ DecodedExactly 4096 emptyString := by
  rintro ⟨b, decoded, _⟩
  have faulted : copyAndDecode 4096 (encoding emptyString) = .error .nullPointer := by decide
  rw [faulted] at decoded
  cases decoded

theorem decodedExactly_iff_emptyString :
    DecodedExactly 4096 emptyString ↔
      emptyString.obj.NoEmptyString ∧ emptyString.obj.NoEmptyContainer ∧
        0 ∉ (encoding emptyString).dropLast :=
  decodedExactly_iff emptyString (by decide)

end Encoding

end Dnsp2p.Message
