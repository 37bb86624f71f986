import Dnsp2p.Benc.Grammar

/-!
# Where the decoder goes wrong

The decoder runs on the `strdup` copy of a datagram, which ends with its first
NUL, but with the length of the whole datagram.  From every offset its run is
spoiled (it faults, or a length was cut) exactly when reading from there meets
a `Hazard`; otherwise it ends with the object that the datagram `Denotes`, or
with a clean refusal when there is none.
-/

namespace Dnsp2p.Benc

/-- The buffer of `dht_message_parse` with its pointer at an offset. -/
def cursor (addr : Nat) (buf : Bytes) (p : Nat) : Bbuf :=
  { mem := untilNul buf ++ [0], addr, len := buf.length, ptr := p, wrapped := false }

/-- The run faulted, or a length was cut on the way. -/
def Spoiled {α : Type} : Except Fault (Option α × Bbuf) → Prop
  | .error _ => True
  | .ok (_, b) => b.wrapped = true

/-- The three ways in which a decoder can end. -/
inductive Outcome {α : Type} (addr : Nat) (buf : Bytes) (p : Nat) (hazard : Prop)
    (denotes : α → Nat → Prop) : Except Fault (Option α × Bbuf) → Prop
  | spoiled {result} (met : hazard) (broken : Spoiled result) :
      Outcome addr buf p hazard denotes result
  | decoded {value q} (clean : ¬ hazard) (denoted : denotes value q) (forward : p < q)
      (inside : q ≤ nulAt buf + 1) :
      Outcome addr buf p hazard denotes (.ok (some value, cursor addr buf q))
  | rejected {b} (clean : ¬ hazard) (nothing : ∀ value q, ¬ denotes value q)
      (exact : b.wrapped = false) : Outcome addr buf p hazard denotes (.ok (none, b))

/-! ## The copy -/

section Copy

variable {addr : Nat} {buf : Bytes} {p : Nat}

theorem nulAt_le_length (buf : Bytes) : nulAt buf ≤ buf.length :=
  List.IsPrefix.length_le (List.takeWhile_prefix _)

theorem length_copy (buf : Bytes) : (untilNul buf ++ [0]).length = nulAt buf + 1 := by
  simp [nulAt]

theorem copy_getElem? (inside : p ≤ nulAt buf) : (untilNul buf ++ [0])[p]? = charAt buf p := by
  rcases untilNul_append_nul_isPrefix buf with ⟨tail, whole⟩
  have bound : p < (untilNul buf ++ [0]).length := by
    rw [length_copy]
    omega
  rw [charAt, ← whole, List.getElem?_append_left bound]

theorem exists_charAt (inside : p ≤ nulAt buf) : ∃ char, charAt buf p = some char := by
  rw [← copy_getElem? inside]
  exact ⟨_, List.getElem?_eq_getElem (by rw [length_copy]; omega)⟩

theorem charAt_nulAt (buf : Bytes) : charAt buf (nulAt buf) = some 0 := by
  rw [← copy_getElem? le_rfl]
  simp [nulAt]

theorem lt_nulAt {char : UInt8} (inside : p ≤ nulAt buf) (head : charAt buf p = some char)
    (notNul : char ≠ 0) : p < nulAt buf := by
  rcases Nat.lt_or_eq_of_le inside with less | same
  · exact less
  · subst same
    exact absurd (Option.some.inj (head.symm.trans (charAt_nulAt buf))) notNul

theorem cursor_deref {char : UInt8} (inside : p ≤ nulAt buf) (head : charAt buf p = some char) :
    (cursor addr buf p).deref = .ok char := by
  simp [Bbuf.deref, cursor, copy_getElem? inside, head]

theorem cursor_deref_behind (outside : nulAt buf < p) :
    (cursor addr buf p).deref = .error .outOfBounds := by
  have missing : (untilNul buf ++ [0])[p]? = none :=
    List.getElem?_eq_none (by rw [length_copy]; omega)
  simp [Bbuf.deref, cursor, missing]

theorem cursor_bbufIncPtr : (bbufIncPtr (cursor addr buf p)).2 = cursor addr buf (p + 1) :=
  rfl

theorem cursor_more (inside : p < nulAt buf) :
    bbufIncPtr (cursor addr buf p) = (true, cursor addr buf (p + 1)) := by
  have bound := nulAt_le_length buf
  have fits : p + 1 ≤ buf.length := by omega
  simp [bbufIncPtr, cursor, Bbuf.advance, fits]

/-- Digits stop at the first NUL. -/
theorem behindDigits_le (inside : p ≤ nulAt buf) : behindDigits buf p ≤ nulAt buf := by
  induction distance : nulAt buf - p generalizing p with
  | zero =>
      have atNul : p = nulAt buf := by omega
      subst atNul
      have none_at : digitsAt buf (nulAt buf) = [] :=
        digitsAt_of_not_digit (charAt_nulAt buf) (by decide)
      simp [behindDigits, none_at]
  | succ distance ih =>
      rcases exists_charAt inside with ⟨char, head⟩
      cases digit : isDigit char with
      | false => simp [behindDigits, digitsAt_of_not_digit head digit, inside]
      | true =>
          have rest := ih (p := p + 1) (by omega) (by omega)
          simp only [behindDigits, digitsAt_of_digit head digit, List.length_cons] at rest ⊢
          omega

end Copy

/-! ## A cut is never forgotten -/

section Sticky

variable {b : Bbuf}

private theorem spoiled_bind {α β : Type} {first : Except Fault (Option α × Bbuf)}
    {next : Option α × Bbuf → Except Fault (Option β × Bbuf)} (broken : Spoiled first)
    (keeps : ∀ value b, b.wrapped = true → Spoiled (next (value, b))) :
    Spoiled (first >>= next) := by
  cases first with
  | error fault => trivial
  | ok result => exact keeps result.1 result.2 broken

private theorem spoiled_deref {α : Type} {next : UInt8 → Except Fault (Option α × Bbuf)}
    (keeps : ∀ char, Spoiled (next char)) : Spoiled (b.deref >>= next) := by
  cases b.deref with
  | error fault => trivial
  | ok char => exact keeps char

theorem bencBstrLength_sticky (fuel len : Nat) (cut : b.wrapped = true) :
    Spoiled (bencBstrLength fuel len b) := by
  induction fuel generalizing len b with
  | zero => trivial
  | succ fuel ih =>
      apply spoiled_deref
      intro char
      split
      · have kept : (bbufIncPtr (b.note (sizeMod ≤ len * 10 + digitValue char))).2.wrapped =
            true := by
          simp [bbufIncPtr, Bbuf.advance, Bbuf.note, cut]
        dsimp only
        split
        · exact ih _ kept
        · exact kept
      · split <;> exact cut

theorem bencBstrBody_sticky (len : Nat)
    (cut : b.wrapped = true ∨ sizeMod ≤ b.addr + (b.ptr + 1) + len) :
    Spoiled (bencBstrBody len b) := by
  have noted : ((bbufIncPtr b).2.note (sizeMod ≤ b.addr + (b.ptr + 1) + len)).wrapped = true := by
    simpa [bbufIncPtr, Bbuf.advance, Bbuf.note] using cut
  unfold bencBstrBody
  dsimp only
  split
  · exact noted
  · split
    · trivial
    · cases Bbuf.memcpy _ _ with
      | error fault => trivial
      | ok bytes => exact noted

theorem bencBstrDecode_sticky (fuel : Nat) (cut : b.wrapped = true) :
    Spoiled (bencBstrDecode fuel b) := by
  apply spoiled_bind (bencBstrLength_sticky fuel 0 cut)
  intro value b cut
  cases value with
  | none => exact cut
  | some len => exact bencBstrBody_sticky len (.inl cut)

theorem bencIntDigits_sticky (fuel : Nat) (total : Int) (cut : b.wrapped = true) :
    Spoiled (bencIntDigits fuel total b) := by
  induction fuel generalizing total b with
  | zero => trivial
  | succ fuel ih =>
      unfold bencIntDigits
      dsimp only
      split
      · apply spoiled_deref
        intro char
        split
        · exact ih _ cut
        · split <;> exact cut
      · exact cut

theorem bencIntDecode_sticky (fuel : Nat) (cut : b.wrapped = true) :
    Spoiled (bencIntDecode fuel b) := by
  apply spoiled_deref
  intro char
  split
  · apply spoiled_bind (bencIntDigits_sticky fuel 0 (b := (bbufIncPtr b).2) cut)
    intro value b cut
    cases value <;> exact cut
  · split
    · apply spoiled_bind (bencIntDigits_sticky fuel _ (b := (bbufIncPtr b).2) cut)
      intro value b cut
      cases value <;> exact cut
    · exact cut

mutual
theorem bdecMem_sticky (fuel : Nat) {b : Bbuf} (cut : b.wrapped = true) :
    Spoiled (bdecMem fuel b) := by
  cases fuel with
  | zero => trivial
  | succ fuel =>
      apply spoiled_deref
      intro char
      split
      · apply spoiled_bind (bencIntDecode_sticky fuel cut)
        intro value b cut
        cases value <;> exact cut
      split
      · apply spoiled_bind (bencListDecode_sticky fuel (b := (bbufIncPtr b).2) cut)
        intro value b cut
        cases value <;> exact cut
      split
      · apply spoiled_bind (bencDictDecode_sticky fuel (b := (bbufIncPtr b).2) cut)
        intro value b cut
        cases value <;> exact cut
      split
      · apply spoiled_bind (bencBstrDecode_sticky fuel cut)
        intro value b cut
        cases value <;> exact cut
      · exact cut

theorem bencListDecode_sticky (fuel : Nat) {b : Bbuf} (cut : b.wrapped = true) :
    Spoiled (bencListDecode fuel b) := by
  cases fuel with
  | zero => trivial
  | succ fuel =>
      apply spoiled_deref
      intro char
      split
      · exact cut
      · apply spoiled_bind (bdecMem_sticky fuel cut)
        intro value b cut
        cases value with
        | none => exact cut
        | some elem =>
            apply spoiled_bind (bencListDecode_sticky fuel cut)
            intro value b cut
            cases value <;> exact cut

theorem bencDictDecode_sticky (fuel : Nat) {b : Bbuf} (cut : b.wrapped = true) :
    Spoiled (bencDictDecode fuel b) := by
  cases fuel with
  | zero => trivial
  | succ fuel =>
      apply spoiled_deref
      intro char
      split
      · exact cut
      · apply spoiled_bind (bencBstrDecode_sticky fuel cut)
        intro value b cut
        cases value with
        | none => exact cut
        | some key =>
            apply spoiled_bind (bdecMem_sticky fuel cut)
            intro value b cut
            cases value with
            | none => exact cut
            | some val =>
                apply spoiled_bind (bencDictDecode_sticky fuel cut)
                intro value b cut
                cases value <;> exact cut
end

end Sticky

/-! ## Byte strings -/

section Strings

variable {addr : Nat} {buf : Bytes} {p : Nat}

/-- Reading decimal digits on top of what was read before. -/
def readFrom (total : Nat) (text : Bytes) : Nat :=
  text.foldl (fun total char => total * 10 + digitValue char) total

theorem le_readFrom (total : Nat) (text : Bytes) : total ≤ readFrom total text := by
  induction text generalizing total with
  | nil => exact le_rfl
  | cons char rest ih =>
      have step := ih (total * 10 + digitValue char)
      simp only [readFrom, List.foldl_cons] at step ⊢
      omega

theorem behindDigits_of_digit {char : UInt8} (head : charAt buf p = some char)
    (digit : isDigit char = true) : behindDigits buf p = behindDigits buf (p + 1) := by
  simp only [behindDigits, digitsAt_of_digit head digit, List.length_cons]
  omega

theorem behindDigits_of_not_digit {char : UInt8} (head : charAt buf p = some char)
    (other : isDigit char = false) : behindDigits buf p = p := by
  simp [behindDigits, digitsAt_of_not_digit head other]

variable (addr) in
/-- The length loop stops behind the digits; it is spoiled exactly when the
number does not fit a `size_t`. -/
theorem bencBstrLength_cursor (fuel len : Nat) (inside : p ≤ nulAt buf)
    (enough : nulAt buf - p < fuel) (small : len < sizeMod) :
    (readFrom len (digitsAt buf p) < sizeMod →
      bencBstrLength fuel len (cursor addr buf p) =
        .ok (if charAt buf (behindDigits buf p) = some (chr ':') then
            some (readFrom len (digitsAt buf p)) else none,
          cursor addr buf (behindDigits buf p))) ∧
      (sizeMod ≤ readFrom len (digitsAt buf p) →
        Spoiled (bencBstrLength fuel len (cursor addr buf p))) := by
  induction fuel generalizing p len with
  | zero => omega
  | succ fuel ih =>
      rcases exists_charAt inside with ⟨char, head⟩
      simp only [bencBstrLength, cursor_deref inside head, ok_bind]
      cases digit : isDigit char with
      | false =>
          rw [digitsAt_of_not_digit head digit, behindDigits_of_not_digit head digit, head]
          constructor
          · intro _
            by_cases colon : char = chr ':'
            · simp [colon, readFrom]
            · have differ : some char ≠ some (chr ':') := fun equal => colon (Option.some.inj equal)
              simp only [Bool.false_eq_true, if_false, if_neg colon, if_neg differ]
          · intro large
            exact absurd large (by simp only [readFrom, List.foldl_nil]; omega)
      | true =>
          have notNul : char ≠ 0 := by
            rintro rfl
            simp [isDigit] at digit
          have below := lt_nulAt inside head notNul
          rw [digitsAt_of_digit head digit, behindDigits_of_digit head digit]
          have unfolded : readFrom len (char :: digitsAt buf (p + 1)) =
              readFrom (len * 10 + digitValue char) (digitsAt buf (p + 1)) := rfl
          rw [unfolded]
          simp only [if_true]
          by_cases fits : len * 10 + digitValue char < sizeMod
          · have clean : (cursor addr buf p).note (sizeMod ≤ len * 10 + digitValue char) =
                cursor addr buf p := by
              simp only [Bbuf.note, cursor, Bool.false_or, decide_eq_false (Nat.not_le.mpr fits)]
            rw [clean, cursor_more below, Nat.mod_eq_of_lt fits]
            exact ih (len * 10 + digitValue char) (by omega) (by omega) fits
          · have grown := le_readFrom (len * 10 + digitValue char) (digitsAt buf (p + 1))
            constructor
            · intro short
              omega
            · intro _
              have kept : (bbufIncPtr ((cursor addr buf p).note
                  (sizeMod ≤ len * 10 + digitValue char))).2.wrapped = true := by
                simpa [bbufIncPtr, Bbuf.advance, Bbuf.note, cursor] using Nat.not_lt.mp fits
              split
              · exact bencBstrLength_sticky fuel _ kept
              · exact kept

/-- Inside the copy, the copy and the datagram hold the same bytes. -/
theorem copy_slice {start count : Nat} (inCopy : start + count ≤ nulAt buf + 1)
    (inBuf : start + count ≤ buf.length) :
    ((untilNul buf ++ [0]).drop start).take count = (buf.drop start).take count := by
  rcases untilNul_append_nul_isPrefix buf with ⟨tail, whole⟩
  have copyLength := length_copy buf
  generalize untilNul buf ++ [0] = copy at whole copyLength
  calc (copy.drop start).take count
      = ((copy ++ tail).drop start).take count := by
        rw [List.drop_append_of_le_length (by omega),
          List.take_append_of_le_length (by rw [List.length_drop]; omega)]
    _ = ((buf ++ [0]).drop start).take count := by rw [whole]
    _ = (buf.drop start).take count := by
        rw [List.drop_append_of_le_length (by omega),
          List.take_append_of_le_length (by rw [List.length_drop]; omega)]

/-- The end of `benc_bstr_decode`, when the end of the string has an address. -/
theorem bencBstrBody_cursor (len : Nat) (placed : addr + buf.length < 2 ^ 63)
    (addressed : addr + (p + 1 + len) < sizeMod) :
    bencBstrBody len (cursor addr buf p) =
      if buf.length < p + 1 + len then .ok (none, cursor addr buf (p + 1))
      else if len = 0 then .error .nullPointer
      else if p + 1 + len ≤ nulAt buf + 1 then
        .ok (some ((buf.drop (p + 1)).take len), cursor addr buf (p + 1 + len))
      else .error .outOfBounds := by
  have ends : addr + (p + 1) + len = addr + (p + 1 + len) := by omega
  have noCut : ¬ sizeMod ≤ addr + (p + 1) + len := by
    rw [ends]
    omega
  have exactBuffer : (addr + buf.length) % sizeMod = addr + buf.length :=
    Nat.mod_eq_of_lt (by simp only [sizeMod]; omega)
  have exactEnd : (addr + (p + 1) + len) % sizeMod = addr + (p + 1 + len) := by
    rw [ends]
    exact Nat.mod_eq_of_lt addressed
  simp only [bencBstrBody, bbufIncPtr, Bbuf.advance, Bbuf.note, cursor, noCut, decide_false,
    exactBuffer, exactEnd, Bool.or_false, Nat.add_lt_add_iff_left]
  split
  · rfl
  · rename_i short
    by_cases empty : len = 0
    · simp [bencBstrNew, empty]
    · have allocated : bencBstrNew len = some len := by
        rw [bencBstrNew, if_pos ⟨Nat.pos_of_ne_zero empty, by omega⟩]
      simp only [allocated, if_neg empty, Bbuf.memcpy, length_copy]
      split
      · rename_i inCopy
        rw [copy_slice inCopy (Nat.not_lt.mp short)]
        rfl
      · rfl

/-- `benc_bstr_decode` is spoiled exactly by a hazardous string. -/
theorem bencBstrDecode_outcome (fuel : Nat) (placed : addr + buf.length < 2 ^ 63)
    (inside : p ≤ nulAt buf) (enough : nulAt buf - p < fuel) :
    Outcome addr buf p (HazardousString addr buf p) (DenotesString buf p)
      (bencBstrDecode fuel (cursor addr buf p)) := by
  have loop := bencBstrLength_cursor addr fuel 0 inside enough (by decide)
  have declared : readFrom 0 (digitsAt buf p) = declaredLength buf p := rfl
  rw [declared] at loop
  by_cases large : sizeMod ≤ declaredLength buf p
  · refine .spoiled (.inl large) (spoiled_bind (loop.2 large) ?_)
    intro value b cut
    cases value with
    | none => exact cut
    | some len => exact bencBstrBody_sticky len (.inl cut)
  rw [bencBstrDecode, loop.1 (Nat.not_le.mp large)]
  by_cases colon : charAt buf (behindDigits buf p) = some (chr ':')
  · simp only [colon, if_true, ok_bind]
    by_cases beyond : sizeMod ≤ addr + stringEnd buf p
    · refine .spoiled (.inr ⟨colon, .inr (.inl beyond)⟩) (bencBstrBody_sticky _ (.inr ?_))
      simp only [stringEnd] at beyond
      simp only [cursor]
      omega
    rw [bencBstrBody_cursor _ placed (Nat.not_le.mp beyond)]
    change Outcome addr buf p _ _ (if buf.length < stringEnd buf p then _
      else if declaredLength buf p = 0 then _
      else if stringEnd buf p ≤ nulAt buf + 1 then _ else _)
    split
    · rename_i long
      refine .rejected ?_ ?_ rfl
      · rintro (cut | ⟨_, empty | noAddress | ⟨short, _⟩⟩)
        · exact large cut
        · have belowNul := lt_nulAt (behindDigits_le inside) colon (by decide)
          have bound := nulAt_le_length buf
          simp only [stringEnd] at long
          omega
        · exact beyond noAddress
        · omega
      · intro bytes q denoted
        have fits := denoted.fits
        rw [denoted.end_eq] at fits
        omega
    split
    · rename_i empty
      exact .spoiled (.inr ⟨colon, .inl empty⟩) trivial
    split
    · rename_i short nonempty inCopy
      refine .decoded ?_ ⟨colon, rfl, Nat.not_lt.mp short, rfl⟩ ?_ inCopy
      · rintro (cut | ⟨_, zero | noAddress | ⟨_, outside⟩⟩)
        · exact large cut
        · exact nonempty zero
        · exact beyond noAddress
        · omega
      · simp only [behindDigits]
        omega
    · rename_i short _ outside
      exact .spoiled (.inr ⟨colon, .inr (.inr ⟨Nat.not_lt.mp short, by omega⟩)⟩) trivial
  · simp only [colon, if_false, ok_bind]
    refine .rejected ?_ ?_ rfl
    · rintro (cut | ⟨separator, _⟩)
      · exact large cut
      · exact colon separator
    · intro bytes q denoted
      exact colon denoted.separator

end Strings

/-! ## Integers -/

section Integers

variable {addr : Nat} {buf : Bytes} {p : Nat}

/-- The accumulator of `benc_int_decode` after these digits. -/
def wrapFrom (total : Int) (text : Bytes) : Int :=
  text.foldl (fun total char => wrapInt (wrapInt (total * 10) + digitValue char)) total

theorem wrapInt_emod (value : Int) : wrapInt value % (sizeMod : Int) = value % (sizeMod : Int) :=
  Int.bmod_emod

theorem wrapInt_eq_of_emod_eq {left right : Int}
    (equal : left % (sizeMod : Int) = right % (sizeMod : Int)) : wrapInt left = wrapInt right := by
  rw [wrapInt, wrapInt, ← Int.emod_bmod, equal, Int.emod_bmod]

/-- Cutting after every digit loses nothing modulo `2^64`. -/
theorem wrapFrom_emod {total : Int} {start : Nat}
    (equal : total % (sizeMod : Int) = (start : Int) % (sizeMod : Int)) (text : Bytes) :
    wrapFrom total text % (sizeMod : Int) = (readFrom start text : Int) % (sizeMod : Int) := by
  induction text generalizing total start with
  | nil => exact equal
  | cons char rest ih =>
      apply ih
      have scaled : wrapInt (total * 10) % (sizeMod : Int) =
          (start * 10 : Int) % (sizeMod : Int) := by
        rw [wrapInt_emod, Int.mul_emod, equal, ← Int.mul_emod]
      rw [wrapInt_emod, Int.add_emod, scaled, ← Int.add_emod]
      push_cast
      rfl

/-- The digit loop of `benc_int_decode` stops behind the digits. -/
theorem bencIntDigits_cursor (fuel : Nat) (total : Int) (inside : p < nulAt buf)
    (enough : nulAt buf - p < fuel) :
    bencIntDigits fuel total (cursor addr buf p) =
      if charAt buf (behindDigits buf (p + 1)) = some (chr 'e') then
        .ok (some (wrapFrom total (digitsAt buf (p + 1))),
          cursor addr buf (behindDigits buf (p + 1) + 1))
      else .ok (none, cursor addr buf (behindDigits buf (p + 1))) := by
  induction fuel generalizing p total with
  | zero => omega
  | succ fuel ih =>
      rcases exists_charAt (Nat.succ_le_of_lt inside) with ⟨char, head⟩
      simp only [bencIntDigits, cursor_more inside, if_true, cursor_deref inside head, ok_bind]
      cases digit : isDigit char with
      | false =>
          rw [behindDigits_of_not_digit head digit, digitsAt_of_not_digit head digit, head]
          by_cases terminator : char = chr 'e'
          · simp [terminator, cursor_bbufIncPtr, wrapFrom]
          · have differ : some char ≠ some (chr 'e') := fun equal =>
              terminator (Option.some.inj equal)
            simp only [Bool.false_eq_true, if_false, if_neg terminator, if_neg differ]
      | true =>
          have notNul : char ≠ 0 := by
            rintro rfl
            simp [isDigit] at digit
          have below := lt_nulAt (Nat.succ_le_of_lt inside) head notNul
          rw [behindDigits_of_digit head digit, digitsAt_of_digit head digit]
          simp only [if_true]
          rw [ih _ below (by omega)]
          rfl

variable (addr) in
/-- `benc_int_decode` never goes wrong. -/
theorem bencIntDecode_outcome (fuel : Nat) (inside : p < nulAt buf)
    (enough : nulAt buf - p < fuel) :
    Outcome addr buf p False (DenotesInt buf p) (bencIntDecode fuel (cursor addr buf p)) := by
  have reach := Nat.succ_le_of_lt inside
  rcases exists_charAt reach with ⟨char, head⟩
  simp only [bencIntDecode, cursor_bbufIncPtr, cursor_deref reach head, ok_bind]
  by_cases minus : char = chr '-'
  · subst minus
    have below := lt_nulAt reach head (by decide)
    have noDigit : digitsAt buf (p + 1) = [] := digitsAt_of_not_digit head (by decide)
    rw [if_pos rfl, bencIntDigits_cursor fuel 0 below (by omega)]
    by_cases terminator : charAt buf (behindDigits buf (p + 1 + 1)) = some (chr 'e')
    · simp only [terminator, if_true, ok_bind]
      have valueEq : wrapInt (wrapFrom 0 (digitsAt buf (p + 1 + 1)) * -1) =
          wrapInt (-(declaredLength buf (p + 2) : Int)) := by
        apply wrapInt_eq_of_emod_eq
        have loop : wrapFrom 0 (digitsAt buf (p + 1 + 1)) % (sizeMod : Int) =
            (readFrom 0 (digitsAt buf (p + 1 + 1)) : Int) % (sizeMod : Int) := wrapFrom_emod rfl _
        rw [Int.mul_emod, loop, ← Int.mul_emod, mul_neg_one]
        rfl
      rw [valueEq]
      refine .decoded id (.negative head terminator) ?_ ?_
      · simp only [behindDigits]
        omega
      · exact Nat.succ_le_succ (behindDigits_le (Nat.succ_le_of_lt below))
    · simp only [terminator, if_false, ok_bind]
      refine .rejected id ?_ rfl
      rintro value q (⟨_, terminator'⟩ | ⟨nonempty, _⟩)
      · exact terminator terminator'
      · exact nonempty noDigit
  rw [if_neg minus]
  have notSign : charAt buf (p + 1) ≠ some (chr '-') := by
    rw [head]
    exact fun equal => minus (Option.some.inj equal)
  cases digit : isDigit char with
  | false =>
      simp only [Bool.false_eq_true, if_false]
      refine .rejected id ?_ rfl
      rintro value q (⟨sign, _⟩ | ⟨nonempty, _⟩)
      · exact notSign sign
      · exact nonempty (digitsAt_of_not_digit head digit)
  | true =>
      have notNul : char ≠ 0 := by
        rintro rfl
        simp [isDigit] at digit
      have below := lt_nulAt reach head notNul
      have endEq := behindDigits_of_digit head digit
      simp only [if_true]
      rw [bencIntDigits_cursor fuel _ below (by omega), ← endEq]
      by_cases terminator : charAt buf (behindDigits buf (p + 1)) = some (chr 'e')
      · simp only [terminator, if_true, ok_bind]
        have valueEq : wrapInt (wrapFrom (digitValue char) (digitsAt buf (p + 1 + 1)) * 1) =
            wrapInt (declaredLength buf (p + 1)) := by
          apply wrapInt_eq_of_emod_eq
          have loop : wrapFrom (digitValue char) (digitsAt buf (p + 1 + 1)) % (sizeMod : Int) =
              (readFrom (digitValue char) (digitsAt buf (p + 1 + 1)) : Int) % (sizeMod : Int) :=
            wrapFrom_emod rfl _
          rw [mul_one, loop, declaredLength, digitsAt_of_digit head digit]
          simp [readDecimal, readFrom, digitValue]
        rw [valueEq]
        refine .decoded id (.positive ?_ terminator) ?_ ?_
        · simp [digitsAt_of_digit head digit]
        · simp only [behindDigits]
          omega
        · exact Nat.succ_le_succ (behindDigits_le reach)
      · simp only [terminator, if_false, ok_bind]
        refine .rejected id ?_ rfl
        rintro value q (⟨sign, _⟩ | ⟨_, terminator'⟩)
        · exact notSign sign
        · exact terminator terminator'

end Integers

/-! ## Objects -/

section Objects

variable {addr : Nat} {buf : Bytes}

/-- An object ends as its body does, when the two have the same hazards and what the
object denotes is built from what the body denotes. -/
private theorem Outcome.build {α β : Type} {p p' : Nat} {hazard hazard' : Prop}
    {denotes : α → Nat → Prop} {denotes' : β → Nat → Prop}
    {first : Except Fault (Option α × Bbuf)}
    {next : Option α × Bbuf → Except Fault (Option β × Bbuf)}
    (body : Outcome addr buf p' hazard denotes first) (later : p ≤ p') (make : α → β)
    (harm : hazard' ↔ hazard)
    (text : ∀ obj q, denotes' obj q ↔ ∃ value, obj = make value ∧ denotes value q)
    (made : ∀ value b, next (some value, b) = .ok (some (make value), b))
    (refused : ∀ b, next (none, b) = .ok (none, b)) :
    Outcome addr buf p hazard' denotes' (first >>= next) := by
  cases body with
  | spoiled met broken =>
      refine .spoiled (harm.mpr met) (spoiled_bind broken ?_)
      intro value b cut
      cases value with
      | none =>
          rw [refused]
          exact cut
      | some value =>
          rw [made]
          exact cut
  | decoded clean denoted forward reach =>
      rw [ok_bind, made]
      exact .decoded (mt harm.mp clean) ((text _ _).mpr ⟨_, rfl, denoted⟩)
        (Nat.lt_of_le_of_lt later forward) reach
  | rejected clean nothing exact =>
      rw [ok_bind, refused]
      refine .rejected (mt harm.mp clean) ?_ exact
      intro obj q denoted
      rcases (text obj q).mp denoted with ⟨value, _, denotedBody⟩
      exact nothing value q denotedBody

mutual
/-- `bdec_mem` is spoiled exactly by a hazard, and otherwise ends with what
the datagram denotes. -/
theorem bdecMem_outcome (fuel p : Nat) (placed : addr + buf.length < 2 ^ 63)
    (enough : 2 * (nulAt buf + 1 - p) < fuel) :
    Outcome addr buf p (Hazard addr buf p) (Denotes buf p) (bdecMem fuel (cursor addr buf p)) := by
  cases fuel with
  | zero => omega
  | succ fuel =>
      by_cases outside : nulAt buf < p
      · refine .spoiled (.behind outside) ?_
        simp only [bdecMem, cursor_deref_behind outside, error_bind]
        trivial
      have inside := Nat.not_lt.mp outside
      rcases exists_charAt inside with ⟨char, head⟩
      simp only [bdecMem, cursor_deref inside head, ok_bind]
      by_cases isInt : char = chr 'i'
      · subst isInt
        rw [if_pos rfl]
        have below := lt_nulAt inside head (by decide)
        have body := bencIntDecode_outcome addr fuel below (by omega)
        have harmless : Hazard addr buf p ↔ False := iff_of_false (Hazard.not_int inside head) id
        exact body.build le_rfl Bobj.int harmless (fun obj q => denotes_int_iff head)
          (fun _ _ => rfl) fun _ => rfl
      rw [if_neg isInt]
      by_cases isList : char = chr 'l'
      · subst isList
        rw [if_pos rfl, cursor_bbufIncPtr]
        have body := bencListDecode_outcome fuel (p + 1) placed (by omega)
        have harm : Hazard addr buf p ↔ HazardList addr buf (p + 1) :=
          ⟨fun met => met.list_body inside head, .list head⟩
        exact body.build (Nat.le_succ p) (fun entries => Bobj.list entries.assigned) harm
          (fun obj q => denotes_list_iff head) (fun _ _ => rfl) fun _ => rfl
      rw [if_neg isList]
      by_cases isDict : char = chr 'd'
      · subst isDict
        rw [if_pos rfl, cursor_bbufIncPtr]
        have body := bencDictDecode_outcome fuel (p + 1) placed (by omega)
        have harm : Hazard addr buf p ↔ HazardDict addr buf (p + 1) :=
          ⟨fun met => met.dict_body inside head, .dict head⟩
        exact body.build (Nat.le_succ p) (fun entries => Bobj.dict entries.assigned) harm
          (fun obj q => denotes_dict_iff head) (fun _ _ => rfl) fun _ => rfl
      rw [if_neg isDict]
      cases digit : isDigit char with
      | true =>
          rw [if_pos rfl]
          have body := bencBstrDecode_outcome fuel placed inside (by omega)
          have harm : Hazard addr buf p ↔ HazardousString addr buf p :=
            ⟨fun met => met.bstr_body inside head digit, .bstr head digit⟩
          exact body.build le_rfl Bobj.bstr harm (fun obj q => denotes_bstr_iff head digit)
            (fun _ _ => rfl) fun _ => rfl
      | false =>
          simp only [Bool.false_eq_true, if_false]
          refine .rejected ?_ ?_ rfl
          · rintro (behind | ⟨head', digit', _⟩ | ⟨head', _⟩ | ⟨head', _⟩)
            · exact outside behind
            · rw [← Option.some.inj (head.symm.trans head'), digit] at digit'
              cases digit'
            · exact isList (Option.some.inj (head.symm.trans head'))
            · exact isDict (Option.some.inj (head.symm.trans head'))
          · rintro obj q (⟨head', _⟩ | ⟨head', digit', _⟩ | ⟨head', _⟩ | ⟨head', _⟩)
            · exact isInt (Option.some.inj (head.symm.trans head'))
            · rw [← Option.some.inj (head.symm.trans head'), digit] at digit'
              cases digit'
            · exact isList (Option.some.inj (head.symm.trans head'))
            · exact isDict (Option.some.inj (head.symm.trans head'))

theorem bencListDecode_outcome (fuel p : Nat) (placed : addr + buf.length < 2 ^ 63)
    (enough : 2 * (nulAt buf + 1 - p) + 1 < fuel) :
    Outcome addr buf p (HazardList addr buf p) (DenotesList buf p)
      (bencListDecode fuel (cursor addr buf p)) := by
  cases fuel with
  | zero => omega
  | succ fuel =>
      by_cases outside : nulAt buf < p
      · refine .spoiled (.behind outside) ?_
        simp only [bencListDecode, cursor_deref_behind outside, error_bind]
        trivial
      have inside := Nat.not_lt.mp outside
      rcases exists_charAt inside with ⟨char, head⟩
      simp only [bencListDecode, cursor_deref inside head, ok_bind]
      by_cases isEnd : char = chr 'e'
      · subst isEnd
        rw [if_pos rfl, cursor_bbufIncPtr]
        refine .decoded ?_ (.nil head) (by omega) (by omega)
        rintro (behind | ⟨more, _⟩ | ⟨more, _, _⟩)
        · exact outside behind
        · exact more head
        · exact more head
      have more : charAt buf p ≠ some (chr 'e') := by
        rw [head]
        exact fun equal => isEnd (Option.some.inj equal)
      rw [if_neg isEnd]
      have first := bdecMem_outcome fuel p placed (by omega)
      generalize bdecMem fuel (cursor addr buf p) = result at first
      cases first with
      | spoiled met broken =>
          refine .spoiled (.elem more met) (spoiled_bind broken ?_)
          intro value b cut
          cases value with
          | none => exact cut
          | some elem =>
              apply spoiled_bind (bencListDecode_sticky fuel cut)
              intro value b cut
              cases value <;> exact cut
      | rejected clean nothing exact =>
          refine .rejected ?_ ?_ exact
          · rintro (behind | ⟨_, met⟩ | ⟨_, first, _⟩)
            · exact outside behind
            · exact clean met
            · exact nothing _ _ first
          · rintro entries q (terminator | ⟨_, first, _⟩)
            · exact more terminator
            · exact nothing _ _ first
      | decoded clean denoted forward reach =>
          rename_i elem q
          simp only [ok_bind]
          have rest := bencListDecode_outcome fuel q placed (by omega)
          have harm : HazardList addr buf p ↔ HazardList addr buf q := by
            constructor
            · intro met
              by_contra clean'
              exact HazardList.not_cons inside clean denoted clean' met
            · exact .next more denoted
          exact rest.build (Nat.le_of_lt forward) (BencList.entry elem) harm
            (fun entries r => denotesList_cons_iff more denoted) (fun _ _ => rfl) fun _ => rfl

theorem bencDictDecode_outcome (fuel p : Nat) (placed : addr + buf.length < 2 ^ 63)
    (enough : 2 * (nulAt buf + 1 - p) + 1 < fuel) :
    Outcome addr buf p (HazardDict addr buf p) (DenotesDict buf p)
      (bencDictDecode fuel (cursor addr buf p)) := by
  cases fuel with
  | zero => omega
  | succ fuel =>
      by_cases outside : nulAt buf < p
      · refine .spoiled (.behind outside) ?_
        simp only [bencDictDecode, cursor_deref_behind outside, error_bind]
        trivial
      have inside := Nat.not_lt.mp outside
      rcases exists_charAt inside with ⟨char, head⟩
      simp only [bencDictDecode, cursor_deref inside head, ok_bind]
      by_cases isEnd : char = chr 'e'
      · subst isEnd
        rw [if_pos rfl, cursor_bbufIncPtr]
        refine .decoded ?_ (.nil head) (by omega) (by omega)
        rintro (behind | ⟨more, _⟩ | ⟨more, _, _⟩ | ⟨more, _, _, _⟩)
        · exact outside behind
        · exact more head
        · exact more head
        · exact more head
      have more : charAt buf p ≠ some (chr 'e') := by
        rw [head]
        exact fun equal => isEnd (Option.some.inj equal)
      rw [if_neg isEnd]
      have name := bencBstrDecode_outcome fuel placed inside (by omega)
      generalize bencBstrDecode fuel (cursor addr buf p) = result at name
      cases name with
      | spoiled met broken =>
          refine .spoiled (.key more met) (spoiled_bind broken ?_)
          intro value b cut
          cases value with
          | none => exact cut
          | some key =>
              apply spoiled_bind (bdecMem_sticky fuel cut)
              intro value b cut
              cases value with
              | none => exact cut
              | some val =>
                  apply spoiled_bind (bencDictDecode_sticky fuel cut)
                  intro value b cut
                  cases value <;> exact cut
      | rejected clean nothing exact =>
          refine .rejected ?_ ?_ exact
          · rintro (behind | ⟨_, met⟩ | ⟨_, name, _⟩ | ⟨_, name, _, _⟩)
            · exact outside behind
            · exact clean met
            · exact nothing _ _ name
            · exact nothing _ _ name
          · rintro entries q (terminator | ⟨_, name, _, _⟩)
            · exact more terminator
            · exact nothing _ _ name
      | decoded clean denoted forward reach =>
          rename_i key q
          simp only [ok_bind]
          have value := bdecMem_outcome fuel q placed (by omega)
          generalize bdecMem fuel (cursor addr buf q) = result at value
          cases value with
          | spoiled met broken =>
              refine .spoiled (.val more denoted met) (spoiled_bind broken ?_)
              intro value b cut
              cases value with
              | none => exact cut
              | some val =>
                  apply spoiled_bind (bencDictDecode_sticky fuel cut)
                  intro value b cut
                  cases value <;> exact cut
          | rejected clean' nothing exact =>
              refine .rejected ?_ ?_ exact
              · rintro (behind | ⟨_, met⟩ | ⟨_, name, met⟩ | ⟨_, name, value, _⟩)
                · exact outside behind
                · exact clean met
                · rcases denoted.unique name with ⟨rfl, rfl⟩
                  exact clean' met
                · rcases denoted.unique name with ⟨rfl, rfl⟩
                  exact nothing _ _ value
              · rintro entries r (terminator | ⟨_, name, value, _⟩)
                · exact more terminator
                · rcases denoted.unique name with ⟨rfl, rfl⟩
                  exact nothing _ _ value
          | decoded clean' denoted' forward' reach' =>
              rename_i val r
              simp only [ok_bind]
              have rest := bencDictDecode_outcome fuel r placed (by omega)
              have harm : HazardDict addr buf p ↔ HazardDict addr buf r := by
                constructor
                · intro met
                  by_contra clean''
                  exact HazardDict.not_cons inside clean denoted clean' denoted' clean'' met
                · exact .next more denoted denoted'
              exact rest.build (Nat.le_of_lt (forward.trans forward')) (BencDict.entry key val) harm
                (fun entries s => denotesDict_cons_iff more denoted denoted') (fun _ _ => rfl)
                fun _ => rfl
end

end Objects

end Dnsp2p.Benc
