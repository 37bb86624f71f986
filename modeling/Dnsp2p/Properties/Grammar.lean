import Dnsp2p.Properties.Line

/-!
# The grammar of a line

What a line has to look like to be a pair of a key and a value, said without a parser,
and for which lines `properties_parse_line` recognises exactly this and looks at
nothing else in its buffer.
-/

namespace Dnsp2p.Properties

/-! ## Pairs -/

/-- `key ws* '=' ws* value ws*`. -/
structure KeyValue (text key value : Bytes) : Prop where
  key_some : key ≠ []
  key_plain : ∀ c ∈ key, inKey c
  value_some : value ≠ []
  value_first : ∀ c ∈ value.head?, isSpace c = false
  value_last : ∀ c ∈ value.getLast?, isSpace c = false
  shape : ∃ before after behind, (∀ c ∈ before ++ after ++ behind, isSpace c) ∧
    text = key ++ (before ++ equals :: (after ++ (value ++ behind)))

/-- A line is a pair when, without the white space in front, it is no comment and has the
form of a pair. -/
def IsPair (line key value : Bytes) : Prop :=
  (line.dropWhile isSpace).head? ≠ some semicolon ∧ KeyValue (line.dropWhile isSpace) key value

/-- `evhttp_add_header` appends every pair. -/
def appends (_key _value : Bytes) : Bool :=
  true

/-! ## What a line denotes -/

/-- A segment that passes a test, in front of something that does not. -/
theorem takeWhile_dropWhile_append {test : UInt8 → Bool} {seg rest : Bytes}
    (all : ∀ c ∈ seg, test c) (stops : ∀ c ∈ rest.head?, test c = false) :
    (seg ++ rest).takeWhile test = seg ∧ (seg ++ rest).dropWhile test = rest := by
  have stopped : rest.takeWhile test = [] ∧ rest.dropWhile test = rest := by
    cases rest with
    | nil => exact ⟨rfl, rfl⟩
    | cons c rest => simp [stops c rfl]
  rw [List.takeWhile_append_of_pos all, List.dropWhile_append_of_pos all, stopped.1, stopped.2]
  exact ⟨List.append_nil seg, rfl⟩

theorem isSpace_equals : isSpace equals = false := by
  decide

theorem inKey_equals : inKey equals = false := by
  decide

/-- White space ends a key. -/
theorem inKey_of_isSpace {c : UInt8} (space : isSpace c) : inKey c = false := by
  simp [inKey, space]

/-- A value without white space around it is what the trimming leaves of it. -/
theorem trim_eq {value after behind : Bytes} (some : value ≠ [])
    (first : ∀ c ∈ value.head?, isSpace c = false)
    (last : ∀ c ∈ value.getLast?, isSpace c = false)
    (spaceAfter : ∀ c ∈ after, isSpace c) (spaceBehind : ∀ c ∈ behind, isSpace c) :
    ((after ++ (value ++ behind)).dropWhile isSpace).rdropWhile isSpace = value := by
  have begins : ∀ c ∈ (value ++ behind).head?, isSpace c = false := by
    intro c head
    cases value with
    | nil => exact absurd rfl some
    | cons c' value => exact first c head
  rw [(takeWhile_dropWhile_append spaceAfter begins).2]
  rw [List.rdropWhile, List.reverse_append]
  have ends : ∀ c ∈ value.reverse.head?, isSpace c = false := by
    intro c head
    rw [List.head?_reverse] at head
    exact last c head
  rw [(takeWhile_dropWhile_append (fun c mem => spaceBehind c (List.mem_reverse.mp mem)) ends).2,
    List.reverse_reverse]

/-- The text of a pair is cut into its key and its value. -/
theorem KeyValue.pairOf_eq {text key value : Bytes} (pair : KeyValue text key value) :
    pairOf appends (text.takeWhile inKey) ((text.dropWhile inKey).dropWhile isSpace) =
      some (key, value) := by
  rcases pair.shape with ⟨before, after, behind, spaces, shape⟩
  have spaceBefore : ∀ c ∈ before, isSpace c := fun c mem => spaces c (by simp [mem])
  have spaceAfter : ∀ c ∈ after, isSpace c := fun c mem => spaces c (by simp [mem])
  have spaceBehind : ∀ c ∈ behind, isSpace c := fun c mem => spaces c (by simp [mem])
  have keyStops : ∀ c ∈ (before ++ equals :: (after ++ (value ++ behind))).head?,
      inKey c = false := by
    intro c head
    cases before with
    | nil =>
        obtain rfl : equals = c := by simpa using head
        exact inKey_equals
    | cons c' before =>
        obtain rfl : c' = c := by simpa using head
        exact inKey_of_isSpace (spaceBefore c' List.mem_cons_self)
  have gapStops : ∀ c ∈ (equals :: (after ++ (value ++ behind))).head?, isSpace c = false := by
    intro c head
    obtain rfl : equals = c := by simpa using head
    exact isSpace_equals
  rcases takeWhile_dropWhile_append pair.key_plain keyStops with ⟨taken, left⟩
  rw [shape, taken, left, (takeWhile_dropWhile_append spaceBefore gapStops).2]
  have trimmed := trim_eq pair.value_some pair.value_first pair.value_last spaceAfter spaceBehind
  simp [pairOf, trimmed, pair.key_some, pair.value_some, appends]

/-- What the parser cuts out of a text has the form of a pair. -/
theorem KeyValue.of_pairOf {text key value : Bytes}
    (pair : pairOf appends (text.takeWhile inKey) ((text.dropWhile inKey).dropWhile isSpace) =
      some (key, value)) : KeyValue text key value := by
  cases tail : (text.dropWhile inKey).dropWhile isSpace with
  | nil =>
      rw [tail] at pair
      cases pair
  | cons c rest =>
      rw [tail] at pair
      simp only [pairOf, Option.ite_none_right_eq_some, Option.some.injEq, Prod.mk.injEq] at pair
      rcases pair with ⟨⟨rfl, keySome, valueSome, _⟩, rfl, rfl⟩
      have cutValue : (rest.dropWhile isSpace).rdropWhile isSpace ++
          (rest.dropWhile isSpace).rtakeWhile isSpace = rest.dropWhile isSpace :=
        List.rdropWhile_append_rtakeWhile
      constructor
      · exact keySome
      · exact fun c mem => List.mem_takeWhile_imp mem
      · exact valueSome
      · intro c head
        have stops := List.head?_dropWhile_not isSpace rest
        rcases List.head?_eq_some_iff.mp head with ⟨others, starts⟩
        rw [← cutValue, starts] at stops
        exact stops
      · intro c last
        rw [List.getLast?_eq_some_getLast valueSome] at last
        cases last
        exact Bool.eq_false_of_not_eq_true (List.rdropWhile_last_not _ _ valueSome)
      · refine ⟨(text.dropWhile inKey).takeWhile isSpace, rest.takeWhile isSpace,
          (rest.dropWhile isSpace).rtakeWhile isSpace, ?_, ?_⟩
        · intro c mem
          rcases List.mem_append.mp mem with inFront | inBehind
          · rcases List.mem_append.mp inFront with inBefore | inAfter
            · exact List.mem_takeWhile_imp inBefore
            · exact List.mem_takeWhile_imp inAfter
          · exact List.mem_rtakeWhile_imp inBehind
        · rw [cutValue, List.takeWhile_append_dropWhile, ← tail, List.takeWhile_append_dropWhile,
            List.takeWhile_append_dropWhile]

/-- The pair that a line denotes is the one that it has the form of. -/
theorem denotes_eq_some_iff {line key value : Bytes} :
    denotes appends line = some (key, value) ↔ IsPair line key value := by
  unfold denotes IsPair
  dsimp only
  by_cases comment : (line.dropWhile isSpace).head? = some semicolon
  · simp [comment]
  · rw [if_neg comment]
    constructor
    · exact fun pair => ⟨comment, .of_pairOf pair⟩
    · exact fun pair => pair.2.pairOf_eq

/-! ## Recognition -/

/-- In every buffer, whatever stands behind the string, `properties_parse_line` does the
same: it appends the pair that the line has the form of, if there is one, and what
stands behind the string stays as it is. -/
def Recognised (line : Bytes) : Prop :=
  ∃ pair, (∀ (size : Nat) (buffer : Line size) (rest : List Cell),
      buffer.cells = line.map some ++ some 0 :: rest →
      ∃ buffer', propertiesParseLine appends buffer = .ok (buffer', pair) ∧
        buffer'.cells.drop (line.length + 1) = rest) ∧
    ∀ key value, pair = some (key, value) ↔ IsPair line key value

/-- A line is recognised as what it is exactly when the loop that passes its key ends
in it. -/
theorem recognised_iff_delimited {line : Bytes} (clean : 0 ∉ line) :
    Recognised line ↔ Delimited line := by
  constructor
  · rintro ⟨pair, reads, _⟩
    by_contra loose
    let buffer : Line (line.length + 1) := ⟨line.map some ++ [some 0], by simp⟩
    rcases reads _ buffer [] rfl with ⟨buffer', read, _⟩
    have misread : ∃ fault, propertiesParseLine appends buffer = .error fault :=
      propertiesParseLine_of_not_delimited loose rfl (by simp)
    rcases misread with ⟨fault, failed⟩
    cases read.symm.trans failed
  · intro delimited
    refine ⟨denotes appends line, ?_, fun key value => denotes_eq_some_iff⟩
    intro size buffer rest shape
    exact propertiesParseLine_of_delimited clean delimited shape

/-- A key, an equals sign and a value between white space. -/
theorem recognised_iff_delimited_pair :
    Recognised (ascii " a = b c ") ↔ Delimited (ascii " a = b c ") :=
  recognised_iff_delimited (by decide)

/-- A buffer with the line `x`, behind which stands what an earlier line left. -/
def staleBuffer : Line 6 :=
  ⟨(ascii "x").map some ++ some 0 :: (ascii "=cd").map some ++ [some 0], by decide⟩

/-- The line `x` is no pair, but a value is found behind its end, and written to. -/
theorem staleBuffer_misread :
    (∃ buffer', propertiesParseLine appends staleBuffer =
        .ok (buffer', some (ascii "x", ascii "cd")) ∧
      buffer'.cells.drop 2 ≠ staleBuffer.cells.drop 2) ∧
      ¬ IsPair (ascii "x") (ascii "x") (ascii "cd") ∧ ¬ Recognised (ascii "x") := by
  have misread : ∃ buffer', propertiesParseLine appends staleBuffer =
        .ok (buffer', some (ascii "x", ascii "cd")) ∧
      buffer'.cells.drop 2 ≠ staleBuffer.cells.drop 2 :=
    ⟨_, rfl, by decide⟩
  have noPair : ¬ IsPair (ascii "x") (ascii "x") (ascii "cd") := by
    rintro ⟨_, pair⟩
    rcases pair.shape with ⟨before, after, behind, _, shape⟩
    have sign : equals ∈ (ascii "x").dropWhile isSpace := by
      rw [shape]
      simp
    exact absurd sign (by decide)
  refine ⟨misread, noPair, ?_⟩
  rintro ⟨pair, reads, exact_pair⟩
  rcases misread with ⟨buffer', read, _⟩
  rcases reads 6 staleBuffer ((ascii "=cd").map some ++ [some 0]) (by decide) with ⟨_, same, _⟩
  cases read.symm.trans same
  exact noPair ((exact_pair _ _).mp rfl)

end Dnsp2p.Properties
