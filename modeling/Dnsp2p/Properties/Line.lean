import Dnsp2p.Fault
import Dnsp2p.Library.Bytes
import Mathlib.Data.List.DropRight

/-!
# Lines of a properties file

The parser of one line works in the buffer that `fgets` filled, and writes to it.
Its loops test characters only, and a NUL is neither white space nor `=`, so that they
may pass the end of the string.  What a line denotes on its own is defined apart from
the buffer.
-/

namespace Dnsp2p.Properties

/-! ## The buffer -/

/-- A byte of the buffer; absent as long as it is indeterminate. -/
abbrev Cell := Option UInt8

/-- A `char` buffer of some size. -/
structure Line (size : Nat) where
  cells : List Cell
  length_eq : cells.length = size

/-- `isspace` in the C locale. -/
def isSpace (c : UInt8) : Bool :=
  c = 32 || (9 ≤ c && c ≤ 13)

/-- `'='`. -/
abbrev equals : UInt8 := 61

/-- `';'`. -/
abbrev semicolon : UInt8 := 59

/-- The test of the loop that passes a key. -/
def inKey (c : UInt8) : Bool :=
  !isSpace c && c ≠ equals

/-- `while( test(*p) ) p++`: the number of steps from the head of some cells. -/
def span (test : UInt8 → Bool) : List Cell → Except Fault Nat
  | [] => .error .outOfBounds
  | none :: _ => .error .unassigned
  | some c :: rest =>
      if test c then do
        let steps ← span test rest
        .ok (steps + 1)
      else .ok 0

/-- The C string at the head of some cells. -/
def cString : List Cell → Except Fault Bytes
  | [] => .error .outOfBounds
  | none :: _ => .error .unassigned
  | some c :: rest =>
      if c = 0 then .ok []
      else do
        let text ← cString rest
        .ok (c :: text)

namespace Line

variable {size : Nat}

/-- `*p`. -/
def read (line : Line size) (p : Nat) : Except Fault UInt8 :=
  match line.cells[p]? with
  | none => .error .outOfBounds
  | some none => .error .unassigned
  | some (some c) => .ok c

/-- `*p = c`, for a byte that was read. -/
def write (line : Line size) (p : Nat) (c : UInt8) : Line size :=
  ⟨line.cells.set p (some c), by simp [line.length_eq]⟩

/-- A loop that passes characters, from a position on. -/
def skip (line : Line size) (test : UInt8 → Bool) (p : Nat) : Except Fault Nat := do
  let steps ← span test (line.cells.drop p)
  .ok (p + steps)

/-- The writes of `while( isspace(*value) ) { *value++ = 0; }`. -/
def clear (line : Line size) (p : Nat) : Nat → Line size
  | 0 => line
  | steps + 1 => (line.write p 0).clear (p + 1) steps

/-- `while( end > value && isspace(*end) ) end--`: the length that is left of a value. -/
def trimmed (line : Line size) (value : Nat) : Nat → Except Fault Nat
  | 0 => .ok 0
  | 1 => .ok 1
  | length + 2 => do
      let c ← line.read (value + (length + 1))
      if isSpace c then line.trimmed value (length + 1) else .ok (length + 2)

end Line

/-! ## The parser -/

section Parser

-- whether `evhttp_add_header` takes a key and a value
variable (accepts : Bytes → Bytes → Bool) {size : Nat}

/-- `properties_parse_line` from the test for an equals sign on. -/
def parseValue (line : Line size) (key value : Nat) :
    Except Fault (Line size × Option (Bytes × Bytes)) := do
  if (← line.read value) ≠ equals then .ok (line, none)
  else do
    let line := line.write value 0
    let value ← line.skip isSpace (value + 1)
    let length ← line.trimmed value (← cString (line.cells.drop value)).length
    let line := line.write (value + length) 0
    let keyText ← cString (line.cells.drop key)
    let valueText ← cString (line.cells.drop value)
    if keyText ≠ [] ∧ valueText ≠ [] ∧ accepts keyText valueText then
      .ok (line, some (keyText, valueText))
    else .ok (line, none)

/-- `properties_parse_line`: the buffer afterwards, and the pair that was added. -/
def propertiesParseLine (line : Line size) : Except Fault (Line size × Option (Bytes × Bytes)) := do
  let key ← line.skip isSpace 0
  if (← line.read key) = semicolon then .ok (line, none)
  else do
    let gap ← line.skip inKey key
    let value ← line.skip isSpace gap
    parseValue accepts (line.clear gap (value - gap)) key value

/-- The pair of a key and the text behind it: white space, an equals sign, and a value
with white space around it. -/
def pairOf (key tail : Bytes) : Option (Bytes × Bytes) :=
  match tail with
  | [] => none
  | c :: rest =>
      let value := (rest.dropWhile isSpace).rdropWhile isSpace
      if c = equals ∧ key ≠ [] ∧ value ≠ [] ∧ accepts key value then some (key, value) else none

/-- The pair that a line denotes: behind white space no comment, but a key and what
makes a pair of it. -/
def denotes (line : Bytes) : Option (Bytes × Bytes) :=
  let text := line.dropWhile isSpace
  if text.head? = some semicolon then none
  else pairOf accepts (text.takeWhile inKey) ((text.dropWhile inKey).dropWhile isSpace)

end Parser

/-- The loops stop inside a string: behind white space stands the mark of a comment, or
something that ends a key. -/
def Delimited (piece : Bytes) : Prop :=
  let text := piece.dropWhile isSpace
  text.head? = some semicolon ∨ ∃ c ∈ text, inKey c = false

/-! ## Loops over cells -/

theorem span_append {test : UInt8 → Bool} {seg : Bytes} {stop : UInt8} (all : ∀ c ∈ seg, test c)
    (stops : test stop = false) (rest : List Cell) :
    span test (seg.map some ++ some stop :: rest) = .ok seg.length := by
  induction seg with
  | nil => simp [span, stops]
  | cons c seg ih =>
      have here : test c := all c List.mem_cons_self
      have there := ih fun c mem => all c (List.mem_cons_of_mem _ mem)
      simp [span, here, there]

/-- A loop that does not stop in front of what is unknown faults there. -/
theorem span_error {test : UInt8 → Bool} {seg : Bytes} {rest : List Cell} (all : ∀ c ∈ seg, test c)
    (unknown : ∀ cell ∈ rest.head?, cell = none) :
    ∃ fault, span test (seg.map some ++ rest) = .error fault := by
  induction seg with
  | nil =>
      cases rest with
      | nil => exact ⟨_, rfl⟩
      | cons cell rest =>
          cases unknown cell rfl
          exact ⟨_, rfl⟩
  | cons c seg ih =>
      have here : test c := all c List.mem_cons_self
      rcases ih fun c mem => all c (List.mem_cons_of_mem _ mem) with ⟨fault, there⟩
      exact ⟨fault, by simp [span, here, there]⟩

theorem cString_append {text : Bytes} (clean : 0 ∉ text) (rest : List Cell) :
    cString (text.map some ++ some 0 :: rest) = .ok text := by
  induction text with
  | nil => simp [cString]
  | cons c text ih =>
      have here : c ≠ 0 := fun zero => clean (zero ▸ List.mem_cons_self)
      have there := ih fun mem => clean (List.mem_cons_of_mem _ mem)
      simp [cString, here, there]

namespace Line

variable {size : Nat} {line : Line size} {front : List Cell} {p : Nat}

theorem skip_eq {test : UInt8 → Bool} {seg : Bytes} {stop : UInt8} {rest : List Cell}
    (shape : line.cells = front ++ (seg.map some ++ some stop :: rest)) (here : p = front.length)
    (all : ∀ c ∈ seg, test c) (stops : test stop = false) :
    line.skip test p = .ok (p + seg.length) := by
  rw [skip, shape, here, List.drop_left, span_append all stops]
  rfl

theorem read_eq {c : UInt8} {rest : List Cell} (shape : line.cells = front ++ some c :: rest)
    (here : p = front.length) : line.read p = .ok c := by
  simp [read, shape, here]

theorem write_cells {c : UInt8} {rest : List Cell}
    (shape : line.cells = front ++ some c :: rest) (here : p = front.length) (c' : UInt8) :
    (line.write p c').cells = front ++ some c' :: rest := by
  simp [write, shape, here]

theorem clear_cells {seg : Bytes} {rest : List Cell}
    (shape : line.cells = front ++ (seg.map some ++ rest)) (here : p = front.length) :
    (line.clear p seg.length).cells = front ++ (List.replicate seg.length (some 0) ++ rest) := by
  induction seg generalizing line front p with
  | nil => simpa [clear] using shape
  | cons c seg ih =>
      have written := write_cells shape here 0
      have next := @ih (line.write p 0) (front ++ [some 0]) (p + 1) (by simpa using written)
        (by simp [here])
      simpa [clear, List.replicate_succ] using next

/-- The trailing white space of a value that does not begin with white space. -/
theorem trimmed_eq {text : Bytes} {rest : List Cell}
    (shape : line.cells = front ++ (text.map some ++ rest)) (here : p = front.length)
    (starts : ∀ c ∈ text.head?, isSpace c = false) :
    line.trimmed p text.length = .ok (text.rdropWhile isSpace).length := by
  induction text using List.reverseRecOn generalizing rest with
  | nil => rfl
  | append_singleton text last ih =>
      cases text with
      | nil =>
          have solid : isSpace last = false := starts last rfl
          simp [trimmed, List.rdropWhile_singleton, solid]
      | cons first text =>
          have before : line.cells = front ++
              ((first :: text).map some ++ (some last :: rest)) := by
            rw [shape]
            simp
          have there : line.read (p + (text.length + 1)) = .ok last := by
            have shape' : line.cells =
                (front ++ (first :: text).map some) ++ some last :: rest := by
              rw [before, List.append_assoc]
            exact read_eq shape' (by simp [here])
          have shorter := ih before starts
          have length : (first :: text ++ [last]).length = text.length + 2 := by simp
          rw [length, trimmed, there, ok_bind]
          by_cases space : isSpace last = true
          · rw [if_pos space, List.rdropWhile_concat_pos _ _ _ space]
            exact shorter
          · rw [if_neg space, List.rdropWhile_concat_neg _ _ _ space, length]

/-! ### Strings in the buffer -/

section Strings

variable {text : Bytes} {rest : List Cell}

/-- A string stands in the buffer behind some cells. -/
def Holds (line : Line size) (p : Nat) (text : Bytes) (rest : List Cell) : Prop :=
  ∃ front, line.cells = front ++ (text.map some ++ some 0 :: rest) ∧ p = front.length

theorem Holds.read (holds : line.Holds p text rest) : line.read p = .ok (text.headD 0) := by
  rcases holds with ⟨front, shape, here⟩
  cases text with
  | nil =>
      have first : line.cells = front ++ some 0 :: rest := shape
      exact read_eq first here
  | cons c text =>
      have first : line.cells = front ++ some c :: (text.map some ++ some 0 :: rest) := shape
      exact read_eq first here

theorem Holds.string (holds : line.Holds p text rest) (clean : 0 ∉ text) :
    cString (line.cells.drop p) = .ok text := by
  rcases holds with ⟨front, shape, here⟩
  rw [shape, here, List.drop_left, cString_append clean]

/-- Behind the string stands the rest. -/
theorem Holds.drop (holds : line.Holds p text rest) :
    line.cells.drop (p + text.length + 1) = rest := by
  rcases holds with ⟨front, shape, rfl⟩
  rw [shape]
  simp [← List.drop_drop]

/-- Behind a part of a string stands the other part. -/
theorem Holds.append {seg : Bytes} (holds : line.Holds p (seg ++ text) rest) :
    line.Holds (p + seg.length) text rest := by
  rcases holds with ⟨front, shape, here⟩
  refine ⟨front ++ seg.map some, ?_, by simp [here]⟩
  rw [shape]
  simp

/-- A loop that ends at a NUL, or at a character of the string, ends in the string. -/
theorem Holds.skip {test : UInt8 → Bool} (ends : test 0 = false ∨ ∃ c ∈ text, test c = false)
    (holds : line.Holds p text rest) :
    line.skip test p = .ok (p + (text.takeWhile test).length) ∧
      line.Holds (p + (text.takeWhile test).length) (text.dropWhile test) rest := by
  constructor
  · rcases holds with ⟨front, shape, here⟩
    have all : ∀ c ∈ text.takeWhile test, test c := fun c mem => List.mem_takeWhile_imp mem
    rw [← List.takeWhile_append_dropWhile (p := test) (l := text)] at shape
    have stops := List.head?_dropWhile_not test text
    cases after : text.dropWhile test with
    | nil =>
        rw [after, List.append_nil] at shape
        rcases ends with zero | ⟨c, mem, stop⟩
        · exact skip_eq shape here all zero
        · have passed := List.dropWhile_eq_nil_iff.mp after c mem
          rw [stop] at passed
          cases passed
    | cons c after' =>
        rw [after] at shape stops
        have parts : line.cells = front ++ ((text.takeWhile test).map some ++
            some c :: (after'.map some ++ some 0 :: rest)) := by
          simpa using shape
        exact skip_eq parts here all stops
  · apply Holds.append
    rw [List.takeWhile_append_dropWhile]
    exact holds

theorem Holds.trimmed (holds : line.Holds p text rest)
    (starts : ∀ c ∈ text.head?, isSpace c = false) :
    line.trimmed p text.length = .ok (text.rdropWhile isSpace).length := by
  rcases holds with ⟨front, shape, here⟩
  exact trimmed_eq shape here starts

/-- A NUL in a string ends it. -/
theorem Holds.terminate {seg : Bytes} (holds : line.Holds p (seg ++ text) rest) :
    ∃ rest', (line.write (p + seg.length) 0).Holds p seg rest' := by
  rcases holds with ⟨front, shape, here⟩
  have place : p + seg.length = (front ++ seg.map some).length := by simp [here]
  cases text with
  | nil =>
      have parts : line.cells = (front ++ seg.map some) ++ some 0 :: rest := by simp [shape]
      refine ⟨rest, front, ?_, here⟩
      rw [write_cells parts place]
      simp
  | cons c text =>
      have parts : line.cells =
          (front ++ seg.map some) ++ some c :: (text.map some ++ some 0 :: rest) := by
        simp [shape]
      refine ⟨text.map some ++ some 0 :: rest, front, ?_, here⟩
      rw [write_cells parts place]
      simp

/-- A write changes nothing behind it. -/
theorem drop_write {k : Nat} (before : p < k) (c : UInt8) :
    (line.write p c).cells.drop k = line.cells.drop k :=
  List.drop_set_of_lt before

/-- A write changes nothing in front of it. -/
theorem prefix_write (before : front <+: line.cells) (behind : front.length ≤ p) (c : UInt8) :
    front <+: (line.write p c).cells := by
  rcases before with ⟨back, shape⟩
  refine ⟨back.set (p - front.length) (some c), ?_⟩
  change front ++ back.set (p - front.length) (some c) = line.cells.set p (some c)
  rw [← shape, List.set_append_right _ _ behind]

end Strings

end Line

/-! ## Reading a line -/

section Parser

variable {accepts : Bytes → Bytes → Bool} {size : Nat} {line : Line size} {piece : Bytes}
  {rest : List Cell}

theorem isSpace_zero : isSpace 0 = false := by
  decide

theorem inKey_zero : inKey 0 = true := by
  decide

/-- The equals sign is overwritten by the NUL that ends the key at the latest. -/
theorem equals_written {front : List Cell} {key tail : Bytes} {gap p : Nat}
    (shape : line.cells = front ++ (key.map some ++ (List.replicate gap (some 0) ++
      some equals :: (tail.map some ++ some 0 :: rest))))
    (here : p = front.length + (key.length + gap)) :
    front ++ key.map some ++ [some 0] <+: (line.write p 0).cells ∧
      (line.write p 0).Holds (p + 1) tail rest := by
  have signed : line.cells = (front ++ (key.map some ++ List.replicate gap (some 0))) ++
      some equals :: (tail.map some ++ some 0 :: rest) := by
    rw [shape]
    simp
  have place : p = (front ++ (key.map some ++ List.replicate gap (some 0))).length := by
    simp [here]
  have cells := Line.write_cells signed place 0
  constructor
  · rw [cells]
    cases gap with
    | zero => exact ⟨tail.map some ++ some 0 :: rest, by simp⟩
    | succ gap =>
        refine ⟨List.replicate gap (some 0) ++ some 0 :: (tail.map some ++ some 0 :: rest), ?_⟩
        simp [List.replicate_succ]
  · refine ⟨front ++ (key.map some ++ List.replicate gap (some 0)) ++ [some 0], ?_, ?_⟩
    · rw [cells]
      simp
    · rw [here]
      simp
      omega

/-- The value behind a key is found and cut off behind its last character, which leaves
the key as it is. -/
theorem value_cut {front : List Cell} {key tail text value : Bytes} {p : Nat} (cleanKey : 0 ∉ key)
    (cleanTail : 0 ∉ tail) (keyEnds : front ++ key.map some ++ [some 0] <+: line.cells)
    (behind : front.length + key.length < p) (holds : line.Holds p tail rest)
    (stripped : tail.dropWhile isSpace = text) (trimmed : text.rdropWhile isSpace = value) :
    ∃ place, place + value.length ≤ p + tail.length ∧ line.skip isSpace p = .ok place ∧
      cString (line.cells.drop place) = .ok text ∧
      line.trimmed place text.length = .ok value.length ∧
      cString ((line.write (place + value.length) 0).cells.drop front.length) = .ok key ∧
      cString ((line.write (place + value.length) 0).cells.drop place) = .ok value := by
  rcases holds.skip (.inl isSpace_zero) with ⟨skipped, holdsValue⟩
  rw [stripped] at holdsValue
  have cleanValue : 0 ∉ text := fun mem =>
    cleanTail ((List.dropWhile_suffix isSpace).subset (stripped ▸ mem))
  have starts : ∀ c ∈ text.head?, isSpace c = false := by
    intro c first
    have stops := List.head?_dropWhile_not isSpace tail
    rw [stripped, Option.mem_def.mp first] at stops
    exact stops
  have measured := holdsValue.trimmed starts
  rw [trimmed] at measured
  refine ⟨_, ?_, skipped, holdsValue.string cleanValue, measured, ?_, ?_⟩
  · have lengths :=
      congrArg List.length (List.takeWhile_append_dropWhile (p := isSpace) (l := tail))
    have shorter := (List.rdropWhile_prefix isSpace text).length_le
    rw [stripped, List.length_append] at lengths
    rw [trimmed] at shorter
    omega
  · have kept := Line.prefix_write keyEnds
      (p := p + (tail.takeWhile isSpace).length + value.length) (by simp; omega) 0
    rcases kept with ⟨more, cells⟩
    rw [← cells, List.append_assoc, List.append_assoc, List.drop_left]
    exact cString_append cleanKey more
  · have cleanTrimmed : 0 ∉ value := fun mem =>
      cleanValue ((List.rdropWhile_prefix _ _).subset (trimmed ▸ mem))
    have parts : value ++ text.rtakeWhile isSpace = text := by
      rw [← trimmed]
      exact List.rdropWhile_append_rtakeWhile
    rw [← parts] at holdsValue
    rcases holdsValue.terminate with ⟨rest', ended⟩
    exact ended.string cleanTrimmed

/-- The value behind a key that is followed by NULs.  Nothing is written behind the
string. -/
theorem parseValue_eq {front : List Cell} {key tail : Bytes} {gap : Nat} (cleanKey : 0 ∉ key)
    (cleanTail : 0 ∉ tail)
    (shape : line.cells = front ++ (key.map some ++ (List.replicate gap (some 0) ++
      (tail.map some ++ some 0 :: rest)))) :
    ∃ line', parseValue accepts line front.length (front.length + (key.length + gap)) =
        .ok (line', pairOf accepts key tail) ∧
      line'.cells.drop (front.length + (key.length + gap) + tail.length + 1) = rest := by
  have holds : line.Holds (front.length + (key.length + gap)) tail rest := by
    refine ⟨front ++ (key.map some ++ List.replicate gap (some 0)), ?_, by simp⟩
    rw [shape]
    simp
  have behind := holds.drop
  unfold parseValue pairOf
  rw [holds.read, ok_bind]
  cases tail with
  | nil => exact ⟨line, rfl, behind⟩
  | cons c tail =>
      by_cases sign : c = equals
      · subst sign
        rw [List.mem_cons, not_or] at cleanTail
        rcases equals_written shape rfl with ⟨keyEnds, holdsTail⟩
        rw [← Line.drop_write (p := front.length + (key.length + gap)) (by omega) 0] at behind
        generalize line.write (front.length + (key.length + gap)) 0 = line₁ at *
        rcases value_cut cleanKey cleanTail.2 keyEnds (by omega) holdsTail rfl rfl with
          ⟨place, inside, skipped, text, measured, keyHeld, valueHeld⟩
        rw [List.length_cons] at behind ⊢
        have within : place + ((tail.dropWhile isSpace).rdropWhile isSpace).length <
            front.length + (key.length + gap) + (tail.length + 1) + 1 := by omega
        rw [← Line.drop_write within 0] at behind
        have same : (equals :: tail).headD 0 = equals := rfl
        rw [if_neg (not_not.mpr same)]
        dsimp only
        rw [skipped, ok_bind, text, ok_bind, measured, ok_bind, keyHeld, ok_bind, valueHeld,
          ok_bind]
        simp only [true_and]
        split
        · exact ⟨_, rfl, behind⟩
        · exact ⟨_, rfl, behind⟩
      · have differ : (c :: tail).headD 0 ≠ equals := sign
        rw [if_pos differ]
        exact ⟨line, by simp [sign], behind⟩

/-- A string in which the loops stop is read as the line that it is, whatever stands
behind it in the buffer, and this stays as it is. -/
theorem propertiesParseLine_of_delimited (clean : 0 ∉ piece) (delimited : Delimited piece)
    (shape : line.cells = piece.map some ++ some 0 :: rest) :
    ∃ line', propertiesParseLine accepts line = .ok (line', denotes accepts piece) ∧
      line'.cells.drop (piece.length + 1) = rest := by
  have whole : line.Holds 0 piece rest := ⟨[], shape, rfl⟩
  have behind := whole.drop
  rw [Nat.zero_add] at behind
  rcases whole.skip (.inl isSpace_zero) with ⟨lead, holdsText⟩
  unfold propertiesParseLine denotes
  rw [lead, ok_bind, holdsText.read, ok_bind]
  generalize 0 + (piece.takeWhile isSpace).length = key at *
  unfold Delimited at delimited
  have cleanText : 0 ∉ piece.dropWhile isSpace := fun mem =>
    clean ((List.dropWhile_suffix isSpace).subset mem)
  generalize piece.dropWhile isSpace = text at *
  by_cases comment : text.head? = some semicolon
  · have mark : text.headD 0 = semicolon := by simp [List.headD_eq_head?_getD, comment]
    rw [if_pos mark, if_pos comment]
    exact ⟨line, rfl, behind⟩
  · have noMark : text.headD 0 ≠ semicolon := by
      cases text with
      | nil => decide
      | cons c text => simpa using comment
    rw [if_neg noMark, if_neg comment]
    -- the loop that passes the key stops in the string
    rcases holdsText.skip (.inr (delimited.resolve_left comment)) with ⟨skipped, holdsAfter⟩
    rcases holdsText with ⟨front, shapeText, rfl⟩
    rw [← List.takeWhile_append_dropWhile (p := inKey) (l := text), List.mem_append, not_or]
      at cleanText
    rw [← List.takeWhile_append_dropWhile (p := inKey) (l := text)] at shapeText
    generalize text.takeWhile inKey = word at *
    generalize text.dropWhile inKey = after at *
    rcases cleanText with ⟨cleanWord, cleanAfter⟩
    rw [skipped, ok_bind, (holdsAfter.skip (.inl isSpace_zero)).1, ok_bind, Nat.add_sub_cancel_left,
      Nat.add_assoc]
    have tail := List.takeWhile_append_dropWhile (p := isSpace) (l := after)
    have cleanTail : 0 ∉ after.dropWhile isSpace := fun mem =>
      cleanAfter ((List.dropWhile_suffix isSpace).subset mem)
    generalize after.takeWhile isSpace = gap at *
    generalize after.dropWhile isSpace = tail' at *
    subst tail
    have cleared : (line.clear (front.length + word.length) gap.length).cells =
        (front ++ word.map some) ++ (List.replicate gap.length (some 0) ++
          (tail'.map some ++ some 0 :: rest)) := by
      apply Line.clear_cells
      · simp [shapeText]
      · simp
    rw [List.append_assoc] at cleared
    have length : front.length + (word.length + gap.length) + tail'.length = piece.length := by
      have lengths := congrArg List.length (shape.symm.trans shapeText)
      simp only [List.length_append, List.length_map, List.length_cons] at lengths
      omega
    rw [← length]
    exact parseValue_eq cleanWord cleanTail cleared

/-- Else the loops pass the end of the string. -/
theorem propertiesParseLine_of_not_delimited (loose : ¬Delimited piece)
    (shape : line.cells = piece.map some ++ some 0 :: rest)
    (unknown : ∀ cell ∈ rest.head?, cell = none) :
    ∃ fault, propertiesParseLine accepts line = .error fault := by
  have whole : line.Holds 0 piece rest := ⟨[], shape, rfl⟩
  rcases whole.skip (.inl isSpace_zero) with ⟨lead, holdsText⟩
  unfold propertiesParseLine
  rw [lead, ok_bind, holdsText.read, ok_bind]
  generalize 0 + (piece.takeWhile isSpace).length = key at *
  unfold Delimited at loose
  generalize piece.dropWhile isSpace = text at *
  rcases not_or.mp loose with ⟨noComment, inside⟩
  have noMark : text.headD 0 ≠ semicolon := by
    cases text with
    | nil => decide
    | cons c text => simpa using noComment
  rw [if_neg noMark]
  rcases holdsText with ⟨front, shapeText, rfl⟩
  have all : ∀ c ∈ text ++ [0], inKey c := by
    intro c mem
    rcases List.mem_append.mp mem with inText | nul
    · by_contra stop
      exact inside ⟨c, inText, Bool.eq_false_of_not_eq_true stop⟩
    · rw [List.mem_singleton.mp nul]
      exact inKey_zero
  rcases span_error all unknown with ⟨fault, failed⟩
  refine ⟨fault, ?_⟩
  have cells : line.cells.drop front.length = (text ++ [0]).map some ++ rest := by
    rw [shapeText, List.drop_left]
    simp
  rw [Line.skip, cells, failed]
  rfl

end Parser

end Dnsp2p.Properties
