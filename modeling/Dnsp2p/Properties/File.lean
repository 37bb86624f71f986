import Dnsp2p.Properties.Line

/-!
# Properties files

`fgets` cuts a file into pieces: its lines, and those that do not fit into the buffer
once more.  Each piece is read as a line, in a buffer that still holds what earlier
pieces left behind the end of the string.
-/

namespace Dnsp2p.Properties

/-! ## Reading a file -/

/-- `'\\n'`. -/
abbrev newline : UInt8 := 10

/-- What `fgets` takes from a file when it has room for so many bytes, and what it
leaves. -/
def cut : Nat → Bytes → Bytes × Bytes
  | 0, file => ([], file)
  | _ + 1, [] => ([], [])
  | room + 1, c :: file =>
      if c = newline then ([c], file)
      else
        let (piece, rest) := cut room file
        (c :: piece, rest)

/-- Cells that are written from the start of a buffer on. -/
def overwrite : List Cell → List Cell → List Cell
  | [], cells => cells
  | _, [] => []
  | cell :: new, _ :: cells => cell :: overwrite new cells

theorem length_overwrite (new cells : List Cell) : (overwrite new cells).length = cells.length := by
  induction new generalizing cells with
  | nil => rfl
  | cons cell new ih =>
      cases cells with
      | nil => rfl
      | cons old cells => simp [overwrite, ih]

/-- `sizeof(line)`. -/
abbrev lineSize : Nat := 1024

namespace Line

/-- The bytes of a piece and a NUL are stored. -/
def store (line : Line lineSize) (piece : Bytes) : Line lineSize :=
  ⟨overwrite (piece.map some ++ [some 0]) line.cells, by rw [length_overwrite, line.length_eq]⟩

end Line

section Parser

variable (accepts : Bytes → Bytes → Bool)

end Parser

/-! ## Lines and pieces -/

/-- The lines of a file, each with the newline that ends it. -/
def rawLines : Bytes → List Bytes
  | [] => []
  | c :: file =>
      if c = newline then [c] :: rawLines file
      else match rawLines file with
        | [] => [[c]]
        | line :: lines => (c :: line) :: lines

theorem length_cut (room : Nat) (file : Bytes) :
    (cut room file).1.length ≤ room ∧
      (cut room file).1.length + (cut room file).2.length = file.length := by
  induction file generalizing room with
  | nil => cases room <;> simp [cut]
  | cons c file ih =>
      cases room with
      | zero => simp [cut]
      | succ room =>
          unfold cut
          split
          · simp [Nat.add_comm]
          · have shorter := ih room
            simp only [List.length_cons]
            omega

theorem cut_nonempty {file : Bytes} (some : file ≠ []) {room : Nat} (space : 0 < room) :
    0 < (cut room file).1.length := by
  cases file with
  | nil => exact absurd rfl some
  | cons c file =>
      cases room with
      | zero => omega
      | succ room =>
          unfold cut
          split <;> simp

/-- The pieces that `fgets` cuts a text into. -/
def pieces (file : Bytes) : List Bytes :=
  if some : file = [] then []
  else (cut (lineSize - 1) file).1 :: pieces (cut (lineSize - 1) file).2
termination_by file.length
decreasing_by
  have shorter := (length_cut (lineSize - 1) file).2
  have nonempty : 0 < (cut (lineSize - 1) file).1.length := cut_nonempty some (by decide)
  omega

theorem pieces_nil : pieces [] = [] := by
  rw [pieces]
  simp

theorem pieces_of_ne_nil {file : Bytes} (some : file ≠ []) :
    pieces file = (cut (lineSize - 1) file).1 :: pieces (cut (lineSize - 1) file).2 := by
  rw [pieces, dif_neg some]

/-- A line that fits is taken whole. -/
theorem cut_line {room : Nat} {body : Bytes} (single : newline ∉ body) (fits : body.length < room)
    (rest : Bytes) : cut room (body ++ newline :: rest) = (body ++ [newline], rest) := by
  induction body generalizing room with
  | nil =>
      cases room with
      | zero => cases fits
      | succ room => simp [cut]
  | cons c body ih =>
      cases room with
      | zero => cases fits
      | succ room =>
          have differ : c ≠ newline := fun same => single (same ▸ List.mem_cons_self)
          have next := ih (fun mem => single (List.mem_cons_of_mem _ mem))
            (Nat.lt_of_succ_lt_succ fits)
          simp [cut, differ, next]

theorem cut_all {room : Nat} {body : Bytes} (single : newline ∉ body) (fits : body.length ≤ room) :
    cut room body = (body, []) := by
  induction body generalizing room with
  | nil => cases room <;> rfl
  | cons c body ih =>
      cases room with
      | zero => cases fits
      | succ room =>
          have differ : c ≠ newline := fun same => single (same ▸ List.mem_cons_self)
          have next := ih (fun mem => single (List.mem_cons_of_mem _ mem))
            (Nat.le_of_succ_le_succ fits)
          simp [cut, differ, next]

theorem rawLines_line {body : Bytes} (single : newline ∉ body) (rest : Bytes) :
    rawLines (body ++ newline :: rest) = (body ++ [newline]) :: rawLines rest := by
  induction body with
  | nil => simp [rawLines]
  | cons c body ih =>
      have differ : c ≠ newline := fun same => single (same ▸ List.mem_cons_self)
      have next := ih fun mem => single (List.mem_cons_of_mem _ mem)
      simp [rawLines, differ, next]

theorem rawLines_last {body : Bytes} (single : newline ∉ body) (some : body ≠ []) :
    rawLines body = [body] := by
  induction body with
  | nil => exact absurd rfl some
  | cons c body ih =>
      have differ : c ≠ newline := fun same => single (same ▸ List.mem_cons_self)
      cases body with
      | nil => simp [rawLines, differ]
      | cons c' body =>
          have next := ih (fun mem => single (List.mem_cons_of_mem _ mem)) (by simp)
          rw [rawLines, if_neg differ, next]

/-- A line has no newline but at its end, and is a part of the file. -/
theorem mem_rawLines {file line : Bytes} (mem : line ∈ rawLines file) :
    line ≠ [] ∧ newline ∉ line.dropLast ∧ ∀ c ∈ line, c ∈ file := by
  induction length : file.length using Nat.strong_induction_on generalizing file with
  | _ n ih =>
      by_cases lines : newline ∈ file
      · rcases List.eq_append_cons_of_mem lines with ⟨body, rest, rfl, single⟩
        rw [rawLines_line single] at mem
        rcases List.mem_cons.mp mem with rfl | mem
        · refine ⟨by simp, by simpa using single, fun c inside => ?_⟩
          rcases List.mem_append.mp inside with here | last
          · exact List.mem_append_left _ here
          · rw [List.mem_singleton.mp last]
            exact lines
        · rcases ih rest.length (by rw [← length]; simp; omega) mem rfl with ⟨some, one, inside⟩
          exact ⟨some, one, fun c here =>
            List.mem_append_right _ (List.mem_cons_of_mem _ (inside c here))⟩
      · by_cases some : file = []
        · subst some
          cases mem
        · rw [rawLines_last lines some, List.mem_singleton] at mem
          subst mem
          exact ⟨some, fun here => lines ((List.dropLast_prefix _).subset here), fun _ here => here⟩

section Exactly

variable (accepts : Bytes → Bytes → Bool)

/-- The loops stop in each piece of a line, and the pieces denote what the line does. -/
structure Readable (line : Bytes) : Prop where
  delimited : ∀ piece ∈ pieces line, Delimited piece
  together : (pieces line).filterMap (denotes accepts) = (denotes accepts line).toList

variable {accepts}

/-- A line that fits into the buffer is its only piece. -/
theorem readable_iff_delimited {file line : Bytes} (mem : line ∈ rawLines file)
    (fits : line.length < lineSize) : Readable accepts line ↔ Delimited line := by
  rcases mem_rawLines mem with ⟨some, single, _⟩
  have whole : cut (lineSize - 1) line = (line, []) := by
    rw [← List.dropLast_append_getLast some] at fits ⊢
    simp only [List.length_append, List.length_singleton, lineSize] at fits
    by_cases ended : line.getLast some = newline
    · rw [ended, cut_line single (by simp only [lineSize]; omega)]
    · apply cut_all
      · simp only [List.mem_append, List.mem_singleton, not_or]
        exact ⟨single, Ne.symm ended⟩
      · simp only [List.length_append, List.length_singleton, lineSize]
        omega
  have only : pieces line = [line] := by
    rw [pieces_of_ne_nil some, whole, pieces_nil]
  constructor
  · intro readable
    exact readable.delimited line (by simp [only])
  · intro delimited
    constructor
    · intro piece mem
      rw [only, List.mem_singleton] at mem
      exact mem ▸ delimited
    · rw [only]
      cases pair : denotes accepts line <;> simp [pair]

end Exactly

/-- `evhttp_add_header` takes text without line breaks. -/
def plain (_ _ : Bytes) : Bool :=
  true

end Dnsp2p.Properties
