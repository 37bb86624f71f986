import Dnsp2p.Library.Place

/-!
# Records in a block of memory

A block that starts with records of one size, one behind the other, as a program keeps
a sorted array: the records behind a place are moved up by one record and a new one is
written there, so that the last one falls off when the block is full.
-/

namespace Dnsp2p

universe u

variable {α : Type u}

/-- `memmove` inside one block; `none` when it leaves the block. -/
def memmove (block : List α) (dst src count : Nat) : Option (List α) :=
  if dst + count ≤ block.length ∧ src + count ≤ block.length then
    some (block.take dst ++ (block.drop src).take count ++ block.drop (dst + count))
  else none

/-- `memcpy` of other memory into a block; `none` when it leaves the block. -/
def memcpy (block : List α) (dst : Nat) (data : List α) : Option (List α) :=
  if dst + data.length ≤ block.length then
    some (block.take dst ++ data ++ block.drop (dst + data.length))
  else none

/-! ## Copying -/

/-- A copy over what lies between two parts of a block. -/
theorem memcpy_between (front back : List α) {old data : List α}
    (sameLength : data.length = old.length) :
    memcpy (front ++ old ++ back) front.length data = some (front ++ data ++ back) := by
  have place : (front ++ old ++ back).drop (front.length + data.length) = back := by
    rw [sameLength, ← List.length_append]
    exact List.drop_left
  have before : (front ++ old ++ back).take front.length = front := by
    rw [List.append_assoc]
    exact List.take_left
  rw [memcpy, if_pos, place, before]
  simp [sameLength]

/-- Two copies one behind the other are one copy. -/
theorem memcpy_memcpy (block first second : List α) (dst : Nat) :
    ((memcpy block dst first).bind fun block => memcpy block (dst + first.length) second) =
      memcpy block dst (first ++ second) := by
  simp only [memcpy, List.length_append]
  by_cases fits : dst + (first.length + second.length) ≤ block.length
  · have here : (block.take dst ++ first).length = dst + first.length := by
      rw [List.length_append, List.length_take]
      omega
    have rest : (block.drop (dst + first.length)).length = block.length - (dst + first.length) :=
      List.length_drop
    rw [if_pos (by omega), if_pos fits, Option.bind_some, List.length_append, here, rest,
      if_pos (by omega), ← here, List.take_left, List.drop_length_add_append, here, List.drop_drop,
      Nat.add_assoc, List.append_assoc _ first second]
  · rw [if_neg fits]
    split
    · rw [Option.bind_some, if_neg]
      simp only [List.length_append, List.length_take, List.length_drop]
      omega
    · rfl

/-- A part of a block is moved up over the part behind it. -/
theorem memmove_up (front middle : List α) {back : List α} {size : Nat}
    (room : size ≤ back.length) :
    memmove (front ++ (middle ++ back)) (front.length + size) front.length middle.length =
      some (front ++ ((middle ++ back).take size ++ (middle ++ back.drop size))) := by
  have fits : front.length + size + middle.length ≤ (front ++ (middle ++ back)).length ∧
      front.length + middle.length ≤ (front ++ (middle ++ back)).length := by
    simp only [List.length_append]
    omega
  rw [memmove, if_pos fits, List.take_length_add_append, List.drop_left, List.take_left,
    Nat.add_assoc, List.drop_length_add_append, Nat.add_comm, List.drop_length_add_append]
  simp only [List.append_assoc]

/-- A move of nothing changes nothing. -/
theorem memmove_nothing {block block' : List α} {dst src : Nat}
    (moved : memmove block dst src 0 = some block') : block' = block := by
  unfold memmove at moved
  split at moved
  · simpa using (Option.some.inj moved).symm
  · cases moved

/-! ## Records -/

/-- A block of `most` records of a size starts with the given records. -/
structure Records (size most : Nat) (block : List α) (records : List (List α)) : Prop where
  sizes : ∀ record ∈ records, record.length = size
  length : block.length = size * most
  starts : records.flatten <+: block

namespace Records

variable {size most : Nat} {block : List α} {records : List (List α)}

theorem length_flatten {records : List (List α)}
    (sizes : ∀ record ∈ records, record.length = size) :
    records.flatten.length = size * records.length := by
  induction records with
  | nil => rfl
  | cons record records ih =>
      rw [List.forall_mem_cons] at sizes
      rw [List.flatten_cons, List.length_append, sizes.1, ih sizes.2, List.length_cons,
        Nat.mul_succ, Nat.add_comm]

/-- A fresh block. -/
theorem empty (length : block.length = size * most) : Records size most block [] where
  sizes := by simp
  length := length
  starts := List.nil_prefix

/-- The records are the first part of the block. -/
theorem take (holds : Records size most block records) :
    block.take (records.length * size) = records.flatten := by
  have length := length_flatten holds.sizes
  rw [Nat.mul_comm] at length
  rw [← length]
  exact (List.prefix_iff_eq_take.mp holds.starts).symm

/-- A record at a place starts what lies from there on. -/
theorem drop {front back : List (List α)} {record : List α}
    (holds : Records size most block (front ++ record :: back)) :
    record <+: block.drop (size * front.length) := by
  have length := length_flatten fun record mem =>
    holds.sizes record (List.mem_append_left _ mem)
  rcases holds.starts with ⟨rest, rfl⟩
  rw [← length, List.flatten_append, List.flatten_cons, List.append_assoc, List.drop_left,
    List.append_assoc]
  exact List.prefix_append _ _

/-- A record is written over another one. -/
theorem overwrite {front back : List (List α)} {old new : List α}
    (holds : Records size most block (front ++ old :: back)) (newSize : new.length = size) :
    ∃ block', memcpy block (size * front.length) new = some block' ∧
      Records size most block' (front ++ new :: back) := by
  have length := length_flatten fun record mem =>
    holds.sizes record (List.mem_append_left _ mem)
  have oldSize := holds.sizes old (by simp)
  rcases holds with ⟨sizes, total, rest, rfl⟩
  have copied := memcpy_between front.flatten (back.flatten ++ rest)
    (newSize.trans oldSize.symm)
  rw [length] at copied
  refine ⟨front.flatten ++ new ++ (back.flatten ++ rest), ?_, ?_, ?_, ?_⟩
  · rw [← copied]
    simp
  · intro record mem
    rw [List.mem_append, List.mem_cons] at mem
    rcases mem with inFront | rfl | inBack
    · exact sizes record (by simp [inFront])
    · exact newSize
    · exact sizes record (by simp [inBack])
  · rw [← total]
    simp [oldSize, newSize]
  · exact ⟨rest, by simp⟩

/-- The first records are records of the block too. -/
theorem of_prefix {fewer : List (List α)} (holds : Records size most block records)
    (isPrefix : fewer <+: records) : Records size most block fewer where
  sizes := fun record mem => holds.sizes record (isPrefix.subset mem)
  length := holds.length
  starts := by
    rcases isPrefix with ⟨rest, rfl⟩
    refine List.IsPrefix.trans ?_ holds.starts
    rw [List.flatten_append]
    exact List.prefix_append _ _

/-- The records behind a place are moved up by one, when there is room behind them. -/
theorem moveUp {front back : List (List α)} (holds : Records size most block (front ++ back))
    (room : front.length + back.length < most) :
    ∃ block' old, memmove block (size * (front.length + 1)) (size * front.length)
        (size * back.length) = some block' ∧
      Records size most block' (front ++ old :: back) := by
  have sizesFront : ∀ record ∈ front, record.length = size := fun record mem =>
    holds.sizes record (List.mem_append_left _ mem)
  have sizesBack : ∀ record ∈ back, record.length = size := fun record mem =>
    holds.sizes record (List.mem_append_right _ mem)
  have lengthFront := length_flatten sizesFront
  have lengthBack := length_flatten sizesBack
  rcases holds with ⟨_, total, rest, rfl⟩
  have enough : size * (front.length + back.length + 1) ≤ size * most :=
    Nat.mul_le_mul_left size room
  have lengthRest : size ≤ rest.length := by
    simp only [List.length_append, List.flatten_append, lengthFront, lengthBack] at total
    rw [Nat.mul_add, Nat.mul_add, Nat.mul_one] at enough
    omega
  have lengthOld : ((back.flatten ++ rest).take size).length = size := by
    rw [List.length_take, List.length_append]
    omega
  have moved := memmove_up front.flatten back.flatten lengthRest
  rw [lengthFront, lengthBack] at moved
  refine ⟨front.flatten ++ ((back.flatten ++ rest).take size ++ (back.flatten ++ rest.drop size)),
    (back.flatten ++ rest).take size, ?_, ?_, ?_, rest.drop size, ?_⟩
  · rw [List.flatten_append, List.append_assoc, Nat.mul_succ]
    exact moved
  · intro record mem
    rw [List.mem_append, List.mem_cons] at mem
    rcases mem with inFront | rfl | inBack
    · exact sizesFront record inFront
    · exact lengthOld
    · exact sizesBack record inBack
  · simp only [List.length_append, List.flatten_append, lengthOld, List.length_drop] at total ⊢
    omega
  · simp only [List.flatten_append, List.flatten_cons, List.append_assoc]

/-- A record is inserted at a place; the last one makes room for it when the block is full. -/
theorem insert {front back : List (List α)} {new : List α}
    (holds : Records size most block (front ++ back)) (bounded : (front ++ back).length ≤ most)
    (inside : front.length < most) (newSize : new.length = size) {count : Nat}
    (counted : count = min most ((front ++ back).length + 1)) :
    ∃ moved block', (if front.length < count - 1 then
          memmove block (size * (front.length + 1)) (size * front.length)
            (size * (count - front.length - 1))
        else some block) = some moved ∧
      memcpy moved (size * front.length) new = some block' ∧
      Records size most block' ((front ++ new :: back).take most) ∧
      count = ((front ++ new :: back).take most).length := by
  rw [List.length_append] at bounded counted
  have result : (front ++ new :: back).take most =
      front ++ new :: back.take (most - 1 - front.length) := by
    obtain ⟨left, rfl⟩ : ∃ left, most = front.length + (left + 1) :=
      ⟨most - front.length - 1, by omega⟩
    rw [List.take_length_add_append, List.take_succ_cons]
    congr 3
    omega
  have lengthKept : (back.take (most - 1 - front.length)).length = count - front.length - 1 := by
    rw [List.length_take]
    omega
  have fewer : Records size most block (front ++ back.take (most - 1 - front.length)) :=
    holds.of_prefix (List.prefix_append_right_inj _ |>.mpr (List.take_prefix _ _))
  rw [result]
  -- what is left of the records behind the place
  generalize back.take (most - 1 - front.length) = kept at *
  rcases fewer.moveUp (by omega) with ⟨moved, old, ran, shifted⟩
  rcases shifted.overwrite newSize with ⟨block', copied, stored⟩
  have length : count = (front ++ new :: kept).length := by
    rw [List.length_append, List.length_cons]
    omega
  by_cases behind : front.length < count - 1
  · rw [if_pos behind, ← lengthKept]
    exact ⟨moved, block', ran, copied, stored, length⟩
  · have none : kept = [] := List.length_eq_zero_iff.mp (by omega)
    subst none
    cases memmove_nothing ran
    rw [if_neg behind]
    exact ⟨block, block', rfl, copied, stored, length⟩

end Records

end Dnsp2p
