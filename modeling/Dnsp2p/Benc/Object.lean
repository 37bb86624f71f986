import Dnsp2p.Fault
import Dnsp2p.Library.Bytes

/-!
# Decoded bencode objects

`bobj_t` and the two kinds of linked list it can hold.  A `malloc`ed object has
no value in its union until a decoder assigns one, and the list and dictionary
decoders assign the head only together with the first entry; `unassigned` is
the head that such a decoder leaves behind.
-/

namespace Dnsp2p.Benc

mutual
/-- `bobj_t`. -/
inductive Bobj where
  | int (value : Int)
  | bstr (bytes : Bytes)
  | list (head : BencList)
  | dict (head : BencDict)

/-- `benc_list_entry_t *`. -/
inductive BencList where
  | unassigned
  | null
  | entry (elem : Bobj) (next : BencList)

/-- `benc_dict_entry_t *`. -/
inductive BencDict where
  | unassigned
  | null
  | entry (key : Bytes) (val : Bobj) (next : BencDict)
end

deriving instance DecidableEq for Bobj, BencList, BencDict

/-- What `*head_p` holds after the list decoder linked these entries to it: an
empty sequence of entries never writes it. -/
def BencList.assigned : BencList → BencList
  | null => unassigned
  | entries => entries

/-- What `*head_p` holds after the dictionary decoder linked these entries. -/
def BencDict.assigned : BencDict → BencDict
  | null => unassigned
  | entries => entries

/-! ## Releasing an object -/

mutual
/-- `bobj_free`. -/
def bobjFree : Bobj → Except Fault Unit
  | .int _ => .ok ()
  | .bstr _ => .ok ()
  | .list head => bencListFree head
  | .dict head => bencDictFree head

/-- `benc_list_free`. -/
def bencListFree : BencList → Except Fault Unit
  | .unassigned => .error .unassigned
  | .null => .ok ()
  | .entry elem next => do
      bobjFree elem
      bencListFree next

/-- `benc_dict_free`. -/
def bencDictFree : BencDict → Except Fault Unit
  | .unassigned => .error .unassigned
  | .null => .ok ()
  | .entry _ val next => do
      bobjFree val
      bencDictFree next
end

/-! ## Dictionary lookup -/

/-- `benc_bstr_compare`: characters are signed, and the difference of the two
lengths is cut to a 32-bit `int`. -/
def bencBstrCompare (left right : Bytes) : Int :=
  go left right
where
  /-- The loop over the common prefix. -/
  go : Bytes → Bytes → Int
    | char :: rest, char' :: rest' =>
        if char = char' then go rest rest'
        else (char.toInt8.toInt : Int) - char'.toInt8.toInt
    | _, _ => Int.bmod ((left.length : Int) - right.length) (2 ^ 32)

/-- `bobj_dict_lookup` from one entry on. -/
def bencDictLookup (key : Bytes) : BencDict → Except Fault (Option Bobj)
  | .unassigned => .error .unassigned
  | .null => .ok none
  | .entry key' val next =>
      if bencBstrCompare key key' = 0 then .ok (some val) else bencDictLookup key next

/-- `bobj_dict_lookup`: the object is taken to be a dictionary without a check
of its type. -/
def bobjDictLookup (obj : Bobj) (key : Bytes) : Except Fault (Option Bobj) :=
  match obj with
  | .dict head => bencDictLookup key head
  | _ => .error .nullPointer

private theorem int8_eq_of_toInt_eq {left right : UInt8}
    (equal : left.toInt8.toInt = right.toInt8.toInt) : left = right := by
  have bits : left.toInt8 = right.toInt8 := Int8.toInt_inj.mp equal
  simpa using congrArg Int8.toUInt8 bits

private theorem compare_go_eq_zero_iff (total total' left right : Bytes)
    (prefixLength : (total.length : Int) - total'.length = (left.length : Int) - right.length)
    (bound : left.length < 2 ^ 31) (bound' : right.length < 2 ^ 31) :
    bencBstrCompare.go total total' left right = 0 ↔ left = right := by
  induction left generalizing right with
  | nil =>
      cases right with
      | nil =>
          simp only [bencBstrCompare.go, prefixLength]
          simp
      | cons char' rest' =>
          simp only [bencBstrCompare.go, prefixLength, reduceCtorEq, iff_false]
          rw [Int.bmod_eq_of_le_mul_two] <;>
            simp only [List.length_nil, List.length_cons] at * <;> omega
  | cons char rest ih =>
      cases right with
      | nil =>
          simp only [bencBstrCompare.go, prefixLength, reduceCtorEq, iff_false]
          rw [Int.bmod_eq_of_le_mul_two] <;>
            simp only [List.length_nil, List.length_cons] at * <;> omega
      | cons char' rest' =>
          by_cases same : char = char'
          · simp only [List.length_cons] at *
            simp [bencBstrCompare.go, same, ih rest' (by omega) (by omega) (by omega)]
          · have differ : char.toInt8.toInt ≠ char'.toInt8.toInt :=
              fun equal => same (int8_eq_of_toInt_eq equal)
            simp only [bencBstrCompare.go, same, if_false, List.cons.injEq, false_and, iff_false]
            omega

/-- Below two gigabytes the comparison finds exactly the equal strings. -/
theorem bencBstrCompare_eq_zero_iff {left right : Bytes}
    (bound : left.length < 2 ^ 31) (bound' : right.length < 2 ^ 31) :
    bencBstrCompare left right = 0 ↔ left = right :=
  compare_go_eq_zero_iff left right left right rfl bound bound'

/-! ## Objects without an unassigned head -/

mutual
/-- No list or dictionary inside the object was left without a head. -/
def Bobj.HeadsAssigned : Bobj → Prop
  | .int _ => True
  | .bstr _ => True
  | .list head => head.HeadsAssigned
  | .dict head => head.HeadsAssigned

/-- The head is assigned, and so is every head below it. -/
def BencList.HeadsAssigned : BencList → Prop
  | .unassigned => False
  | .null => True
  | .entry elem next => elem.HeadsAssigned ∧ next.HeadsAssigned

/-- The head is assigned, and so is every head below it. -/
def BencDict.HeadsAssigned : BencDict → Prop
  | .unassigned => False
  | .null => True
  | .entry _ val next => val.HeadsAssigned ∧ next.HeadsAssigned
end

mutual
/-- Releasing an object goes wrong exactly at an unassigned head. -/
theorem bobjFree_eq_ok_iff (obj : Bobj) : bobjFree obj = .ok () ↔ obj.HeadsAssigned := by
  cases obj with
  | int value => simp [bobjFree, Bobj.HeadsAssigned]
  | bstr bytes => simp [bobjFree, Bobj.HeadsAssigned]
  | list head => simpa [bobjFree, Bobj.HeadsAssigned] using bencListFree_eq_ok_iff head
  | dict head => simpa [bobjFree, Bobj.HeadsAssigned] using bencDictFree_eq_ok_iff head

theorem bencListFree_eq_ok_iff (head : BencList) :
    bencListFree head = .ok () ↔ head.HeadsAssigned := by
  cases head with
  | unassigned => simp [bencListFree, BencList.HeadsAssigned]
  | null => simp [bencListFree, BencList.HeadsAssigned]
  | entry elem next =>
      simp only [bencListFree, BencList.HeadsAssigned, bind_eq_ok_iff]
      rw [← bobjFree_eq_ok_iff elem, ← bencListFree_eq_ok_iff next]
      exact ⟨fun ⟨_, first, rest⟩ => ⟨first, rest⟩, fun ⟨first, rest⟩ => ⟨(), first, rest⟩⟩

theorem bencDictFree_eq_ok_iff (head : BencDict) :
    bencDictFree head = .ok () ↔ head.HeadsAssigned := by
  cases head with
  | unassigned => simp [bencDictFree, BencDict.HeadsAssigned]
  | null => simp [bencDictFree, BencDict.HeadsAssigned]
  | entry key val next =>
      simp only [bencDictFree, BencDict.HeadsAssigned, bind_eq_ok_iff]
      rw [← bobjFree_eq_ok_iff val, ← bencDictFree_eq_ok_iff next]
      exact ⟨fun ⟨_, first, rest⟩ => ⟨first, rest⟩, fun ⟨first, rest⟩ => ⟨(), first, rest⟩⟩
end

end Dnsp2p.Benc
