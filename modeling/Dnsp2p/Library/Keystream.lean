import Dnsp2p.Library.Bytes

/-!
# Byte streams combined with exclusive or

Text is combined with an endless stream of bytes from a position on.  A piece of text
takes the next part of the stream, and combining twice gives the text back.
-/

namespace Dnsp2p

/-- Combine text with a stream from a position on. -/
def xorStream (stream : Nat → UInt8) : Nat → Bytes → Bytes
  | _, [] => []
  | pos, char :: text => (char ^^^ stream pos) :: xorStream stream (pos + 1) text

variable (stream : Nat → UInt8)

@[simp]
theorem length_xorStream (pos : Nat) (text : Bytes) :
    (xorStream stream pos text).length = text.length := by
  induction text generalizing pos with
  | nil => rfl
  | cons char text ih => rw [xorStream, List.length_cons, ih, List.length_cons]

theorem xorStream_append (pos : Nat) (front back : Bytes) :
    xorStream stream pos (front ++ back) =
      xorStream stream pos front ++ xorStream stream (pos + front.length) back := by
  induction front generalizing pos with
  | nil => rfl
  | cons char front ih =>
      rw [List.cons_append, xorStream, ih, xorStream, List.cons_append, List.length_cons,
        Nat.add_assoc, Nat.add_comm 1]

/-- Combining twice with the same part of the stream changes nothing. -/
theorem xorStream_xorStream (pos : Nat) (text : Bytes) :
    xorStream stream pos (xorStream stream pos text) = text := by
  induction text generalizing pos with
  | nil => rfl
  | cons char text ih =>
      rw [xorStream, xorStream, ih, UInt8.xor_assoc, UInt8.xor_self, UInt8.xor_zero]

/-- On zeros the stream itself comes out. -/
theorem xorStream_zeros (pos count : Nat) :
    xorStream stream pos (List.replicate count 0) =
      (List.range count).map fun i => stream (pos + i) := by
  induction count generalizing pos with
  | zero => rfl
  | succ count ih =>
      rw [List.replicate_succ, xorStream, ih, UInt8.zero_xor, List.range_succ_eq_map,
        List.map_cons, List.map_map]
      congr 1
      apply List.map_congr_left
      intro i _
      rw [Function.comp_apply, Nat.succ_eq_add_one, Nat.add_assoc, Nat.add_comm 1]

end Dnsp2p
