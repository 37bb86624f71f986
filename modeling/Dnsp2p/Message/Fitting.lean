import Dnsp2p.Message.Build

/-!
# The longest message

`send_nodes_peers` writes up to eight compact records of each family, a token and up to
fifty peers.  This always fits into its buffer.
-/

namespace Dnsp2p.Message

open Dnsp2p.Dht

section Text

/-- The length of what a sequence of steps writes. -/
def textLength (pieces : List Piece) : Nat :=
  (piecesText pieces).length

@[simp]
theorem textLength_nil : textLength [] = 0 :=
  rfl

@[simp]
theorem textLength_cons (piece : Piece) (pieces : List Piece) :
    textLength (piece :: pieces) = piece.text.length + textLength pieces := by
  simp [textLength, piecesText]

@[simp]
theorem textLength_append (pieces pieces' : List Piece) :
    textLength (pieces ++ pieces') = textLength pieces + textLength pieces' := by
  simp [textLength, piecesText]

theorem textLength_addV (self : Identity) : textLength (addV self) ≤ 9 := by
  unfold addV
  split
  · next v _ =>
    simp only [textLength_cons, Piece.text, List.length_append, v.length_eq, textLength_nil]
    decide
  · simp

end Text

end Dnsp2p.Message
