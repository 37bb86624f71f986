import Dnsp2p.Benc.Safety
import Dnsp2p.Message.Parse

/-!
# The decoding stage of a datagram

`strdup`, `bbuf_new` and `bdec_mem` on a received datagram, and the
`dht_message_free` that follows when the message is refused.  The stage is
sound on exactly the datagrams that meet no `Hazard` and whose objects, unless
they are accepted as messages, have all their heads.
-/

namespace Dnsp2p.Message

open Dnsp2p.Benc

section Datagram

variable {addr : Nat} {buf : Bytes}

/-- The decoder starts at the head of the copy. -/
theorem copyAndDecode_eq_bdecMem :
    copyAndDecode addr buf = bdecMem (fuelFor buf.length) (cursor addr buf 0) := by
  rw [copyAndDecode, strdup_append_nul]
  rfl

/-- The three ways in which the decoding of a datagram can end. -/
theorem copyAndDecode_outcome (placed : addr + buf.length < 2 ^ 63) :
    Outcome addr buf 0 (Hazard addr buf 0) (Denotes buf 0) (copyAndDecode addr buf) := by
  rw [copyAndDecode_eq_bdecMem]
  apply bdecMem_outcome _ _ placed
  have bound := nulAt_le_length buf
  unfold fuelFor
  omega

/-- A datagram without a hazard decodes to what it denotes. -/
theorem copyAndDecode_of_denotes (placed : addr + buf.length < 2 ^ 63)
    (clean : ¬ Hazard addr buf 0) {obj : Bobj} {q : Nat} (denoted : Denotes buf 0 obj q) :
    copyAndDecode addr buf = .ok (some obj, cursor addr buf q) := by
  have outcome := copyAndDecode_outcome placed
  generalize copyAndDecode addr buf = result at outcome
  cases outcome with
  | spoiled met => exact absurd met clean
  | decoded _ denoted' =>
      rcases denoted.unique denoted' with ⟨rfl, rfl⟩
      rfl
  | rejected _ nothing => exact absurd denoted (nothing _ _)

/-- Whatever is decoded was denoted, in front of the end of the copy, unless a
length was cut. -/
theorem denotes_of_copyAndDecode (placed : addr + buf.length < 2 ^ 63) {obj : Bobj} {b : Bbuf}
    (decoded : copyAndDecode addr buf = .ok (some obj, b)) (exact : b.wrapped = false) :
    ¬ Hazard addr buf 0 ∧ ∃ q, Denotes buf 0 obj q ∧ q ≤ nulAt buf + 1 := by
  have outcome := copyAndDecode_outcome placed
  rw [decoded] at outcome
  cases outcome with
  | spoiled _ broken =>
      simp only [Spoiled, exact] at broken
      cases broken
  | decoded clean denoted _ inside => exact ⟨clean, _, denoted, inside⟩

end Datagram

end Dnsp2p.Message
