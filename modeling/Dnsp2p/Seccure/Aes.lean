import Dnsp2p.Library.Keystream
import Mathlib.Data.List.TakeDrop

/-!
# The stream cipher

`aes256ctr.c`: a cipher in counter mode that keeps the part of a block that it has not
used, so that text can be given to it in pieces of any length.
-/

namespace Dnsp2p.Seccure

/-- `struct aes256ctr`, with the key and the block counter of its cipher handle. -/
structure Aes256ctr where
  key : Field 32
  counter : Nat
  idx : Nat
  buf : Field 16

section Cipher

-- the cipher of libgcrypt: the block that a key makes of a counter
variable (block : Field 32 → Nat → Field 16)

/-- The bytes that the blocks of a key make in counter mode. -/
def cipherStream (key : Field 32) (pos : Nat) : UInt8 :=
  (block key (pos / 16)).bytes.getD (pos % 16) 0

/-- `gcry_cipher_encrypt` of whole blocks, from the block of the counter on. -/
def gcryCipherEncrypt (key : Field 32) (counter : Nat) (text : Bytes) : Bytes :=
  xorStream (cipherStream block key) (16 * counter) text

/-- `aes256ctr_init`, with what the allocated memory holds. -/
def aes256ctrInit (memory : Field 16) (key : Field 32) : Aes256ctr where
  key := key
  counter := 0
  idx := 16
  buf := memory

/-- The loops of `aes256ctr_enc` over a kept block: the next index, the bytes that were
combined, and the text that is left. -/
def useKept (buf : Field 16) : Nat → Bytes → Nat × Bytes × Bytes
  | idx, [] => (idx, [], [])
  | idx, char :: text =>
      if idx < 16 then
        let (next, done, left) := useKept buf (idx + 1) text
        (next, (char ^^^ buf.bytes.getD idx 0) :: done, left)
      else (idx, [], char :: text)

/-- The end of `aes256ctr_enc`: a block is made and kept for what is less than a block. -/
def encLast (ac : Aes256ctr) (text : Bytes) : Aes256ctr × Bytes :=
  if text.length ≠ 0 then
    let buf : Field 16 :=
      ⟨gcryCipherEncrypt block ac.key ac.counter (List.replicate 16 0),
        by simp [gcryCipherEncrypt]⟩
    let (idx, last, _) := useKept buf 0 text
    ({ ac with counter := ac.counter + 1, idx, buf }, last)
  else (ac, [])

/-- `aes256ctr_enc`. -/
def aes256ctrEnc (ac : Aes256ctr) (text : Bytes) : Aes256ctr × Bytes :=
  let (idx, first, text) := useKept ac.buf ac.idx text
  let fullBlocks := text.length / 16 * 16
  let middle := gcryCipherEncrypt block ac.key ac.counter (text.take fullBlocks)
  let (ac, last) := encLast block { ac with idx, counter := ac.counter + fullBlocks / 16 }
    (text.drop fullBlocks)
  (ac, first ++ middle ++ last)

/-- `aes256cprng_fillbuf`. -/
def aes256cprngFillbuf (cprng : Aes256ctr) (len : Nat) : Aes256ctr × Bytes :=
  aes256ctrEnc block cprng (List.replicate len 0)

/-- The pieces of a text, one after another. -/
def encPieces (ac : Aes256ctr) : List Bytes → Aes256ctr × Bytes
  | [] => (ac, [])
  | piece :: pieces =>
      let (ac, front) := aes256ctrEnc block ac piece
      let (ac, back) := encPieces ac pieces
      (ac, front ++ back)

/-! ## The position in the stream -/

/-- The cipher has used the stream of a key up to a position, and what it keeps is the rest of
the block there. -/
structure UsedTo (key : Field 32) (pos : Nat) (ac : Aes256ctr) : Prop where
  sameKey : ac.key = key
  idx_le : ac.idx ≤ 16
  counted : 16 * ac.counter = pos + (16 - ac.idx)
  kept : ∀ i, ac.idx ≤ i → i < 16 →
    ac.buf.bytes.getD i 0 = cipherStream block key (pos + (i - ac.idx))

variable {block} {key : Field 32}

theorem usedTo_init (memory : Field 16) : UsedTo block key 0 (aes256ctrInit memory key) where
  sameKey := rfl
  idx_le := Nat.le_refl 16
  counted := rfl
  kept _ above below := absurd above (Nat.not_le.mpr below)

/-- What is kept is combined with the text in front, up to its end or that of the text. -/
theorem useKept_spec {stream : Nat → UInt8} {buf : Field 16} {idx pos : Nat} (text : Bytes)
    (idx_le : idx ≤ 16)
    (kept : ∀ i, idx ≤ i → i < 16 → buf.bytes.getD i 0 = stream (pos + (i - idx))) :
    ∃ used next left, useKept buf idx text = (next, xorStream stream pos used, left) ∧
      text = used ++ left ∧ next = idx + used.length ∧ next ≤ 16 ∧ (left = [] ∨ next = 16) := by
  induction text generalizing idx pos with
  | nil => exact ⟨[], idx, [], rfl, rfl, rfl, idx_le, .inl rfl⟩
  | cons char text ih =>
      by_cases inside : idx < 16
      · have further : ∀ i, idx + 1 ≤ i → i < 16 →
            buf.bytes.getD i 0 = stream (pos + 1 + (i - (idx + 1))) := by
          intro i above below
          rw [kept i (by omega) below]
          congr 1
          omega
        rcases ih inside further with ⟨used, next, left, rest, split, place, bound, ends⟩
        have here := kept idx (Nat.le_refl idx) inside
        rw [Nat.sub_self, Nat.add_zero] at here
        refine ⟨char :: used, next, left, ?_, by rw [split, List.cons_append], ?_, bound, ends⟩
        · rw [useKept, if_pos inside, rest, here]
          rfl
        · rw [place, List.length_cons]
          omega
      · refine ⟨[], idx, char :: text, ?_, rfl, rfl, idx_le, .inr (by omega)⟩
        rw [useKept, if_neg inside]
        rfl

/-- The block that is kept next. -/
theorem getD_gcryCipherEncrypt (key : Field 32) (counter : Nat) {i : Nat} (inside : i < 16) :
    (gcryCipherEncrypt block key counter (List.replicate 16 0)).getD i 0 =
      cipherStream block key (16 * counter + i) := by
  rw [gcryCipherEncrypt, xorStream_zeros, List.getD_eq_getElem?_getD, List.getElem?_map,
    List.getElem?_range inside]
  rfl

/-- Less than a block of text is combined with the next part of the stream. -/
theorem encLast_spec {ac : Aes256ctr} {pos : Nat} (used : UsedTo block key pos ac) {text : Bytes}
    (short : text.length < 16) (boundary : text = [] ∨ ac.idx = 16) :
    UsedTo block key (pos + text.length) (encLast block ac text).1 ∧
      (encLast block ac text).2 = xorStream (cipherStream block key) pos text := by
  by_cases nothing : text = []
  · subst nothing
    exact ⟨used, rfl⟩
  · have full := boundary.resolve_left nothing
    have some : text.length ≠ 0 := by simpa using nothing
    have counted := used.counted
    rw [full, Nat.sub_self, Nat.add_zero] at counted
    rw [encLast, if_pos some]
    generalize isBuf : (⟨gcryCipherEncrypt block ac.key ac.counter (List.replicate 16 0), _⟩ :
      Field 16) = buf
    have kept : ∀ i, i < 16 → buf.bytes.getD i 0 = cipherStream block key (pos + i) := by
      intro i inside
      rw [← isBuf, getD_gcryCipherEncrypt _ _ inside, used.sameKey, counted]
    rcases useKept_spec text (Nat.zero_le 16) (fun i _ inside => kept i inside) with
      ⟨front, next, left, loop, split, place, next_le, ends⟩
    have room := congrArg List.length split
    rw [List.length_append] at room
    have rest : left = [] := by
      rcases ends with none | full
      · exact none
      · omega
    subst rest
    rw [List.append_nil] at split
    subst split
    dsimp only
    rw [loop]
    refine ⟨⟨used.sameKey, next_le, ?_, ?_⟩, rfl⟩
    · dsimp only
      omega
    · intro i above below
      rw [kept i below]
      congr 1
      dsimp only at above ⊢
      omega

/-- A piece of text is combined with the next part of the stream, whatever came before. -/
theorem aes256ctrEnc_spec {ac : Aes256ctr} {pos : Nat} (used : UsedTo block key pos ac)
    (text : Bytes) :
    UsedTo block key (pos + text.length) (aes256ctrEnc block ac text).1 ∧
      (aes256ctrEnc block ac text).2 = xorStream (cipherStream block key) pos text := by
  rcases useKept_spec text used.idx_le used.kept with
    ⟨front, next, left, loop, split, place, next_le, ends⟩
  have whole := List.take_append_drop (left.length / 16 * 16) left
  have wholeLength : (left.take (left.length / 16 * 16)).length = left.length / 16 * 16 := by
    rw [List.length_take]
    omega
  have lastLength : (left.drop (left.length / 16 * 16)).length < 16 := by
    rw [List.length_drop]
    omega
  have counted := used.counted
  -- the state in front of what is less than a block
  have before : UsedTo block key (pos + front.length + left.length / 16 * 16)
      { ac with idx := next, counter := ac.counter + left.length / 16 * 16 / 16 } := by
    refine ⟨used.sameKey, next_le, ?_, ?_⟩
    · dsimp only
      rcases ends with rfl | full
      · rw [List.length_nil]
        omega
      · omega
    · intro i above below
      dsimp only at above ⊢
      rw [used.kept i (by omega) below]
      congr 1
      rcases ends with rfl | full
      · rw [List.length_nil]
        omega
      · omega
  have atEnd : left.drop (left.length / 16 * 16) = [] ∨ next = 16 := by
    rcases ends with rfl | full
    · exact .inl List.drop_nil
    · exact .inr full
  rcases encLast_spec before lastLength atEnd with ⟨after, last⟩
  have middle : gcryCipherEncrypt block ac.key ac.counter (left.take (left.length / 16 * 16)) =
      xorStream (cipherStream block key) (pos + front.length)
        (left.take (left.length / 16 * 16)) := by
    rw [gcryCipherEncrypt, used.sameKey]
    rcases ends with rfl | full
    · rw [List.take_nil]
      rfl
    · congr 1
      omega
  have total : pos + text.length = pos + front.length + left.length / 16 * 16 +
      (left.drop (left.length / 16 * 16)).length := by
    rw [split, List.length_append, List.length_drop]
    omega
  rw [aes256ctrEnc, loop]
  dsimp only
  rw [last, middle, total]
  refine ⟨after, ?_⟩
  calc
    xorStream (cipherStream block key) pos front ++
          xorStream (cipherStream block key) (pos + front.length)
            (left.take (left.length / 16 * 16)) ++
          xorStream (cipherStream block key) (pos + front.length + left.length / 16 * 16)
            (left.drop (left.length / 16 * 16)) =
        xorStream (cipherStream block key) pos front ++
          xorStream (cipherStream block key) (pos + front.length)
            (left.take (left.length / 16 * 16) ++ left.drop (left.length / 16 * 16)) := by
      rw [List.append_assoc, xorStream_append, wholeLength]
    _ = xorStream (cipherStream block key) pos text := by
      rw [whole, split, xorStream_append]

/-- Pieces are combined with the stream as their whole would be. -/
theorem encPieces_spec {ac : Aes256ctr} {pos : Nat} (used : UsedTo block key pos ac)
    (pieces : List Bytes) :
    UsedTo block key (pos + pieces.flatten.length) (encPieces block ac pieces).1 ∧
      (encPieces block ac pieces).2 =
        xorStream (cipherStream block key) pos pieces.flatten := by
  induction pieces generalizing ac pos with
  | nil => exact ⟨used, rfl⟩
  | cons piece pieces ih =>
      rcases aes256ctrEnc_spec used piece with ⟨next, front⟩
      rcases ih next with ⟨last, back⟩
      rw [List.flatten_cons, List.length_append, ← Nat.add_assoc, xorStream_append]
      refine ⟨last, ?_⟩
      rw [← front, ← back]
      rfl

/-- What was enciphered in pieces is deciphered with the same key in pieces of any other
lengths, whatever the memory held. -/
theorem encPieces_encPieces (memory memory' : Field 16) {pieces pieces' : List Bytes}
    (sent : pieces'.flatten = (encPieces block (aes256ctrInit memory key) pieces).2) :
    (encPieces block (aes256ctrInit memory' key) pieces').2 = pieces.flatten := by
  have start (held : Field 16) : UsedTo block key 0 (aes256ctrInit held key) := usedTo_init held
  have enciphered := (encPieces_spec (start memory) pieces).2
  have deciphered := (encPieces_spec (start memory') pieces').2
  rw [deciphered, sent, enciphered, xorStream_xorStream]

/-- Twenty bytes, enciphered in pieces of seven and thirteen and deciphered in pieces of nineteen
and one. -/
theorem encPieces_encPieces_twenty :
    let block : Field 32 → Nat → Field 16 := fun key counter =>
      ⟨(key.bytes.take 16).map fun byte => byte + UInt8.ofNat counter,
        by rw [List.length_map, List.length_take, key.length_eq]; rfl⟩
    let key : Field 32 := ⟨(List.range 32).map UInt8.ofNat, rfl⟩
    let text : Bytes := (List.range 20).map UInt8.ofNat
    let cipher := (encPieces block (aes256ctrInit (.zero 16) key) [text.take 7, text.drop 7]).2
    (encPieces block (aes256ctrInit (.zero 16) key) [cipher.take 19, cipher.drop 19]).2 = text := by
  intro block key text cipher
  have joined : [cipher.take 19, cipher.drop 19].flatten = cipher := by
    rw [List.flatten_cons, List.flatten_singleton, List.take_append_drop]
  have deciphered := encPieces_encPieces (.zero 16) (.zero 16) joined
  rwa [List.flatten_cons, List.flatten_singleton, List.take_append_drop] at deciphered

/-- The random bytes are the next part of the stream. -/
theorem aes256cprngFillbuf_spec {cprng : Aes256ctr} {pos : Nat} (used : UsedTo block key pos cprng)
    (len : Nat) :
    UsedTo block key (pos + len) (aes256cprngFillbuf block cprng len).1 ∧
      (aes256cprngFillbuf block cprng len).2 =
        (List.range len).map fun i => cipherStream block key (pos + i) := by
  have spec := aes256ctrEnc_spec used (List.replicate len 0)
  rwa [List.length_replicate, xorStream_zeros] at spec

end Cipher

end Dnsp2p.Seccure
