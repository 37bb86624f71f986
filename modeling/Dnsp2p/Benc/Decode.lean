import Dnsp2p.Benc.Object

/-!
# The bencode decoder

`bdec_mem` and the functions it recurses through, over a `bbuf_t` whose `base`
points to an allocation that may be shorter than the declared length.  Every
`*(b->ptr)` and every `memcpy` is checked against the allocation.  `size_t` and
pointer arithmetic is modulo `2^64`; the ghost field `wrapped` remembers that a
string length, or the address behind a string, was cut by it.  A decoder leaves
behind its result, if it succeeded, and the buffer.

The recursion takes fuel; `Dnsp2p.Benc.fuelFor` is shown to suffice.
-/

namespace Dnsp2p.Benc

/-- `2^64`, the modulus of `size_t` and of addresses. -/
abbrev sizeMod : Nat := 2 ^ 64

/-- `bbuf_t`: `mem` is the allocation behind `base`, `addr` its address, and
`ptr` the distance from `base`. -/
structure Bbuf where
  mem : Bytes
  addr : Nat
  len : Nat
  ptr : Nat
  wrapped : Bool
  deriving DecidableEq

/-- `bbuf_new(len, base)` for a `base` that is not NULL. -/
def bbufNew (addr len : Nat) (mem : Bytes) : Bbuf :=
  { mem, addr, len, ptr := 0, wrapped := false }

namespace Bbuf

/-- `*(b->ptr)`. -/
def deref (b : Bbuf) : Except Fault UInt8 :=
  match b.mem[b.ptr]? with
  | some char => .ok char
  | none => .error .outOfBounds

/-- `b->ptr` moved forward. -/
def advance (b : Bbuf) (count : Nat) : Bbuf :=
  { b with ptr := b.ptr + count }

/-- Remember that an address or a length was cut. -/
def note (b : Bbuf) (cut : Bool) : Bbuf :=
  { b with wrapped := b.wrapped || cut }

/-- The source of `memcpy(…, b->ptr, len)`. -/
def memcpy (b : Bbuf) (len : Nat) : Except Fault Bytes :=
  if b.ptr + len ≤ b.mem.length then .ok ((b.mem.drop b.ptr).take len)
  else .error .outOfBounds

end Bbuf

/-- `bbuf_inc_ptr`. -/
def bbufIncPtr (b : Bbuf) : Bool × Bbuf :=
  (decide (b.ptr + 1 ≤ b.len), b.advance 1)

/-- `(char) - '0'`. -/
def digitValue (char : UInt8) : Nat :=
  char.toNat - 48

/-- The value of a character constant. -/
abbrev chr (char : Char) : UInt8 :=
  UInt8.ofNat char.toNat

/-! ## Byte strings -/

/-- `benc_bstr_new(len, NULL)`: no block is allocated for length zero, and
`malloc` refuses a block of half the address space. -/
def bencBstrNew (len : Nat) : Option Nat :=
  if 0 < len ∧ len < 2 ^ 63 then some len else none

/-- The `do … while` loop of `benc_bstr_decode`; `none` when it ends at an
unexpected character or at the end of the buffer. -/
def bencBstrLength : Nat → Nat → Bbuf → Except Fault (Option Nat × Bbuf)
  | 0, _, _ => .error .nonterminating
  | fuel + 1, len, b => do
      let char ← b.deref
      if isDigit char then
        let exact := len * 10 + digitValue char
        let moved := bbufIncPtr (b.note (sizeMod ≤ exact))
        if moved.1 then bencBstrLength fuel (exact % sizeMod) moved.2
        else .ok (none, moved.2)
      else if char = chr ':' then
        .ok (some len, b)
      else
        .ok (none, b)

/-- `benc_bstr_decode` from `found_separator` on. -/
def bencBstrBody (len : Nat) (b : Bbuf) : Except Fault (Option Bytes × Bbuf) :=
  let b := (bbufIncPtr b).2
  let b := b.note (sizeMod ≤ b.addr + b.ptr + len)
  if (b.addr + b.len) % sizeMod < (b.addr + b.ptr + len) % sizeMod then
    .ok (none, b)
  else
    match bencBstrNew len with
    | none => .error .nullPointer
    | some size => do
        let bytes ← b.memcpy size
        .ok (some bytes, b.advance len)

/-- `benc_bstr_decode`. -/
def bencBstrDecode (fuel : Nat) (b : Bbuf) : Except Fault (Option Bytes × Bbuf) := do
  match ← bencBstrLength fuel 0 b with
  | (none, b) => .ok (none, b)
  | (some len, b) => bencBstrBody len b

/-! ## Integers -/

/-- The value of a `benc_int_t` expression. -/
def wrapInt (value : Int) : Int :=
  Int.bmod value sizeMod

/-- The `while` loop of `benc_int_decode`, with `*i_p` so far. -/
def bencIntDigits : Nat → Int → Bbuf → Except Fault (Option Int × Bbuf)
  | 0, _, _ => .error .nonterminating
  | fuel + 1, total, b =>
      let moved := bbufIncPtr b
      if moved.1 then do
        let char ← moved.2.deref
        if isDigit char then
          bencIntDigits fuel (wrapInt (wrapInt (total * 10) + digitValue char)) moved.2
        else if char = chr 'e' then
          .ok (some total, (bbufIncPtr moved.2).2)
        else
          .ok (none, moved.2)
      else
        .ok (none, moved.2)

/-- `benc_int_decode`. -/
def bencIntDecode (fuel : Nat) (b : Bbuf) : Except Fault (Option Int × Bbuf) := do
  let b := (bbufIncPtr b).2
  let char ← b.deref
  if char = chr '-' then
    match ← bencIntDigits fuel 0 b with
    | (none, b) => .ok (none, b)
    | (some total, b) => .ok (some (wrapInt (total * -1)), b)
  else if isDigit char then
    match ← bencIntDigits fuel (digitValue char) b with
    | (none, b) => .ok (none, b)
    | (some total, b) => .ok (some (wrapInt (total * 1)), b)
  else
    .ok (none, b)

/-! ## Objects, lists and dictionaries -/

mutual
/-- `bdec_mem`. -/
def bdecMem : Nat → Bbuf → Except Fault (Option Bobj × Bbuf)
  | 0, _ => .error .nonterminating
  | fuel + 1, b => do
      let char ← b.deref
      if char = chr 'i' then
        match ← bencIntDecode fuel b with
        | (some value, b) => .ok (some (.int value), b)
        | (none, b) => .ok (none, b)
      else if char = chr 'l' then
        match ← bencListDecode fuel (bbufIncPtr b).2 with
        | (some entries, b) => .ok (some (.list entries.assigned), b)
        | (none, b) => .ok (none, b)
      else if char = chr 'd' then
        match ← bencDictDecode fuel (bbufIncPtr b).2 with
        | (some entries, b) => .ok (some (.dict entries.assigned), b)
        | (none, b) => .ok (none, b)
      else if isDigit char then
        match ← bencBstrDecode fuel b with
        | (some bytes, b) => .ok (some (.bstr bytes), b)
        | (none, b) => .ok (none, b)
      else
        .ok (none, b)

/-- The `while` loop of `benc_list_decode`: the entries linked from here on. -/
def bencListDecode : Nat → Bbuf → Except Fault (Option BencList × Bbuf)
  | 0, _ => .error .nonterminating
  | fuel + 1, b => do
      let char ← b.deref
      if char = chr 'e' then
        .ok (some .null, (bbufIncPtr b).2)
      else
        match ← bdecMem fuel b with
        | (none, b) => .ok (none, b)
        | (some elem, b) =>
            match ← bencListDecode fuel b with
            | (none, b) => .ok (none, b)
            | (some next, b) => .ok (some (.entry elem next), b)

/-- The `while` loop of `benc_dict_decode`: the entries linked from here on. -/
def bencDictDecode : Nat → Bbuf → Except Fault (Option BencDict × Bbuf)
  | 0, _ => .error .nonterminating
  | fuel + 1, b => do
      let char ← b.deref
      if char = chr 'e' then
        .ok (some .null, (bbufIncPtr b).2)
      else
        match ← bencBstrDecode fuel b with
        | (none, b) => .ok (none, b)
        | (some key, b) =>
            match ← bdecMem fuel b with
            | (none, b) => .ok (none, b)
            | (some val, b) =>
                match ← bencDictDecode fuel b with
                | (none, b) => .ok (none, b)
                | (some next, b) => .ok (some (.entry key val next), b)
end

/-- Fuel that covers an allocation of this size. -/
def fuelFor (size : Nat) : Nat :=
  2 * size + 4

end Dnsp2p.Benc
