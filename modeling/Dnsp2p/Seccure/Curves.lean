import Dnsp2p.Seccure.Serialize

/-!
# Curves and points

The curves that are known by name, the lengths that are computed when one is
loaded, and the text form of a point: its first coordinate, with the modulus added
when the second one is odd.
-/

namespace Dnsp2p.Seccure

/-! ## Curves -/

/-- `struct curve`, with its hexadecimal constants; the length that is given there too
is not compiled in. -/
structure Curve where
  name : Bytes
  a : Bytes
  b : Bytes
  m : Bytes
  baseX : Bytes
  baseY : Bytes
  order : Bytes
  cofactor : Int

/-- `curves`. -/
def curves : List Curve :=
  [ { name := ascii "secp112r1"
      a := ascii "db7c2abf62e35e668076bead2088"
      b := ascii "659ef8ba043916eede8911702b22"
      m := ascii "db7c2abf62e35e668076bead208b"
      baseX := ascii "09487239995a5ee76b55f9c2f098"
      baseY := ascii "a89ce5af8724c0a23e0e0ff77500"
      order := ascii "db7c2abf62e35e7628dfac6561c5"
      cofactor := 1 },
    { name := ascii "secp128r1"
      a := ascii "fffffffdfffffffffffffffffffffffc"
      b := ascii "e87579c11079f43dd824993c2cee5ed3"
      m := ascii "fffffffdffffffffffffffffffffffff"
      baseX := ascii "161ff7528b899b2d0c28607ca52c5b86"
      baseY := ascii "cf5ac8395bafeb13c02da292dded7a83"
      order := ascii "fffffffe0000000075a30d1b9038a115"
      cofactor := 1 },
    { name := ascii "secp160r1"
      a := ascii "ffffffffffffffffffffffffffffffff7ffffffc"
      b := ascii "1c97befc54bd7a8b65acf89f81d4d4adc565fa45"
      m := ascii "ffffffffffffffffffffffffffffffff7fffffff"
      baseX := ascii "4a96b5688ef573284664698968c38bb913cbfc82"
      baseY := ascii "23a628553168947d59dcc912042351377ac5fb32"
      order := ascii "0100000000000000000001f4c8f927aed3ca752257"
      cofactor := 1 },
    { name := ascii "secp192r1/nistp192"
      a := ascii "fffffffffffffffffffffffffffffffefffffffffffffffc"
      b := ascii "64210519e59c80e70fa7e9ab72243049feb8deecc146b9b1"
      m := ascii "fffffffffffffffffffffffffffffffeffffffffffffffff"
      baseX := ascii "188da80eb03090f67cbf20eb43a18800f4ff0afd82ff1012"
      baseY := ascii "07192b95ffc8da78631011ed6b24cdd573f977a11e794811"
      order := ascii "ffffffffffffffffffffffff99def836146bc9b1b4d22831"
      cofactor := 1 },
    { name := ascii "secp224r1/nistp224"
      a := ascii "fffffffffffffffffffffffffffffffefffffffffffffffffffffffe"
      b := ascii "b4050a850c04b3abf54132565044b0b7d7bfd8ba270b39432355ffb4"
      m := ascii "ffffffffffffffffffffffffffffffff000000000000000000000001"
      baseX := ascii "b70e0cbd6bb4bf7f321390b94a03c1d356c21122343280d6115c1d21"
      baseY := ascii "bd376388b5f723fb4c22dfe6cd4375a05a07476444d5819985007e34"
      order := ascii "ffffffffffffffffffffffffffff16a2e0b8f03e13dd29455c5c2a3d"
      cofactor := 1 },
    { name := ascii "secp256r1/nistp256"
      a := ascii "ffffffff00000001000000000000000000000000fffffffffffffffffffffffc"
      b := ascii "5ac635d8aa3a93e7b3ebbd55769886bc651d06b0cc53b0f63bce3c3e27d2604b"
      m := ascii "ffffffff00000001000000000000000000000000ffffffffffffffffffffffff"
      baseX := ascii "6b17d1f2e12c4247f8bce6e563a440f277037d812deb33a0f4a13945d898c296"
      baseY := ascii "4fe342e2fe1a7f9b8ee7eb4a7c0f9e162bce33576b315ececbb6406837bf51f5"
      order := ascii "ffffffff00000000ffffffffffffffffbce6faada7179e84f3b9cac2fc632551"
      cofactor := 1 },
    { name := ascii "secp384r1/nistp384"
      a := ascii ("fffffffffffffffffffffffffffffffffffffffffffffffffffffffffffffffeffffffff" ++
        "0000000000000000fffffffc")
      b := ascii ("b3312fa7e23ee7e4988e056be3f82d19181d9c6efe8141120314088f5013875ac656398d" ++
        "8a2ed19d2a85c8edd3ec2aef")
      m := ascii ("fffffffffffffffffffffffffffffffffffffffffffffffffffffffffffffffeffffffff" ++
        "0000000000000000ffffffff")
      baseX := ascii ("aa87ca22be8b05378eb1c71ef320ad746e1d3b628ba79b9859f741e082542a385502f25d" ++
        "bf55296c3a545e3872760ab7")
      baseY := ascii ("3617de4a96262c6f5d9e98bf9292dc29f8f41dbd289a147ce9da3113b5f0b8c00a60b1ce" ++
        "1d7e819d7a431d7c90ea0e5f")
      order := ascii ("ffffffffffffffffffffffffffffffffffffffffffffffffc7634d81f4372ddf581a0db2" ++
        "48b0a77aecec196accc52973")
      cofactor := 1 },
    { name := ascii "secp521r1/nistp521"
      a := ascii ("1fffffffffffffffffffffffffffffffffffffffffffffffffffffffffffffffffffffff" ++
        "ffffffffffffffffffffffffffffffffffffffffffffffffffffffffffc")
      b := ascii ("051953eb9618e1c9a1f929a21a0b68540eea2da725b99b315f3b8b489918ef109e156193" ++
        "951ec7e937b1652c0bd3bb1bf073573df883d2c34f1ef451fd46b503f00")
      m := ascii ("1fffffffffffffffffffffffffffffffffffffffffffffffffffffffffffffffffffffff" ++
        "fffffffffffffffffffffffffffffffffffffffffffffffffffffffffff")
      baseX := ascii ("0c6858e06b70404e9cd9e3ecb662395b4429c648139053fb521f828af606b4d3dbaa14b5" ++
        "e77efe75928fe1dc127a2ffa8de3348b3c1856a429bf97e7e31c2e5bd66")
      baseY := ascii ("11839296a789a3bc0045c8a5fb42c7d1bd998f54449579b446817afbd17273e662c97ee7" ++
        "2995ef42640c550b9013fad0761353c7086a272c24088be94769fd16650")
      order := ascii ("1fffffffffffffffffffffffffffffffffffffffffffffffffffffffffffffffffa51868" ++
        "783bf2f966b7fcc0148f709a5d03bb5c9b8899c47aebb6fb71e91386409")
      cofactor := 1 } ]

/-- `struct affine_point`. -/
structure AffinePoint where
  x : Nat
  y : Nat
  deriving DecidableEq, Repr

/-- `struct domain_params`. -/
structure DomainParams where
  a : Nat
  b : Nat
  m : Nat
  order : Nat
  base : AffinePoint
  cofactor : Int
  deriving DecidableEq, Repr

/-- `struct curve_params`. -/
structure CurveParams where
  name : Bytes
  dp : DomainParams
  pkLenBin : Nat
  pkLenCompact : Nat
  sigLenBin : Nat
  sigLenCompact : Nat
  dhLenBin : Nat
  dhLenCompact : Nat
  elemLenBin : Nat
  orderLenBin : Nat
  deriving DecidableEq, Repr

/-- `SCAN`: the number of a string of hexadecimal digits. -/
def scan (text : Bytes) : Nat :=
  Numeral.number 16 0 (text.map fun char => if char < 97 then char.toNat - 48 else char.toNat - 87)

/-- `load_curve`. -/
def loadCurve (c : Curve) (df : DispFormat) : Except Fault CurveParams := do
  let m := scan c.m
  let order := scan c.order
  let h := m + m - 1
  let pkLenBin ← getSerializationLen h .bin
  let pkLenCompact ← getSerializationLen h df
  let h := order * order - 1
  let sigLenBin ← getSerializationLen h .bin
  let sigLenCompact ← getSerializationLen h df
  let dhLenBin := min 32 ((nbits order / 2 + 7) / 8)
  let dhLenCompact ← getSerializationLen (2 ^ (8 * dhLenBin) - 1) df
  let elemLenBin ← getSerializationLen m .bin
  let orderLenBin ← getSerializationLen order .bin
  .ok {
    name := c.name
    dp := {
      a := scan c.a, b := scan c.b, m, order
      base := { x := scan c.baseX, y := scan c.baseY }
      cofactor := c.cofactor }
    pkLenBin, pkLenCompact, sigLenBin, sigLenCompact, dhLenBin, dhLenCompact, elemLenBin
    orderLenBin }

/-- `strstr`: does the one string occur in the other? -/
def strstr (needle : Bytes) : Bytes → Bool
  | [] => needle.isPrefixOf []
  | c :: hay => needle.isPrefixOf (c :: hay) || strstr needle hay

/-- `curve_by_name`. -/
def curveByName (name : Bytes) (df : DispFormat) : Except Fault (Option CurveParams) :=
  match curves.find? fun c => strstr name c.name with
  | none => .ok none
  | some c => do
      let cp ← loadCurve c df
      .ok (some cp)

/-! ## Points -/

/-- `point_compress`. -/
def pointCompress (p : AffinePoint) : Bool :=
  p.y.testBit 0

namespace CurveParams

variable (cp : CurveParams)

/-- The length of a serialized point. -/
def pkLen : DispFormat → Nat
  | .bin => cp.pkLenBin
  | _ => cp.pkLenCompact

/-- The integer that `compress_to_string` serializes. -/
def compressed (p : AffinePoint) : Nat :=
  if pointCompress p then p.x + cp.dp.m else p.x

end CurveParams

/-- `compress_to_string`: the bytes that are stored in the buffer. -/
def compressToString (df : DispFormat) (p : AffinePoint) (cp : CurveParams) : Except Fault Bytes :=
  serializeMpi (cp.pkLen df) df (cp.compressed p)

/-- `decompress_from_string`, over `point_decompress`; absent when it returns 0. -/
def decompressFromString
    (pointDecompress : Nat → Bool → DomainParams → Except Fault (Option AffinePoint))
    (buf : Bytes) (df : DispFormat) (cp : CurveParams) : Except Fault (Option AffinePoint) := do
  let inlen := cp.pkLen df
  let length ← if df = .bin then .ok inlen else match strlen buf with
    | none => .error .unterminated
    | some length => .ok length
  if length ≠ inlen then .error .assertion
  else
    match ← deserializeMpi df buf inlen with
    | none => .ok none
    | some x =>
        let yflag := decide (cp.dp.m ≤ x)
        let x := if yflag then x - cp.dp.m else x
        if x < cp.dp.m then pointDecompress x yflag cp.dp else .ok none

/-! ## The round trip -/

/-- Integers of points have one more bit than the modulus at most. -/
theorem compressed_lt {p : AffinePoint} {cp : CurveParams} (reduced : p.x < cp.dp.m) :
    cp.compressed p < cp.dp.m + cp.dp.m := by
  unfold CurveParams.compressed
  split <;> omega

/-- The comparison with the modulus separates the coordinate and the parity. -/
theorem compressed_split {p : AffinePoint} {cp : CurveParams} (reduced : p.x < cp.dp.m) :
    decide (cp.dp.m ≤ cp.compressed p) = pointCompress p ∧
      (if pointCompress p then cp.compressed p - cp.dp.m else cp.compressed p) = p.x := by
  unfold CurveParams.compressed
  cases pointCompress p with
  | true => simp
  | false => simpa using reduced

/-- The lengths that are computed for a curve hold its points. -/
theorem loadCurve_spec {c : Curve} {df : DispFormat} {cp : CurveParams}
    (loaded : loadCurve c df = .ok cp) :
    cp.pkLenBin = (nbits (cp.dp.m + cp.dp.m - 1) + 7) / 8 ∧
      getSerializationLen (cp.dp.m + cp.dp.m - 1) df = .ok cp.pkLenCompact := by
  rcases bind_eq_ok_iff.mp loaded with ⟨pkLenBin, bin, rest⟩
  rcases bind_eq_ok_iff.mp rest with ⟨pkLenCompact, compact, rest⟩
  rcases bind_eq_ok_iff.mp rest with ⟨_, _, rest⟩
  rcases bind_eq_ok_iff.mp rest with ⟨_, _, rest⟩
  rcases bind_eq_ok_iff.mp rest with ⟨_, _, rest⟩
  rcases bind_eq_ok_iff.mp rest with ⟨_, _, rest⟩
  rcases bind_eq_ok_iff.mp rest with ⟨_, _, rest⟩
  cases rest
  exact ⟨(Except.ok.inj bin).symm, compact⟩

theorem strlen_append_nul {text : Bytes} (clean : 0 ∉ text) :
    strlen (text ++ [0]) = some text.length := by
  induction text with
  | nil => rfl
  | cons c text ih =>
      have here : c ≠ 0 := fun zero => clean (zero ▸ List.mem_cons_self)
      have there := ih fun mem => clean (List.mem_cons_of_mem _ mem)
      simp [strlen, here, there]

/-- A point of any curve is written in the format that the curve was loaded for, and its
coordinate and parity are read back. -/
theorem compress_decompress {c : Curve} {df : DispFormat} {chars : Bytes} {cp : CurveParams}
    {p : AffinePoint} (tabled : table df = some chars) (loaded : loadCurve c df = .ok cp)
    (reduced : p.x < cp.dp.m) :
    ∃ buf, compressToString df p cp = .ok buf ∧ buf.length = cp.pkLenCompact ∧
      (∀ char ∈ buf, char ∈ chars) ∧
      deserializeMpi df buf cp.pkLenCompact = .ok (some (cp.compressed p)) ∧
      ∀ pointDecompress, decompressFromString pointDecompress (buf ++ [0]) df cp =
        pointDecompress p.x (pointCompress p) cp.dp := by
  have len : cp.pkLen df = cp.pkLenCompact := by
    cases df with
    | bin => cases tabled
    | compact => rfl
    | base36 => rfl
  have fits : cp.compressed p < chars.length ^ cp.pkLenCompact := by
    rcases getSerializationLen_spec tabled (cp.dp.m + cp.dp.m - 1) with ⟨places, counted, room, _⟩
    cases (loadCurve_spec loaded).2.symm.trans counted
    have bound := compressed_lt reduced
    omega
  have written := serializeMpi_eq tabled fits
  generalize (Numeral.digits chars.length cp.pkLenCompact (cp.compressed p)).map _ = buf at written
  rcases serializeMpi_chars tabled fits written with ⟨length, known⟩
  have read := deserializeMpi_serializeMpi tabled fits written
  refine ⟨buf, by rw [compressToString, len, written], length, known, by simpa using read [], ?_⟩
  intro pointDecompress
  have clean : 0 ∉ buf := fun nul => (table_spec tabled).2.2.2.2 (known 0 nul)
  have text : df ≠ .bin := by
    rintro rfl
    cases tabled
  rcases compressed_split reduced with ⟨parity, coordinate⟩
  unfold decompressFromString
  rw [len, if_neg text, strlen_append_nul clean]
  simp only [ok_bind, length, ne_eq, not_true_eq_false, if_false, read, parity, coordinate,
    if_pos reduced]

end Dnsp2p.Seccure
