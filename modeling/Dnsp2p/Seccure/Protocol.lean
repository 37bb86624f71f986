import Dnsp2p.Seccure.Aes
import Dnsp2p.Seccure.Points

/-!
# Keys, signatures and shared secrets

The functions of `protocol.c` over points: private keys, signatures, encryption to a
public key and the exchange of a secret.  Ciphers, hashes and random numbers of libgcrypt
are parameters.
-/

namespace Dnsp2p.Seccure

/-! ## Exponents -/

/-- `buf_to_exponent`. -/
def bufToExponent (buf : Bytes) (cp : CurveParams) : Nat :=
  value buf % (cp.dp.order - 1) + 1

/-- `get_random_exponent`, which draws random numbers until one is an exponent. -/
def getRandomExponent (cp : CurveParams) : List Nat → Except Fault (Nat × List Nat)
  | [] => .error .nonterminating
  | random :: randoms =>
      let a := random % 2 ^ nbits cp.dp.order
      if a = 0 ∨ cp.dp.order ≤ a then getRandomExponent cp randoms else .ok (a, randoms)

/-- The conversion of an `int` to an `unsigned long`. -/
def unsigned (n : Int) : Nat :=
  (n % 2 ^ 64).toNat

section Ciphers

-- AES-256: the block that a key makes of a counter
variable (block : Field 32 → Nat → Field 16)

/-- `hash_to_exponent`, with what the allocated memory holds. -/
def hashToExponent (memory : Field 16) (hash : Field 32) (cp : CurveParams) : Nat :=
  let cprng := aes256ctrInit memory hash
  let (_, buf) := aes256cprngFillbuf block cprng cp.orderLenBin
  bufToExponent buf cp

/-- `ecdsa_cprng_get_exponent`. -/
def ecdsaCprngGetExponent (cprng : Aes256ctr) (cp : CurveParams) : Aes256ctr × Nat :=
  let (cprng, buf) := aes256cprngFillbuf block cprng cp.orderLenBin
  (cprng, bufToExponent buf cp)

/-! ## Signatures -/

-- HMAC with SHA-256, of a key and a message
variable (hmacsha256 : Bytes → Bytes → Field 32)

/-- `ecdsa_cprng_init`. -/
def ecdsaCprngInit (memory : Field 16) (msg : Field 64) (d : Nat) (cp : CurveParams) :
    Except Fault Aes256ctr := do
  let buf ← serializeMpi cp.orderLenBin .bin d
  .ok (aes256ctrInit memory (hmacsha256 buf msg.bytes))

/-- `ECDSA_sign` from `Step1` on. -/
def ecdsaSignLoop (msg : Field 64) (d : Nat) (cp : CurveParams) :
    Nat → Aes256ctr → Except Fault Nat
  | 0, _ => .error .nonterminating
  | fuel + 1, cprng => do
      let (cprng, k) := ecdsaCprngGetExponent block cprng cp
      let p1 ← pointmul cp.dp.base k cp.dp
      let r := p1.x % cp.dp.order
      if r = 0 then ecdsaSignLoop msg d cp fuel cprng
      else
        let e := value msg.bytes % cp.dp.order
        let s := mulm d r cp.dp.order
        let s := addm s e cp.dp.order
        let e := invm k cp.dp.order
        let s := mulm s e cp.dp.order
        if s = 0 then ecdsaSignLoop msg d cp fuel cprng
        else .ok (s * cp.dp.order + r)

/-- `ECDSA_sign`. -/
def ecdsaSign (fuel : Nat) (memory : Field 16) (msg : Field 64) (d : Nat) (cp : CurveParams) :
    Except Fault Nat := do
  let cprng ← ecdsaCprngInit hmacsha256 memory msg d cp
  ecdsaSignLoop block msg d cp fuel cprng

/-- `ECDSA_verify`. -/
def ecdsaVerify (msg : Field 64) (Q : AffinePoint) (sig : Nat) (cp : CurveParams) :
    Except Fault Bool :=
  let s := sig / cp.dp.order
  let r := sig % cp.dp.order
  if s = 0 ∨ cp.dp.order ≤ s ∨ r = 0 ∨ cp.dp.order ≤ r then .ok false
  else do
    let e := value msg.bytes % cp.dp.order
    let s := invm s cp.dp.order
    let e := mulm e s cp.dp.order
    let X1 ← pointmul cp.dp.base e cp.dp
    let e := mulm r s cp.dp.order
    let X2 ← pointmul Q e cp.dp
    let X1 := pointAdd X1 X2 cp.dp
    if pointIsZero X1 then .ok false
    else .ok (X1.x % cp.dp.order == r)

/-! ## Shared secrets -/

-- SHA-512
variable (sha512 : Bytes → Field 64)

/-- `ECIES_KDF`. -/
def eciesKdf (Zx : Nat) (R : AffinePoint) (elemlen : Nat) : Except Fault (Field 64) := do
  let z ← serializeMpi elemlen .bin Zx
  let x ← serializeMpi elemlen .bin R.x
  let y ← serializeMpi elemlen .bin R.y
  .ok (sha512 (z ++ x ++ y))

/-- `ECIES_encryption`: the key, and the point that is sent. -/
def eciesEncryption (Q : AffinePoint) (cp : CurveParams) :
    Nat → List Nat → Except Fault (Field 64 × AffinePoint)
  | 0, _ => .error .nonterminating
  | fuel + 1, randoms => do
      let (k, randoms) ← getRandomExponent cp randoms
      let R ← pointmul cp.dp.base k cp.dp
      let k := k * unsigned cp.dp.cofactor
      let Z ← pointmul Q k cp.dp
      if pointIsZero Z then eciesEncryption Q cp fuel randoms
      else do
        let key ← eciesKdf sha512 Z.x R cp.elemLenBin
        .ok (key, R)

/-- `ECIES_decryption`: absent when it returns 0. -/
def eciesDecryption (R : AffinePoint) (d : Nat) (cp : CurveParams) :
    Except Fault (Option (Field 64)) :=
  if embeddedKeyValidation R cp.dp then do
    let e := d * unsigned cp.dp.cofactor
    let Z ← pointmul R e cp.dp
    if pointIsZero Z then .ok none
    else do
      let key ← eciesKdf sha512 Z.x R cp.elemLenBin
      .ok (some key)
  else .ok none

/-- `DH_KDF`. -/
def dhKdf (P : AffinePoint) (elemlen : Nat) : Except Fault (Field 64) := do
  let x ← serializeMpi elemlen .bin P.x
  let y ← serializeMpi elemlen .bin P.y
  .ok (sha512 (x ++ y))

/-- `DH_step1`: the exponent that is kept, and the point that is sent. -/
def dhStep1 (cp : CurveParams) (randoms : List Nat) : Except Fault (Nat × AffinePoint) := do
  let (a, _) ← getRandomExponent cp randoms
  let A ← pointmul cp.dp.base a cp.dp
  .ok (a, A)

/-- `DH_step2`: absent when it returns 0. -/
def dhStep2 (B : AffinePoint) (exp : Nat) (cp : CurveParams) :
    Except Fault (Option (Field 64)) := do
  if ← fullKeyValidation B cp.dp then
    let P ← pointmul B exp cp.dp
    let key ← dhKdf sha512 P cp.elemLenBin
    .ok (some key)
  else .ok none

end Ciphers

/-! ## The multiples of the base point -/

/-- Parameters of an elliptic curve whose base point has a prime order. -/
structure Generated (dp : DomainParams) [Fact dp.m.Prime] : Prop where
  elliptic : Elliptic dp
  order_prime : dp.order.Prime
  base : ∃ G, G ≠ 0 ∧ PointOf dp dp.base G ∧ dp.order • G = 0

theorem bufToExponent_range {cp : CurveParams} [Fact cp.dp.m.Prime] (generated : Generated cp.dp)
    (buf : Bytes) :
    0 < bufToExponent buf cp ∧ bufToExponent buf cp < cp.dp.order := by
  have two := generated.order_prime.two_le
  have below := Nat.mod_lt (value buf) (by omega : 0 < cp.dp.order - 1)
  unfold bufToExponent
  omega

theorem generated_p160 : Generated p160 :=
  ⟨elliptic_p160, prime_p160_order, exists_base_p160⟩

/-- The curve that the program loads is one of the table, and its parameters are certified. -/
theorem exists_generated :
    ∃ cp, curveByName (ascii "p160") .base36 = .ok (some cp) ∧
      ∃ c ∈ curves, loadCurve c .base36 = .ok cp ∧
        ∃ _ : Fact cp.dp.m.Prime, Generated cp.dp ∧ cp.dp = p160 := by
  rcases p160_loaded with ⟨cp, named⟩
  rcases loadCurve_of_named named with ⟨c, mem, loaded⟩
  refine ⟨cp, named, c, mem, loaded, ?_⟩
  rw [p160_dp named]
  exact ⟨prime_p160, generated_p160, rfl⟩

section Multiples

variable {M : Type*} [AddCommGroup M] {n : Nat} {G : M}

theorem smul_base_eq_zero_iff (prime : n.Prime) (finite : G ≠ 0) (order : n • G = 0) (k : Nat) :
    k • G = 0 ↔ n ∣ k := by
  have : Fact n.Prime := ⟨prime⟩
  rw [← addOrderOf_dvd_iff_nsmul_eq_zero, addOrderOf_eq_prime order finite]

/-- Multiples are determined by their factors modulo the order. -/
theorem smul_base_congr (order : n • G = 0) {k l : Nat} (same : (k : ZMod n) = l) :
    k • G = l • G := by
  rw [ZMod.natCast_eq_natCast_iff] at same
  rw [nsmul_eq_nsmul_iff_modEq]
  exact same.of_dvd (addOrderOf_dvd_of_nsmul_eq_zero order)

end Multiples

end Dnsp2p.Seccure
