import Dnsp2p.Seccure.Group
import Dnsp2p.Seccure.Keys
import Mathlib.NumberTheory.LucasPrimality

/-!
# The curve of the program

Certificates for the curve that `f4_init_crypto` loads: its modulus and its order are
prime, it is elliptic, and its base point has that order.
-/

namespace Dnsp2p.Seccure

/-! ## Certificates of primality -/

/-- A base whose powers show that a number is prime, with the prime factors of the number's
predecessor. -/
structure Certificate where
  p : Nat
  base : Nat
  factors : List Nat

/-- The base generates the units, given that the factors are prime. -/
def Certificate.check (cert : Certificate) (primes : List Nat) : Bool :=
  decide (1 < cert.p) && cert.factors.all (primes.contains ·) &&
    cert.factors.prod == cert.p - 1 && powm cert.base (cert.p - 1) cert.p == 1 &&
    cert.factors.all fun q => powm cert.base ((cert.p - 1) / q) cert.p != 1

/-- Each certificate may use the primes of those in front of it. -/
def checkAll (primes : List Nat) : List Certificate → Bool
  | [] => true
  | cert :: certs => cert.check primes && checkAll (cert.p :: primes) certs

theorem Certificate.prime {cert : Certificate} {primes : List Nat}
    (known : ∀ q ∈ primes, q.Prime) (checked : cert.check primes = true) : cert.p.Prime := by
  simp only [check, Bool.and_eq_true, decide_eq_true_eq, List.all_eq_true, beq_iff_eq, bne_iff_ne,
    List.contains_iff_mem] at checked
  rcases checked with ⟨⟨⟨⟨large, listed⟩, split⟩, whole⟩, proper⟩
  have one {e : Nat} : powm cert.base e cert.p = 1 ↔ (cert.base : ZMod cert.p) ^ e = 1 := by
    have cast := cast_eq_cast_iff (powm_lt (by omega) cert.base e) large
    rw [← cast, cast_powm, Nat.cast_one]
  apply lucas_primality cert.p cert.base (one.mp whole)
  intro q prime divides
  rw [← split] at divides
  rcases (prime.prime.dvd_prod_iff).mp divides with ⟨factor, mem, divides⟩
  have same := (Nat.prime_dvd_prime_iff_eq prime (known factor (listed factor mem))).mp divides
  rw [same, Ne, ← one]
  exact proper factor mem

/-- Certificates that are checked in their order are those of primes. -/
theorem prime_of_checkAll {primes : List Nat} {certs : List Certificate}
    (known : ∀ q ∈ primes, q.Prime) (checked : checkAll primes certs = true) :
    ∀ cert ∈ certs, cert.p.Prime := by
  induction certs generalizing primes with
  | nil => simp
  | cons cert certs ih =>
      rcases Bool.and_eq_true_iff.mp checked with ⟨first, others⟩
      have prime := cert.prime known first
      exact List.forall_mem_cons.mpr ⟨prime, ih (List.forall_mem_cons.mpr ⟨prime, known⟩) others⟩

/-- Certificates that end with those of the modulus and of the order of the curve. -/
def certificates : List Certificate :=
  [ ⟨3, 2, [2]⟩, ⟨5, 2, [2, 2]⟩, ⟨7, 3, [2, 3]⟩, ⟨11, 2, [2, 5]⟩, ⟨13, 2, [2, 2, 3]⟩,
    ⟨17, 3, [2, 2, 2, 2]⟩, ⟨19, 2, [2, 3, 3]⟩, ⟨23, 5, [2, 11]⟩, ⟨29, 2, [2, 2, 7]⟩,
    ⟨31, 3, [2, 3, 5]⟩, ⟨37, 2, [2, 2, 3, 3]⟩, ⟨41, 6, [2, 2, 2, 5]⟩, ⟨47, 5, [2, 23]⟩,
    ⟨53, 2, [2, 2, 13]⟩, ⟨59, 2, [2, 29]⟩, ⟨61, 2, [2, 2, 3, 5]⟩, ⟨67, 2, [2, 3, 11]⟩,
    ⟨83, 2, [2, 41]⟩, ⟨97, 5, [2, 2, 2, 2, 2, 3]⟩, ⟨107, 2, [2, 53]⟩, ⟨131, 2, [2, 5, 13]⟩,
    ⟨199, 3, [2, 3, 3, 11]⟩, ⟨271, 6, [2, 3, 3, 3, 5]⟩, ⟨313, 10, [2, 2, 2, 3, 13]⟩,
    ⟨349, 2, [2, 2, 3, 29]⟩, ⟨709, 2, [2, 2, 3, 59]⟩, ⟨1123, 2, [2, 3, 11, 17]⟩,
    ⟨1481, 3, [2, 2, 2, 5, 37]⟩, ⟨2791, 6, [2, 3, 3, 5, 31]⟩, ⟨6551, 17, [2, 5, 5, 131]⟩,
    ⟨7393, 5, [2, 2, 2, 2, 2, 3, 7, 11]⟩, ⟨8513, 5, [2, 2, 2, 2, 2, 2, 7, 19]⟩,
    ⟨17027, 2, [2, 8513]⟩, ⟨17401, 11, [2, 2, 2, 3, 5, 5, 29]⟩, ⟨29573, 2, [2, 2, 7393]⟩,
    ⟨29851, 2, [2, 3, 5, 5, 199]⟩, ⟨115901, 2, [2, 2, 5, 5, 19, 61]⟩,
    ⟨186253, 2, [2, 2, 3, 11, 17, 83]⟩, ⟨497551, 17, [2, 3, 5, 5, 31, 107]⟩,
    ⟨745013, 2, [2, 2, 186253]⟩, ⟨1021621, 7, [2, 2, 3, 5, 17027]⟩,
    ⟨1281221, 10, [2, 2, 5, 29, 47, 47]⟩, ⟨1786087, 3, [2, 3, 3, 67, 1481]⟩,
    ⟨6030259, 2, [2, 3, 13, 13, 19, 313]⟩, ⟨104179991, 11, [2, 5, 349, 29851]⟩,
    ⟨1519826521, 7, [2, 2, 2, 3, 5, 17, 745013]⟩, ⟨3099723569, 3, [2, 2, 2, 2, 6551, 29573]⟩,
    ⟨3799566302501, 2, [2, 2, 5, 5, 5, 5, 1519826521]⟩,
    ⟨81596517090689, 3, [2, 2, 2, 2, 2, 2, 2, 497551, 1281221]⟩,
    ⟨9281531860908577342183, 5, [2, 3, 3, 11, 709, 17401, 3799566302501]⟩,
    ⟨176070659401435712181211511, 7, [2, 5, 7, 271, 9281531860908577342183]⟩,
    ⟨32965410909254210768022022994233, 10,
      [2, 2, 2, 3, 31, 97, 1123, 2791, 1786087, 81596517090689]⟩,
    ⟨1461501637330902918203684832716283019653785059327, 3,
      [2, 3, 19, 115901, 6030259, 104179991, 176070659401435712181211511]⟩,
    ⟨1461501637330902918203687197606826779884643492439, 7,
      [2, 7, 1021621, 3099723569, 32965410909254210768022022994233]⟩ ]

theorem checkAll_certificates : checkAll [2] certificates = true := by
  decide +kernel

theorem prime_of_certificates {cert : Certificate} (mem : cert ∈ certificates) : cert.p.Prime :=
  prime_of_checkAll (List.forall_mem_cons.mpr ⟨Nat.prime_two, List.forall_mem_nil _⟩)
    checkAll_certificates cert mem

/-! ## The parameters -/

/-- The domain parameters that `load_curve` makes of the entry of the table. -/
def p160 : DomainParams where
  a := 0xffffffffffffffffffffffffffffffff7ffffffc
  b := 0x1c97befc54bd7a8b65acf89f81d4d4adc565fa45
  m := 0xffffffffffffffffffffffffffffffff7fffffff
  order := 0x0100000000000000000001f4c8f927aed3ca752257
  base := basePoint
  cofactor := 1

theorem curveByName_dp :
    (curveByName (ascii "p160") .base36).map (Option.map fun cp => cp.dp) = .ok (some p160) := by
  decide +kernel

theorem p160_dp {cp : CurveParams} (named : curveByName (ascii "p160") .base36 = .ok (some cp)) :
    cp.dp = p160 := by
  have loaded := curveByName_dp
  rw [named] at loaded
  exact Option.some.inj (Except.ok.inj loaded)

instance prime_p160 : Fact p160.m.Prime :=
  ⟨prime_of_certificates (List.getElem_mem (by decide : 52 < certificates.length))⟩

theorem prime_p160_order : p160.order.Prime :=
  prime_of_certificates (List.getElem_mem (by decide : 53 < certificates.length))

theorem elliptic_p160 : Elliptic p160 where
  odd := by decide
  b_lt := by decide
  b_ne := by decide
  smooth := by decide +kernel

/-- The multiple of the base point by the order is computed. -/
theorem pointmul_base_order : pointmul p160.base p160.order p160 = .ok pointLoadZero := by
  decide +kernel

/-- The base point is a point of the curve, and its order is the one of the parameters. -/
theorem exists_base_p160 :
    ∃ G, G ≠ 0 ∧ PointOf p160 p160.base G ∧ p160.order • G = 0 := by
  have x_lt : p160.base.x < p160.m := by decide
  have y_lt : p160.base.y < p160.m := by decide
  have accepted : pointOnCurve p160.base p160 = true := by decide +kernel
  rcases (pointOnCurve_iff elliptic_p160 x_lt y_lt).mp accepted with ⟨G, point⟩
  refine ⟨G, ?_, point, ?_⟩
  · apply mt (point.isZero_iff elliptic_p160).mpr
    decide
  · rcases pointmul_returns elliptic_p160 point p160.order with ⟨r, multiplied, multiple⟩
    cases multiplied.symm.trans pointmul_base_order
    exact (multiple.isZero_iff elliptic_p160).mp rfl

end Dnsp2p.Seccure
