import Dnsp2p.Seccure.Protocol

/-!
# Keys of the program

`f4_init_crypto` makes an exponent of the private key and a point of the exponent.  The
name of the point leads back to it, and to the exponent.
-/

namespace Dnsp2p.Seccure

section Derivation

-- AES-256: the block that a key makes of a counter
variable (block : Field 32 → Nat → Field 16)

/-- The point that `f4_init_crypto` makes of the private key, with what the allocated memory
holds. -/
def privateP (memory : Field 16) (privateKey : Field 32) : Except Fault AffinePoint := do
  match ← curveByName (ascii "p160") .base36 with
  | none => .error .assertion
  | some cp => pointmul cp.dp.base (hashToExponent block memory privateKey cp) cp.dp

variable {block} {cp : CurveParams} [prime : Fact cp.dp.m.Prime]

theorem hashToExponent_range (generated : Generated cp.dp) (memory : Field 16) (hash : Field 32) :
    0 < hashToExponent block memory hash cp ∧ hashToExponent block memory hash cp < cp.dp.order :=
  bufToExponent_range generated _

/-- Exponents below the order with one point are the same. -/
theorem exponent_of_point (generated : Generated cp.dp) {k l : Nat} (k_lt : k < cp.dp.order)
    (l_lt : l < cp.dp.order) (same : pointmul cp.dp.base k cp.dp = pointmul cp.dp.base l cp.dp) :
    k = l := by
  rcases generated.base with ⟨G, finite, based, order⟩
  rcases pointmul_returns generated.elliptic based k with ⟨p, first, point⟩
  rcases pointmul_returns generated.elliptic based l with ⟨q, second, point'⟩
  cases first.symm.trans (same.trans second)
  have multiples := point.ext generated.elliptic point'
  have := Fact.mk generated.order_prime
  rw [nsmul_eq_nsmul_iff_modEq, addOrderOf_eq_prime order finite] at multiples
  exact multiples.eq_of_lt_of_lt k_lt l_lt

end Derivation

/-- Every private key has a public key whose name is read back as that key, and the private keys
with this name are those with the same exponent. -/
theorem privateP_name (block : Field 32 → Nat → Field 16) (memory : Field 16)
    (privateKey : Field 32) :
    ∃ cp p name, curveByName (ascii "p160") .base36 = .ok (some cp) ∧
      privateP block memory privateKey = .ok p ∧
      compressToString .base36 p cp = .ok name ∧ name.length = 32 ∧
      decompressFromString pointDecompress (name ++ [0]) .base36 cp = .ok (some p) ∧
      ∀ memory' privateKey' p', privateP block memory' privateKey' = .ok p' →
        (compressToString .base36 p' cp = .ok name ↔
          hashToExponent block memory' privateKey' cp =
            hashToExponent block memory privateKey cp) := by
  rcases exists_generated with ⟨cp, named, c, _, loaded, prime, generated, _⟩
  have derived (memory : Field 16) (privateKey : Field 32) : privateP block memory privateKey =
      pointmul cp.dp.base (hashToExponent block memory privateKey cp) cp.dp := by
    rw [privateP, named, ok_bind]
  rcases generated.base with ⟨G, finite, based, order⟩
  -- the public key of an exponent is a point other than the one at infinity
  have keyOf (memory : Field 16) (privateKey : Field 32) : ∃ p,
      privateP block memory privateKey = .ok p ∧ IsKey cp.dp p := by
    have range : 0 < hashToExponent block memory privateKey cp ∧
        hashToExponent block memory privateKey cp < cp.dp.order :=
      hashToExponent_range generated memory privateKey
    rcases pointmul_returns generated.elliptic based (hashToExponent block memory privateKey cp)
      with ⟨p, multiplied, point⟩
    refine ⟨p, (derived memory privateKey).trans multiplied, _, ?_, point⟩
    rw [Ne, smul_base_eq_zero_iff generated.order_prime finite order]
    exact Nat.not_dvd_of_pos_of_lt range.1 range.2
  rcases keyOf memory privateKey with ⟨p, made, key⟩
  rcases compressToString_returns loaded (.inr rfl : DispFormat.base36 = .bin ∨ _)
    ((isKey_iff generated.elliptic).mp key).1 with ⟨name, written⟩
  have length : name.length = cp.pkLen .base36 := (serializeMpi_iff.mp written).1
  rcases decompressFromString_returns generated.elliptic length (clean_of_written written) with
    ⟨found, read, exact_iff⟩
  rw [(exact_iff p).mpr ⟨key, written⟩] at read exact_iff
  refine ⟨cp, p, name, named, made, written, length.trans (p160_lengths named).2.1, read, ?_⟩
  intro memory' privateKey' p' made'
  rcases keyOf memory' privateKey' with ⟨_, again, key'⟩
  cases made'.symm.trans again
  constructor
  · intro sameName
    cases (exact_iff p').mpr ⟨key', sameName⟩
    apply exponent_of_point generated (hashToExponent_range generated _ _).2
      (hashToExponent_range generated _ _).2
    rw [← derived, ← derived, made, made']
  · intro sameExponent
    have samePoint : p' = p := by
      rw [derived, sameExponent, ← derived, made] at made'
      exact (Except.ok.inj made').symm
    rw [samePoint, written]

end Dnsp2p.Seccure
