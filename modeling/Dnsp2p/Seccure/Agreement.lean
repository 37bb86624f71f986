import Dnsp2p.Seccure.Signature

/-!
# Shared secrets

Two parties that exchange the points of `DH_step1` derive one key in `DH_step2`, and the
holder of a private key derives the key that `ECIES_encryption` made for its public key.
-/

namespace Dnsp2p.Seccure

/-- A random number is an exponent when it is cut to the width of the order. -/
def Drawable (cp : CurveParams) (random : Nat) : Prop :=
  0 < random % 2 ^ nbits cp.dp.order ∧ random % 2 ^ nbits cp.dp.order < cp.dp.order

/-- The first random number that is an exponent is returned, if there is one. -/
theorem getRandomExponent_spec (cp : CurveParams) (randoms : List Nat) :
    (∃ a rest, getRandomExponent cp randoms = .ok (a, rest) ∧ 0 < a ∧ a < cp.dp.order ∧
      rest.length < randoms.length) ∨
    (∀ random ∈ randoms, ¬ Drawable cp random) ∧
      getRandomExponent cp randoms = .error .nonterminating := by
  induction randoms with
  | nil => exact .inr ⟨by simp, rfl⟩
  | cons random randoms ih =>
      rw [getRandomExponent]
      by_cases refused : random % 2 ^ nbits cp.dp.order = 0 ∨
          cp.dp.order ≤ random % 2 ^ nbits cp.dp.order
      · rw [if_pos refused]
        rcases ih with ⟨a, rest, drawn, positive, below, shorter⟩ | ⟨none, endless⟩
        · refine .inl ⟨a, rest, drawn, positive, below, ?_⟩
          rw [List.length_cons]
          omega
        · refine .inr ⟨?_, endless⟩
          intro other mem
          rcases List.mem_cons.mp mem with rfl | later
          · rintro ⟨positive, below⟩
            omega
          · exact none other later
      · rw [if_neg refused]
        refine .inl ⟨_, randoms, rfl, by omega, by omega, ?_⟩
        rw [List.length_cons]
        omega

section Agreement

variable {c : Curve} {df : DispFormat} {cp : CurveParams} [prime : Fact cp.dp.m.Prime]
  {sha512 : Bytes → Field 64}

/-- Coordinates fit into the buffers of the key derivation. -/
theorem serialize_coordinates (loaded : loadCurve c df = .ok cp) {p : AffinePoint}
    {P : (curve cp.dp).Point} (point : PointOf cp.dp p P) :
    ∃ x y, serializeMpi cp.elemLenBin .bin p.x = .ok x ∧
      serializeMpi cp.elemLenBin .bin p.y = .ok y := by
  have fits := (loadCurve_lengths loaded).1
  exact ⟨_, _, serializeMpi_bin (point.x_lt.trans fits), serializeMpi_bin (point.y_lt.trans fits)⟩

/-- The multiple of the base point by an exponent is a point that the validation accepts. -/
theorem fullKeyValidation_multiple (generated : Generated cp.dp) {G : (curve cp.dp).Point}
    (finite : G ≠ 0) (order : cp.dp.order • G = 0) {k : Nat} (positive : 0 < k)
    (below : k < cp.dp.order) {p : AffinePoint} (point : PointOf cp.dp p (k • G)) :
    k • G ≠ 0 ∧ fullKeyValidation p cp.dp = .ok true := by
  have nonzero : k • G ≠ 0 := by
    rw [Ne, smul_base_eq_zero_iff generated.order_prime finite order]
    exact Nat.not_dvd_of_pos_of_lt positive below
  refine ⟨nonzero, ?_⟩
  rcases fullKeyValidation_returns generated.elliptic p with ⟨valid, validated, exact_iff⟩
  rw [validated, exact_iff.mpr ⟨k • G, nonzero, point, fun _ => ?_⟩]
  rw [smul_comm, order, nsmul_zero]

/-! ## The exchange of a secret -/

/-- What is kept is an exponent, and what is sent is its multiple of the base point. -/
theorem dhStep1_spec (generated : Generated cp.dp) {G : (curve cp.dp).Point}
    (based : PointOf cp.dp cp.dp.base G) {randoms : List Nat} {a : Nat} {A : AffinePoint}
    (sent : dhStep1 cp randoms = .ok (a, A)) :
    0 < a ∧ a < cp.dp.order ∧ PointOf cp.dp A (a • G) := by
  rcases bind_eq_ok_iff.mp sent with ⟨⟨a', rest⟩, drawn, sent⟩
  rcases bind_eq_ok_iff.mp sent with ⟨A', multiplied, same⟩
  cases same
  rcases getRandomExponent_spec cp randoms with ⟨_, _, drawn', positive, below, _⟩ | ⟨_, endless⟩
  · cases drawn.symm.trans drawn'
    rcases pointmul_returns generated.elliptic based a with ⟨_, multiplied', point⟩
    cases multiplied.symm.trans multiplied'
    exact ⟨positive, below, point⟩
  · cases drawn.symm.trans endless

/-- The key that is derived depends on the common multiple only. -/
theorem dhStep2_multiple (loaded : loadCurve c df = .ok cp) (generated : Generated cp.dp)
    {B : AffinePoint} {P : (curve cp.dp).Point} (point : PointOf cp.dp B P)
    (accepted : fullKeyValidation B cp.dp = .ok true) (exp : Nat) :
    ∃ p key, PointOf cp.dp p (exp • P) ∧ dhKdf sha512 p cp.elemLenBin = .ok key ∧
      dhStep2 sha512 B exp cp = .ok (some key) := by
  rcases pointmul_returns generated.elliptic point exp with ⟨p, multiplied, multiple⟩
  rcases serialize_coordinates loaded multiple with ⟨x, y, writtenX, writtenY⟩
  have derived : dhKdf sha512 p cp.elemLenBin = .ok (sha512 (x ++ y)) := by
    rw [dhKdf, writtenX, ok_bind, writtenY, ok_bind]
  refine ⟨p, _, multiple, derived, ?_⟩
  rw [dhStep2, accepted, ok_bind, if_pos rfl, multiplied, ok_bind, derived, ok_bind]

/-- Both sides of the exchange accept the point of the other and derive the same key. -/
theorem dhStep2_agree (loaded : loadCurve c df = .ok cp) (generated : Generated cp.dp)
    {randoms randoms' : List Nat} {a b : Nat} {A B : AffinePoint}
    (alice : dhStep1 cp randoms = .ok (a, A)) (bob : dhStep1 cp randoms' = .ok (b, B)) :
    ∃ key, dhStep2 sha512 B a cp = .ok (some key) ∧ dhStep2 sha512 A b cp = .ok (some key) := by
  rcases generated.base with ⟨G, finite, based, order⟩
  rcases dhStep1_spec generated based alice with ⟨positive, below, pointA⟩
  rcases dhStep1_spec generated based bob with ⟨positive', below', pointB⟩
  have acceptedA := (fullKeyValidation_multiple generated finite order positive below pointA).2
  have acceptedB := (fullKeyValidation_multiple generated finite order positive' below' pointB).2
  rcases dhStep2_multiple loaded generated pointB acceptedB a with
    ⟨p, key, common, derived, (step : dhStep2 sha512 B a cp = _)⟩
  rcases dhStep2_multiple loaded generated pointA acceptedA b with
    ⟨p', key', common', derived', (step' : dhStep2 sha512 A b cp = _)⟩
  rw [smul_comm] at common'
  cases common.unique generated.elliptic common'
  cases derived.symm.trans derived'
  exact ⟨key, step, step'⟩

theorem dhStep2_agree_p160 :
    ∃ cp, ∃ _ : Fact cp.dp.m.Prime, Generated cp.dp ∧
      ∃ A B, dhStep1 cp [2] = .ok (2, A) ∧ dhStep1 cp [3] = .ok (3, B) ∧
        ∃ key, dhStep2 (fun _ => .zero 64) B 2 cp = .ok (some key) ∧
          dhStep2 (fun _ => .zero 64) A 3 cp = .ok (some key) := by
  rcases exists_generated with ⟨cp, _, c, _, loaded, prime, generated, same⟩
  rcases generated.base with ⟨G, _, based, _⟩
  rcases pointmul_returns generated.elliptic based 2 with ⟨A, sentA, _⟩
  rcases pointmul_returns generated.elliptic based 3 with ⟨B, sentB, _⟩
  have drawnA : getRandomExponent cp [2] = .ok (2, []) := by
    have cut : 2 % 2 ^ nbits p160.order = 2 := by decide +kernel
    rw [getRandomExponent, same, cut]
    exact if_neg (by decide +kernel)
  have drawnB : getRandomExponent cp [3] = .ok (3, []) := by
    have cut : 3 % 2 ^ nbits p160.order = 3 := by decide +kernel
    rw [getRandomExponent, same, cut]
    exact if_neg (by decide +kernel)
  have alice : dhStep1 cp [2] = .ok (2, A) := by
    rw [dhStep1, drawnA, ok_bind]
    dsimp only
    rw [sentA, ok_bind]
  have bob : dhStep1 cp [3] = .ok (3, B) := by
    rw [dhStep1, drawnB, ok_bind]
    dsimp only
    rw [sentB, ok_bind]
  exact ⟨cp, prime, generated, A, B, alice, bob, dhStep2_agree loaded generated alice bob⟩

/-! ## Encryption to a public key -/

/-- The key derivation succeeds for points of the curve. -/
theorem eciesKdf_returns (loaded : loadCurve c df = .ok cp) {Z R : AffinePoint}
    {PZ PR : (curve cp.dp).Point} (pointZ : PointOf cp.dp Z PZ) (pointR : PointOf cp.dp R PR) :
    ∃ key, eciesKdf sha512 Z.x R cp.elemLenBin = .ok key := by
  rcases serialize_coordinates loaded pointZ with ⟨z, _, writtenZ, _⟩
  rcases serialize_coordinates loaded pointR with ⟨x, y, writtenX, writtenY⟩
  exact ⟨_, by rw [eciesKdf, writtenZ, ok_bind, writtenX, ok_bind, writtenY, ok_bind]⟩

/-- As soon as a random number is an exponent, a key is made for a public key, and the holder
of the private key derives the same one from the point that is sent. -/
theorem eciesDecryption_eciesEncryption (loaded : loadCurve c df = .ok cp)
    (generated : Generated cp.dp) (unit : ¬ cp.dp.order ∣ unsigned cp.dp.cofactor) {d : Nat}
    (positive : 0 < d) (small : d < cp.dp.order) {Q : AffinePoint}
    (isPublic : pointmul cp.dp.base d cp.dp = .ok Q) {randoms : List Nat}
    (drawable : ∃ random ∈ randoms, Drawable cp random) (fuel : Nat) :
    ∃ key R, eciesEncryption sha512 Q cp (fuel + 1) randoms = .ok (key, R) ∧
      eciesDecryption sha512 R d cp = .ok (some key) := by
  rcases generated.base with ⟨G, finite, based, order⟩
  rcases getRandomExponent_spec cp randoms with ⟨k, rest, drawn, k_pos, k_lt, _⟩ | ⟨none, _⟩
  · rcases pointmul_returns generated.elliptic based d with ⟨_, isPublic', pointQ⟩
    cases isPublic.symm.trans isPublic'
    rcases pointmul_returns generated.elliptic based k with ⟨R, sent, pointR⟩
    rcases pointmul_returns generated.elliptic pointQ (k * unsigned cp.dp.cofactor) with
      ⟨Z, made, pointZ⟩
    rcases pointmul_returns generated.elliptic pointR (d * unsigned cp.dp.cofactor) with
      ⟨Z', derived, pointZ'⟩
    have same : (d * unsigned cp.dp.cofactor) • k • G = (k * unsigned cp.dp.cofactor) • d • G := by
      rw [smul_smul, smul_smul]
      congr 1
      ring
    rw [same] at pointZ'
    cases pointZ.unique generated.elliptic pointZ'
    have nonzero : (k * unsigned cp.dp.cofactor) • d • G ≠ 0 := by
      rw [smul_smul, Ne, smul_base_eq_zero_iff generated.order_prime finite order,
        generated.order_prime.dvd_mul, generated.order_prime.dvd_mul]
      rintro ((divides | divides) | divides)
      · exact Nat.not_dvd_of_pos_of_lt k_pos k_lt divides
      · exact unit divides
      · exact Nat.not_dvd_of_pos_of_lt positive small divides
    have finiteZ := mt (pointZ.isZero_iff generated.elliptic).mp nonzero
    have accepted := (embeddedKeyValidation_iff generated.elliptic).mpr
      ⟨k • G, (fullKeyValidation_multiple generated finite order k_pos k_lt pointR).1, pointR⟩
    rcases eciesKdf_returns loaded pointZ pointR with ⟨key, (kdf : eciesKdf sha512 _ _ _ = _)⟩
    refine ⟨key, R, ?_, ?_⟩
    · rw [eciesEncryption, drawn, ok_bind]
      dsimp only
      rw [sent, ok_bind, made, ok_bind, if_neg finiteZ, kdf, ok_bind]
    · rw [eciesDecryption, if_pos accepted]
      dsimp only
      rw [derived, ok_bind, if_neg finiteZ, kdf, ok_bind]
  · rcases drawable with ⟨random, mem, drawable⟩
    exact absurd drawable (none random mem)

theorem eciesDecryption_eciesEncryption_p160 :
    ∃ cp, ∃ _ : Fact cp.dp.m.Prime, Generated cp.dp ∧
      ∃ Q, pointmul cp.dp.base 5 cp.dp = .ok Q ∧
        ∃ key R, eciesEncryption (fun _ => .zero 64) Q cp 1 [2] = .ok (key, R) ∧
          eciesDecryption (fun _ => .zero 64) R 5 cp = .ok (some key) := by
  rcases exists_generated with ⟨cp, _, c, _, loaded, prime, generated, same⟩
  rcases generated.base with ⟨G, _, based, _⟩
  rcases pointmul_returns generated.elliptic based 5 with ⟨Q, isPublic, _⟩
  have unit : ¬ cp.dp.order ∣ unsigned cp.dp.cofactor := by
    rw [same]
    decide +kernel
  have small : 5 < cp.dp.order := by
    rw [same]
    decide +kernel
  have drawable : Drawable cp 2 := by
    rw [Drawable, same]
    decide +kernel
  exact ⟨cp, prime, generated, Q, isPublic, eciesDecryption_eciesEncryption loaded generated unit
    (by decide) small isPublic ⟨2, List.mem_singleton_self 2, drawable⟩ 0⟩

end Agreement

end Dnsp2p.Seccure
