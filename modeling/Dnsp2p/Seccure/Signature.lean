import Dnsp2p.Seccure.Protocol

/-!
# Signatures

A signature that `ECDSA_sign` makes with a private key is accepted by `ECDSA_verify` with
the public key, and the search for its exponent ends as soon as one is usable.
-/

namespace Dnsp2p.Seccure

section Loaded

variable {c : Curve} {df : DispFormat} {cp : CurveParams}

/-- The lengths that are computed for a curve hold its coordinates and its exponents. -/
theorem loadCurve_lengths (loaded : loadCurve c df = .ok cp) :
    cp.dp.m < 256 ^ cp.elemLenBin ∧ cp.dp.order < 256 ^ cp.orderLenBin := by
  rcases bind_eq_ok_iff.mp loaded with ⟨_, _, rest⟩
  rcases bind_eq_ok_iff.mp rest with ⟨_, _, rest⟩
  rcases bind_eq_ok_iff.mp rest with ⟨_, _, rest⟩
  rcases bind_eq_ok_iff.mp rest with ⟨_, _, rest⟩
  rcases bind_eq_ok_iff.mp rest with ⟨_, _, rest⟩
  rcases bind_eq_ok_iff.mp rest with ⟨_, elem, rest⟩
  rcases bind_eq_ok_iff.mp rest with ⟨_, order, rest⟩
  cases rest
  cases elem
  cases order
  have holds (x : Nat) : x < 256 ^ ((nbits x + 7) / 8) := by
    have room : 2 ^ nbits x ≤ 2 ^ (8 * ((nbits x + 7) / 8)) :=
      Nat.pow_le_pow_right (by omega) (by omega)
    rw [pow_mul] at room
    exact (lt_two_pow_nbits x).trans_le room
  exact ⟨holds _, holds _⟩

end Loaded

section Signature

variable {cp : CurveParams} [prime : Fact cp.dp.m.Prime]
  {block : Field 32 → Nat → Field 16} {msg : Field 64} {d : Nat}

/-- The exponent that is drawn at a place of the stream of a key. -/
def drawnExponent (block : Field 32 → Nat → Field 16) (key : Field 32) (cp : CurveParams)
    (i : Nat) : Nat :=
  bufToExponent ((List.range cp.orderLenBin).map fun j =>
    cipherStream block key (i * cp.orderLenBin + j)) cp

/-- What is signed with: an exponent whose point and remainder make a signature. -/
structure SignedBy (cp : CurveParams) [Fact cp.dp.m.Prime] (msg : Field 64) (d k r s : Nat) :
    Prop where
  exponent : 0 < k ∧ k < cp.dp.order
  point : ∃ p, pointmul cp.dp.base k cp.dp = .ok p ∧ r = p.x % cp.dp.order
  r_ne : r ≠ 0
  s_lt : s < cp.dp.order
  s_ne : s ≠ 0
  equation : (s : ZMod cp.dp.order) * k = d * r + value msg.bytes

/-- An exponent can be signed with. -/
def Usable (cp : CurveParams) [Fact cp.dp.m.Prime] (msg : Field 64) (d k : Nat) : Prop :=
  ∃ r s, SignedBy cp msg d k r s

theorem natCast_ne_zero_of_lt {n k : Nat} (pos : 0 < k) (below : k < n) : (k : ZMod n) ≠ 0 := by
  have : NeZero n := ⟨by omega⟩
  rw [Ne, cast_eq_zero_iff below]
  omega

/-- One turn signs with the exponent that it draws, or goes on when that is not usable. -/
theorem ecdsaSignLoop_turn (generated : Generated cp.dp) {key : Field 32} {i : Nat}
    {cprng : Aes256ctr} (used : UsedTo block key (i * cp.orderLenBin) cprng) (fuel : Nat) :
    (∃ r s, SignedBy cp msg d (drawnExponent block key cp i) r s ∧
      ecdsaSignLoop block msg d cp (fuel + 1) cprng = .ok (s * cp.dp.order + r)) ∨
    (¬ Usable cp msg d (drawnExponent block key cp i) ∧
      ∃ next, UsedTo block key ((i + 1) * cp.orderLenBin) next ∧
        ecdsaSignLoop block msg d cp (fuel + 1) cprng =
          ecdsaSignLoop block msg d cp fuel next) := by
  rcases aes256cprngFillbuf_spec used cp.orderLenBin with ⟨advanced, drawn⟩
  rw [← Nat.succ_mul] at advanced
  have exponent : (ecdsaCprngGetExponent block cprng cp).2 = drawnExponent block key cp i := by
    rw [drawnExponent, ← drawn]
    rfl
  have range := bufToExponent_range generated ((List.range cp.orderLenBin).map fun j =>
    cipherStream block key (i * cp.orderLenBin + j))
  rw [← drawnExponent] at range
  rcases generated.base with ⟨G, _, based, _⟩
  rcases pointmul_returns generated.elliptic based (drawnExponent block key cp i) with
    ⟨p, multiplied, _⟩
  have loop : ecdsaSignLoop block msg d cp (fuel + 1) cprng =
      if p.x % cp.dp.order = 0 then
        ecdsaSignLoop block msg d cp fuel (ecdsaCprngGetExponent block cprng cp).1
      else if mulm (addm (mulm d (p.x % cp.dp.order) cp.dp.order)
            (value msg.bytes % cp.dp.order) cp.dp.order)
          (invm (drawnExponent block key cp i) cp.dp.order) cp.dp.order = 0 then
        ecdsaSignLoop block msg d cp fuel (ecdsaCprngGetExponent block cprng cp).1
      else .ok (mulm (addm (mulm d (p.x % cp.dp.order) cp.dp.order)
          (value msg.bytes % cp.dp.order) cp.dp.order)
        (invm (drawnExponent block key cp i) cp.dp.order) cp.dp.order * cp.dp.order +
          p.x % cp.dp.order) := by
    rw [ecdsaSignLoop]
    dsimp only
    rw [exponent, multiplied, ok_bind]
  have : Fact cp.dp.order.Prime := ⟨generated.order_prime⟩
  have invertible := natCast_ne_zero_of_lt range.1 range.2
  generalize drawnExponent block key cp i = k at *
  generalize isR : p.x % cp.dp.order = r at *
  generalize isS : mulm (addm (mulm d r cp.dp.order) (value msg.bytes % cp.dp.order) cp.dp.order)
    (invm k cp.dp.order) cp.dp.order = s at *
  have s_lt : s < cp.dp.order := isS ▸ mulm_lt generated.order_prime.pos _ _
  have equation : (s : ZMod cp.dp.order) * k = d * r + value msg.bytes := by
    have : NeZero cp.dp.order := ⟨generated.order_prime.ne_zero⟩
    rw [← isS]
    simp only [cast_mulm, cast_addm, cast_invm, ZMod.natCast_mod]
    rw [mul_assoc, inv_mul_cancel₀ invertible, mul_one]
  -- the remainder and the second number of an exponent are determined by it
  have determined (r' s' : Nat) (signed : SignedBy cp msg d k r' s') : r' = r ∧ s' = s := by
    rcases signed.point with ⟨p', multiplied', isR'⟩
    cases multiplied.symm.trans multiplied'
    rw [isR] at isR'
    subst isR'
    refine ⟨rfl, ?_⟩
    rw [← cast_eq_cast_iff signed.s_lt s_lt]
    exact mul_right_cancel₀ invertible (signed.equation.trans equation.symm)
  rw [loop]
  by_cases noR : r = 0
  · rw [if_pos noR]
    refine .inr ⟨?_, _, advanced, rfl⟩
    rintro ⟨r', s', signed⟩
    exact signed.r_ne ((determined r' s' signed).1.trans noR)
  · rw [if_neg noR]
    by_cases noS : s = 0
    · rw [if_pos noS]
      refine .inr ⟨?_, _, advanced, rfl⟩
      rintro ⟨r', s', signed⟩
      exact signed.s_ne ((determined r' s' signed).2.trans noS)
    · rw [if_neg noS]
      exact .inl ⟨r, s, ⟨range, ⟨p, multiplied, isR.symm⟩, noR, s_lt, noS, equation⟩, rfl⟩

/-- The loop signs with the first usable exponent of the stream, and does not end without one. -/
theorem ecdsaSignLoop_spec (generated : Generated cp.dp) {key : Field 32} {fuel i : Nat}
    {cprng : Aes256ctr} (used : UsedTo block key (i * cp.orderLenBin) cprng) :
    (∃ k r s, SignedBy cp msg d k r s ∧
      ecdsaSignLoop block msg d cp fuel cprng = .ok (s * cp.dp.order + r)) ∨
    ((∀ j < fuel, ¬ Usable cp msg d (drawnExponent block key cp (i + j))) ∧
      ecdsaSignLoop block msg d cp fuel cprng = .error .nonterminating) := by
  induction fuel generalizing i cprng with
  | zero => exact .inr ⟨by simp, rfl⟩
  | succ fuel ih =>
      rcases ecdsaSignLoop_turn generated used fuel with
        ⟨r, s, signed, returned⟩ | ⟨unusable, next, advanced, same⟩
      · exact .inl ⟨_, r, s, signed, returned⟩
      · rw [same]
        rcases ih advanced with signed | ⟨others, endless⟩
        · exact .inl signed
        · refine .inr ⟨?_, endless⟩
          intro j below
          cases j with
          | zero => exact unusable
          | succ j =>
              have other := others j (by omega)
              rwa [Nat.add_assoc, Nat.add_comm 1] at other

/-- The two multiples that are compared add up to the point of the exponent. -/
theorem ecdsaVerify_signed (generated : Generated cp.dp) {Q : AffinePoint}
    (isPublic : pointmul cp.dp.base d cp.dp = .ok Q) {k r s : Nat}
    (signed : SignedBy cp msg d k r s) :
    ecdsaVerify msg Q (s * cp.dp.order + r) cp = .ok true := by
  have : Fact cp.dp.order.Prime := ⟨generated.order_prime⟩
  have : NeZero cp.dp.order := ⟨generated.order_prime.ne_zero⟩
  rcases signed.point with ⟨p, multiplied, isR⟩
  have r_lt : r < cp.dp.order := isR ▸ Nat.mod_lt _ generated.order_prime.pos
  have quotient : (s * cp.dp.order + r) / cp.dp.order = s := by
    rw [Nat.mul_comm, Nat.mul_add_div generated.order_prime.pos, Nat.div_eq_of_lt r_lt,
      Nat.add_zero]
  have remainder : (s * cp.dp.order + r) % cp.dp.order = r := by
    rw [Nat.mul_comm, Nat.mul_add_mod, Nat.mod_eq_of_lt r_lt]
  have inside : ¬ (s = 0 ∨ cp.dp.order ≤ s ∨ r = 0 ∨ cp.dp.order ≤ r) := by
    have s_lt := signed.s_lt
    have s_ne := signed.s_ne
    have r_ne := signed.r_ne
    omega
  rcases generated.base with ⟨G, _, based, order⟩
  rcases pointmul_returns generated.elliptic based d with ⟨Q', isPublic', key⟩
  cases isPublic.symm.trans isPublic'
  rcases pointmul_returns generated.elliptic based k with ⟨p', multiplied', point⟩
  cases multiplied.symm.trans multiplied'
  generalize isE : mulm (value msg.bytes % cp.dp.order) (invm s cp.dp.order) cp.dp.order = e
  generalize isF : mulm r (invm s cp.dp.order) cp.dp.order = f
  rcases pointmul_returns generated.elliptic based e with ⟨X1, first, firstPoint⟩
  rcases pointmul_returns generated.elliptic key f with ⟨X2, second, secondPoint⟩
  have sum := firstPoint.add generated.elliptic secondPoint
  have total : e • G + f • d • G = k • G := by
    have s_ne := natCast_ne_zero_of_lt (Nat.pos_of_ne_zero signed.s_ne) signed.s_lt
    rw [smul_smul, ← add_nsmul]
    apply smul_base_congr order
    rw [← isE, ← isF]
    push_cast
    simp only [cast_mulm, cast_invm, ZMod.natCast_mod]
    have equation := signed.equation
    field_simp
    linear_combination -equation
  rw [total] at sum
  have same := sum.unique generated.elliptic point
  have finite : ¬ pointIsZero p = true := by
    intro zeros
    rw [pointIsZero_iff] at zeros
    apply signed.r_ne
    rw [isR, zeros, pointLoadZero, Nat.zero_mod]
  rw [ecdsaVerify, quotient, remainder, if_neg inside]
  dsimp only
  rw [isE, isF, first, ok_bind, second, ok_bind, same, if_neg finite, isR]
  simp

/-- What `ECDSA_sign` returns is accepted by `ECDSA_verify` with the public key of the private
key, and it returns unless no exponent of the stream is usable. -/
theorem ecdsaSign_verified (hmacsha256 : Bytes → Bytes → Field 32) {c : Curve} {df : DispFormat}
    (loaded : loadCurve c df = .ok cp) (generated : Generated cp.dp) (small : d < cp.dp.order)
    {Q : AffinePoint} (isPublic : pointmul cp.dp.base d cp.dp = .ok Q) (fuel : Nat)
    (memory : Field 16) :
    ∃ key, serializeMpi cp.orderLenBin .bin d = .ok key ∧
      ((∃ sig, ecdsaSign block hmacsha256 fuel memory msg d cp = .ok sig ∧
        ecdsaVerify msg Q sig cp = .ok true) ∨
      ((∀ i < fuel, ¬ Usable cp msg d (drawnExponent block (hmacsha256 key msg.bytes) cp i)) ∧
        ecdsaSign block hmacsha256 fuel memory msg d cp = .error .nonterminating)) := by
  have fits := small.trans (loadCurve_lengths loaded).2
  have written := serializeMpi_bin fits
  refine ⟨_, written, ?_⟩
  rw [ecdsaSign, ecdsaCprngInit, written, ok_bind, ok_bind]
  generalize hmacsha256 ((Numeral.digits 256 cp.orderLenBin d).map UInt8.ofNat) msg.bytes = key
  have start : UsedTo block key (0 * cp.orderLenBin) (aes256ctrInit memory key) := by
    rw [Nat.zero_mul]
    exact usedTo_init memory
  rcases (ecdsaSignLoop_spec generated start : (∃ k r s, SignedBy cp msg d k r s ∧
      ecdsaSignLoop block msg d cp fuel _ = .ok (s * cp.dp.order + r)) ∨ _) with
    ⟨k, r, s, signed, returned⟩ | ⟨unusable, endless⟩
  · exact .inl ⟨_, returned, ecdsaVerify_signed generated isPublic signed⟩
  · refine .inr ⟨?_, endless⟩
    simpa only [Nat.zero_add] using unusable

theorem ecdsaSign_verified_p160 :
    ∃ cp, ∃ _ : Fact cp.dp.m.Prime, Generated cp.dp ∧ 1 < cp.dp.order ∧
      ∃ Q, pointmul cp.dp.base 1 cp.dp = .ok Q ∧
        ∃ key, serializeMpi cp.orderLenBin .bin 1 = .ok key ∧
          ((∃ sig, ecdsaSign (fun _ _ => .zero 16) (fun _ _ => .zero 32) 1 (.zero 16) (.zero 64) 1
              cp = .ok sig ∧ ecdsaVerify (.zero 64) Q sig cp = .ok true) ∨
            ((∀ i < 1, ¬ Usable cp (.zero 64) 1
                (drawnExponent (fun _ _ => .zero 16) (.zero 32) cp i)) ∧
              ecdsaSign (fun _ _ => .zero 16) (fun _ _ => .zero 32) 1 (.zero 16) (.zero 64) 1 cp =
                .error .nonterminating)) := by
  rcases exists_generated with ⟨cp, _, c, _, loaded, prime, generated, same⟩
  have small : 1 < cp.dp.order := generated.order_prime.one_lt
  rcases generated.base with ⟨G, _, based, _⟩
  rcases pointmul_returns generated.elliptic based 1 with ⟨Q, isPublic, _⟩
  exact ⟨cp, prime, generated, small, Q, isPublic,
    ecdsaSign_verified (fun _ _ => .zero 32) loaded generated small isPublic 1 (.zero 16)⟩

end Signature

end Dnsp2p.Seccure
