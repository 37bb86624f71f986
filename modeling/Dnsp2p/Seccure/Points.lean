import Dnsp2p.Seccure.Standard

/-!
# Public keys

The points that serve as public keys are those of the curve other than the one at infinity.
They are what the validation accepts, and what is read from and written to text.
-/

namespace Dnsp2p.Seccure

open ShortWeierstrass

variable {dp : DomainParams} [prime : Fact dp.m.Prime]

/-- The coordinates of a point of the curve other than the one at infinity. -/
def IsKey (dp : DomainParams) [Fact dp.m.Prime] (p : AffinePoint) : Prop :=
  ∃ P, P ≠ 0 ∧ PointOf dp p P

/-- Keys are the pairs of reduced coordinates that meet the equation of the curve. -/
theorem isKey_iff (elliptic : Elliptic dp) {p : AffinePoint} :
    IsKey dp p ↔ p.x < dp.m ∧ p.y < dp.m ∧
      (p.y : ZMod dp.m) * p.y = (p.x * p.x + dp.a) * p.x + dp.b := by
  constructor
  · rintro ⟨P, finite, point⟩
    have coords := point.hasCoords (mt (point.isZero_iff elliptic).mp finite)
    exact ⟨point.x_lt, point.y_lt, coords.equation⟩
  · rintro ⟨x_lt, y_lt, equation⟩
    have nonsingular := (nonsingular_shortWeierstrass elliptic.two_ne_zero
      elliptic.smooth_cast).mpr (equation_shortWeierstrass.mpr equation)
    have coords : HasCoords (a := (dp.a : ZMod dp.m)) (b := dp.b) (.some _ _ nonsingular) p.x p.y :=
      ⟨nonsingular, rfl⟩
    exact ⟨_, coords.ne_zero, x_lt, y_lt, .inr coords⟩

/-! ## Validation -/

/-- `embedded_key_validation` accepts the keys and nothing else. -/
theorem embeddedKeyValidation_iff (elliptic : Elliptic dp) {p : AffinePoint} :
    embeddedKeyValidation p dp = true ↔ IsKey dp p := by
  by_cases reduced : p.x < dp.m ∧ p.y < dp.m
  · have inside : ¬ (dp.m ≤ p.x ∨ dp.m ≤ p.y) := by omega
    rw [embeddedKeyValidation, if_neg inside, Bool.and_eq_true, Bool.not_eq_true',
      ← Bool.not_eq_true, pointOnCurve_iff elliptic reduced.1 reduced.2]
    constructor
    · rintro ⟨nonzero, P, point⟩
      exact ⟨P, mt (point.isZero_iff elliptic).mpr nonzero, point⟩
    · rintro ⟨P, finite, point⟩
      exact ⟨mt (point.isZero_iff elliptic).mp finite, P, point⟩
  · have outside : dp.m ≤ p.x ∨ dp.m ≤ p.y := by omega
    rw [embeddedKeyValidation, if_pos outside]
    constructor
    · rintro ⟨⟩
    · rintro ⟨P, _, point⟩
      exact absurd ⟨point.x_lt, point.y_lt⟩ reduced

/-- `full_key_validation` accepts the keys whose multiple by the order vanishes; where the
cofactor is one that multiple is not computed. -/
theorem fullKeyValidation_returns (elliptic : Elliptic dp) (p : AffinePoint) :
    ∃ valid, fullKeyValidation p dp = .ok valid ∧
      (valid = true ↔ ∃ P, P ≠ 0 ∧ PointOf dp p P ∧ (dp.cofactor ≠ 1 → dp.order • P = 0)) := by
  by_cases embedded : embeddedKeyValidation p dp = true
  · rcases (embeddedKeyValidation_iff elliptic).mp embedded with ⟨P, finite, point⟩
    rw [fullKeyValidation, if_pos embedded]
    by_cases large : dp.cofactor ≠ 1
    · rcases pointmul_returns elliptic point dp.order with ⟨bp, multiplied, multiple⟩
      rw [if_pos large, multiplied, ok_bind]
      refine ⟨_, rfl, ?_⟩
      rw [multiple.isZero_iff elliptic]
      constructor
      · exact fun vanishes => ⟨P, finite, point, fun _ => vanishes⟩
      · rintro ⟨P', _, point', vanishes⟩
        rw [point.ext elliptic point']
        exact vanishes large
    · rw [if_neg large]
      refine ⟨true, rfl, ?_⟩
      constructor
      · exact fun _ => ⟨P, finite, point, fun other => absurd other large⟩
      · exact fun _ => rfl
  · rw [fullKeyValidation, if_neg embedded]
    refine ⟨false, rfl, ?_⟩
    constructor
    · rintro ⟨⟩
    · rintro ⟨P, finite, point, _⟩
      exact absurd ((embeddedKeyValidation_iff elliptic).mpr ⟨P, finite, point⟩) embedded

/-! ## Decompression -/

/-- The two roots of one number have different parities. -/
theorem testBit_sub {m y : Nat} (odd : m % 2 = 1) (below : y < m) :
    (m - y).testBit 0 = !y.testBit 0 := by
  rw [Nat.testBit_zero, Nat.testBit_zero]
  by_cases parity : y % 2 = 1
  · have other : ¬ (m - y) % 2 = 1 := by omega
    simp [parity, other]
  · have other : (m - y) % 2 = 1 := by omega
    simp [parity, other]

/-- Roots of one number below a prime are the same or add up to the prime. -/
theorem roots_eq_or {m y z : Nat} [prime : Fact m.Prime] (y_lt : y < m) (z_lt : z < m)
    (same : (y : ZMod m) * y = z * z) : z = y ∨ y ≠ 0 ∧ z = m - y := by
  rcases mul_self_eq_mul_self_iff.mp same with equal | opposite
  · exact .inl ((cast_eq_cast_iff y_lt z_lt).mp equal).symm
  · have sum : ((y + z : Nat) : ZMod m) = 0 := by
      rw [Nat.cast_add, opposite, neg_add_cancel]
    rw [ZMod.natCast_eq_zero_iff] at sum
    rcases sum with ⟨factor, split⟩
    have small : factor < 2 := by
      by_contra large
      have bound := Nat.mul_le_mul_left m (Nat.le_of_not_lt large)
      omega
    interval_cases factor
    · left
      omega
    · by_cases zero : y = 0
      · omega
      · right
        omega

/-- The keys over a coordinate are given by a root of the right side of the equation. -/
theorem isKey_over (elliptic : Elliptic dp) {x y : Nat} (x_lt : x < dp.m) (y_lt : y < dp.m)
    (isRoot : (y : ZMod dp.m) * y = (x * x + dp.a) * x + dp.b) (z : Nat) :
    IsKey dp ⟨x, z⟩ ↔ z = y ∨ y ≠ 0 ∧ z = dp.m - y := by
  rw [isKey_iff elliptic]
  constructor
  · rintro ⟨_, z_lt, equation⟩
    exact roots_eq_or y_lt z_lt (isRoot.trans equation.symm)
  · rintro (rfl | ⟨nonzero, rfl⟩)
    · exact ⟨x_lt, y_lt, isRoot⟩
    · have below : dp.m - y < dp.m := by omega
      refine ⟨x_lt, below, ?_⟩
      rw [Nat.cast_sub y_lt.le, ZMod.natCast_self, zero_sub, neg_mul_neg]
      exact isRoot

/-- Of the two roots the one with a parity is chosen, if there is one. -/
theorem root_of_parity {m y z : Nat} (odd : m % 2 = 1) (y_lt : y < m) {yflag : Bool}
    (chosen : y ≠ 0 ∨ yflag = false) :
    (z = y ∨ y ≠ 0 ∧ z = m - y) ∧ z.testBit 0 = yflag ↔
      z = if y.testBit 0 = yflag then y else m - y := by
  have other := testBit_sub odd y_lt
  by_cases parity : y.testBit 0 = yflag
  · rw [if_pos parity]
    constructor
    · rintro ⟨rfl | ⟨_, rfl⟩, flag⟩
      · rfl
      · rw [other, parity] at flag
        simp at flag
    · rintro rfl
      exact ⟨.inl rfl, parity⟩
  · have nonzero : y ≠ 0 := by
      rintro rfl
      rcases chosen with nonzero | low
      · exact nonzero rfl
      · exact parity (by rw [low, Nat.zero_testBit])
    rw [if_neg parity]
    constructor
    · rintro ⟨rfl | ⟨_, rfl⟩, flag⟩
      · exact absurd flag parity
      · rfl
    · rintro rfl
      refine ⟨.inr ⟨nonzero, rfl⟩, ?_⟩
      rw [other]
      cases yflag <;> simpa using parity

/-- `point_decompress` ends without a fault, and finds the key with the coordinate and the
parity if there is one. -/
theorem pointDecompress_returns (elliptic : Elliptic dp) {x : Nat} (x_lt : x < dp.m)
    (yflag : Bool) :
    ∃ found, pointDecompress x yflag dp = .ok found ∧
      ∀ p, found = some p ↔ p.x = x ∧ pointCompress p = yflag ∧ IsKey dp p := by
  have positive := prime.out.pos
  have odd := prime.out.eq_two_or_odd.resolve_left elliptic.odd
  have right : ((addm (mulm (addm (mulm x x dp.m) dp.a dp.m) x dp.m) dp.b dp.m : Nat) :
      ZMod dp.m) = (x * x + dp.a) * x + dp.b := by
    simp only [cast_addm, cast_mulm]
  rcases modRoot_returns elliptic.odd (addm_lt positive (mulm (addm (mulm x x dp.m) dp.a dp.m) x
    dp.m) dp.b) with ⟨root, searched, roots, exists_iff⟩
  rw [pointDecompress, searched, ok_bind]
  rw [right] at roots exists_iff
  cases root with
  | none =>
      refine ⟨none, rfl, fun p => ?_⟩
      constructor
      · rintro ⟨⟩
      · rintro ⟨rfl, _, key⟩
        rcases (isKey_iff elliptic).mp key with ⟨_, _, equation⟩
        have square := exists_iff.mpr ⟨_, equation.symm⟩
        cases square
  | some y =>
      rcases roots y rfl with ⟨y_lt, isRoot⟩
      have above := isKey_over elliptic x_lt y_lt isRoot
      dsimp only
      by_cases chosen : y ≠ 0 ∨ yflag = false
      · have choice := fun z => root_of_parity (z := z) odd y_lt chosen
        rw [if_pos chosen]
        generalize (if y.testBit 0 = yflag then y else dp.m - y) = z at choice ⊢
        rcases (choice z).mpr rfl with ⟨isKey, _⟩
        rcases (above z).mpr isKey with ⟨P, _, point⟩
        rw [if_pos (point.onCurve elliptic)]
        refine ⟨_, rfl, fun p => ?_⟩
        constructor
        · rintro ⟨rfl⟩
          rcases (choice z).mpr rfl with ⟨isKey, parity⟩
          exact ⟨rfl, parity, (above z).mpr isKey⟩
        · rintro ⟨rfl, parity, key⟩
          have same := (choice p.y).mp ⟨(above p.y).mp key, parity⟩
          rw [← same]
      · rcases not_or.mp chosen with ⟨zero, high⟩
        rw [if_neg chosen]
        refine ⟨none, rfl, fun p => ?_⟩
        constructor
        · rintro ⟨⟩
        · rintro ⟨rfl, parity, key⟩
          rcases (above p.y).mp key with equal | ⟨nonzero, _⟩
          · rw [pointCompress, equal, not_not.mp zero, Nat.zero_testBit] at parity
            exact absurd parity.symm high
          · exact absurd nonzero zero

/-! ## Text -/

/-- What a function is given that reads a string: bytes, or characters up to a NUL. -/
def cText (df : DispFormat) (buf : Bytes) : Bytes :=
  if df = .bin then buf else buf ++ [0]

section Text

variable {c : Curve} {loadedFor df : DispFormat} {cp : CurveParams}

/-- The lengths that are computed for a curve hold its keys. -/
theorem compressToString_returns (loaded : loadCurve c loadedFor = .ok cp)
    (either : df = .bin ∨ df = loadedFor) {p : AffinePoint} (reduced : p.x < cp.dp.m) :
    ∃ buf, compressToString df p cp = .ok buf := by
  have bound := compressed_lt reduced
  rcases loadCurve_spec loaded with ⟨binary, compact⟩
  by_cases bin : df = .bin
  · subst bin
    have bits := lt_two_pow_nbits (cp.dp.m + cp.dp.m - 1)
    have room : 2 ^ nbits (cp.dp.m + cp.dp.m - 1) ≤ 2 ^ (8 * cp.pkLenBin) :=
      Nat.pow_le_pow_right (by omega) (by omega)
    have byte : (2 : Nat) ^ 8 = 256 := rfl
    rw [pow_mul, byte] at room
    have fits : cp.compressed p < 256 ^ cp.pkLenBin := by omega
    exact ⟨_, serializeMpi_bin fits⟩
  · obtain rfl := either.resolve_left bin
    rcases table_of_text bin with ⟨chars, tabled⟩
    rcases getSerializationLen_spec tabled (cp.dp.m + cp.dp.m - 1) with ⟨places, counted, room, _⟩
    cases compact.symm.trans counted
    have len : cp.pkLen df = cp.pkLenCompact := by
      cases df with
      | bin => exact absurd rfl bin
      | compact => rfl
      | base36 => rfl
    rw [compressToString, len]
    exact ⟨_, serializeMpi_eq tabled (by omega)⟩

/-- The loop reads nothing behind its width, and within it it does not fault. -/
theorem deserializeLoop_append (digits : Bytes) (count : Nat) (buf more : Bytes) (x : Nat) :
    ∃ read, deserializeLoop digits count buf.length (buf ++ more) x = .ok read ∧
      deserializeLoop digits count buf.length buf x = .ok read := by
  induction buf generalizing x with
  | nil => exact ⟨some x, rfl, rfl⟩
  | cons char buf ih =>
      rw [List.length_cons, List.cons_append, deserializeLoop, deserializeLoop]
      cases (digits.take count).findIdx? (· = char) with
      | none => exact ⟨none, rfl, rfl⟩
      | some d => exact ih (x * count + d)

theorem deserializeMpi_cText (df : DispFormat) (buf : Bytes) :
    ∃ read, deserializeMpi df (cText df buf) buf.length = .ok read ∧
      deserializeMpi df buf buf.length = .ok read := by
  cases df with
  | bin => exact ⟨some (value (buf.take buf.length)), by simp [deserializeMpi, cText]⟩
  | compact => exact deserializeLoop_append compactDigits 90 buf [0] 0
  | base36 => exact deserializeLoop_append base36Digits 36 buf [0] 0

/-- The integer of a key determines its coordinate and its parity. -/
theorem compressed_eq_iff {p : AffinePoint} (reduced : p.x < cp.dp.m) {x : Nat} :
    cp.compressed p = x ↔
      p.x = (if cp.dp.m ≤ x then x - cp.dp.m else x) ∧
        pointCompress p = decide (cp.dp.m ≤ x) := by
  unfold CurveParams.compressed
  cases pointCompress p with
  | true =>
      simp only [if_true, true_eq_decide_iff]
      split <;> omega
  | false =>
      simp only [Bool.false_eq_true, if_false, false_eq_decide_iff]
      split <;> omega

/-- Strings of the right length pass the assertion, and what is read decides. -/
theorem decompressFromString_eq {buf : Bytes} (length : buf.length = cp.pkLen df)
    (clean : df ≠ .bin → 0 ∉ buf) {read : Option Nat}
    (deserialized : deserializeMpi df (cText df buf) (cp.pkLen df) = .ok read) :
    (read = none → decompressFromString pointDecompress (cText df buf) df cp = .ok none) ∧
      ∀ x, read = some x → decompressFromString pointDecompress (cText df buf) df cp =
        if (if cp.dp.m ≤ x then x - cp.dp.m else x) < cp.dp.m then
          pointDecompress (if cp.dp.m ≤ x then x - cp.dp.m else x) (decide (cp.dp.m ≤ x)) cp.dp
        else .ok none := by
  unfold decompressFromString
  by_cases bin : df = .bin
  · simp only [if_pos bin, ok_bind, ne_eq, not_true_eq_false, if_false, deserialized,
      decide_eq_true_eq]
    exact ⟨by rintro rfl; rfl, by rintro x rfl; rfl⟩
  · have known : strlen (cText df buf) = some (cp.pkLen df) := by
      rw [cText, if_neg bin, strlen_append_nul (clean bin), length]
    simp only [if_neg bin, known, ok_bind, ne_eq, not_true_eq_false, if_false, deserialized,
      decide_eq_true_eq]
    exact ⟨by rintro rfl; rfl, by rintro x rfl; rfl⟩

/-- Text that is written has no NUL in it. -/
theorem clean_of_written {width x : Nat} {buf : Bytes}
    (written : serializeMpi width df x = .ok buf) (text : df ≠ .bin) : 0 ∉ buf := by
  rcases table_of_text text with ⟨chars, tabled⟩
  have known := (serializeMpi_chars tabled (lt_of_serializeMpi tabled written) written).2
  intro nul
  exact (table_spec tabled).2.2.2.2 (known 0 nul)

/-- Strings that are read as a key are those that the key is written as. -/
theorem decompressFromString_returns [Fact cp.dp.m.Prime] (elliptic : Elliptic cp.dp)
    {buf : Bytes} (length : buf.length = cp.pkLen df) (clean : df ≠ .bin → 0 ∉ buf) :
    ∃ found, decompressFromString pointDecompress (cText df buf) df cp = .ok found ∧
      ∀ p, found = some p ↔ IsKey cp.dp p ∧ compressToString df p cp = .ok buf := by
  rcases deserializeMpi_cText df buf with ⟨read, deserialized, plain⟩
  have written (p : AffinePoint) : compressToString df p cp = .ok buf ↔
      read = some (cp.compressed p) := by
    rw [compressToString, serializeMpi_iff, ← length, plain, Except.ok.injEq]
    exact and_iff_right rfl
  simp only [written]
  rw [length] at deserialized
  rcases decompressFromString_eq length clean deserialized with ⟨unread, decided⟩
  cases read with
  | none => exact ⟨none, unread rfl, by simp⟩
  | some x =>
      rw [decided x rfl]
      simp only [Option.some.injEq]
      generalize isX' : (if cp.dp.m ≤ x then x - cp.dp.m else x) = x'
      by_cases small : x' < cp.dp.m
      · rcases pointDecompress_returns elliptic small (decide (cp.dp.m ≤ x)) with
          ⟨found, decompressed, exact_iff⟩
        rw [if_pos small, decompressed]
        refine ⟨found, rfl, fun p => ?_⟩
        rw [exact_iff]
        constructor
        · rintro ⟨coordinate, parity, key⟩
          have reduced : p.x < cp.dp.m := by rwa [coordinate]
          exact ⟨key, ((compressed_eq_iff reduced).mpr ⟨isX' ▸ coordinate, parity⟩).symm⟩
        · rintro ⟨key, same⟩
          have reduced : p.x < cp.dp.m := ((isKey_iff elliptic).mp key).1
          rcases (compressed_eq_iff reduced).mp same.symm with ⟨coordinate, parity⟩
          exact ⟨isX' ▸ coordinate, parity, key⟩
      · rw [if_neg small]
        refine ⟨none, rfl, fun p => ?_⟩
        constructor
        · rintro ⟨⟩
        · rintro ⟨key, same⟩
          have reduced : p.x < cp.dp.m := ((isKey_iff elliptic).mp key).1
          rw [((compressed_eq_iff reduced).mp same.symm).1, isX'] at reduced
          exact absurd reduced small

/-- Every key is written as text or as bytes, and of the strings of that length those that are
written for a key are read as that key and all others are refused. -/
theorem publicKey_text [Fact cp.dp.m.Prime] (loaded : loadCurve c loadedFor = .ok cp)
    (either : df = .bin ∨ df = loadedFor) (elliptic : Elliptic cp.dp) :
    (∀ p, IsKey cp.dp p → ∃ buf, compressToString df p cp = .ok buf ∧
      buf.length = cp.pkLen df ∧
      decompressFromString pointDecompress (cText df buf) df cp = .ok (some p)) ∧
    ∀ buf, buf.length = cp.pkLen df → (df ≠ .bin → 0 ∉ buf) →
      ∃ found, decompressFromString pointDecompress (cText df buf) df cp = .ok found ∧
        ∀ p, found = some p ↔ IsKey cp.dp p ∧ compressToString df p cp = .ok buf := by
  constructor
  · intro p key
    rcases compressToString_returns loaded either ((isKey_iff elliptic).mp key).1 with
      ⟨buf, written⟩
    have length : buf.length = cp.pkLen df := (serializeMpi_iff.mp written).1
    rcases decompressFromString_returns elliptic length (clean_of_written written) with
      ⟨found, read, exact_iff⟩
    refine ⟨buf, written, length, ?_⟩
    rw [read, (exact_iff p).mpr ⟨key, written⟩]
  · exact fun buf length clean => decompressFromString_returns elliptic length clean

theorem publicKey_text_p160 :
    ∃ c cp, ∃ _ : Fact cp.dp.m.Prime, loadCurve c .base36 = .ok cp ∧ Elliptic cp.dp ∧
      (∀ p, IsKey cp.dp p → ∃ buf, compressToString .base36 p cp = .ok buf ∧
        buf.length = cp.pkLen .base36 ∧
        decompressFromString pointDecompress (cText .base36 buf) .base36 cp = .ok (some p)) ∧
      ∀ buf, buf.length = cp.pkLen .base36 → (DispFormat.base36 ≠ .bin → 0 ∉ buf) →
        ∃ found, decompressFromString pointDecompress (cText .base36 buf) .base36 cp = .ok found ∧
          ∀ p, found = some p ↔ IsKey cp.dp p ∧ compressToString .base36 p cp = .ok buf := by
  rcases p160_loaded with ⟨cp, named⟩
  rcases loadCurve_of_named named with ⟨c, _, loaded⟩
  have prime : Fact cp.dp.m.Prime := by
    rw [p160_dp named]
    exact prime_p160
  have elliptic : Elliptic cp.dp := by
    rw [p160_dp named]
    exact elliptic_p160
  exact ⟨c, cp, prime, loaded, elliptic, publicKey_text loaded (.inr rfl) elliptic⟩

end Text

end Dnsp2p.Seccure
