import Dnsp2p.Seccure.Ecc

/-!
# The group of a curve

The operations on coordinates are the operations of the group of the curve, so that
`pointmul` gives a multiple and its assertion holds.
-/

namespace Dnsp2p.Seccure

open ShortWeierstrass

variable {dp : DomainParams} [prime : Fact dp.m.Prime]

instance neZero_of_prime : NeZero dp.m :=
  ⟨prime.out.ne_zero⟩

/-! ## The parameters in the field -/

namespace Elliptic

theorem two_ne_zero (elliptic : Elliptic dp) : (2 : ZMod dp.m) ≠ 0 :=
  have : Fact (Nat.Prime 2) := ⟨Nat.prime_two⟩
  mod_cast ZMod.prime_ne_zero dp.m 2 elliptic.odd

theorem smooth_cast (elliptic : Elliptic dp) :
    4 * ((dp.a : ZMod dp.m) * dp.a * dp.a) + 27 * (dp.b * dp.b) ≠ 0 := by
  intro zero
  have cast : ((4 * (dp.a * dp.a * dp.a) + 27 * (dp.b * dp.b) : Nat) : ZMod dp.m) = 0 := by
    push_cast
    exact zero
  rw [ZMod.natCast_eq_zero_iff] at cast
  exact elliptic.smooth (Nat.mod_eq_zero_of_dvd cast)

theorem b_cast_ne (elliptic : Elliptic dp) : (dp.b : ZMod dp.m) ≠ 0 := by
  rw [Ne, cast_eq_zero_iff elliptic.b_lt]
  exact elliptic.b_ne

end Elliptic

theorem pointIsZero_iff {p : AffinePoint} : pointIsZero p = true ↔ p = pointLoadZero := by
  cases p
  simp [pointIsZero, pointLoadZero]

/-! ## Points of the curve -/

namespace PointOf

variable {p q : AffinePoint} {P Q : (curve dp).Point}

theorem zero : PointOf dp pointLoadZero 0 where
  x_lt := prime.out.pos
  y_lt := prime.out.pos
  coords := .inl ⟨rfl, rfl⟩

/-- Two zeros stand for the point at infinity only, since they do not meet the equation. -/
theorem isZero_iff (elliptic : Elliptic dp) (point : PointOf dp p P) :
    pointIsZero p = true ↔ P = 0 := by
  rcases point.coords with ⟨zeros, infinity⟩ | coords
  · simp [zeros, infinity]
  · have nonzero := coords.ne_zero
    constructor
    · intro zeros
      rw [pointIsZero_iff] at zeros
      have equation := coords.equation
      rw [zeros] at equation
      simp only [pointLoadZero, Nat.cast_zero, mul_zero, zero_add] at equation
      exact absurd equation.symm elliptic.b_cast_ne
    · exact fun infinity => absurd infinity nonzero

theorem hasCoords (point : PointOf dp p P) (nonzero : ¬ pointIsZero p = true) :
    HasCoords P (p.x : ZMod dp.m) p.y := by
  rcases point.coords with ⟨zeros, _⟩ | coords
  · exact absurd zeros nonzero
  · exact coords

/-- A point has one pair of coordinates. -/
theorem unique (elliptic : Elliptic dp) (point : PointOf dp p P) (point' : PointOf dp q P) :
    p = q := by
  by_cases infinity : P = 0
  · have zeros := (point.isZero_iff elliptic).mpr infinity
    have zeros' := (point'.isZero_iff elliptic).mpr infinity
    rw [pointIsZero_iff] at zeros zeros'
    rw [zeros, zeros']
  · have coords := point.hasCoords (mt (point.isZero_iff elliptic).mp infinity)
    have coords' := point'.hasCoords (mt (point'.isZero_iff elliptic).mp infinity)
    rcases coords.unique coords' with ⟨sameX, sameY⟩
    rw [cast_eq_cast_iff point.x_lt point'.x_lt] at sameX
    rw [cast_eq_cast_iff point.y_lt point'.y_lt] at sameY
    cases p
    cases q
    cases sameX
    cases sameY
    rfl

/-- A pair of coordinates stands for one point. -/
theorem ext (elliptic : Elliptic dp) (point : PointOf dp p P) (point' : PointOf dp p Q) :
    P = Q := by
  by_cases zeros : pointIsZero p = true
  · rw [(point.isZero_iff elliptic).mp zeros, (point'.isZero_iff elliptic).mp zeros]
  · exact (point.hasCoords zeros).ext (point'.hasCoords zeros)

end PointOf

/-- The comparison of `point_on_curve` is the equation of the curve. -/
theorem pointOnCurve_eq {p : AffinePoint} (nonzero : ¬ pointIsZero p = true) :
    pointOnCurve p dp = true ↔
      ((p.y : ZMod dp.m) * p.y = (p.x * p.x + dp.a) * p.x + dp.b) := by
  have positive := prime.out.pos
  rw [pointOnCurve, if_neg nonzero, beq_iff_eq,
    ← cast_eq_cast_iff (addm_lt positive _ _) (mulm_lt positive _ _)]
  simp only [cast_addm, cast_mulm]
  exact eq_comm

/-- `point_on_curve` accepts the coordinates of points and no others. -/
theorem pointOnCurve_iff (elliptic : Elliptic dp) {p : AffinePoint} (x_lt : p.x < dp.m)
    (y_lt : p.y < dp.m) : pointOnCurve p dp = true ↔ ∃ P, PointOf dp p P := by
  by_cases zeros : pointIsZero p = true
  · constructor
    · intro _
      exact ⟨0, x_lt, y_lt, .inl ⟨zeros, rfl⟩⟩
    · intro _
      rw [pointOnCurve, if_pos zeros]
  · rw [pointOnCurve_eq zeros]
    constructor
    · intro equation
      have nonsingular := (nonsingular_shortWeierstrass elliptic.two_ne_zero
        elliptic.smooth_cast).mpr (equation_shortWeierstrass.mpr equation)
      exact ⟨.some _ _ nonsingular, x_lt, y_lt, .inr ⟨nonsingular, rfl⟩⟩
    · rintro ⟨P, point⟩
      exact (point.hasCoords zeros).equation

/-! ## Affine operations -/

namespace PointOf

variable {p q : AffinePoint} {P Q : (curve dp).Point}

theorem onCurve (elliptic : Elliptic dp) (point : PointOf dp p P) : pointOnCurve p dp = true :=
  (pointOnCurve_iff elliptic point.x_lt point.y_lt).mpr ⟨P, point⟩

/-- `point_double` is the double in the group. -/
theorem double (elliptic : Elliptic dp) (point : PointOf dp p P) :
    PointOf dp (pointDouble p dp) (P + P) := by
  have positive := prime.out.pos
  by_cases flat : p.y = 0
  · have result : pointDouble p dp = pointLoadZero := by
      rw [pointDouble, if_neg (not_not.mpr flat), flat, pointLoadZero]
    have infinity : P + P = 0 := by
      rcases point.coords with ⟨_, rfl⟩ | coords
      · exact add_zero 0
      · exact (coords.congr rfl (by rw [flat, Nat.cast_zero])).double_of_Y_eq
    rw [result, infinity]
    exact zero
  · have coords := point.hasCoords (by simp [pointIsZero, flat])
    have slanted : (p.y : ZMod dp.m) ≠ 0 := by rwa [Ne, cast_eq_zero_iff point.y_lt]
    rw [pointDouble, if_pos flat]
    constructor
    · exact subm_lt positive _ _
    · exact subm_lt positive _ _
    · apply Or.inr
      apply (coords.double elliptic.two_ne_zero slanted rfl rfl).congr
      · simp only [cast_addm, cast_mulm, cast_subm, cast_invm]
        ring
      · simp only [cast_addm, cast_mulm, cast_subm, cast_invm]
        ring

/-- `point_add` is the sum in the group. -/
theorem add (elliptic : Elliptic dp) (point : PointOf dp p P) (point' : PointOf dp q Q) :
    PointOf dp (pointAdd p q dp) (P + Q) := by
  have positive := prime.out.pos
  by_cases zeros' : pointIsZero q = true
  · rw [pointAdd, if_pos zeros', (point'.isZero_iff elliptic).mp zeros', add_zero]
    exact point
  by_cases zeros : pointIsZero p = true
  · rw [pointAdd, if_neg zeros', if_pos zeros, (point.isZero_iff elliptic).mp zeros, zero_add]
    exact point'
  have coords := point.hasCoords zeros
  have coords' := point'.hasCoords zeros'
  rw [pointAdd, if_neg zeros', if_neg zeros]
  by_cases sameX : p.x = q.x
  · rw [if_pos sameX]
    by_cases sameY : p.y = q.y
    · have same : P = Q := coords.ext (coords'.congr (by rw [sameX]) (by rw [sameY]))
      rw [if_pos sameY, ← same]
      exact point.double elliptic
    · rw [if_neg sameY]
      have differ : (p.y : ZMod dp.m) ≠ q.y := by
        rwa [Ne, cast_eq_cast_iff point.y_lt point'.y_lt]
      rw [(coords.congr (by rw [sameX]) rfl).add_of_Y_ne coords' differ]
      exact zero
  · rw [if_neg sameX]
    have differ : (p.x : ZMod dp.m) ≠ q.x := by
      rwa [Ne, cast_eq_cast_iff point.x_lt point'.x_lt]
    have nonzero : (p.x : ZMod dp.m) - q.x ≠ 0 := sub_ne_zero.mpr differ
    constructor
    · exact subm_lt positive _ _
    · exact subm_lt positive _ _
    · apply Or.inr
      apply (coords.add_of_X_ne coords' differ rfl rfl).congr
      · simp only [cast_addm, cast_mulm, cast_subm, cast_invm]
        ring
      · simp only [cast_addm, cast_mulm, cast_subm, cast_invm]
        field_simp
        ring

end PointOf

/-! ## Jacobian operations -/

namespace JacobianOf

variable {p : JacobianPoint} {q : AffinePoint} {P Q : (curve dp).Point}

theorem new : JacobianOf dp jacobianNew 0 where
  x_lt := prime.out.pos
  y_lt := prime.out.pos
  z_lt := prime.out.pos
  coords := by simpa [jacobianNew] using HasJacobian.of_zero

theorem loadZero (jacobian : JacobianOf dp p P) : JacobianOf dp { p with z := 0 } 0 where
  x_lt := jacobian.x_lt
  y_lt := jacobian.y_lt
  z_lt := prime.out.pos
  coords := by simpa using HasJacobian.of_zero

/-- `jacobian_double` is the double in the group. -/
theorem double (elliptic : Elliptic dp) (jacobian : JacobianOf dp p P) :
    JacobianOf dp (jacobianDouble p dp) (P + P) := by
  have positive := prime.out.pos
  have coords := jacobian.coords
  by_cases infinity : p.z = 0
  · have zero : P = 0 := by
      rw [infinity, Nat.cast_zero] at coords
      exact coords.eq_zero
    rw [jacobianDouble, if_neg (not_not.mpr infinity), zero, add_zero, ← zero]
    exact jacobian
  · have nonzero : (p.z : ZMod dp.m) ≠ 0 := by rwa [Ne, cast_eq_zero_iff jacobian.z_lt]
    rw [jacobianDouble, if_pos infinity]
    by_cases flat : p.y = 0
    · rw [flat, Nat.cast_zero] at coords
      rw [if_neg (not_not.mpr flat), coords.double_of_Y_eq nonzero]
      exact jacobian.loadZero
    · have slanted : (p.y : ZMod dp.m) ≠ 0 := by rwa [Ne, cast_eq_zero_iff jacobian.y_lt]
      have sum := coords.double elliptic.two_ne_zero nonzero slanted rfl rfl rfl
      rw [if_pos flat]
      constructor
      · exact subm_lt positive _ _
      · exact subm_lt positive _ _
      · exact addm_lt positive _ _
      · convert sum using 1
        all_goals
          simp only [cast_addm, cast_mulm, cast_subm]
          ring

/-- `jacobian_affine_point_add` is the sum in the group. -/
theorem add (elliptic : Elliptic dp) (jacobian : JacobianOf dp p P) (point : PointOf dp q Q) :
    JacobianOf dp (jacobianAffinePointAdd p q dp) (P + Q) := by
  have positive := prime.out.pos
  have standing := jacobian.coords
  by_cases zeros : pointIsZero q = true
  · rw [jacobianAffinePointAdd, if_pos zeros, (point.isZero_iff elliptic).mp zeros, add_zero]
    exact jacobian
  have coords := point.hasCoords zeros
  rw [jacobianAffinePointAdd, if_neg zeros]
  by_cases infinity : p.z = 0
  · have zero : P = 0 := by
      rw [infinity, Nat.cast_zero] at standing
      exact standing.eq_zero
    rw [if_neg (not_not.mpr infinity), jacobianLoadAffine, if_neg zeros, zero, zero_add]
    refine ⟨point.x_lt, point.y_lt, prime.out.one_lt, ?_⟩
    simpa using HasJacobian.of_affine coords
  · have nonzero : (p.z : ZMod dp.m) ≠ 0 := by rwa [Ne, cast_eq_zero_iff jacobian.z_lt]
    rw [if_pos infinity]
    dsimp only
    by_cases sameX : p.x = mulm (mulm p.z p.z dp.m) q.x dp.m
    · have overX : (p.x : ZMod dp.m) / p.z ^ 2 = q.x := by
        rw [sameX, cast_mulm, cast_mulm]
        field_simp
      rw [if_pos sameX]
      by_cases sameY : p.y = mulm (mulm (mulm p.z p.z dp.m) p.z dp.m) q.y dp.m
      · have overY : (p.y : ZMod dp.m) / p.z ^ 3 = q.y := by
          rw [sameY, cast_mulm, cast_mulm, cast_mulm]
          field_simp
        have same : P = Q := ((standing.coords nonzero).congr overX overY).ext coords
        rw [if_pos sameY, ← same]
        exact jacobian.double elliptic
      · have differ : (p.y : ZMod dp.m) / p.z ^ 3 ≠ q.y := by
          rw [Ne, div_eq_iff (pow_ne_zero 3 nonzero)]
          intro same
          apply sameY
          rw [← cast_eq_cast_iff jacobian.y_lt (mulm_lt positive _ _), same]
          simp only [cast_mulm]
          ring
        rw [if_neg sameY, ((standing.coords nonzero).congr overX rfl).add_of_Y_ne coords differ]
        exact jacobian.loadZero
    · have differ : (p.x : ZMod dp.m) - p.z * p.z * q.x ≠ 0 := by
        rw [Ne, sub_eq_zero]
        intro same
        apply sameX
        rw [← cast_eq_cast_iff jacobian.x_lt (mulm_lt positive _ _), same]
        simp only [cast_mulm]
      have sum := standing.add_of_X_ne nonzero coords rfl rfl rfl rfl differ rfl
      rw [if_neg sameX]
      constructor
      · exact subm_lt positive _ _
      · exact subm_lt positive _ _
      · exact mulm_lt positive _ _
      · convert sum using 1
        · simp only [cast_mulm, cast_subm]
          ring
        · simp only [cast_mulm, cast_subm]
          ring
        · simp only [cast_mulm, cast_subm]

/-- `jacobian_to_affine` gives the coordinates of the same point. -/
theorem toAffine (jacobian : JacobianOf dp p P) : PointOf dp (jacobianToAffine p dp) P := by
  have positive := prime.out.pos
  by_cases infinity : p.z = 0
  · have coords := jacobian.coords
    rw [infinity, Nat.cast_zero] at coords
    rw [jacobianToAffine, if_neg (not_not.mpr infinity), coords.eq_zero]
    exact PointOf.zero
  · have nonzero : (p.z : ZMod dp.m) ≠ 0 := by rwa [Ne, cast_eq_zero_iff jacobian.z_lt]
    rw [jacobianToAffine, if_pos infinity]
    constructor
    · exact mulm_lt positive _ _
    · exact mulm_lt positive _ _
    · apply Or.inr
      apply (jacobian.coords.coords nonzero).congr
      · simp only [cast_mulm, cast_invm]
        field_simp
      · simp only [cast_mulm, cast_invm]
        field_simp

end JacobianOf

/-! ## Multiples -/

section Multiples

variable {p : AffinePoint} {P : (curve dp).Point}

/-- What the turns of `pointmul` leave stands for the multiple. -/
theorem pointmul_jacobian (elliptic : Elliptic dp) (point : PointOf dp p P) (exp : Nat) :
    JacobianOf dp (ladder (jacobianDouble · dp) (jacobianAffinePointAdd · p dp) exp (nbits exp)
      jacobianNew) (exp • P) := by
  refine @ladder_stands_exp _ _ _ (fun r k => JacobianOf dp r (k • P)) ?_ ?_ _ _ _ ?_ ?_
  · intro r k jacobian
    rw [two_mul, add_nsmul]
    exact jacobian.double elliptic
  · intro r k jacobian
    rw [add_nsmul, one_nsmul]
    exact jacobian.add elliptic point
  · rw [zero_nsmul]
    exact JacobianOf.new
  · exact lt_two_pow_nbits exp

/-- What the turns of the `pointmul` in affine coordinates leave stands for the multiple. -/
theorem pointmul_affine (elliptic : Elliptic dp) (point : PointOf dp p P) (exp : Nat) :
    PointOf dp (ladder (pointDouble · dp) (pointAdd · p dp) exp (nbits exp) pointLoadZero)
      (exp • P) := by
  refine @ladder_stands_exp _ _ _ (fun r k => PointOf dp r (k • P)) ?_ ?_ _ _ _ ?_ ?_
  · intro r k partly
    rw [two_mul, add_nsmul]
    exact partly.double elliptic
  · intro r k partly
    rw [add_nsmul, one_nsmul]
    exact partly.add elliptic point
  · rw [zero_nsmul]
    exact PointOf.zero
  · exact lt_two_pow_nbits exp

/-- `pointmul` returns the coordinates of the multiple. -/
theorem pointmul_returns (elliptic : Elliptic dp) (point : PointOf dp p P) (exp : Nat) :
    ∃ r, pointmul p exp dp = .ok r ∧ PointOf dp r (exp • P) := by
  have multiple := (pointmul_jacobian elliptic point exp).toAffine
  refine ⟨_, ?_, multiple⟩
  rw [pointmul]
  exact if_pos (multiple.onCurve elliptic)

/-- Both versions of `pointmul` pass their assertion and return the coordinates of the multiple
by the exponent, which no other pair has. -/
theorem pointmul_multiple (elliptic : Elliptic dp) (point : PointOf dp p P) (exp : Nat) :
    ∃ r, pointmul p exp dp = .ok r ∧ pointmulAffine p exp dp = .ok r ∧
      ∀ q, PointOf dp q (exp • P) ↔ q = r := by
  rcases pointmul_returns elliptic point exp with ⟨r, multiplied, multiple⟩
  have plain := pointmul_affine elliptic point exp
  refine ⟨r, multiplied, ?_, ?_⟩
  · rw [pointmulAffine, if_pos (plain.onCurve elliptic), plain.unique elliptic multiple]
  · intro q
    constructor
    · exact fun other => other.unique elliptic multiple
    · rintro rfl
      exact multiple

end Multiples

/-- A curve of nine points over the field of five elements. -/
def ninePoints : DomainParams where
  a := 1
  b := 1
  m := 5
  order := 9
  base := { x := 0, y := 1 }
  cofactor := 1

theorem pointmul_multiple_ninePoints :
    ∃ _ : Fact ninePoints.m.Prime, Elliptic ninePoints ∧
      ∃ P, PointOf ninePoints ninePoints.base P ∧
        ∃ r, pointmul ninePoints.base 7 ninePoints = .ok r ∧
          pointmulAffine ninePoints.base 7 ninePoints = .ok r ∧
            ∀ q, PointOf ninePoints q (7 • P) ↔ q = r := by
  have prime : Fact ninePoints.m.Prime := ⟨Nat.prime_five⟩
  have elliptic : Elliptic ninePoints := ⟨by decide, by decide, by decide, by decide⟩
  rcases (pointOnCurve_iff elliptic (p := ninePoints.base) (by decide) (by decide)).mp
    (by decide) with ⟨P, point⟩
  exact ⟨prime, elliptic, P, point, pointmul_multiple elliptic point 7⟩

end Dnsp2p.Seccure
