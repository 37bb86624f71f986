import Mathlib.AlgebraicGeometry.EllipticCurve.Affine.Point
import Mathlib.Tactic.FieldSimp
import Mathlib.Tactic.LinearCombination

/-!
# Curves in short Weierstrass form

The group law of `y² = x³ + a x + b` over a field without characteristic two, in affine
coordinates and in the coordinates `(X / Z², Y / Z³)` of Jacobi, in which a sum needs no
division.
-/

namespace ShortWeierstrass

open WeierstrassCurve.Affine

universe u

/-- The curve `y² = x³ + a x + b`. -/
def shortWeierstrass {R : Type u} [CommRing R] (a b : R) : WeierstrassCurve.Affine R where
  a₁ := 0
  a₂ := 0
  a₃ := 0
  a₄ := a
  a₆ := b

variable {F : Type u} [Field F] {a b : F}

theorem equation_shortWeierstrass {x y : F} :
    (shortWeierstrass a b).Equation x y ↔ y * y = (x * x + a) * x + b := by
  rw [equation_iff]
  simp only [shortWeierstrass]
  constructor <;> intro equation <;> linear_combination equation

theorem negY_shortWeierstrass (x y : F) : (shortWeierstrass a b).negY x y = -y := by
  simp [negY, shortWeierstrass]

/-- Without a double root of the cubic every point of the curve is nonsingular. -/
theorem nonsingular_shortWeierstrass (two : (2 : F) ≠ 0)
    (smooth : 4 * (a * a * a) + 27 * (b * b) ≠ 0) {x y : F} :
    (shortWeierstrass a b).Nonsingular x y ↔ (shortWeierstrass a b).Equation x y := by
  rw [equation_iff_nonsingular_of_Δ_ne_zero]
  intro discriminant
  apply smooth
  have sixteen : (16 : F) ≠ 0 := by
    have power : (16 : F) = 2 ^ 4 := by norm_num
    rw [power]
    exact pow_ne_zero 4 two
  apply (mul_eq_zero.mp _).resolve_left sixteen
  simp only [WeierstrassCurve.Δ, WeierstrassCurve.b₂, WeierstrassCurve.b₄, WeierstrassCurve.b₆,
    WeierstrassCurve.b₈, shortWeierstrass] at discriminant
  linear_combination -discriminant

/-- A point other than the one at infinity has the given coordinates. -/
def HasCoords (P : (shortWeierstrass a b).Point) (x y : F) : Prop :=
  ∃ nonsingular, P = .some x y nonsingular

namespace HasCoords

variable {P Q : (shortWeierstrass a b).Point} {x y x' y' : F}

theorem equation (coords : HasCoords P x y) : y * y = (x * x + a) * x + b := by
  rcases coords with ⟨nonsingular, rfl⟩
  exact equation_shortWeierstrass.mp nonsingular.left

theorem ne_zero (coords : HasCoords P x y) : P ≠ 0 := by
  rcases coords with ⟨nonsingular, rfl⟩
  exact Point.some_ne_zero nonsingular

theorem congr (coords : HasCoords P x y) (sameX : x = x') (sameY : y = y') :
    HasCoords P x' y' := by
  subst sameX sameY
  exact coords

theorem unique (coords : HasCoords P x y) (coords' : HasCoords P x' y') : x = x' ∧ y = y' := by
  rcases coords with ⟨nonsingular, rfl⟩
  rcases coords' with ⟨nonsingular', same⟩
  rwa [Point.some.injEq] at same

theorem ext (coords : HasCoords P x y) (coords' : HasCoords Q x y) : P = Q := by
  rcases coords with ⟨nonsingular, rfl⟩
  rcases coords' with ⟨nonsingular', rfl⟩
  rfl

/-! ## Affine coordinates -/

variable [DecidableEq F]

theorem add_of_X_ne (coords : HasCoords P x y) (coords' : HasCoords Q x' y') (differ : x ≠ x')
    {slope sumX : F} (isSlope : slope = (y - y') / (x - x'))
    (isSum : sumX = slope * slope - x - x') :
    HasCoords (P + Q) sumX (slope * (x - sumX) - y) := by
  rcases coords with ⟨nonsingular, rfl⟩
  rcases coords' with ⟨nonsingular', rfl⟩
  apply congr ⟨_, Point.add_of_X_ne differ⟩
  · rw [slope_of_X_ne differ, ← isSlope, isSum]
    simp only [addX, shortWeierstrass]
    ring
  · rw [slope_of_X_ne differ, ← isSlope, addY, negY_shortWeierstrass, isSum]
    simp only [negAddY, addX, shortWeierstrass]
    ring

/-- Points over one coordinate are the same or opposite. -/
theorem add_of_Y_ne (coords : HasCoords P x y) (coords' : HasCoords Q x y') (differ : y ≠ y') :
    P + Q = 0 := by
  have opposite : (y - y') * (y + y') = 0 := by
    linear_combination coords.equation - coords'.equation
  rcases coords with ⟨nonsingular, rfl⟩
  rcases coords' with ⟨nonsingular', rfl⟩
  apply Point.add_of_Y_eq rfl
  rw [negY_shortWeierstrass]
  have sum := (mul_eq_zero.mp opposite).resolve_left (sub_ne_zero.mpr differ)
  linear_combination sum

theorem double_of_Y_eq (coords : HasCoords P x 0) : P + P = 0 := by
  rcases coords with ⟨nonsingular, rfl⟩
  apply Point.add_self_of_Y_eq
  rw [negY_shortWeierstrass, neg_zero]

theorem double (two : (2 : F) ≠ 0) (coords : HasCoords P x y) (nonzero : y ≠ 0) {slope sumX : F}
    (isSlope : slope = (3 * (x * x) + a) / (2 * y)) (isSum : sumX = slope * slope - x - x) :
    HasCoords (P + P) sumX (slope * (x - sumX) - y) := by
  rcases coords with ⟨nonsingular, rfl⟩
  have differ : y ≠ (shortWeierstrass a b).negY x y := by
    rw [negY_shortWeierstrass]
    intro same
    have twice : 2 * y = 0 := by linear_combination same
    exact nonzero ((mul_eq_zero.mp twice).resolve_left two)
  have known : (shortWeierstrass a b).slope x x y y = slope := by
    rw [slope_of_Y_ne rfl differ, negY_shortWeierstrass, isSlope]
    simp only [shortWeierstrass]
    congr 1 <;> ring
  apply congr ⟨_, Point.add_self_of_Y_ne differ⟩
  · rw [known, isSum]
    simp only [addX, shortWeierstrass]
    ring
  · rw [known, addY, negY_shortWeierstrass, isSum]
    simp only [negAddY, addX, shortWeierstrass]
    ring

end HasCoords

/-! ## Jacobian coordinates -/

/-- Three coordinates stand for a point; the point at infinity has a last coordinate of zero. -/
def HasJacobian (P : (shortWeierstrass a b).Point) (X Y Z : F) : Prop :=
  Z = 0 ∧ P = 0 ∨ Z ≠ 0 ∧ HasCoords P (X / Z ^ 2) (Y / Z ^ 3)

namespace HasJacobian

variable {P Q : (shortWeierstrass a b).Point} {X Y Z x y : F}

theorem of_zero : HasJacobian (0 : (shortWeierstrass a b).Point) X Y 0 :=
  .inl ⟨rfl, rfl⟩

theorem of_affine (coords : HasCoords P x y) : HasJacobian P x y 1 := by
  refine .inr ⟨one_ne_zero, coords.congr ?_ ?_⟩
  · rw [one_pow, div_one]
  · rw [one_pow, div_one]

theorem coords (jacobian : HasJacobian P X Y Z) (nonzero : Z ≠ 0) :
    HasCoords P (X / Z ^ 2) (Y / Z ^ 3) := by
  rcases jacobian with ⟨zero, _⟩ | ⟨_, coords⟩
  · exact absurd zero nonzero
  · exact coords

theorem eq_zero (jacobian : HasJacobian P X Y 0) : P = 0 := by
  rcases jacobian with ⟨_, zero⟩ | ⟨nonzero, _⟩
  · exact zero
  · exact absurd rfl nonzero

variable [DecidableEq F]

theorem double_of_Y_eq (jacobian : HasJacobian P X 0 Z) (nonzero : Z ≠ 0) : P + P = 0 := by
  have coords := (jacobian.coords nonzero).congr rfl (zero_div _)
  exact coords.double_of_Y_eq

/-- The tangent without a division. -/
theorem double (two : (2 : F) ≠ 0) (jacobian : HasJacobian P X Y Z) (nonzero : Z ≠ 0)
    (slanted : Y ≠ 0) {M S sumX : F} (isM : M = a * (Z * Z * (Z * Z)) + 3 * (X * X))
    (isS : S = 4 * (X * (Y * Y))) (isSum : sumX = M * M - S - S) :
    HasJacobian (P + P) sumX (M * (S - sumX) - 8 * (Y * Y * (Y * Y))) (2 * (Z * Y)) := by
  refine .inr ⟨mul_ne_zero two (mul_ne_zero nonzero slanted), ?_⟩
  apply HasCoords.congr ((jacobian.coords nonzero).double two
    (div_ne_zero slanted (pow_ne_zero 3 nonzero)) rfl rfl)
  · subst isM isS isSum
    field_simp
    ring
  · subst isM isS isSum
    field_simp
    ring

/-- The sum with a point in affine coordinates over another coordinate. -/
theorem add_of_X_ne (jacobian : HasJacobian P X Y Z) (nonzero : Z ≠ 0) (coords : HasCoords Q x y)
    {A B C D sumX : F} (isA : A = Z * Z * x) (isB : B = Z * Z * Z * y) (isC : C = X - A)
    (isD : D = Y - B) (differ : C ≠ 0)
    (isSum : sumX = D * D - C * (C * C) - A * (C * C) - A * (C * C)) :
    HasJacobian (P + Q) sumX (D * (A * (C * C) - sumX) - B * (C * (C * C))) (Z * C) := by
  have acrossX : X / Z ^ 2 - x = C / Z ^ 2 := by
    rw [isC, isA]
    field_simp
  have acrossY : Y / Z ^ 3 - y = D / Z ^ 3 := by
    rw [isD, isB]
    field_simp
  have apart : X / Z ^ 2 ≠ x := by
    rw [Ne, ← sub_eq_zero, acrossX]
    exact div_ne_zero differ (pow_ne_zero 2 nonzero)
  have slope : D / (Z * C) = (Y / Z ^ 3 - y) / (X / Z ^ 2 - x) := by
    rw [acrossX, acrossY]
    field_simp
  have isX : X = C + Z * Z * x := by rw [isC, isA, sub_add_cancel]
  have isY : Y = D + Z * Z * Z * y := by rw [isD, isB, sub_add_cancel]
  refine .inr ⟨mul_ne_zero nonzero differ, ?_⟩
  apply HasCoords.congr ((jacobian.coords nonzero).add_of_X_ne coords apart slope rfl)
  · rw [isSum, isX, isA]
    field_simp
    ring
  · rw [isSum, isX, isY, isA, isB]
    field_simp
    ring

end HasJacobian

end ShortWeierstrass
