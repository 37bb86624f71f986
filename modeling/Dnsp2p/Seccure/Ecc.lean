import Dnsp2p.Library.ShortWeierstrass
import Dnsp2p.Seccure.Curves
import Dnsp2p.Seccure.NumberTheory

/-!
# Arithmetic of points

The functions of `ecc.c`.  A point is a pair of coordinates, the pair of two zeros being
the point at infinity; multiples are computed in Jacobian coordinates.  Over a curve these
are the operations of its group.
-/

namespace Dnsp2p.Seccure

open ShortWeierstrass

/-! ## Affine points -/

/-- `point_new` and `point_load_zero`. -/
def pointLoadZero : AffinePoint where
  x := 0
  y := 0

/-- `point_is_zero`. -/
def pointIsZero (p : AffinePoint) : Bool :=
  p.x == 0 && p.y == 0

/-- `point_on_curve`. -/
def pointOnCurve (p : AffinePoint) (dp : DomainParams) : Bool :=
  if pointIsZero p then true
  else
    let h1 := mulm p.x p.x dp.m
    let h1 := addm h1 dp.a dp.m
    let h1 := mulm h1 p.x dp.m
    let h1 := addm h1 dp.b dp.m
    let h2 := mulm p.y p.y dp.m
    h1 == h2

/-- `point_decompress`: absent when it returns 0. -/
def pointDecompress (x : Nat) (yflag : Bool) (dp : DomainParams) :
    Except Fault (Option AffinePoint) := do
  let h := mulm x x dp.m
  let h := addm h dp.a dp.m
  let h := mulm h x dp.m
  let h := addm h dp.b dp.m
  match ← modRoot h dp.m with
  | none => .ok none
  | some y =>
      if y ≠ 0 ∨ yflag = false then
        let p : AffinePoint := { x, y := if y.testBit 0 = yflag then y else dp.m - y }
        if pointOnCurve p dp then .ok (some p) else .error .assertion
      else .ok none

/-- `point_double`. -/
def pointDouble (p : AffinePoint) (dp : DomainParams) : AffinePoint :=
  if p.y ≠ 0 then
    let t2 := mulm p.x p.x dp.m
    let t1 := addm t2 t2 dp.m
    let t1 := addm t1 t2 dp.m
    let t1 := addm t1 dp.a dp.m
    let t2 := addm p.y p.y dp.m
    let t2 := invm t2 dp.m
    let t1 := mulm t1 t2 dp.m
    let t2 := mulm t1 t1 dp.m
    let t2 := subm t2 p.x dp.m
    let t2 := subm t2 p.x dp.m
    let x := subm p.x t2 dp.m
    let t1 := mulm t1 x dp.m
    { x := t2, y := subm t1 p.y dp.m }
  else { p with x := 0 }

/-- `point_add`. -/
def pointAdd (p1 p2 : AffinePoint) (dp : DomainParams) : AffinePoint :=
  if pointIsZero p2 then p1
  else if pointIsZero p1 then p2
  else if p1.x = p2.x then
    if p1.y = p2.y then pointDouble p1 dp else pointLoadZero
  else
    let t := subm p1.y p2.y dp.m
    let y := subm p1.x p2.x dp.m
    let y := invm y dp.m
    let y := mulm t y dp.m
    let t := mulm y y dp.m
    let x := addm p1.x p2.x dp.m
    let x := subm t x dp.m
    let t := subm p2.x x dp.m
    let y := mulm y t dp.m
    { x, y := subm y p2.y dp.m }

/-! ## Jacobian points -/

/-- `struct jacobian_point`. -/
structure JacobianPoint where
  x : Nat
  y : Nat
  z : Nat
  deriving DecidableEq, Repr

/-- `jacobian_new`. -/
def jacobianNew : JacobianPoint where
  x := 0
  y := 0
  z := 0

/-- `jacobian_load_zero`. -/
def jacobianLoadZero (p : JacobianPoint) : JacobianPoint :=
  { p with z := 0 }

/-- `jacobian_load_affine`. -/
def jacobianLoadAffine (p1 : JacobianPoint) (p2 : AffinePoint) : JacobianPoint :=
  if pointIsZero p2 then { p1 with z := 0 } else { x := p2.x, y := p2.y, z := 1 }

/-- `jacobian_double`. -/
def jacobianDouble (p : JacobianPoint) (dp : DomainParams) : JacobianPoint :=
  if p.z ≠ 0 then
    if p.y ≠ 0 then
      let t1 := mulm p.x p.x dp.m
      let t2 := addm t1 t1 dp.m
      let t2 := addm t2 t1 dp.m
      let t1 := mulm p.z p.z dp.m
      let t1 := mulm t1 t1 dp.m
      let t1 := mulm t1 dp.a dp.m
      let t1 := addm t1 t2 dp.m
      let z := mulm p.z p.y dp.m
      let z := addm z z dp.m
      let y := mulm p.y p.y dp.m
      let y := addm y y dp.m
      let t2 := mulm p.x y dp.m
      let t2 := addm t2 t2 dp.m
      let x := mulm t1 t1 dp.m
      let x := subm x t2 dp.m
      let x := subm x t2 dp.m
      let t2 := subm t2 x dp.m
      let t1 := mulm t1 t2 dp.m
      let t2 := mulm y y dp.m
      let t2 := addm t2 t2 dp.m
      { x, y := subm t1 t2 dp.m, z }
    else { p with z := 0 }
  else p

/-- `jacobian_affine_point_add`. -/
def jacobianAffinePointAdd (p1 : JacobianPoint) (p2 : AffinePoint) (dp : DomainParams) :
    JacobianPoint :=
  if pointIsZero p2 then p1
  else if p1.z ≠ 0 then
    let t1 := mulm p1.z p1.z dp.m
    let t2 := mulm t1 p2.x dp.m
    let t1 := mulm t1 p1.z dp.m
    let t1 := mulm t1 p2.y dp.m
    if p1.x = t2 then
      if p1.y = t1 then jacobianDouble p1 dp else jacobianLoadZero p1
    else
      let x := subm p1.x t2 dp.m
      let y := subm p1.y t1 dp.m
      let z := mulm p1.z x dp.m
      let t3 := mulm x x dp.m
      let t2 := mulm t2 t3 dp.m
      let t3 := mulm t3 x dp.m
      let t1 := mulm t1 t3 dp.m
      let x := mulm y y dp.m
      let x := subm x t3 dp.m
      let x := subm x t2 dp.m
      let x := subm x t2 dp.m
      let t2 := subm t2 x dp.m
      let y := mulm y t2 dp.m
      { x, y := subm y t1 dp.m, z }
  else jacobianLoadAffine p1 p2

/-- `jacobian_to_affine`. -/
def jacobianToAffine (p : JacobianPoint) (dp : DomainParams) : AffinePoint :=
  if p.z ≠ 0 then
    let h := invm p.z dp.m
    let y := mulm h h dp.m
    let x := mulm p.x y dp.m
    let y := mulm y h dp.m
    { x, y := mulm y p.y dp.m }
  else pointLoadZero

/-! ## Multiples -/

/-- `pointmul`. -/
def pointmul (p : AffinePoint) (exp : Nat) (dp : DomainParams) : Except Fault AffinePoint :=
  let r := ladder (jacobianDouble · dp) (jacobianAffinePointAdd · p dp) exp (nbits exp) jacobianNew
  let R := jacobianToAffine r dp
  if pointOnCurve R dp then .ok R else .error .assertion

/-- The `pointmul` that is not compiled, in affine coordinates. -/
def pointmulAffine (p : AffinePoint) (exp : Nat) (dp : DomainParams) : Except Fault AffinePoint :=
  let r := ladder (pointDouble · dp) (pointAdd · p dp) exp (nbits exp) pointLoadZero
  if pointOnCurve r dp then .ok r else .error .assertion

/-! ## Validation -/

/-- `embedded_key_validation`. -/
def embeddedKeyValidation (p : AffinePoint) (dp : DomainParams) : Bool :=
  if dp.m ≤ p.x ∨ dp.m ≤ p.y then false else !pointIsZero p && pointOnCurve p dp

/-- `full_key_validation`. -/
def fullKeyValidation (p : AffinePoint) (dp : DomainParams) : Except Fault Bool :=
  if embeddedKeyValidation p dp then
    if dp.cofactor ≠ 1 then do
      let bp ← pointmul p dp.order dp
      .ok (pointIsZero bp)
    else .ok true
  else .ok false

/-! ## The curve -/

/-- The curve of domain parameters. -/
abbrev curve (dp : DomainParams) : WeierstrassCurve.Affine (ZMod dp.m) :=
  shortWeierstrass dp.a dp.b

/-- Domain parameters of an elliptic curve on which the pair of two zeros is no point. -/
structure Elliptic (dp : DomainParams) : Prop where
  odd : dp.m ≠ 2
  b_lt : dp.b < dp.m
  b_ne : dp.b ≠ 0
  smooth : (4 * (dp.a * dp.a * dp.a) + 27 * (dp.b * dp.b)) % dp.m ≠ 0

section Points

variable (dp : DomainParams) [prime : Fact dp.m.Prime]

/-- A pair of reduced coordinates stands for a point of the curve. -/
structure PointOf (p : AffinePoint) (P : (curve dp).Point) : Prop where
  x_lt : p.x < dp.m
  y_lt : p.y < dp.m
  coords : pointIsZero p = true ∧ P = 0 ∨ HasCoords P (p.x : ZMod dp.m) p.y

/-- Three reduced coordinates stand for a point of the curve. -/
structure JacobianOf (p : JacobianPoint) (P : (curve dp).Point) : Prop where
  x_lt : p.x < dp.m
  y_lt : p.y < dp.m
  z_lt : p.z < dp.m
  coords : HasJacobian P (p.x : ZMod dp.m) p.y p.z

end Points

end Dnsp2p.Seccure
