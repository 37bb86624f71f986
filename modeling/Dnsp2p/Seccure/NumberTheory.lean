import Dnsp2p.Library.Ladder
import Dnsp2p.Library.SquareRoot
import Dnsp2p.Seccure.Serialize
import Mathlib.NumberTheory.LegendreSymbol.Basic

/-!
# Arithmetic modulo a prime

The modular operations of libgcrypt on natural numbers, and the square roots of
`numtheory.c`.  Over a prime modulus each operation is the operation of the field.
-/

namespace Dnsp2p.Seccure

open SquareRoot

/-! ## The operations of libgcrypt -/

/-- `gcry_mpi_addm`. -/
def addm (u v m : Nat) : Nat :=
  (u + v) % m

/-- `gcry_mpi_subm`. -/
def subm (u v m : Nat) : Nat :=
  (((u : Int) - v) % m).toNat

/-- `gcry_mpi_mulm`. -/
def mulm (u v m : Nat) : Nat :=
  u * v % m

/-- `gcry_mpi_invm`, for a number that has an inverse. -/
def invm (u m : Nat) : Nat :=
  ((u : ZMod m)⁻¹).val

/-- `gcry_mpi_powm`. -/
def powm (b e m : Nat) : Nat :=
  ladder (fun acc => mulm acc acc m) (fun acc => mulm acc b m) e (nbits e) (1 % m)

/-! ## Square roots -/

/-- `mod_issquare`. -/
def modIssquare (a p : Nat) : Bool :=
  if a ≠ 0 then powm a (p / 2) p == 1 else true

/-- The loop of `mod_root` that looks for a number that is no square. -/
def nonsquareLoop (p : Nat) : Nat → Nat → Except Fault Nat
  | 0, _ => .error .nonterminating
  | fuel + 1, n => if modIssquare n p then nonsquareLoop p fuel (n + 1) else .ok n

/-- The loop of `mod_root` that looks for the lowest set bit. -/
def lowestBitLoop (q : Nat) : Nat → Nat → Except Fault Nat
  | 0, _ => .error .nonterminating
  | fuel + 1, r => if q.testBit r then .ok r else lowestBitLoop q fuel (r + 1)

/-- The inner loop of `mod_root`: squarings until 1 is reached. -/
def squaringLoop (p : Nat) : Nat → Nat → Nat → Except Fault Nat
  | 0, _, _ => .error .nonterminating
  | fuel + 1, h, m => if h ≠ 1 then squaringLoop p fuel (mulm h h p) (m + 1) else .ok m

/-- The outer loop of `mod_root`. -/
def rootLoop (p : Nat) : Nat → (r y x b : Nat) → Except Fault Nat
  | 0, _, _, _, _ => .error .nonterminating
  | fuel + 1, r, y, x, b =>
      if b ≠ 1 then do
        let m ← squaringLoop p p (mulm b b p) 1
        -- a negative bit number wraps around, to more bits than there is memory for
        if r < m + 1 then .error .assertion
        else
          let t := powm y (2 ^ (r - m - 1)) p
          let y := mulm t t p
          rootLoop p fuel m y (mulm x t p) (mulm b y p)
      else .ok x

/-- `mod_root`: absent when it returns 0. -/
def modRoot (a p : Nat) : Except Fault (Option Nat) :=
  if a = 0 then .ok (some 0)
  else if modIssquare a p then do
    let n ← nonsquareLoop p p 2
    let r ← lowestBitLoop (p - 1) (nbits (p - 1) + 1) 0
    let q := (p - 1) >>> r
    let y := powm n q p
    let b := powm a (q >>> 1) p
    let x := mulm a b p
    let root ← rootLoop p (r + 1) r y x (mulm b x p)
    .ok (some root)
  else .ok none

/-! ## The operations of the field -/

theorem addm_lt {m : Nat} (pos : 0 < m) (u v : Nat) : addm u v m < m :=
  Nat.mod_lt _ pos

theorem mulm_lt {m : Nat} (pos : 0 < m) (u v : Nat) : mulm u v m < m :=
  Nat.mod_lt _ pos

theorem subm_lt {m : Nat} (pos : 0 < m) (u v : Nat) : subm u v m < m := by
  have nonneg := Int.emod_nonneg ((u : Int) - v) (by omega : (m : Int) ≠ 0)
  have below := Int.emod_lt_of_pos ((u : Int) - v) (by omega : (0 : Int) < m)
  unfold subm
  omega

theorem powm_eq (b e m : Nat) : powm b e m = b ^ e % m := by
  unfold powm
  refine @ladder_stands_exp _ _ _ (fun acc k => acc = b ^ k % m) ?_ ?_ _ _ _ ?_ ?_
  · rintro acc k rfl
    rw [mulm, ← Nat.mul_mod, Nat.two_mul, pow_add]
  · rintro acc k rfl
    rw [mulm, Nat.mod_mul_mod, pow_succ]
  · rfl
  · exact lt_two_pow_nbits e

theorem powm_lt {m : Nat} (pos : 0 < m) (b e : Nat) : powm b e m < m := by
  rw [powm_eq]
  exact Nat.mod_lt _ pos

section Cast

variable {m : Nat} (u v : Nat)

@[simp]
theorem cast_addm : ((addm u v m : Nat) : ZMod m) = u + v := by
  simp [addm]

@[simp]
theorem cast_mulm : ((mulm u v m : Nat) : ZMod m) = u * v := by
  simp [mulm]

@[simp]
theorem cast_powm (e : Nat) : ((powm u e m : Nat) : ZMod m) = (u : ZMod m) ^ e := by
  simp [powm_eq]

variable [NeZero m]

@[simp]
theorem cast_subm : ((subm u v m : Nat) : ZMod m) = u - v := by
  have nonneg := Int.emod_nonneg ((u : Int) - v) (by exact_mod_cast NeZero.ne m : (m : Int) ≠ 0)
  rw [subm, ← Int.cast_natCast, Int.toNat_of_nonneg nonneg, ZMod.intCast_mod]
  simp

@[simp]
theorem cast_invm : ((invm u m : Nat) : ZMod m) = (u : ZMod m)⁻¹ := by
  simp [invm]

variable {u v}

omit [NeZero m] in
/-- Numbers below the modulus are the same when they are the same in the field. -/
theorem cast_eq_cast_iff (hu : u < m) (hv : v < m) : (u : ZMod m) = v ↔ u = v := by
  rw [ZMod.natCast_eq_natCast_iff', Nat.mod_eq_of_lt hu, Nat.mod_eq_of_lt hv]

theorem cast_eq_zero_iff (hu : u < m) : (u : ZMod m) = 0 ↔ u = 0 := by
  rw [← Nat.cast_zero, cast_eq_cast_iff hu (Nat.pos_of_neZero m)]

end Cast

/-! ## Correctness of the square roots -/

section Roots

variable {p : Nat} [prime : Fact p.Prime]

theorem cast_eq_one_iff {u : Nat} (hu : u < p) : (u : ZMod p) = 1 ↔ u = 1 := by
  rw [← Nat.cast_one, cast_eq_cast_iff hu prime.out.one_lt]

/-- The test by an exponentiation decides whether there is a root. -/
theorem modIssquare_iff {a : Nat} (reduced : a < p) :
    modIssquare a p = true ↔ IsSquare (a : ZMod p) := by
  by_cases zero : a = 0
  · simp [modIssquare, zero]
  · have nonzero : (a : ZMod p) ≠ 0 := by rwa [Ne, cast_eq_zero_iff reduced]
    rw [modIssquare, if_pos zero, beq_iff_eq, ZMod.euler_criterion p nonzero, ← cast_powm,
      cast_eq_one_iff (powm_lt prime.out.pos a _)]

theorem exists_nonsquare (odd : p ≠ 2) : ∃ n < p, ¬ IsSquare (n : ZMod p) := by
  have char : ringChar (ZMod p) ≠ 2 := by rwa [ZMod.ringChar_zmod_n]
  rcases FiniteField.exists_nonsquare char with ⟨n, nonsquare⟩
  refine ⟨n.val, ZMod.val_lt n, ?_⟩
  rwa [ZMod.natCast_zmod_val]

/-- The search passes squares only, so it ends at the first number that is none. -/
theorem nonsquareLoop_returns {last : Nat} (small : last < p)
    (nonsquare : ¬ IsSquare (last : ZMod p)) {fuel n : Nat} (before : n ≤ last)
    (enough : last < n + fuel) :
    ∃ n' < p, nonsquareLoop p fuel n = .ok n' ∧ ¬ IsSquare (n' : ZMod p) := by
  induction fuel generalizing n with
  | zero => omega
  | succ fuel ih =>
      by_cases square : modIssquare n p = true
      · have further : n ≠ last := by
          rintro rfl
          exact nonsquare ((modIssquare_iff small).mp square)
        rw [nonsquareLoop, if_pos square]
        exact ih (by omega) (by omega)
      · refine ⟨n, by omega, ?_, ?_⟩
        · rw [nonsquareLoop, if_neg square]
        · rwa [← modIssquare_iff (by omega)]

/-- The lowest set bit splits a number into a power of two and an odd number. -/
theorem lowestBitLoop_returns {q : Nat} (pos : 0 < q) {fuel r : Nat} (divides : 2 ^ r ∣ q)
    (enough : nbits q < r + fuel) :
    ∃ r', lowestBitLoop q fuel r = .ok r' ∧ ∃ k, q = 2 ^ r' * (2 * k + 1) := by
  induction fuel generalizing r with
  | zero =>
      have small := Nat.le_of_dvd pos divides
      have bound := lt_two_pow_nbits q
      have above : 2 ^ nbits q < 2 ^ r := Nat.pow_lt_pow_right Nat.one_lt_two (by omega)
      omega
  | succ fuel ih =>
      rcases divides with ⟨cofactor, split⟩
      have bit : q.testBit r = decide (cofactor % 2 = 1) := by
        rw [Nat.testBit_eq_decide_div_mod_eq, split, Nat.mul_div_cancel_left _ (Nat.two_pow_pos r)]
      rw [lowestBitLoop, bit]
      by_cases odd : cofactor % 2 = 1
      · refine ⟨r, by simp [odd], cofactor / 2, ?_⟩
        rw [split]
        congr 1
        omega
      · simp only [odd, decide_false, Bool.false_eq_true, if_false]
        apply ih _ (by omega)
        refine ⟨cofactor / 2, ?_⟩
        rw [split, pow_succ, Nat.mul_assoc]
        congr 1
        omega

/-- Some number of squarings takes the element to 1, so the loop ends at the least one. -/
theorem squaringLoop_returns {b : ZMod p} {last : Nat} (reached : b ^ 2 ^ last = 1)
    {fuel h m : Nat} (small : h < p) (power : (h : ZMod p) = b ^ 2 ^ m) (pos : 0 < m)
    (least : ∀ j, 0 < j → j < m → b ^ 2 ^ j ≠ 1) (before : m ≤ last) (enough : last < m + fuel) :
    ∃ m', squaringLoop p fuel h m = .ok m' ∧ SquaringsToOne b m' := by
  induction fuel generalizing h m with
  | zero => omega
  | succ fuel ih =>
      by_cases one : h = 1
      · refine ⟨m, ?_, pos, ?_, least⟩
        · rw [squaringLoop, if_neg (not_not.mpr one)]
        · rw [← power, one, Nat.cast_one]
      · have here : b ^ 2 ^ m ≠ 1 := by rwa [← power, Ne, cast_eq_one_iff small]
        have further : m ≠ last := by
          rintro rfl
          exact here reached
        rw [squaringLoop, if_pos one]
        apply ih (mulm_lt prime.out.pos h h) _ (by omega) _ (by omega) (by omega)
        · rw [cast_mulm, power, ← pow_two, ← pow_mul, pow_succ]
        · intro j start stop
          by_cases now : j = m
          · exact now ▸ here
          · exact least j start (by omega)

/-- Each turn lowers the bound on the order of the error, until the candidate is a root. -/
theorem rootLoop_returns {a : ZMod p} {fuel r y x b : Nat}
    (state : RootUpTo a r (y : ZMod p) x b) (smallX : x < p) (smallB : b < p) (few : r ≤ p)
    (enough : r < fuel) :
    ∃ root < p, rootLoop p fuel r y x b = .ok root ∧ (root : ZMod p) * root = a := by
  induction fuel generalizing r y x b with
  | zero => omega
  | succ fuel ih =>
      have positive := prime.out.pos
      by_cases done : b = 1
      · refine ⟨x, smallX, ?_, ?_⟩
        · rw [rootLoop, if_neg (not_not.mpr done)]
        · rw [state.error, done, Nat.cast_one, mul_one]
      · have wrong : (b : ZMod p) ≠ 1 := by rwa [Ne, cast_eq_one_iff smallB]
        have room : 0 < r - 1 := by
          by_contra none
          have order := state.order
          rw [Nat.eq_zero_of_not_pos none, pow_zero, pow_one] at order
          exact wrong order
        have enough : r - 1 < 1 + p := by omega
        rcases squaringLoop_returns state.order (mulm_lt positive b b)
          (by rw [cast_mulm, pow_one, pow_two]) Nat.one_pos (by omega) room enough with
          ⟨m, looped, squarings⟩
        have below := state.squarings_lt wrong squarings
        have corrected := state.correct wrong squarings
          (cast_powm y (2 ^ (r - m - 1)) : ((powm y (2 ^ (r - m - 1)) p : Nat) : ZMod p) = _)
        rw [rootLoop, if_pos done, looped, ok_bind, if_neg (by omega)]
        apply ih _ (mulm_lt positive _ _) (mulm_lt positive _ _) (by omega) (by omega)
        simpa only [cast_mulm] using corrected

/-- What is left of half of an odd prime's predecessor when its powers of two are split off. -/
theorem half_eq (odd : p ≠ 2) {r k : Nat} (split : p - 1 = 2 ^ r * (2 * k + 1)) :
    p / 2 = (2 * k + 1) * 2 ^ (r - 1) ∧ 0 < r := by
  have two := prime.out.two_le
  have parity := prime.out.eq_two_or_odd.resolve_left odd
  cases r with
  | zero => omega
  | succ r =>
      rw [pow_succ, Nat.mul_right_comm] at split
      rw [Nat.add_sub_cancel, Nat.mul_comm]
      omega

theorem nonsquare_pow {n : ZMod p} (nonsquare : ¬ IsSquare n) : n ^ (p / 2) = -1 := by
  have nonzero : n ≠ 0 := by
    rintro rfl
    exact nonsquare (IsSquare.zero)
  rcases ZMod.pow_div_two_eq_neg_one_or_one p nonzero with one | minus
  · exact absurd ((ZMod.euler_criterion p nonzero).mpr one) nonsquare
  · exact minus

/-- Over an odd prime, `mod_root` ends for every number, without a fault: with a root if the
number is a square, and with 0 if it is none. -/
theorem modRoot_returns (odd : p ≠ 2) {a : Nat} (reduced : a < p) :
    ∃ found, modRoot a p = .ok found ∧
      (∀ root, found = some root → root < p ∧ (root : ZMod p) * root = a) ∧
      (found.isSome ↔ IsSquare (a : ZMod p)) := by
  by_cases zero : a = 0
  · refine ⟨some 0, by rw [modRoot, if_pos zero], ?_, ?_⟩
    · rintro root ⟨rfl⟩
      exact ⟨prime.out.pos, by simp [zero]⟩
    · simp [zero]
  · by_cases square : modIssquare a p = true
    · have is := (modIssquare_iff reduced).mp square
      have nonzero : (a : ZMod p) ≠ 0 := by rwa [Ne, cast_eq_zero_iff reduced]
      have two := prime.out.two_le
      rcases exists_nonsquare odd with ⟨last, small, none⟩
      have late : 2 ≤ last := by
        by_contra early
        interval_cases last
        · exact none ⟨0, by simp⟩
        · exact none ⟨1, by simp⟩
      have tries : last < 2 + p := by omega
      have bits : nbits (p - 1) < 0 + (nbits (p - 1) + 1) := by omega
      rcases nonsquareLoop_returns small none late tries with ⟨n, smallN, searched, nonsquare⟩
      rcases lowestBitLoop_returns (by omega : 0 < p - 1) (one_dvd _) bits with
        ⟨r, scanned, k, split⟩
      have even : p / 2 = (2 * k + 1) * 2 ^ (r - 1) ∧ 0 < r := half_eq odd split
      have start : RootUpTo (a : ZMod p) r ((powm n (2 * k + 1) p : Nat) : ZMod p)
          ((mulm a (powm a k p) p : Nat) : ZMod p)
          ((mulm (powm a k p) (mulm a (powm a k p) p) p : Nat) : ZMod p) := by
        constructor
        · exact even.2
        · simp only [cast_mulm]
          ring
        · rw [cast_mulm, cast_mulm, cast_powm]
          have power : (a : ZMod p) ^ k * (a * a ^ k) = a ^ (2 * k + 1) := by ring
          rw [power, ← pow_mul, ← even.1]
          exact (ZMod.euler_criterion p nonzero).mp is
        · rw [cast_powm, ← pow_mul, ← even.1]
          exact nonsquare_pow nonsquare
      have few : r ≤ p := by
        have divisor := Nat.le_of_dvd (by omega) ⟨2 * k + 1, split⟩
        have linear := Nat.lt_two_pow_self (n := r)
        omega
      rcases rootLoop_returns start (mulm_lt prime.out.pos _ _) (mulm_lt prime.out.pos _ _) few
        (Nat.lt_succ_self r) with ⟨root, smallRoot, looped, isRoot⟩
      have quotient : (p - 1) >>> r = 2 * k + 1 := by
        rw [Nat.shiftRight_eq_div_pow, split, Nat.mul_div_cancel_left _ (Nat.two_pow_pos r)]
      have half : (2 * k + 1) >>> 1 = k := by
        rw [Nat.shiftRight_eq_div_pow]
        omega
      refine ⟨some root, ?_, ?_, by simpa using is⟩
      · rw [modRoot, if_neg zero, if_pos square, searched, ok_bind, scanned, ok_bind, quotient]
        dsimp only
        rw [half, looped, ok_bind]
      · rintro _ ⟨rfl⟩
        exact ⟨smallRoot, isRoot⟩
    · refine ⟨none, by rw [modRoot, if_neg zero, if_neg square], by simp, ?_⟩
      rw [modIssquare_iff reduced] at square
      simpa using square

/-- `mod_root` decides whether a number has a root modulo an odd prime, and finds one. -/
theorem modRoot_decides (odd : p ≠ 2) {a : Nat} (reduced : a < p) :
    (∃ root < p, modRoot a p = .ok (some root) ∧ root * root % p = a) ∨
      modRoot a p = .ok none ∧ ∀ root, root * root % p ≠ a := by
  have cast (root : Nat) : (root : ZMod p) * root = a ↔ root * root % p = a := by
    have below : root * root % p < p := Nat.mod_lt _ prime.out.pos
    rw [← cast_eq_cast_iff below reduced, ZMod.natCast_mod, Nat.cast_mul]
  rcases modRoot_returns odd reduced with ⟨found, returned, roots, exists_iff⟩
  cases found with
  | some root =>
      rcases roots root rfl with ⟨below, isRoot⟩
      exact .inl ⟨root, below, returned, (cast root).mp isRoot⟩
  | none =>
      refine .inr ⟨returned, ?_⟩
      intro root isRoot
      have square : IsSquare (a : ZMod p) := ⟨root, ((cast root).mpr isRoot).symm⟩
      cases exists_iff.mpr square

theorem modRoot_decides_seventeen :
    17 ≠ 2 ∧ 13 < 17 ∧
      ((∃ root < 17, modRoot 13 17 = .ok (some root) ∧ root * root % 17 = 13) ∨
        modRoot 13 17 = .ok none ∧ ∀ root, root * root % 17 ≠ 13) := by
  have prime : Fact (Nat.Prime 17) := ⟨by decide⟩
  exact ⟨by decide, by decide, modRoot_decides (by decide) (by decide)⟩

end Roots

end Dnsp2p.Seccure
