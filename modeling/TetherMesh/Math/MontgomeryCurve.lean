import Mathlib.AlgebraicGeometry.EllipticCurve.Affine.Point
import Mathlib.Tactic.FieldSimp
import Mathlib.Tactic.LinearCombination

/-!
# Montgomery curves and their ladder

The ladder multiplies a point by a number knowing only its first coordinate. It keeps two
pairs of coordinates, quotients of which are the first coordinates of two consecutive
multiples, and each bit of the number doubles one of them and adds them to make the other:
the difference of the two is always the point itself, and the first coordinate of a sum is
known from those of the summands and of the difference.

The field is arbitrary, and the curve any `y² = x³ + A x² + x` without a singular point.

## Main definitions

* `montgomeryCurve`
* `MontgomeryCurve.XZ` — a pair of coordinates, with `double` and `diffAdd`
* `MontgomeryCurve.xCoord` — the first coordinate, zero at infinity
* `Represents` — a pair stands for a point
* `ladder`, `bitsValue`, `lowBits` — the ladder, and the number its bits spell

## Main results

* `Represents.double`, `Represents.diffAdd` — what the two operations do to the points
* `represents_ladder` — the ladder multiplies
* `ladder_quotient` — so does its quotient, from any point whatever
-/

namespace TetherMesh.Math

open WeierstrassCurve

/-- The Montgomery curve `y² = x³ + A x² + x`. -/
@[simps] def montgomeryCurve {F : Type*} [Field F] (A : F) : WeierstrassCurve.Affine F where
  a₁ := 0
  a₂ := A
  a₃ := 0
  a₄ := 1
  a₆ := 0

namespace MontgomeryCurve

variable {F : Type*} [Field F] {A x x' y y' : F}

theorem equation_iff : (montgomeryCurve A).Equation x y ↔ y ^ 2 = x ^ 3 + A * x ^ 2 + x := by
  rw [Affine.equation_iff]
  simp

@[simp] theorem negY_eq (x y : F) : (montgomeryCurve A).negY x y = -y := by
  simp [Affine.negY]

@[simp] theorem addX_eq (x x' slope : F) :
    (montgomeryCurve A).addX x x' slope = slope ^ 2 - A - x - x' := by
  simp [Affine.addX]

/-- A point is its own negative when its second coordinate is zero. -/
theorem eq_negY_iff : y = (montgomeryCurve A).negY x y ↔ 2 * y = 0 := by
  rw [negY_eq, eq_neg_iff_add_eq_zero, two_mul]

/-- Doubling, on the first coordinate. -/
theorem addX_self [DecidableEq F] (h : (montgomeryCurve A).Equation x y) (hy : 2 * y ≠ 0) :
    4 * y ^ 2 * (montgomeryCurve A).addX x x ((montgomeryCurve A).slope x x y y) =
      (x ^ 2 - 1) ^ 2 := by
  have hdouble : y - -y = 2 * y := by ring
  have htangent : (2 * y) ^ 2 * ((3 * x ^ 2 + 2 * A * x + 1) / (2 * y)) ^ 2 =
      (3 * x ^ 2 + 2 * A * x + 1) ^ 2 := by
    rw [← mul_pow, mul_div_cancel₀ _ hy]
  rw [equation_iff] at h
  rw [Affine.slope_of_Y_ne rfl (eq_negY_iff.not.mpr hy), addX_eq, negY_eq, hdouble]
  simp only [montgomeryCurve_a₁, montgomeryCurve_a₂, montgomeryCurve_a₄, zero_mul, sub_zero]
  linear_combination htangent - 4 * (A + 2 * x) * h

/-- **The differential addition law**, on the first coordinates of a sum and of a difference. -/
theorem addX_mul_addX [DecidableEq F] (h : (montgomeryCurve A).Equation x y)
    (h' : (montgomeryCurve A).Equation x' y') (hx : x ≠ x') :
    (montgomeryCurve A).addX x x' ((montgomeryCurve A).slope x x' y y') *
        (montgomeryCurve A).addX x x' ((montgomeryCurve A).slope x x' y (-y')) * (x - x') ^ 2 =
      (x * x' - 1) ^ 2 := by
  have hxx : x - x' ≠ 0 := sub_ne_zero.mpr hx
  rw [equation_iff] at h h'
  rw [Affine.slope_of_X_ne hx, Affine.slope_of_X_ne hx, addX_eq, addX_eq]
  field_simp
  linear_combination
    (y ^ 2 + (x ^ 3 + A * x ^ 2 + x) - 2 * y' ^ 2 - 2 * (A + x + x') * (x - x') ^ 2) * h +
    (y' ^ 2 + (x' ^ 3 + A * x' ^ 2 + x') - 2 * (x ^ 3 + A * x ^ 2 + x) -
      2 * (A + x + x') * (x - x') ^ 2) * h'

/-- A pair of coordinates of which the quotient is meant. -/
structure XZ (F : Type*) where
  x : F
  z : F

namespace XZ

/-- Double a pair, where `a24` is a quarter of `A + 2`. -/
def double (a24 : F) (R : XZ F) : XZ F :=
  let a := R.x + R.z
  let b := R.x - R.z
  let aa := a ^ 2
  let bb := b ^ 2
  let e := aa - bb
  ⟨aa * bb, e * (bb + a24 * e)⟩

/-- Add two pairs whose difference has the first coordinate `x1`. -/
def diffAdd (x1 : F) (R S : XZ F) : XZ F :=
  let a := R.x + R.z
  let b := R.x - R.z
  let c := S.x + S.z
  let d := S.x - S.z
  let da := d * a
  let cb := c * b
  ⟨(da + cb) ^ 2, x1 * (da - cb) ^ 2⟩

variable {a24 x1 : F} {R S : XZ F}

theorem double_x (a24 : F) (R : XZ F) : (R.double a24).x = (R.x ^ 2 - R.z ^ 2) ^ 2 := by
  simp only [double]
  ring

theorem double_z (ha24 : 4 * a24 = A + 2) (R : XZ F) :
    (R.double a24).z = 4 * (R.x * R.z) * (R.x ^ 2 + A * R.x * R.z + R.z ^ 2) := by
  simp only [double]
  linear_combination 4 * R.x ^ 2 * R.z ^ 2 * ha24

theorem diffAdd_x (x1 : F) (R S : XZ F) :
    (diffAdd x1 R S).x = 4 * (R.x * S.x - R.z * S.z) ^ 2 := by
  simp only [diffAdd]
  ring

theorem diffAdd_z (x1 : F) (R S : XZ F) :
    (diffAdd x1 R S).z = 4 * x1 * (R.z * S.x - R.x * S.z) ^ 2 := by
  simp only [diffAdd]
  ring

theorem diffAdd_comm (x1 : F) (R S : XZ F) : diffAdd x1 R S = diffAdd x1 S R := by
  rw [diffAdd, diffAdd, XZ.mk.injEq]
  constructor <;> ring

end XZ

/-! ## The ladder -/

/-- The number spelled by bits, most significant first. -/
def bitsValue (bits : List Bool) : ℕ := bits.foldl (fun n bit => 2 * n + bit.toNat) 0

theorem bitsValue_concat (bits : List Bool) (bit : Bool) :
    bitsValue (bits ++ [bit]) = 2 * bitsValue bits + bit.toNat := by
  rw [bitsValue, List.foldl_append, List.foldl_cons, List.foldl_nil, bitsValue]

/-- The low `len` bits of a number. -/
def lowBits (n : ℕ) : ℕ → List Bool
  | 0 => []
  | len + 1 => n.testBit len :: lowBits n len

theorem foldl_bits (bits : List Bool) (acc : ℕ) :
    bits.foldl (fun n bit => 2 * n + bit.toNat) acc = 2 ^ bits.length * acc + bitsValue bits := by
  induction bits using List.reverseRecOn with
  | nil => rw [List.foldl_nil, List.length_nil, pow_zero, one_mul]; rfl
  | append_singleton bits bit ih =>
    rw [List.foldl_append, List.foldl_cons, List.foldl_nil, ih, bitsValue_concat,
      List.length_append, List.length_singleton, pow_succ]
    ring

@[simp] theorem length_lowBits (n len : ℕ) : (lowBits n len).length = len := by
  induction len with
  | zero => rfl
  | succ len ih => rw [lowBits, List.length_cons, ih]

/-- The low bits spell the remainder. -/
theorem bitsValue_lowBits (n len : ℕ) : bitsValue (lowBits n len) = n % 2 ^ len := by
  induction len with
  | zero => exact (Nat.mod_one n).symm
  | succ len ih =>
    rw [bitsValue, lowBits, List.foldl_cons, foldl_bits, length_lowBits, ih, Nat.mod_pow_succ,
      Nat.toNat_testBit]
    ring

/-- One step of the ladder, for the next bit of the scalar. -/
def ladderStep (a24 x1 : F) (s : XZ F × XZ F) : Bool → XZ F × XZ F
  | false => (s.1.double a24, XZ.diffAdd x1 s.1 s.2)
  | true => (XZ.diffAdd x1 s.1 s.2, s.2.double a24)

/-- The ladder: two pairs whose points differ by the one that is multiplied. -/
def ladder (a24 x1 : F) (bits : List Bool) : XZ F × XZ F :=
  bits.foldl (ladderStep a24 x1) (⟨1, 0⟩, ⟨x1, 1⟩)

theorem ladder_concat (a24 x1 : F) (bits : List Bool) (bit : Bool) :
    ladder a24 x1 (bits ++ [bit]) = ladderStep a24 x1 (ladder a24 x1 bits) bit := by
  rw [ladder, List.foldl_append, List.foldl_cons, List.foldl_nil, ladder]

/-- From the first coordinate zero, every step keeps one coordinate of each pair zero. -/
theorem ladder_degenerate (a24 : F) (bits : List Bool) :
    (ladder a24 0 bits).1.x * (ladder a24 0 bits).1.z = 0 ∧
      (ladder a24 0 bits).2.x * (ladder a24 0 bits).2.z = 0 := by
  have hadd (R S : XZ F) : (XZ.diffAdd 0 R S).x * (XZ.diffAdd 0 R S).z = 0 := by
    rw [XZ.diffAdd_z, mul_zero, zero_mul, mul_zero]
  have hdouble (R : XZ F) (h : R.x * R.z = 0) :
      (R.double a24).x * (R.double a24).z = 0 := by
    simp only [XZ.double]
    linear_combination (4 * (R.x + R.z) ^ 2 * (R.x - R.z) ^ 2 *
      ((R.x - R.z) ^ 2 + a24 * ((R.x + R.z) ^ 2 - (R.x - R.z) ^ 2))) * h
  induction bits using List.reverseRecOn with
  | nil => exact ⟨mul_zero _, zero_mul _⟩
  | append_singleton bits bit ih =>
    rw [ladder_concat]
    cases bit with
    | false => exact ⟨hdouble _ ih.1, hadd _ _⟩
    | true => exact ⟨hadd _ _, hdouble _ ih.2⟩

/-- So its quotient is zero, since the inverse of zero is. -/
theorem ladder_quotient_degenerate (a24 : F) (bits : List Bool) :
    (ladder a24 0 bits).1.x * (ladder a24 0 bits).1.z⁻¹ = 0 := by
  rcases mul_eq_zero.mp (ladder_degenerate a24 bits).1 with hx | hz
  · rw [hx, zero_mul]
  · rw [hz, inv_zero, mul_zero]

/-! ## Pairs that stand for points -/

/-- The first coordinate of a point, zero at infinity. -/
def xCoord : (montgomeryCurve A).Point → F
  | .zero => 0
  | .some x _ _ => x

@[simp] theorem xCoord_neg (P : (montgomeryCurve A).Point) : xCoord (-P) = xCoord P := by
  cases P <;> rfl

theorem four_ne_zero_of_two (h2 : (2 : F) ≠ 0) : (4 : F) ≠ 0 := by
  have h4 : (4 : F) = 2 ^ 2 := by norm_num
  rw [h4]
  exact pow_ne_zero 2 h2

/-- A pair stands for a point: the point at infinity is where the denominator is zero. -/
def Represents : (montgomeryCurve A).Point → XZ F → Prop
  | .zero, R => R.x ≠ 0 ∧ R.z = 0
  | .some x _ _, R => R.z ≠ 0 ∧ R.x = x * R.z

/-- The quotient of a pair is the first coordinate of its point. -/
theorem Represents.quotient {P : (montgomeryCurve A).Point} {R : XZ F} (h : Represents P R) :
    R.x * R.z⁻¹ = xCoord P := by
  cases P with
  | zero => rw [h.2, inv_zero, mul_zero, xCoord]
  | some x y hpoint => rw [h.2, mul_assoc, mul_inv_cancel₀ h.1, mul_one, xCoord]

/-- The denominator is zero at infinity and nowhere else. -/
theorem Represents.z_eq_zero_iff {P : (montgomeryCurve A).Point} {R : XZ F}
    (h : Represents P R) : R.z = 0 ↔ P = 0 := by
  cases P with
  | zero => exact ⟨fun _ => rfl, fun _ => h.2⟩
  | some x y hpoint => exact ⟨fun hz => absurd hz h.1, fun hP => by cases hP⟩

theorem represents_xCoord {P : (montgomeryCurve A).Point} (hP : xCoord P ≠ 0) :
    Represents P ⟨xCoord P, 1⟩ := by
  cases P with
  | zero => exact absurd rfl hP
  | some x y hpoint => exact ⟨one_ne_zero, (mul_one x).symm⟩

/-- Differential addition to the point at infinity. -/
theorem Represents.diffAdd_zero {P : (montgomeryCurve A).Point} {R S : XZ F}
    (h2 : (2 : F) ≠ 0) (hR : Represents (0 : (montgomeryCurve A).Point) R)
    (hS : Represents P S) (hP : xCoord P ≠ 0) : Represents P (XZ.diffAdd (xCoord P) R S) := by
  obtain ⟨hRx, hRz⟩ := hR
  cases P with
  | zero => exact absurd rfl hP
  | some x y hpoint =>
    obtain ⟨hSz, hSx⟩ := hS
    change x ≠ 0 at hP
    refine ⟨?_, ?_⟩
    · rw [XZ.diffAdd_z, hRz, zero_mul, zero_sub]
      exact mul_ne_zero (mul_ne_zero (four_ne_zero_of_two h2) hP)
        (pow_ne_zero 2 (neg_ne_zero.mpr (mul_ne_zero hRx hSz)))
    · rw [XZ.diffAdd_x, XZ.diffAdd_z, hRz, hSx, xCoord]
      ring

variable [DecidableEq F] {P Q : (montgomeryCurve A).Point} {R S : XZ F} {a24 x1 : F}

/-! ## Doubling -/

/-- **Doubling a pair** doubles the point. -/
theorem Represents.double (h2 : (2 : F) ≠ 0) (hA : A ^ 2 ≠ 4) (ha24 : 4 * a24 = A + 2)
    (h : Represents P R) : Represents (P + P) (R.double a24) := by
  cases P with
  | zero =>
    -- infinity is doubled to infinity
    obtain ⟨hx, hz⟩ := h
    refine ⟨?_, ?_⟩
    · rw [XZ.double_x, hz]
      simpa using hx
    · rw [XZ.double_z ha24, hz]
      ring
  | some x y hpoint =>
    obtain ⟨hz, hx⟩ := h
    have hcurve := equation_iff.mp hpoint.1
    have hzz : (R.double a24).z = R.z ^ 4 * (4 * y ^ 2) := by
      rw [XZ.double_z ha24, hx]
      linear_combination - 4 * R.z ^ 4 * hcurve
    have hxx : (R.double a24).x = R.z ^ 4 * (x ^ 2 - 1) ^ 2 := by
      rw [XZ.double_x, hx]
      ring
    by_cases hy : 2 * y = 0
    · -- a point of order two: its double is infinity, so the numerator must not vanish
      rw [Affine.Point.add_self_of_Y_eq (eq_negY_iff.mpr hy)]
      have hy0 : y = 0 := (mul_eq_zero.mp hy).resolve_left h2
      refine ⟨?_, ?_⟩
      · rw [hxx]
        -- if it did, the point would be singular
        refine mul_ne_zero (pow_ne_zero 4 hz) (pow_ne_zero 2 fun hone => hA ?_)
        rw [hy0] at hcurve
        have hAx : A = -2 * x := by linear_combination (-A - x) * hone - hcurve
        rw [hAx]
        linear_combination 4 * hone
      · rw [hzz, hy0]
        ring
    · rw [Affine.Point.add_self_of_Y_ne (eq_negY_iff.not.mpr hy)]
      refine ⟨?_, ?_⟩
      · rw [hzz]
        have hsq : 4 * y ^ 2 = (2 * y) ^ 2 := by ring
        rw [hsq]
        exact mul_ne_zero (pow_ne_zero 4 hz) (pow_ne_zero 2 hy)
      · rw [hxx, hzz, ← addX_self hpoint.1 hy]
        ring

/-! ## Differential addition -/

/-- Differential addition of a point and its negative: their difference is twice the point. -/
theorem Represents.diffAdd_neg (h2 : (2 : F) ≠ 0) (hR : Represents P R) (hS : Represents (-P) S)
    (hD : xCoord (P + P) ≠ 0) : Represents (P + -P) (XZ.diffAdd (xCoord (P + P)) R S) := by
  rw [add_neg_cancel]
  cases P with
  | zero => exact absurd rfl hD
  | some x y hpoint =>
    obtain ⟨hRz, hRx⟩ := hR
    obtain ⟨hSz, hSx⟩ := hS
    -- the point is not of order two, since its double is not infinity
    have hy : 2 * y ≠ 0 := by
      intro hy
      rw [Affine.Point.add_self_of_Y_eq (eq_negY_iff.mpr hy)] at hD
      exact hD rfl
    rw [Affine.Point.add_self_of_Y_ne (eq_negY_iff.not.mpr hy), xCoord] at hD ⊢
    -- the point is not one of the two whose double has first coordinate zero
    have hone : x ^ 2 - 1 ≠ 0 := by
      intro hzero
      have hdouble := addX_self hpoint.1 hy
      rw [hzero, zero_pow two_ne_zero] at hdouble
      rcases mul_eq_zero.mp hdouble with h | h
      · exact hy (pow_eq_zero_iff two_ne_zero |>.mp (by linear_combination h))
      · exact hD h
    refine ⟨?_, ?_⟩
    · have hfactor : R.x * S.x - R.z * S.z = R.z * S.z * (x ^ 2 - 1) := by
        rw [hRx, hSx]
        ring
      rw [XZ.diffAdd_x, hfactor]
      exact mul_ne_zero (four_ne_zero_of_two h2)
        (pow_ne_zero 2 (mul_ne_zero (mul_ne_zero hRz hSz) hone))
    · rw [XZ.diffAdd_z, hRx, hSx]
      ring

/-- Differential addition of two points with different first coordinates. -/
theorem Represents.diffAdd_of_ne (h2 : (2 : F) ≠ 0) (hx : x ≠ x')
    {hpoint : (montgomeryCurve A).Nonsingular x y}
    {hpoint' : (montgomeryCurve A).Nonsingular x' y'}
    (hR : Represents (.some x y hpoint) R) (hS : Represents (.some x' y' hpoint') S)
    (hD : xCoord (A := A) (.some x y hpoint - .some x' y' hpoint') ≠ 0) :
    Represents (.some x y hpoint + .some x' y' hpoint')
      (XZ.diffAdd (xCoord (A := A) (.some x y hpoint - .some x' y' hpoint')) R S) := by
  obtain ⟨hRz, hRx⟩ := hR
  obtain ⟨hSz, hSx⟩ := hS
  have hlaw := addX_mul_addX hpoint.1 hpoint'.1 hx
  have hdiff : xCoord (A := A) (.some x y hpoint - .some x' y' hpoint') =
      (montgomeryCurve A).addX x x' ((montgomeryCurve A).slope x x' y (-y')) := by
    rw [sub_eq_add_neg, Affine.Point.neg_some, Affine.Point.add_of_X_ne hx, xCoord, negY_eq]
  rw [hdiff] at hD ⊢
  rw [Affine.Point.add_of_X_ne hx]
  refine ⟨?_, ?_⟩
  · have hfactor : R.z * S.x - R.x * S.z = R.z * S.z * (x' - x) := by
      rw [hRx, hSx]
      ring
    rw [XZ.diffAdd_z, hfactor]
    exact mul_ne_zero (mul_ne_zero (four_ne_zero_of_two h2) hD)
      (pow_ne_zero 2 (mul_ne_zero (mul_ne_zero hRz hSz) (sub_ne_zero.mpr (Ne.symm hx))))
  · rw [XZ.diffAdd_x, XZ.diffAdd_z, hRx, hSx]
    linear_combination (-4 * (R.z * S.z) ^ 2) * hlaw

/-- **Differential addition** adds two points whose difference has a first coordinate other than
zero. -/
theorem Represents.diffAdd (h2 : (2 : F) ≠ 0) {P' : (montgomeryCurve A).Point}
    (hR : Represents P R) (hS : Represents P' S) (hD : xCoord (P - P') ≠ 0) :
    Represents (P + P') (XZ.diffAdd (xCoord (P - P')) R S) := by
  cases P with
  | zero =>
    rw [← Affine.Point.zero_def, zero_sub, xCoord_neg] at hD ⊢
    rw [zero_add]
    exact hR.diffAdd_zero h2 hS hD
  | some x y hpoint =>
    cases P' with
    | zero =>
      rw [← Affine.Point.zero_def, sub_zero] at hD ⊢
      rw [add_zero, XZ.diffAdd_comm]
      exact hS.diffAdd_zero h2 hR hD
    | some x' y' hpoint' =>
      by_cases hx : x = x'
      · -- equal first coordinates: the same point, or one and its negative
        rcases Affine.Point.X_eq_iff.mp hx with heq | hneg
        · rw [heq, sub_self] at hD
          exact absurd rfl hD
        · have hneg' := neg_eq_iff_eq_neg.mpr hneg
          rw [← hneg', sub_neg_eq_add] at hD ⊢
          rw [← hneg'] at hS
          exact Represents.diffAdd_neg h2 hR hS hD
      · exact Represents.diffAdd_of_ne h2 hx hR hS hD

/-! ## The ladder multiplies -/

/-- **The ladder multiplies**: its pairs stand for the multiple of the point by the bits so
far, and for the next one. -/
theorem represents_ladder (h2 : (2 : F) ≠ 0) (hA : A ^ 2 ≠ 4) (ha24 : 4 * a24 = A + 2)
    (hQ : xCoord Q ≠ 0) (bits : List Bool) :
    Represents (bitsValue bits • Q) (ladder a24 (xCoord Q) bits).1 ∧
      Represents ((bitsValue bits + 1) • Q) (ladder a24 (xCoord Q) bits).2 := by
  induction bits using List.reverseRecOn with
  | nil =>
    refine ⟨?_, ?_⟩
    · rw [bitsValue, List.foldl_nil, zero_nsmul]
      exact ⟨one_ne_zero, rfl⟩
    · rw [bitsValue, List.foldl_nil, zero_add, one_nsmul]
      exact represents_xCoord hQ
  | append_singleton bits bit ih =>
    obtain ⟨hlow, hhigh⟩ := ih
    -- the two multiples differ by the point itself, whatever the bits were
    have hdiff : bitsValue bits • Q - (bitsValue bits + 1) • Q = -Q := by
      rw [succ_nsmul]
      abel
    have hadd := hlow.diffAdd h2 hhigh (by rwa [hdiff, xCoord_neg])
    rw [hdiff, xCoord_neg] at hadd
    rw [ladder_concat, bitsValue_concat]
    cases bit with
    | false =>
      have hlow' := hlow.double h2 hA ha24
      rw [← add_nsmul] at hadd hlow'
      rw [Bool.toNat_false, two_mul]
      exact ⟨hlow', hadd⟩
    | true =>
      have hhigh' := hhigh.double h2 hA ha24
      rw [← add_nsmul] at hadd hhigh'
      rw [Bool.toNat_true, two_mul]
      refine ⟨?_, ?_⟩
      · rwa [add_assoc]
      · rwa [show bitsValue bits + bitsValue bits + 1 + 1 =
          bitsValue bits + 1 + (bitsValue bits + 1) by omega]

/-- A multiple is at infinity exactly when the ladder says so. -/
theorem nsmul_eq_zero_iff (h2 : (2 : F) ≠ 0) (hA : A ^ 2 ≠ 4) (ha24 : 4 * a24 = A + 2)
    (hQ : xCoord Q ≠ 0) (bits : List Bool) :
    bitsValue bits • Q = 0 ↔ (ladder a24 (xCoord Q) bits).1.z = 0 :=
  (represents_ladder h2 hA ha24 hQ bits).1.z_eq_zero_iff.symm

/-! ### From the first coordinate zero -/

/-- A point with first coordinate zero is its own negative, or infinity. -/
theorem add_self_of_xCoord_eq_zero (hP : xCoord P = 0) : P + P = 0 := by
  cases P with
  | zero => rfl
  | some x y hpoint =>
    change x = 0 at hP
    subst hP
    have hcurve := equation_iff.mp hpoint.1
    have hy : y = 0 := pow_eq_zero_iff two_ne_zero |>.mp (by linear_combination hcurve)
    exact Affine.Point.add_self_of_Y_eq (eq_negY_iff.mpr (by rw [hy, mul_zero]))

theorem xCoord_nsmul_of_eq_zero (hP : xCoord P = 0) (n : ℕ) : xCoord (n • P) = 0 := by
  -- its multiples alternate between infinity and itself
  have hmultiple : n • P = 0 ∨ n • P = P := by
    induction n with
    | zero => exact .inl (zero_nsmul P)
    | succ n ih =>
      rcases ih with h | h
      · exact .inr (by rw [succ_nsmul, h, zero_add])
      · exact .inl (by rw [succ_nsmul, h, add_self_of_xCoord_eq_zero hP])
  rcases hmultiple with h | h
  · rw [h]
    rfl
  · rwa [h]

/-- **What the ladder computes**: the first coordinate of the multiple, as a quotient. -/
theorem ladder_quotient (h2 : (2 : F) ≠ 0) (hA : A ^ 2 ≠ 4) (ha24 : 4 * a24 = A + 2)
    (Q : (montgomeryCurve A).Point) (bits : List Bool) :
    (ladder a24 (xCoord Q) bits).1.x * (ladder a24 (xCoord Q) bits).1.z⁻¹ =
      xCoord (bitsValue bits • Q) := by
  by_cases hQ : xCoord Q = 0
  · -- differential addition says nothing here, but a product of zero is all that is needed
    rw [hQ, xCoord_nsmul_of_eq_zero hQ, ladder_quotient_degenerate]
  · exact (represents_ladder h2 hA ha24 hQ bits).1.quotient

end MontgomeryCurve
end TetherMesh.Math
