import Mathlib.FieldTheory.IsAlgClosed.AlgebraicClosure
import TetherMesh.Math.MontgomeryCurve

/-!
# The twist of a Montgomery curve

The ladder knows first coordinates only, and not every element of the field is one of a point
on the curve: the others are those of points on the twist. Over a closed field every element
is the coordinate of a point, and what the ladder does there it does below as well.

So an element is recognised by the ladder's own doubling. When doubling it `m` times gives a
denominator of zero, every ladder for a multiple of `2 ^ m` gives the quotient zero, and the
coordinate of a point of the twist is such an element when `2 ^ m` times the point is zero.

## Main definitions

* `twistedCurve` — the curve `y² = x³ + A d x² + d² x`
* `MontgomeryCurve.uCoord` — the coordinate of a point of it on the curve it twists

## Main results

* `ladder_quotient_of_double` — elements that doubling sends to infinity
* `twist_ladder_quotient` — coordinates of points on the twist are such elements
-/

namespace TetherMesh.Math

open WeierstrassCurve

/-- The curve `d y² = x³ + A x² + x`, with both coordinates multiplied to make the leading
coefficients one. It is the twist when `d` is not a square. -/
@[simps] def twistedCurve {F : Type*} [Field F] (A d : F) : WeierstrassCurve.Affine F where
  a₁ := 0
  a₂ := A * d
  a₃ := 0
  a₄ := d ^ 2
  a₆ := 0

namespace MontgomeryCurve

section Closed

variable {K : Type*} [Field K] {A : K}

/-- A Montgomery curve with `A ^ 2 ≠ 4` is an elliptic one. -/
theorem montgomeryCurve_Δ_ne_zero (h2 : (2 : K) ≠ 0) (hA : A ^ 2 ≠ 4) :
    (montgomeryCurve A).Δ ≠ 0 := by
  have hΔ : (montgomeryCurve A).Δ = 2 ^ 4 * (A ^ 2 - 4) := by
    simp only [Δ, b₂, b₄, b₆, b₈, montgomeryCurve_a₁, montgomeryCurve_a₂, montgomeryCurve_a₃,
      montgomeryCurve_a₄, montgomeryCurve_a₆]
    ring
  rw [hΔ]
  exact mul_ne_zero (pow_ne_zero 4 h2) (sub_ne_zero.mpr hA)

/-- Over a closed field every element is the coordinate of a point. -/
theorem exists_xCoord_eq [IsAlgClosed K] (h2 : (2 : K) ≠ 0) (hA : A ^ 2 ≠ 4) (u : K) :
    ∃ Q : (montgomeryCurve A).Point, xCoord Q = u := by
  obtain ⟨v, hv⟩ := IsAlgClosed.exists_pow_nat_eq (u ^ 3 + A * u ^ 2 + u) two_pos
  have hpoint := (Affine.equation_iff_nonsingular_of_Δ_ne_zero
    (montgomeryCurve_Δ_ne_zero h2 hA)).mp (equation_iff.mpr hv)
  exact ⟨.some u v hpoint, rfl⟩

end Closed

/-! ## The ladder over a larger field -/

section Map

variable {F K : Type*} [Field F] [Field K] (φ : F →+* K)

def XZ.map (R : XZ F) : XZ K := ⟨φ R.x, φ R.z⟩

theorem XZ.map_double (a24 : F) (R : XZ F) :
    (R.double a24).map φ = (R.map φ).double (φ a24) := by
  simp [XZ.map, XZ.double]

theorem XZ.map_diffAdd (x1 : F) (R S : XZ F) :
    (XZ.diffAdd x1 R S).map φ = XZ.diffAdd (φ x1) (R.map φ) (S.map φ) := by
  simp [XZ.map, XZ.diffAdd]

theorem XZ.map_iterate_double (a24 : F) (m : ℕ) (R : XZ F) :
    ((XZ.double a24)^[m] R).map φ = (XZ.double (φ a24))^[m] (R.map φ) := by
  induction m with
  | zero => rfl
  | succ m ih =>
    rw [Function.iterate_succ_apply', Function.iterate_succ_apply', XZ.map_double, ih]

theorem map_ladder (a24 x1 : F) (bits : List Bool) :
    (ladder (φ a24) (φ x1) bits).1 = (ladder a24 x1 bits).1.map φ ∧
      (ladder (φ a24) (φ x1) bits).2 = (ladder a24 x1 bits).2.map φ := by
  induction bits using List.reverseRecOn with
  | nil =>
    simp [ladder, XZ.map]
  | append_singleton bits bit ih =>
    rw [ladder_concat, ladder_concat]
    cases bit with
    | false =>
      simp only [ladderStep, ih.1, ih.2, XZ.map_double, XZ.map_diffAdd, and_self]
    | true =>
      simp only [ladderStep, ih.1, ih.2, XZ.map_double, XZ.map_diffAdd, and_self]

end Map

section Doubling

variable {F : Type*} [Field F] {A a24 : F}

/-- What doubling a pair does to the point it stands for, done many times. -/
theorem iterate_double {G : Type*} [AddMonoid G] {stands : G → XZ F → Prop}
    (hdouble : ∀ {P R}, stands P R → stands (P + P) (R.double a24)) {P : G} {R : XZ F}
    (h : stands P R) (m : ℕ) : stands (2 ^ m • P) ((XZ.double a24)^[m] R) := by
  induction m with
  | zero => rwa [pow_zero, one_nsmul]
  | succ m ih =>
    rw [Function.iterate_succ_apply', pow_succ, mul_two, add_nsmul]
    exact hdouble ih

/-- **Elements that doubling sends to infinity**: a ladder for a number that many doublings
divide has the quotient zero. -/
theorem ladder_quotient_of_double (h2 : (2 : F) ≠ 0) (hA : A ^ 2 ≠ 4) (ha24 : 4 * a24 = A + 2)
    {u : F} {m : ℕ} (hu : ((XZ.double a24)^[m] ⟨u, 1⟩).z = 0) {bits : List Bool}
    (hdvd : 2 ^ m ∣ bitsValue bits) :
    (ladder a24 u bits).1.x * (ladder a24 u bits).1.z⁻¹ = 0 := by
  classical
  -- `φ` adjoins the coordinates that the points with first coordinate `u` may lack
  let φ := algebraMap F (AlgebraicClosure F)
  have h2' : (2 : AlgebraicClosure F) ≠ 0 := by
    rw [← map_ofNat φ 2]
    exact (map_ne_zero φ).mpr h2
  have hA' : φ A ^ 2 ≠ 4 := by
    rw [← map_pow, ← map_ofNat φ 4]
    exact φ.injective.ne hA
  have ha24' : 4 * φ a24 = φ A + 2 := by
    rw [← map_ofNat φ 4, ← map_ofNat φ 2, ← map_mul, ← map_add, ha24]
  obtain ⟨Q, hQ⟩ := exists_xCoord_eq h2' hA' (φ u)
  have hquotient := ladder_quotient h2' hA' ha24' Q bits
  suffices hzero : xCoord (bitsValue bits • Q) = 0 by
    rw [hQ, (map_ladder φ a24 u bits).1, hzero] at hquotient
    apply φ.injective
    rw [map_mul, map_inv₀, map_zero]
    exact hquotient
  by_cases hx : xCoord Q = 0
  · exact xCoord_nsmul_of_eq_zero hx _
  · -- the doublings show that `2 ^ m • Q` is at infinity
    have hdouble := iterate_double (fun h => h.double h2' hA' ha24') (represents_xCoord hx) m
    have hstart : (⟨xCoord Q, 1⟩ : XZ (AlgebraicClosure F)) = XZ.map φ ⟨u, 1⟩ := by
      rw [XZ.map, hQ, map_one]
    rw [hstart, ← XZ.map_iterate_double] at hdouble
    have hinfinite : 2 ^ m • Q = 0 := hdouble.z_eq_zero_iff.mp (by rw [XZ.map, hu, map_zero])
    obtain ⟨k, hk⟩ := hdvd
    rw [hk, mul_nsmul, hinfinite, nsmul_zero]
    rfl

end Doubling

/-! ## Points of the twist -/

section Twist

variable {F : Type*} [Field F] {A d a24 : F}

/-- The coordinate of a point on the curve that is twisted, zero at infinity. -/
def uCoord : (twistedCurve A d).Point → F
  | .zero => 0
  | .some x _ _ => x / d

theorem twisted_equation_iff {x y : F} :
    (twistedCurve A d).Equation x y ↔ y ^ 2 = x ^ 3 + A * d * x ^ 2 + d ^ 2 * x := by
  rw [Affine.equation_iff]
  simp

theorem twisted_eq_negY_iff {x y : F} : y = (twistedCurve A d).negY x y ↔ 2 * y = 0 := by
  rw [Affine.negY, twistedCurve_a₁, twistedCurve_a₃, zero_mul, sub_zero, sub_zero,
    eq_neg_iff_add_eq_zero, two_mul]

/-- Doubling on the twist. -/
theorem twisted_addX_self [DecidableEq F] {x y : F} (h : (twistedCurve A d).Equation x y)
    (hy : 2 * y ≠ 0) :
    4 * y ^ 2 * (twistedCurve A d).addX x x ((twistedCurve A d).slope x x y y) =
      (x ^ 2 - d ^ 2) ^ 2 := by
  have hneg : y - (twistedCurve A d).negY x y = 2 * y := by
    rw [Affine.negY, twistedCurve_a₁, twistedCurve_a₃]
    ring
  have htangent : (2 * y) ^ 2 * ((3 * x ^ 2 + 2 * (A * d) * x + d ^ 2) / (2 * y)) ^ 2 =
      (3 * x ^ 2 + 2 * (A * d) * x + d ^ 2) ^ 2 := by
    rw [← mul_pow, mul_div_cancel₀ _ hy]
  rw [twisted_equation_iff] at h
  rw [Affine.slope_of_Y_ne rfl (twisted_eq_negY_iff.not.mpr hy), hneg, Affine.addX]
  simp only [twistedCurve_a₁, twistedCurve_a₂, twistedCurve_a₄, zero_mul, sub_zero, add_zero]
  linear_combination htangent - 4 * (A * d + 2 * x) * h

/-- A pair stands for a point of the twist. At infinity both its members may be zero. -/
def TwistRepresents : (twistedCurve A d).Point → XZ F → Prop
  | .zero, R => R.z = 0
  | .some x _ _, R => R.z ≠ 0 ∧ d * R.x = x * R.z

/-- **Doubling a pair** doubles the point of the twist. -/
theorem TwistRepresents.double [DecidableEq F] {P : (twistedCurve A d).Point} {R : XZ F}
    (h2 : (2 : F) ≠ 0) (hd : d ≠ 0) (ha24 : 4 * a24 = A + 2) (h : TwistRepresents P R) :
    TwistRepresents (P + P) (R.double a24) := by
  cases P with
  | zero =>
    change R.z = 0 at h
    change (R.double a24).z = 0
    rw [XZ.double_z ha24, h]
    ring
  | some x y hpoint =>
    obtain ⟨hz, hx⟩ := h
    have hcurve := twisted_equation_iff.mp hpoint.1
    have hzz : d ^ 3 * (R.double a24).z = R.z ^ 4 * (4 * y ^ 2) := by
      have hfactor : d ^ 3 * (R.double a24).z = 4 * (d * R.x) * R.z *
          ((d * R.x) ^ 2 + A * d * (d * R.x) * R.z + d ^ 2 * R.z ^ 2) := by
        rw [XZ.double_z ha24]
        ring
      rw [hfactor, hx, hcurve]
      ring
    have hxx : d ^ 4 * (R.double a24).x = R.z ^ 4 * (x ^ 2 - d ^ 2) ^ 2 := by
      have hfactor : d ^ 4 * (R.double a24).x = ((d * R.x) ^ 2 - d ^ 2 * R.z ^ 2) ^ 2 := by
        rw [XZ.double_x]
        ring
      rw [hfactor, hx]
      ring
    by_cases hy : 2 * y = 0
    · rw [Affine.Point.add_self_of_Y_eq (twisted_eq_negY_iff.mpr hy)]
      have hy0 : y = 0 := (mul_eq_zero.mp hy).resolve_left h2
      rw [hy0] at hzz
      exact (mul_eq_zero.mp (hzz.trans (by ring))).resolve_left (pow_ne_zero 3 hd)
    · rw [Affine.Point.add_self_of_Y_ne (twisted_eq_negY_iff.not.mpr hy)]
      have hsq : 4 * y ^ 2 = (2 * y) ^ 2 := by ring
      have hne : d ^ 3 * (R.double a24).z ≠ 0 := by
        rw [hzz, hsq]
        exact mul_ne_zero (pow_ne_zero 4 hz) (pow_ne_zero 2 hy)
      refine ⟨right_ne_zero_of_mul hne, mul_left_cancel₀ (pow_ne_zero 3 hd) ?_⟩
      calc d ^ 3 * (d * (R.double a24).x) = R.z ^ 4 * (x ^ 2 - d ^ 2) ^ 2 := by
            rw [← hxx]
            ring
        _ = d ^ 3 * ((twistedCurve A d).addX x x ((twistedCurve A d).slope x x y y) *
              (R.double a24).z) := by
            rw [← twisted_addX_self hpoint.1 hy, mul_left_comm (d ^ 3), hzz]
            ring

/-- **Points of the twist**: a ladder from the coordinate of one, for a number whose multiple
of the point is taken to infinity by doublings alone, has the quotient zero. -/
theorem twist_ladder_quotient [DecidableEq F] (h2 : (2 : F) ≠ 0) (hA : A ^ 2 ≠ 4)
    (ha24 : 4 * a24 = A + 2) (hd : d ≠ 0) {P : (twistedCurve A d).Point} {m : ℕ}
    (hP : 2 ^ m • P = 0) {bits : List Bool} (hdvd : 2 ^ m ∣ bitsValue bits) :
    (ladder a24 (uCoord P) bits).1.x * (ladder a24 (uCoord P) bits).1.z⁻¹ = 0 := by
  cases P with
  | zero =>
    rw [uCoord, ladder_quotient_degenerate]
  | some x y hpoint =>
    have hstart : TwistRepresents (.some x y hpoint) ⟨x / d, 1⟩ :=
      ⟨one_ne_zero, by rw [mul_div_cancel₀ _ hd, mul_one]⟩
    have hdouble := iterate_double (fun h => h.double h2 hd ha24) hstart m
    rw [hP] at hdouble
    exact ladder_quotient_of_double h2 hA ha24 hdouble hdvd

end Twist

end MontgomeryCurve

end TetherMesh.Math
