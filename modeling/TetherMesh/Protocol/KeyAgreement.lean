import Mathlib.GroupTheory.OrderOfElement
import TetherMesh.Protocol.X25519

/-!
# Key agreement on the curve

Scalar multiplication is what it is called: on the coordinate of a point it computes that of
a multiple of the point. The multiples that two parties compute from each other's public keys
are the same. They are never zero, because the order of the base point is a prime, and larger
than an eighth of a clamped scalar.

## Main definitions

* `curve`, `generator` — Curve25519 and its base point
* `secret` — the factor a private key stands for

## Main results

* `Fiat.Sound.scalarmult_point`
* `Fiat.Sound.scalarmult_publicKey_comm`, `Fiat.Sound.x25519_publicKey` — the two parties
  agree, and on something
* `addOrderOf_generator`
-/

namespace TetherMesh.Protocol.X25519

open Math Math.MontgomeryCurve

/-- Curve25519. -/
abbrev curve : WeierstrassCurve.Affine Elem := montgomeryCurve 486662

theorem natCast_ne_zero {n : ℕ} (hzero : n ≠ 0) (hlt : n < fieldOrder) : (n : Elem) ≠ 0 := by
  rw [Ne, ZMod.natCast_eq_zero_iff]
  exact fun hdvd => absurd (Nat.le_of_dvd (Nat.pos_of_ne_zero hzero) hdvd) (Nat.not_le.mpr hlt)

theorem two_ne_zero : (2 : Elem) ≠ 0 :=
  natCast_ne_zero (n := 2) (by norm_num) (by norm_num [fieldOrder])

/-- The curve has no singular point. -/
theorem curve_regular : (486662 : Elem) ^ 2 ≠ 4 := by
  have hne := natCast_ne_zero (n := 486662 ^ 2 - 4) (by norm_num) (by norm_num [fieldOrder])
  rw [Nat.cast_sub (by norm_num)] at hne
  push_cast at hne
  exact sub_ne_zero.mp hne

theorem scalar_eq : 4 * (121666 : Elem) = 486662 + 2 := by norm_num

/-- The second coordinate of the base point. -/
def generatorY : Elem :=
  14781619447589544791020593568409986887264606134616475288964881837755586237401

theorem generator_nonsingular : curve.Nonsingular 9 generatorY := by
  rw [WeierstrassCurve.Affine.nonsingular_iff, equation_iff]
  have hY : generatorY ≠ 0 := natCast_ne_zero (by norm_num) (by norm_num [fieldOrder])
  exact ⟨by decide +kernel, .inr (eq_negY_iff.not.mpr (mul_ne_zero two_ne_zero hY))⟩

/-- The base point. -/
def generator : curve.Point := .some 9 generatorY generator_nonsingular

/-! ## The order of the base point -/

/-- The ladder itself shows it: run on the bits of the order, it ends at infinity. -/
theorem ladder_groupOrder :
    (MontgomeryCurve.ladder (121666 : Elem) 9 (lowBits groupOrder 253)).1.z = 0 := by
  decide +kernel

theorem groupOrder_nsmul_generator : groupOrder • generator = 0 := by
  have hstart : xCoord generator ≠ 0 :=
    natCast_ne_zero (n := 9) (by norm_num) (by norm_num [fieldOrder])
  have hladder := (nsmul_eq_zero_iff two_ne_zero curve_regular scalar_eq hstart
    (lowBits groupOrder 253)).mpr ladder_groupOrder
  rwa [bitsValue_lowBits, Nat.mod_eq_of_lt (by norm_num [groupOrder])] at hladder

theorem addOrderOf_generator : addOrderOf generator = groupOrder :=
  addOrderOf_eq_prime groupOrder_nsmul_generator (by rintro ⟨⟩)

/-- A multiple of the base point has the coordinate zero only when it is at infinity. -/
theorem groupOrder_dvd_of_xCoord_eq_zero {n : ℕ} (h : xCoord (n • generator) = 0) :
    groupOrder ∣ n := by
  -- twice the multiple is at infinity, and the order is odd
  have hdouble := add_self_of_xCoord_eq_zero h
  rw [← add_nsmul, ← two_mul] at hdouble
  have hdvd := addOrderOf_dvd_of_nsmul_eq_zero hdouble
  rw [addOrderOf_generator] at hdvd
  refine (prime_groupOrder.dvd_mul.mp hdvd).resolve_left fun htwo => ?_
  exact absurd (Nat.le_of_dvd two_pos htwo) (by norm_num [groupOrder])

/-! ## The agreement -/

/-- The factor a private key stands for. -/
def secret (privateKey : Vector UInt8 keyLen) : ℕ := leValue (clamp privateKey).toList

theorem leValue_basePoint : leValue basePoint.toList = 9 := by decide

namespace Fiat.Sound

variable {f : Fiat}

/-- **Scalar multiplication** multiplies the point. -/
theorem scalarmult_point (h : f.Sound) (scalar point : Vector UInt8 keyLen) {Q : curve.Point}
    (hQ : ((leValue point.toList % 2 ^ 255 : ℕ) : Elem) = xCoord Q) :
    leValue (f.scalarmult scalar point).toList = (xCoord (secret scalar • Q)).val := by
  rw [h.leValue_scalarmult scalar point hQ,
    ladder_quotient two_ne_zero curve_regular scalar_eq Q, bitsValue_lowBits,
    Nat.mod_eq_of_lt (leValue_clamp scalar).2.1, secret]

/-- What was written is read back. -/
theorem decoded_of_written (x : Elem) : ((x.val % 2 ^ 255 : ℕ) : Elem) = x := by
  have hlt : x.val < 2 ^ 255 := (ZMod.val_lt x).trans (by norm_num [fieldOrder])
  rw [Nat.mod_eq_of_lt hlt, ZMod.natCast_zmod_val]

theorem leValue_publicKey (h : f.Sound) (privateKey : Vector UInt8 keyLen) :
    leValue (f.publicKey privateKey).toList = (xCoord (secret privateKey • generator)).val := by
  refine h.scalarmult_point privateKey basePoint ?_
  rw [leValue_basePoint]
  rfl

/-- The shared secret is the coordinate of a multiple by both factors. -/
theorem leValue_shared (h : f.Sound) (a b : Vector UInt8 keyLen) :
    leValue (f.scalarmult a (f.publicKey b)).toList =
      (xCoord ((secret a * secret b) • generator)).val := by
  rw [mul_nsmul']
  refine h.scalarmult_point a _ ?_
  rw [h.leValue_publicKey, decoded_of_written]

/-- **The two parties compute the same.** -/
theorem scalarmult_publicKey_comm (h : f.Sound) (a b : Vector UInt8 keyLen) :
    f.scalarmult a (f.publicKey b) = f.scalarmult b (f.publicKey a) := by
  apply Vector.toList_inj.mp
  apply leValue_inj
  · rw [Vector.length_toList, Vector.length_toList]
  · rw [h.leValue_shared, h.leValue_shared, Nat.mul_comm]

end Fiat.Sound

/-- No private key is a multiple of the order of the base point. -/
theorem not_groupOrder_dvd_secret (privateKey : Vector UInt8 keyLen) :
    ¬ groupOrder ∣ secret privateKey := by
  intro hdvd
  -- a clamped scalar is eight times a number below the order
  obtain ⟨hlow, hhigh, k, hk⟩ := leValue_clamp privateKey
  rw [secret, hk] at hdvd
  rcases prime_groupOrder.dvd_mul.mp hdvd with height | hrest
  · exact absurd (Nat.le_of_dvd (by norm_num) height) (by norm_num [groupOrder])
  · have hle := Nat.le_of_dvd (by omega) hrest
    rw [groupOrder] at hle
    omega

namespace Fiat

/-- A peer is refused exactly when the coordinate computed is zero. -/
theorem x25519_eq_ite (f : Fiat) (privateKey peerPublic : Vector UInt8 keyLen) :
    f.x25519 privateKey peerPublic =
      if leValue (f.scalarmult privateKey peerPublic).toList = 0 then none
      else some (f.scalarmult privateKey peerPublic) := by
  have hzero := foldl_or_eq_zero_iff (fun b => b) (f.scalarmult privateKey peerPublic).toList 0
  rw [← leValue_eq_zero_iff, and_iff_right rfl] at hzero
  rw [x25519]
  exact if_congr hzero rfl rfl

/-- **An honest agreement succeeds.** -/
theorem Sound.x25519_publicKey {f : Fiat} (h : f.Sound) (a b : Vector UInt8 keyLen) :
    f.x25519 a (f.publicKey b) = some (f.scalarmult a (f.publicKey b)) := by
  rw [x25519_eq_ite, if_neg]
  rw [h.leValue_shared, ZMod.val_eq_zero]
  intro hzero
  rcases prime_groupOrder.dvd_mul.mp (groupOrder_dvd_of_xCoord_eq_zero hzero) with ha | hb
  · exact not_groupOrder_dvd_secret a ha
  · exact not_groupOrder_dvd_secret b hb

end Fiat

end TetherMesh.Protocol.X25519
