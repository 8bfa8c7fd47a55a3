import TetherMesh.Math.MontgomeryTwist
import TetherMesh.Protocol.KeyAgreement

/-!
# Peers of small order

A coordinate is of small order when eight times its point is at infinity, and the point may be
one of the curve or one of its twist. Clamping makes every scalar a multiple of eight, so what
is computed from such a coordinate is zero, whatever the private key, and zero is refused.

## Main definitions

* `IsSmallOrder`

## Main results

* `eight_dvd_secret`
* `Fiat.Sound.x25519_eq_none` — a peer of small order is refused
-/

namespace TetherMesh.Protocol.X25519

open Math Math.MontgomeryCurve

/-- The coordinate of a point of order dividing eight, on the curve or on its twist. -/
inductive IsSmallOrder (u : Elem) : Prop
  | ofCurve (P : curve.Point) (order : 8 • P = 0) (coord : xCoord P = u)
  | ofTwist (d : Elem) (nonsquare : ¬ IsSquare d) (P : (twistedCurve 486662 d).Point)
      (order : 8 • P = 0) (coord : uCoord P = u)

theorem eight_dvd_secret (privateKey : Vector UInt8 keyLen) : 8 ∣ secret privateKey :=
  (leValue_clamp privateKey).2.2

/-- The point of order two. -/
theorem isSmallOrder_zero : IsSmallOrder 0 := by
  have hpoint : curve.Nonsingular 0 0 := by
    rw [WeierstrassCurve.Affine.nonsingular_zero]
    exact ⟨rfl, .inr one_ne_zero⟩
  have hdouble : (2 : ℕ) • (.some 0 0 hpoint : curve.Point) = 0 := by
    rw [two_nsmul]
    exact add_self_of_xCoord_eq_zero rfl
  have height : (8 : ℕ) • (.some 0 0 hpoint : curve.Point) = 0 := by
    rw [show 8 = 2 * 4 from rfl, mul_nsmul, hdouble, nsmul_zero]
  exact .ofCurve (.some 0 0 hpoint) height rfl

namespace Fiat.Sound

variable {f : Fiat} {u : Elem}

/-- **What is computed is zero**, from a coordinate of the curve or of the twist. -/
theorem leValue_scalarmult_eq_zero (h : f.Sound) (hsmall : IsSmallOrder u)
    (scalar point : Vector UInt8 keyLen)
    (hu : ((leValue point.toList % 2 ^ 255 : ℕ) : Elem) = u) :
    leValue (f.scalarmult scalar point).toList = 0 := by
  cases hsmall with
  | ofCurve P hP hx =>
    rw [h.scalarmult_point scalar point (hu.trans hx.symm), ZMod.val_eq_zero]
    obtain ⟨k, hk⟩ := eight_dvd_secret scalar
    rw [hk, mul_nsmul, hP, nsmul_zero]
    rfl
  | ofTwist d hd P hP hx =>
    have hd0 : d ≠ 0 := fun hzero => hd (hzero ▸ IsSquare.zero)
    have hdvd : 2 ^ 3 ∣ bitsValue (lowBits (leValue (clamp scalar).toList) 255) := by
      rw [bitsValue_lowBits, Nat.mod_eq_of_lt (leValue_clamp scalar).2.1]
      exact eight_dvd_secret scalar
    rw [h.leValue_scalarmult scalar point hu, ZMod.val_eq_zero, ← hx]
    exact twist_ladder_quotient (m := 3) two_ne_zero curve_regular scalar_eq hd0 hP hdvd

/-- **A peer of small order is refused** with every private key. -/
theorem x25519_eq_none (h : f.Sound) (privateKey peerPublic : Vector UInt8 keyLen)
    (hsmall : IsSmallOrder (leValue peerPublic.toList % 2 ^ 255 : ℕ)) :
    f.x25519 privateKey peerPublic = none := by
  rw [x25519_eq_ite, if_pos (h.leValue_scalarmult_eq_zero hsmall privateKey peerPublic rfl)]

end Fiat.Sound

end TetherMesh.Protocol.X25519
