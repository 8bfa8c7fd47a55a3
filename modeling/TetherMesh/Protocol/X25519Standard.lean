import TetherMesh.CS.Rfc7748
import TetherMesh.Protocol.FieldReference

/-!
# Scalar multiplication is that of the RFC

The code keeps the ladder of RFC 7748 but not its formulas: it doubles from the other square,
with another constant, undoes each exchange together with the next one, and raises to the last
power by a chain of its own. The bytes are the same for every scalar and every coordinate.

## Main results

* `inversion_chain` — the chain's power is the inverse
* `leValue_clamp_eq`, `decodeUCoordinate_eq` — scalars and coordinates are decoded alike
* `scalarmult_is_x25519`
-/

namespace TetherMesh.Protocol.X25519

open Math CS

/-- **The chain of the inverse** raises to the power `2 ^ 255 - 21`, with whatever operations
multiply and square. That is the inverse of any element but zero, and zero of zero. -/
theorem inversion_chain {f : Fiat} (h : f.Multiplies) {a : Tight} {x : Elem} (ha : a.Holds x) :
    (f.invert a).Holds (x ^ (2 ^ 255 - 21)) ∧
      (x ≠ 0 → x ^ (2 ^ 255 - 21) * x = 1) ∧ (x = 0 → x ^ (2 ^ 255 - 21) = 0) := by
  refine ⟨h.invert_pow ha, fun hx => ?_, fun hzero => ?_⟩
  · rw [Fiat.Multiplies.pow_eq_inv, inv_mul_cancel₀ hx]
  · rw [Fiat.Multiplies.pow_eq_inv, hzero, inv_zero]

/-- The inverse of two. -/
theorem inversion_chain_two :
    (Fiat.reference.invert ⟨limbsOf 2⟩).Holds (((2 : ℕ) : Elem) ^ (2 ^ 255 - 21)) :=
  (inversion_chain Fiat.reference_sound.multiplies
    (limbsOf_holds (Nat.le_refl _) (by norm_num))).1

/-- A scalar is decoded as it is clamped. -/
theorem leValue_clamp_eq (scalar : Vector UInt8 keyLen) :
    leValue (clamp scalar).toList = Rfc7748.decodeScalar25519 scalar := rfl

/-- A coordinate is decoded whole, but for its top bit. -/
theorem decodeUCoordinate_eq (point : Vector UInt8 keyLen) :
    Rfc7748.decodeUCoordinate point = leValue point.toList % 2 ^ 255 :=
  leValue_masked point

/-- **Scalar multiplication is X25519**, for every scalar and every coordinate. -/
theorem scalarmult_is_x25519 {f : Fiat} (h : f.Sound) (scalar point : Vector UInt8 keyLen) :
    f.scalarmult scalar point = Rfc7748.x25519 scalar point := by
  apply Vector.toList_inj.mp
  apply leValue_inj
  · rw [Vector.length_toList, Vector.length_toList]
  -- the power of the RFC's quotient is the inverse of the code's
  have hexp : fieldOrder - 2 = 2 ^ 255 - 21 := by norm_num [fieldOrder]
  have hconst : (121665 : Elem) + 1 = 121666 := by norm_num
  rw [h.leValue_scalarmult scalar point rfl, Rfc7748.x25519, Rfc7748.leValue_encodeUCoordinate,
    Rfc7748.mulCoordinate_eq, hconst, hexp, Fiat.Multiplies.pow_eq_inv, decodeUCoordinate_eq,
    leValue_clamp_eq]

theorem scalarmult_is_x25519_base : Fiat.reference.scalarmult basePoint basePoint =
    Rfc7748.x25519 basePoint basePoint :=
  scalarmult_is_x25519 Fiat.reference_sound basePoint basePoint

end TetherMesh.Protocol.X25519
