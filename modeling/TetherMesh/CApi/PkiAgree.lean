import TetherMesh.CApi.Abi
import TetherMesh.Protocol.FieldReference
import TetherMesh.Protocol.KeyAgreement
import TetherMesh.Protocol.Sha256
import TetherMesh.Protocol.SmallOrder

/-!
# The C interface: the key of a direct message

Each of two nodes publishes the public key of its private key, and makes the message key
from its own private key and what the other published. Both make the same key, and neither
is ever refused. A key that nobody publishes, the coordinate of a point of small order, is
refused with every private key.

## Main definitions

* `tmX25519Public` — derive a public key
* `tmPkiAgree` — agree the message key for one peer

## Main results

* `tmX25519Public_eq`, `tmPkiAgree_eq` — what the calls do on keys of 32 bytes
* `agreement_symmetric`
* `small_order_refused`
-/

namespace TetherMesh.CApi

open Math Protocol Protocol.X25519

/-- Derive the public key for a private key. -/
def tmX25519Public (f : Fiat) (privateKey out : Ptr (List UInt8)) : ℤ × Ptr (List UInt8) :=
  match privateKey, out with
  | some privateKey, some dst =>
    if privateKey.length ≠ keyLen then (tmEBadKeyLen, some dst)
    else if dst.length < keyLen then (tmEShort, some dst)
    else (tmOk, some (overwrite dst 0 (f.publicKey (pad keyLen privateKey)).toList))
  | _, _ => (tmEArg, out)

/-- Agree the message key for one peer. -/
def tmPkiAgree (f : Fiat) (privateKey peerPublic : Ptr (List UInt8)) (out : Ptr TmPkiKey) :
    ℤ × Ptr TmPkiKey :=
  match privateKey, peerPublic, out with
  | some privateKey, some peerPublic, some old =>
    if privateKey.length ≠ keyLen ∨ peerPublic.length ≠ keyLen then (tmEBadKeyLen, some old)
    else match f.x25519 (pad keyLen privateKey) (pad keyLen peerPublic) with
      | none => (tmESmallOrder, some old)
      | some shared => (tmOk, some ⟨sha256 shared.toList⟩)
  | _, _, _ => (tmEArg, out)

variable {f : Fiat} {a b : Vector UInt8 keyLen}

theorem tmX25519Public_eq (f : Fiat) (privateKey : Vector UInt8 keyLen) {dst : List UInt8}
    (h : keyLen ≤ dst.length) : tmX25519Public f (some privateKey.toList) (some dst) =
      (tmOk, some ((f.publicKey privateKey).toList ++ dst.drop keyLen)) := by
  have hfit : (f.publicKey privateKey).toList.length ≤ dst.length := by
    rwa [Vector.length_toList]
  rw [tmX25519Public, if_neg (not_not.mpr (Vector.length_toList ..)),
    if_neg (Nat.not_lt.mpr h), pad_toList, overwrite_front hfit, Vector.length_toList]

theorem tmPkiAgree_eq (f : Fiat) (privateKey peerPublic : Vector UInt8 keyLen) (old : TmPkiKey) :
    tmPkiAgree f (some privateKey.toList) (some peerPublic.toList) (some old) =
      match f.x25519 privateKey peerPublic with
      | none => (tmESmallOrder, some old)
      | some shared => (tmOk, some ⟨sha256 shared.toList⟩) := by
  have hlen : ¬ (privateKey.toList.length ≠ keyLen ∨ peerPublic.toList.length ≠ keyLen) := by
    rw [Vector.length_toList, Vector.length_toList]
    simp
  rw [tmPkiAgree, if_neg hlen, pad_toList, pad_toList]

/-- **Key agreement is symmetric.** -/
theorem agreement_symmetric (h : f.Sound) (a b : Vector UInt8 keyLen) :
    f.x25519 a (f.publicKey b) = f.x25519 b (f.publicKey a) ∧
      ∀ aOut bOut, ∃ key,
        tmPkiAgree f (some a.toList) (some (f.publicKey b).toList) (some aOut) =
          (tmOk, some key) ∧
        tmPkiAgree f (some b.toList) (some (f.publicKey a).toList) (some bOut) =
          (tmOk, some key) := by
  have ha := h.x25519_publicKey a b
  have hb := h.x25519_publicKey b a
  rw [h.scalarmult_publicKey_comm b a] at hb
  refine ⟨ha.trans hb.symm, fun aOut bOut => ?_⟩
  exact ⟨_, by rw [tmPkiAgree_eq, ha], by rw [tmPkiAgree_eq, hb]⟩

theorem agreement_symmetric_sample :
    Fiat.reference.x25519 (Vector.replicate keyLen 0x11)
        (Fiat.reference.publicKey (Vector.replicate keyLen 0xA5)) =
      Fiat.reference.x25519 (Vector.replicate keyLen 0xA5)
        (Fiat.reference.publicKey (Vector.replicate keyLen 0x11)) ∧
      ∀ aOut bOut, ∃ key,
        tmPkiAgree Fiat.reference (some (Vector.replicate keyLen 0x11).toList)
          (some (Fiat.reference.publicKey (Vector.replicate keyLen 0xA5)).toList) (some aOut) =
          (tmOk, some key) ∧
        tmPkiAgree Fiat.reference (some (Vector.replicate keyLen 0xA5).toList)
          (some (Fiat.reference.publicKey (Vector.replicate keyLen 0x11)).toList) (some bOut) =
          (tmOk, some key) :=
  agreement_symmetric Fiat.reference_sound _ _

/-- **Every key of small order is refused**, however it is encoded: not reduced, or with the
top bit set, which decoding masks off. -/
theorem small_order_refused (h : f.Sound) (privateKey peerPublic : Vector UInt8 keyLen)
    (hsmall : IsSmallOrder (leValue peerPublic.toList % 2 ^ 255 : ℕ)) :
    f.x25519 privateKey peerPublic = none ∧
      ∀ old, tmPkiAgree f (some privateKey.toList) (some peerPublic.toList) (some old) =
        (tmESmallOrder, some old) := by
  have hnone := h.x25519_eq_none privateKey peerPublic hsmall
  exact ⟨hnone, fun old => by rw [tmPkiAgree_eq, hnone]⟩

/-- Zero, written as the order of the field with the top bit set. -/
theorem small_order_refused_unreduced :
    Fiat.reference.x25519 basePoint (setByte (Vector.replicate keyLen 0xFF) 0 0xED) = none ∧
      ∀ old, tmPkiAgree Fiat.reference (some basePoint.toList)
          (some (setByte (Vector.replicate keyLen 0xFF) 0 0xED).toList) (some old) =
        (tmESmallOrder, some old) := by
  have hzero : ((leValue (setByte (Vector.replicate keyLen 0xFF) 0 0xED).toList % 2 ^ 255 : ℕ) :
      Elem) = 0 := by
    rw [show leValue (setByte (Vector.replicate keyLen 0xFF) 0 0xED).toList % 2 ^ 255 = fieldOrder
      by decide +kernel, ZMod.natCast_self]
  exact small_order_refused Fiat.reference_sound basePoint _ (hzero ▸ isSmallOrder_zero)

end TetherMesh.CApi
