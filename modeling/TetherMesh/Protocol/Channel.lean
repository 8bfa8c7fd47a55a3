import TetherMesh.Protocol.Crypto

/-!
# Channel identification

The cleartext header carries one byte that identifies the channel: the XOR of all bytes
of its name and of its key. It collides once in 256 times, and nothing follows from a
match.

## Main definitions

* `xorFold`, `channelHash`

## Main results

* `xorFold_append` — the fold of two pieces
* `channelHash_eq_iff` — when two keys give a channel the same hash
-/

namespace TetherMesh.Protocol

/-- Fold a byte string into one byte by XOR. -/
def xorFold (bytes : List UInt8) : UInt8 := bytes.foldl (fun acc byte => acc ^^^ byte) 0

/-- The one-byte hash of a channel, from its name and its expanded key. -/
def channelHash (name psk : List UInt8) : UInt8 := xorFold name ^^^ xorFold psk

theorem foldl_xor (bytes : List UInt8) (acc : UInt8) :
    bytes.foldl (fun acc byte => acc ^^^ byte) acc = acc ^^^ xorFold bytes := by
  induction bytes generalizing acc with
  | nil => exact UInt8.xor_zero.symm
  | cons byte bytes ih =>
    have hhead : xorFold (byte :: bytes) = byte ^^^ xorFold bytes := by
      rw [xorFold, List.foldl_cons, ih, UInt8.zero_xor]
    rw [List.foldl_cons, ih, hhead, UInt8.xor_assoc]

theorem xorFold_append (xs ys : List UInt8) : xorFold (xs ++ ys) = xorFold xs ^^^ xorFold ys := by
  rw [xorFold, List.foldl_append, foldl_xor]
  rfl

/-- A longer key gives the same hash exactly when what it has more folds to zero. -/
theorem channelHash_eq_iff (name psk rest : List UInt8) :
    channelHash name psk = channelHash name (psk ++ rest) ↔ xorFold rest = 0 := by
  rw [channelHash, channelHash, xorFold_append, UInt8.xor_right_inj]
  constructor
  · intro h
    have hzero := UInt8.xor_eq_zero_iff.mpr h
    rwa [← UInt8.xor_assoc, UInt8.xor_self, UInt8.zero_xor] at hzero
  · intro h
    rw [h, UInt8.xor_zero]

end TetherMesh.Protocol
