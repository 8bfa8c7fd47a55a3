import TetherMesh.CS.StreamCipher
import TetherMesh.Math.MachineInt
import TetherMesh.Protocol.Aes

/-!
# AES in counter mode

Channel traffic is AES-128-CTR. The counter block starts at a nonce made of the
packet identifier and the sender, and counts as a 128-bit big-endian integer.

## Main definitions

* `nonce` — the counter block of a packet
* `ctrApply` — encryption and decryption alike
* `Psk`, `expandPsk` — what a stored pre-shared key means

## Main results

* `length_ctrApply`, `ctrApply_ctrApply`
-/

namespace TetherMesh.Protocol

open Math CS

/-- `DEFAULT_KEY`. -/
def defaultKey : Block := #v[
  0xd4, 0xf1, 0xbb, 0x3a, 0x20, 0x29, 0x07, 0x59,
  0xf0, 0xbc, 0xff, 0xab, 0xcf, 0x4e, 0x69, 0x01]

/-- The counter block of a packet: the identifier as eight little-endian bytes, the
sender as four, and four of extra nonce. -/
def nonce (packetId fromNode extraNonce : UInt32) : Block :=
  let id := packetId.toUInt64.toLeBytes
  let f := fromNode.toLeBytes
  let e := extraNonce.toLeBytes
  let n := updateBytes 0 8 (fun i _ => byteAt id i) zeroBlock
  let n := updateBytes 8 4 (fun i _ => byteAt f i) n
  updateBytes 12 4 (fun i _ => byteAt e i) n

/-- Add one at byte `i - 1` and carry towards the front. -/
def incrementFrom (counter : Block) : ℕ → Block
  | 0 => counter
  | i + 1 =>
    let v := byteAt counter i + 1
    let counter := setByte counter i v
    -- the addition carried exactly when it wrapped to zero
    if v = 0 then incrementFrom counter i else counter

/-- The next counter block, big-endian. -/
def increment (counter : Block) : Block := incrementFrom counter blockSize

/-- Apply AES-CTR. -/
def ctrApply (key nonce : Block) (data : List UInt8) : List UInt8 :=
  let aes := Aes128.new key
  streamXor aes.encryptBlock increment nonce data

/-- What a stored pre-shared key turned out to mean. -/
inductive Psk
  /-- No encryption on this channel. -/
  | none
  | aes128 (key : Block)
  | aes256 (key : Vector UInt8 32)
  deriving DecidableEq, Repr

/-- Expand a stored pre-shared key into the key used. A single byte is an index into the
default keys. `none` for a length or an index the wire does not define. -/
def expandPsk (stored : List UInt8) : Option Psk :=
  match stored.length with
  | 0 => some .none
  | 1 => do
    let idx ← stored.head?
    if idx = 0 then return .none
    else if 10 < idx then none
    else
      let last := byteAt defaultKey 15
      return .aes128 (setByte defaultKey 15 (last + (← idx.checkedSub 1)))
  | 16 => some (.aes128 (copyInto zeroBlock stored))
  | 32 => some (.aes256 (copyInto (Vector.replicate 32 0) stored))
  | _ => none

theorem expandPsk_singleton (idx : UInt8) :
    expandPsk [idx] = if idx = 0 then some .none else if 10 < idx then none
      else some (.aes128 (setByte defaultKey 15 (byteAt defaultKey 15 + (idx - 1)))) := by
  by_cases hzero : idx = 0
  · rw [if_pos hzero, hzero]
    rfl
  · have hsub : idx.checkedSub 1 = some (idx - 1) := by
      rw [UInt8.checkedSub, if_pos]
      rw [UInt8.le_iff_toNat_le]
      exact Nat.pos_of_ne_zero fun h => hzero (UInt8.toNat_inj.mp h)
    rw [if_neg hzero, expandPsk]
    simp only [List.length_singleton, List.head?_cons, Option.bind_eq_bind, Option.bind_some,
      if_neg hzero, hsub, Option.pure_def]

theorem expandPsk_of_length_sixteen {stored : List UInt8} (h : stored.length = 16) :
    expandPsk stored = some (.aes128 (copyInto zeroBlock stored)) := by
  rw [expandPsk, h]
  rfl

theorem expandPsk_of_length_thirtyTwo {stored : List UInt8} (h : stored.length = 32) :
    expandPsk stored = some (.aes256 (copyInto (Vector.replicate 32 0) stored)) := by
  rw [expandPsk, h]
  rfl

/-- No other length is defined. -/
theorem expandPsk_of_length_ne {stored : List UInt8} (hzero : stored.length ≠ 0)
    (hone : stored.length ≠ 1) (hsixteen : stored.length ≠ 16) (hthirtyTwo : stored.length ≠ 32) :
    expandPsk stored = none := by
  unfold expandPsk
  split
  · contradiction
  · contradiction
  · contradiction
  · contradiction
  · rfl

theorem blockSize_pos : 0 < blockSize := Nat.succ_pos 15

@[simp] theorem length_ctrApply (key nonce : Block) (data : List UInt8) :
    (ctrApply key nonce data).length = data.length := length_streamXor blockSize_pos nonce data

/-- Decryption is encryption again. -/
@[simp] theorem ctrApply_ctrApply (key nonce : Block) (data : List UInt8) :
    ctrApply key nonce (ctrApply key nonce data) = data :=
  streamXor_streamXor blockSize_pos nonce data

end TetherMesh.Protocol
