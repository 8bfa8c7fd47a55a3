import Mathlib.Data.List.Iterate
import TetherMesh.Math.Radix
import TetherMesh.Protocol.Crypto

/-!
# The keystream blocks of a packet

A packet is encrypted under the counter blocks that follow its nonce. Read as a
128-bit big-endian number a nonce has the packet identifier and the sender in its
upper 96 bits and the extra nonce in its lower 32, so packets that differ in
identifier or sender start a multiple of `2 ^ 32` apart, and neither reaches a block
of the other within `2 ^ 32` blocks, wherever the counter carries or wraps.

## Main definitions

* `counterBlocks` — the counter blocks `ctrApply` encrypts

## Main results

* `beValue_increment` — the counter counts modulo `256 ^ 16`
* `counterBlocks_never_reused`
-/

namespace TetherMesh.Protocol

open Math CS

/-! ## The counter as a number -/

/-- Carrying from byte `i - 1` on adds one at that place, modulo the block. -/
theorem beValue_incrementFrom (counter : Block) {i : ℕ} (hi : i ≤ blockSize) :
    beValue (incrementFrom counter i).toList ≡
      beValue counter.toList + 256 ^ (blockSize - i) [MOD 256 ^ blockSize] := by
  induction i generalizing counter with
  | zero => exact (Nat.add_modEq_right (a := beValue counter.toList)).symm
  | succ i ih =>
    have hlt : i < counter.toList.length := by
      rw [Vector.length_toList]
      exact hi
    have hget : counter.toList[i] = byteAt counter i := by
      rw [Vector.getElem_toList, byteAt_of_lt counter hi]
    have hset := beValue_set hlt (byteAt counter i + 1)
    rw [Vector.length_toList, hget, ← toList_setByte] at hset
    have hplace : blockSize - 1 - i = blockSize - (i + 1) := by omega
    rw [hplace] at hset
    have hpow : 256 ^ (blockSize - i) = 256 ^ (blockSize - (i + 1)) * 256 := by
      rw [← pow_succ]
      congr 1
      omega
    rw [incrementFrom]
    split_ifs with hcarry
    · -- the byte went from 255 to 0, and the carry makes up for it
      have hbyte : (byteAt counter i).toNat = 255 := by
        have hzero := congrArg UInt8.toNat hcarry
        rw [UInt8.toNat_add] at hzero
        have hbound := (byteAt counter i).toNat_lt
        change ((byteAt counter i).toNat + 1) % 256 = 0 at hzero
        omega
      have hnext := ih (setByte counter i (byteAt counter i + 1)) (Nat.le_of_succ_le hi)
      rw [hcarry, hbyte] at hset
      rw [hpow, hcarry] at hnext
      rw [hcarry]
      convert hnext using 1
      change _ = beValue counter.toList + _ * 0 at hset
      omega
    · -- without a carry the other bytes stay
      have hbyte : (byteAt counter i + 1).toNat = (byteAt counter i).toNat + 1 := by
        have hbound := (byteAt counter i).toNat_lt
        have hne : (byteAt counter i).toNat ≠ 255 := by
          intro h255
          apply hcarry
          apply UInt8.toNat_inj.mp
          rw [UInt8.toNat_add, h255]
          rfl
        rw [UInt8.toNat_add]
        exact Nat.mod_eq_of_lt (show (byteAt counter i).toNat + 1 < 256 by omega)
      rw [hbyte, Nat.mul_succ] at hset
      have hvalue : beValue (setByte counter i (byteAt counter i + 1)).toList =
          beValue counter.toList + 256 ^ (blockSize - (i + 1)) := by omega
      rw [hvalue]

/-- **The counter counts.** One step adds one to the big-endian value, modulo
`256 ^ 16`. -/
theorem beValue_increment (counter : Block) :
    beValue (increment counter).toList = (beValue counter.toList + 1) % 256 ^ blockSize := by
  have hstep := beValue_incrementFrom counter (le_refl blockSize)
  rw [Nat.sub_self, pow_zero, ← increment] at hstep
  rw [← hstep, Nat.mod_eq_of_lt]
  simpa using beValue_lt (increment counter).toList

theorem beValue_iterate_increment (counter : Block) (i : ℕ) :
    beValue (increment^[i] counter).toList = (beValue counter.toList + i) % 256 ^ blockSize := by
  induction i with
  | zero =>
    rw [Function.iterate_zero_apply, Nat.add_zero, Nat.mod_eq_of_lt]
    simpa using beValue_lt counter.toList
  | succ i ih =>
    rw [Function.iterate_succ_apply', beValue_increment, ih, Nat.mod_add_mod, Nat.add_assoc]

/-! ## The layout of the nonce -/

theorem toList_nonce (id fromNode extraNonce : UInt32) :
    (nonce id fromNode extraNonce).toList =
      id.toUInt64.toLeBytes.toList ++ fromNode.toLeBytes.toList ++ extraNonce.toLeBytes.toList := by
  apply List.ext_getElem
  · simp
  · intro i hi hi'
    have hlt : i < blockSize := by simpa using hi
    rw [Vector.getElem_toList, ← byteAt_of_lt _ hlt, nonce]
    simp only [byteAt_updateBytes _ _ _ _ hlt, List.getElem_append, List.length_append,
      Vector.length_toList, Vector.getElem_toList]
    -- the identifier is in bytes 0-7, the sender in 8-11, the extra nonce in 12-15
    by_cases hextra : 12 ≤ i
    · rw [if_pos ⟨hextra, hlt⟩, dif_neg (by omega)]
      exact byteAt_of_lt _ _
    · rw [if_neg (by omega), dif_pos (by omega)]
      by_cases hfrom : 8 ≤ i
      · rw [if_pos ⟨hfrom, by omega⟩, dif_neg (by omega)]
        exact byteAt_of_lt _ _
      · rw [if_neg (by omega), if_pos ⟨Nat.zero_le i, by omega⟩, dif_pos (by omega)]
        exact byteAt_of_lt _ _

/-- The identifier and the sender, as they stand in the upper 96 bits. -/
def noncePrefix (id fromNode : UInt32) : List UInt8 :=
  id.toUInt64.toLeBytes.toList ++ fromNode.toLeBytes.toList

@[simp] theorem length_noncePrefix (id fromNode : UInt32) :
    (noncePrefix id fromNode).length = 12 := by
  rw [noncePrefix, List.length_append, Vector.length_toList, Vector.length_toList]

theorem beValue_noncePrefix_lt (id fromNode : UInt32) :
    beValue (noncePrefix id fromNode) < 2 ^ 96 := by
  have hlt := beValue_lt (noncePrefix id fromNode)
  rw [length_noncePrefix] at hlt
  norm_num at hlt ⊢
  exact hlt

theorem noncePrefix_inj {id id' fromNode fromNode' : UInt32}
    (h : noncePrefix id fromNode = noncePrefix id' fromNode') :
    id = id' ∧ fromNode = fromNode' := by
  have hsplit := List.append_inj h (by rw [Vector.length_toList, Vector.length_toList])
  have hid := toLeBytes_injective (Vector.toList_inj.mp hsplit.1)
  have hfrom := UInt32.toLeBytes_injective (Vector.toList_inj.mp hsplit.2)
  refine ⟨?_, hfrom⟩
  apply UInt32.toNat_inj.mp
  rw [← UInt32.toNat_toUInt64, ← UInt32.toNat_toUInt64, hid]

/-- Packets that differ in identifier or sender have different upper 96 bits, and the
extra nonce fills the lower 32. -/
theorem beValue_nonce (id fromNode extraNonce : UInt32) :
    beValue (nonce id fromNode extraNonce).toList =
      2 ^ 32 * beValue (noncePrefix id fromNode) + beValue extraNonce.toLeBytes.toList := by
  rw [toList_nonce, beValue_append, Vector.length_toList, ← noncePrefix]
  norm_num

/-! ## Blocks used -/

/-- The counter blocks `ctrApply` encrypts, one for each block of data begun. -/
def counterBlocks (nonce : Block) (data : List UInt8) : List Block :=
  counters increment nonce (chunks blockSize data)

/-- The output is the data under the encryptions of these counter blocks. -/
theorem ctrApply_eq_xorInto (key nonce : Block) (data : List UInt8) :
    ctrApply key nonce data =
      xorInto data ((counterBlocks nonce data).flatMap fun counter =>
        ((Aes128.new key).encryptBlock counter).toList) :=
  streamXor_eq_xorInto blockSize_pos nonce data

theorem counterBlocks_eq_iterate (nonce : Block) (data : List UInt8) :
    counterBlocks nonce data = List.iterate increment nonce (chunks blockSize data).length :=
  counters_eq_iterate nonce (chunks blockSize data)

theorem beValue_of_mem_counterBlocks {nonce counter : Block} {data : List UInt8}
    (h : counter ∈ counterBlocks nonce data) :
    ∃ i < (chunks blockSize data).length,
      beValue counter.toList = (beValue nonce.toList + i) % 2 ^ 128 := by
  rw [counterBlocks_eq_iterate, List.mem_iterate] at h
  obtain ⟨i, hi, rfl⟩ := h
  exact ⟨i, hi, beValue_iterate_increment nonce i⟩

/-- Blocks of one packet are different, as the counter does not come round. -/
theorem nodup_counterBlocks (nonce : Block) {data : List UInt8}
    (h : (chunks blockSize data).length ≤ 2 ^ 32) : (counterBlocks nonce data).Nodup := by
  rw [counterBlocks_eq_iterate]
  refine List.pairwise_iff_getElem.mpr fun i j hi hj hij heq => ?_
  rw [List.length_iterate] at hj
  rw [List.getElem_iterate, List.getElem_iterate] at heq
  have hvalue := congrArg (fun counter : Block => beValue counter.toList) heq
  change beValue (increment^[i] nonce).toList = beValue (increment^[j] nonce).toList at hvalue
  rw [beValue_iterate_increment, beValue_iterate_increment] at hvalue
  change (_ + i) % 2 ^ 128 = (_ + j) % 2 ^ 128 at hvalue
  omega

/-- Values that differ above their lower 32 bits do not meet within `2 ^ 32` steps,
modulo `2 ^ 128`. -/
theorem upper_eq_of_meet {upper upper' lower i i' : ℕ} (hupper : upper < 2 ^ 96)
    (hupper' : upper' < 2 ^ 96) (hi : i < 2 ^ 32) (hi' : i' < 2 ^ 32)
    (h : (2 ^ 32 * upper + lower + i) % 2 ^ 128 = (2 ^ 32 * upper' + lower + i') % 2 ^ 128) :
    upper = upper' := by
  omega

/-- **No keystream block is used twice.** A packet is encrypted under its counter blocks. Under
one extra nonce, packets that differ in identifier or sender encrypt disjoint sets of counter
blocks, and no packet encrypts one twice, for bodies of up to `2 ^ 32` blocks. -/
theorem counterBlocks_never_reused (extraNonce : UInt32) {data data' : List UInt8}
    (hdata : (chunks blockSize data).length ≤ 2 ^ 32)
    (hdata' : (chunks blockSize data').length ≤ 2 ^ 32) (id id' fromNode fromNode' : UInt32) :
    (∀ key, ctrApply key (nonce id fromNode extraNonce) data =
        xorInto data ((counterBlocks (nonce id fromNode extraNonce) data).flatMap fun counter =>
          ((Aes128.new key).encryptBlock counter).toList)) ∧
      (counterBlocks (nonce id fromNode extraNonce) data).Nodup ∧
      ((id, fromNode) ≠ (id', fromNode') →
        List.Disjoint (counterBlocks (nonce id fromNode extraNonce) data)
          (counterBlocks (nonce id' fromNode' extraNonce) data')) := by
  refine ⟨fun key => ctrApply_eq_xorInto key _ data, nodup_counterBlocks _ hdata, ?_⟩
  intro hne counter hmem hmem'
  -- a common block is so many steps from each of the two nonces
  obtain ⟨i, hi, hvalue⟩ := beValue_of_mem_counterBlocks hmem
  obtain ⟨i', hi', hvalue'⟩ := beValue_of_mem_counterBlocks hmem'
  rw [hvalue, beValue_nonce, beValue_nonce] at hvalue'
  have hprefix := upper_eq_of_meet (beValue_noncePrefix_lt id fromNode)
    (beValue_noncePrefix_lt id' fromNode') (hi.trans_le hdata) (hi'.trans_le hdata') hvalue'
  have hlen : (noncePrefix id fromNode).length = (noncePrefix id' fromNode').length := by
    rw [length_noncePrefix, length_noncePrefix]
  obtain ⟨rfl, rfl⟩ := noncePrefix_inj (beValue_inj hlen hprefix)
  exact hne rfl

/-- Two packets of one sender with consecutive identifiers, 40 and 16 bytes long. -/
theorem counterBlocks_never_reused_next :
    ctrApply (Vector.replicate 16 5) (nonce 1 7 0) (List.replicate 40 0) =
        xorInto (List.replicate 40 0) ((counterBlocks (nonce 1 7 0) (List.replicate 40 0)).flatMap
          fun counter => ((Aes128.new (Vector.replicate 16 5)).encryptBlock counter).toList) ∧
      (counterBlocks (nonce 1 7 0) (List.replicate 40 0)).Nodup ∧
      List.Disjoint (counterBlocks (nonce 1 7 0) (List.replicate 40 0))
        (counterBlocks (nonce 2 7 0) (List.replicate 16 0)) := by
  have hlong : (chunks blockSize (List.replicate 40 (0 : UInt8))).length ≤ 2 ^ 32 := by
    rw [length_chunks]
    decide
  have hshort : (chunks blockSize (List.replicate 16 (0 : UInt8))).length ≤ 2 ^ 32 := by
    rw [length_chunks]
    decide
  obtain ⟨hxor, hnodup, hdisjoint⟩ := counterBlocks_never_reused 0 hlong hshort 1 2 7 7
  exact ⟨hxor _, hnodup, hdisjoint (by decide)⟩

end TetherMesh.Protocol
