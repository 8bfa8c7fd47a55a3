import TetherMesh.CS.CounterCbcMac
import TetherMesh.Protocol.CcmFormat

/-!
# The CCM implementation is RFC 3610 with `L = 2`

The code writes its first block and its counter blocks byte by byte into zeroed arrays,
feeds the additional data through a block that it fills a byte at a time, and keeps the
counter in sixteen bits. All of it is what RFC 3610 defines over AES-256 for a nonce of
thirteen octets and two octets of length.

## Main results

* `ccmBlocks_eq` — the first block and the counter block zero
* `cbcMac_eq_standard` — the MAC over the authenticated blocks
* `ctrXor_eq_standard` — the encrypted message
* `ccmEncrypt_eq_standard`
-/

namespace TetherMesh.Protocol

open Math CS

/-- The tag lengths RFC 3610 allows. -/
def standardTagLens : List ℕ := [4, 6, 8, 10, 12, 14, 16]

theorem le_blockSize_of_mem {tagLen : ℕ} (h : tagLen ∈ standardTagLens) : tagLen ≤ blockSize := by
  have hall : ∀ t ∈ standardTagLens, t ≤ 16 := by decide
  exact hall tagLen h

theorem xorBlock_eq_addBlock (x y : Block) : xorBlock x y = CounterCbcMac.addBlock x y := by
  apply Vector.ext
  intro i hi
  rw [xorBlock, Vector.getElem_ofFn, CounterCbcMac.addBlock, Vector.getElem_zipWith]
  rfl

/-! ## Two octets, most significant first -/

theorem bigEndian_two (v : ℕ) :
    CounterCbcMac.bigEndian 2 v = [UInt8.ofNat (v / 256), UInt8.ofNat v] := by
  simp [CounterCbcMac.bigEndian, List.range_succ]

theorem ofNat_and_byte (v : ℕ) : UInt8.ofNat (v &&& 0xFF) = UInt8.ofNat v := by
  apply UInt8.toNat_inj.mp
  rw [UInt8.toNat_ofNat', UInt8.toNat_ofNat', Nat.and_two_pow_sub_one_eq_mod v 8, Nat.mod_mod]

theorem ofNat_high_byte (v : ℕ) : UInt8.ofNat (v >>> 8 &&& 0xFF) = UInt8.ofNat (v / 256) := by
  rw [ofNat_and_byte, Nat.shiftRight_eq_div_pow]

/-- A length as the code writes it. -/
theorem lengthBytes_eq (v : ℕ) :
    [UInt8.ofNat (v >>> 8 &&& 0xFF), UInt8.ofNat (v &&& 0xFF)] = CounterCbcMac.bigEndian 2 v := by
  rw [ofNat_high_byte, ofNat_and_byte, bigEndian_two]

/-- A counter of sixteen bits as the code writes it. -/
theorem counterBytes_eq {i : ℕ} (hi : i < 2 ^ 16) :
    [(UInt16.ofNat i >>> 8 &&& 0xFF).toUInt8, (UInt16.ofNat i &&& 0xFF).toUInt8] =
      CounterCbcMac.bigEndian 2 i := by
  have hcounter : (UInt16.ofNat i).toNat = i := UInt16.toNat_ofNat_of_lt' hi
  have hlow : (UInt16.ofNat i &&& 0xFF).toUInt8 = UInt8.ofNat i := by
    apply UInt8.toNat_inj.mp
    rw [UInt16.toNat_toUInt8, UInt16.toNat_and, hcounter, UInt8.toNat_ofNat']
    change (i &&& 0xFF) % 2 ^ 8 = i % 2 ^ 8
    rw [Nat.and_two_pow_sub_one_eq_mod i 8, Nat.mod_mod]
  have hhigh : (UInt16.ofNat i >>> 8 &&& 0xFF).toUInt8 = UInt8.ofNat (i / 256) := by
    apply UInt8.toNat_inj.mp
    rw [UInt16.toNat_toUInt8, UInt16.toNat_and, UInt16.toNat_shiftRight, hcounter,
      UInt8.toNat_ofNat']
    change (i >>> 8 &&& 0xFF) % 2 ^ 8 = i / 256 % 2 ^ 8
    rw [Nat.and_two_pow_sub_one_eq_mod _ 8, Nat.mod_mod, Nat.shiftRight_eq_div_pow]
  rw [hhigh, hlow, bigEndian_two]

/-! ## The first block and the counter blocks -/

variable {nonce aad p : List UInt8} {tagLen : ℕ}

theorem flags_eq (hasAad : Bool) (h : tagLen ∈ standardTagLens) :
    (if hasAad then 0x40 else 0x00 : UInt8) ||| (UInt8.ofNat ((tagLen - 2) / 2) <<< 3) |||
      (UInt8.ofNat 2).saturatingSub 1 = CounterCbcMac.flags tagLen 2 hasAad := by
  have hall : ∀ t ∈ standardTagLens, ∀ hasAad : Bool,
      (if hasAad then 0x40 else 0x00 : UInt8) ||| (UInt8.ofNat ((t - 2) / 2) <<< 3) |||
        (UInt8.ofNat 2).saturatingSub 1 = CounterCbcMac.flags t 2 hasAad := by decide
  exact hall tagLen h hasAad

/-- A zeroed block with a first byte and the nonce. -/
theorem pad_head (first : UInt8) (nonce : List UInt8) :
    updateBytes 1 nonce.length (fun i _ => nonce.getD i 0) (setByte zeroBlock 0 first) =
      pad blockSize (first :: nonce) := by
  rw [zeroBlock, ← pad_nil]
  exact (congrArg _ (setByte_pad [] first)).trans (updateBytes_pad [first] nonce)

/-- Two bytes behind a nonce of thirteen. -/
theorem setByte_pad_nonce (hnonce : nonce.length = ccmNonceLen) (first high low : UInt8) :
    setByte (setByte (pad blockSize (first :: nonce)) 14 high) 15 low =
      pad blockSize (first :: (nonce ++ [high, low])) := by
  have hlen : (first :: nonce).length = 14 := by rw [List.length_cons, hnonce]
  have hlen' : (first :: nonce ++ [high]).length = 15 := by
    rw [List.length_append, hlen, List.length_singleton]
  have hhigh := setByte_pad (n := blockSize) (first :: nonce) high
  have hlow := setByte_pad (n := blockSize) (first :: nonce ++ [high]) low
  rw [hlen] at hhigh
  rw [hlen'] at hlow
  rw [hhigh, hlow, List.append_assoc]
  rfl

/-- **The first block**, and the counter block zero without its counter. -/
theorem ccmBlocks_eq (hnonce : nonce.length = ccmNonceLen) (htag : tagLen ∈ standardTagLens)
    (aad p : List UInt8) :
    ccmBlocks nonce p.length tagLen (!aad.isEmpty) =
      .ok (pad blockSize (CounterCbcMac.firstBlock tagLen 2 nonce aad p),
        pad blockSize (1 :: nonce)) := by
  rw [ccmBlocks, if_neg (not_not.mpr hnonce)]
  dsimp only
  rw [flags_eq _ htag, pad_head, pad_head, setByte_pad_nonce hnonce, lengthBytes_eq,
    CounterCbcMac.firstBlock]
  rfl

theorem counterBlock_eq (nonce : List UInt8) (i : ℕ) :
    CounterCbcMac.counterBlock 2 nonce i =
      pad blockSize (1 :: (nonce ++ CounterCbcMac.bigEndian 2 i)) := rfl

/-- The counter block zero. -/
theorem pad_counter_zero (nonce : List UInt8) :
    pad blockSize (1 :: nonce) = CounterCbcMac.counterBlock 2 nonce 0 := by
  have hzeros : CounterCbcMac.bigEndian 2 0 = List.replicate 2 0 := by decide
  rw [counterBlock_eq, hzeros, ← List.cons_append, pad_append_zeros]

section

variable (aes : Aes256)

/-- The key stream block of a counter. -/
theorem ctrBlock_eq (hnonce : nonce.length = ccmNonceLen) {i : ℕ} (hi : i < 2 ^ 16) :
    ctrBlock aes (pad blockSize (1 :: nonce)) (UInt16.ofNat i) =
      CounterCbcMac.keyBlock 2 nonce aes.encryptBlock i := by
  rw [ctrBlock, setByte_pad_nonce hnonce, counterBytes_eq hi, CounterCbcMac.keyBlock,
    counterBlock_eq]

theorem iterate_counter (i : ℕ) : (fun c : UInt16 => c + 1)^[i] 1 = UInt16.ofNat (i + 1) := by
  induction i with
  | zero => rfl
  | succ i ih =>
    rw [Function.iterate_succ_apply', ih]
    exact (UInt16.ofNat_add (i + 1) 1).symm

/-- **The encrypted message.** -/
theorem ctrXor_eq_standard (hnonce : nonce.length = ccmNonceLen) (hp : p.length < 2 ^ 16) :
    ctrXor aes (pad blockSize (1 :: nonce)) p =
      CounterCbcMac.encrypted 2 nonce aes.encryptBlock p := by
  refine (CounterCbcMac.encrypted_eq_streamXor fun i hi => ?_).symm
  change i < (p.length + 16 - 1) / 16 at hi
  -- the counter does not come round within such a message
  rw [iterate_counter]
  exact ctrBlock_eq aes hnonce (by omega)

/-- The blocks of the additional data. -/
theorem aadBlocks_eq_standard (haad : aad.length < 0xFF00) :
    aadBlocks aad =
      (chunks blockSize (CounterCbcMac.encodedLength aad ++ aad)).map (pad blockSize) := by
  rw [aadBlocks, CounterCbcMac.encodedLength]
  by_cases hempty : aad.isEmpty = true
  · rw [if_pos hempty, if_pos hempty, List.isEmpty_iff.mp hempty, List.nil_append,
      chunks_nil blockSize_pos, List.map_nil]
  · rw [if_neg hempty, if_neg hempty, if_pos (show aad.length < 2 ^ 16 - 2 ^ 8 from haad),
      aadPrefix, lengthBytes_eq]

/-- **The MAC.** -/
theorem cbcMac_eq_standard (hnonce : nonce.length = ccmNonceLen) (haad : aad.length < 0xFF00) :
    cbcMac aes (pad blockSize (CounterCbcMac.firstBlock tagLen 2 nonce aad p)) aad p =
      CounterCbcMac.cbcMac aes.encryptBlock (CounterCbcMac.authInput tagLen 2 nonce aad p) := by
  have hlen : nonce.length + 2 = 15 := by rw [hnonce]
  have hstep : (fun x b => aes.encryptBlock (xorBlock x b)) =
      fun x b => aes.encryptBlock (CounterCbcMac.addBlock x b) := by
    funext x b
    rw [xorBlock_eq_addBlock]
  rw [cbcMac_eq_cbcFold, macBlocks, cbcFold_cons, xorBlock_zeroBlock,
    CounterCbcMac.authInput_eq hlen, CounterCbcMac.cbcMac, aadBlocks_eq_standard haad, textBlocks,
    cbcFold, hstep]

/-- The encrypted authentication value. -/
theorem ccmTag_eq_standard (hnonce : nonce.length = ccmNonceLen) (haad : aad.length < 0xFF00)
    (htag : tagLen ≤ blockSize) :
    ccmTag aes (pad blockSize (CounterCbcMac.firstBlock tagLen 2 nonce aad p))
        (pad blockSize (1 :: nonce)) aad p tagLen =
      CounterCbcMac.authField 2 nonce aes.encryptBlock tagLen aad p := by
  rw [ccmTag, cbcMac_eq_standard aes hnonce haad, pad_counter_zero, CounterCbcMac.authField,
    CounterCbcMac.authValue, CounterCbcMac.keyBlock]
  apply List.ext_getElem
  · simp [Nat.min_eq_left htag]
  · intro i hi hi'
    rw [List.length_map, List.length_range] at hi
    have hlt : i < blockSize := hi.trans_le htag
    simp only [List.getElem_map, List.getElem_range, List.getElem_zipWith, List.getElem_take,
      Vector.getElem_toList, byteAt_of_lt _ hlt]

end

/-- **CCM is RFC 3610 with `L = 2`.** Encryption writes the sealed message of the standard
over AES-256 in place of the plaintext and the room for the tag, reports their length, and
leaves what lies behind as it was. -/
theorem ccmEncrypt_eq_standard (key : Vector UInt8 32) (nonce : Vector UInt8 ccmNonceLen)
    {buf : List UInt8} {msgLen : ℕ} (haad : aad.length < 0xFF00) (hmsg : msgLen < 65536)
    (htag : tagLen ∈ standardTagLens) (hroom : msgLen + tagLen ≤ buf.length) :
    ccmEncryptInPlaceAad key nonce.toList aad buf msgLen tagLen =
      (.ok (msgLen + tagLen),
        CounterCbcMac.ccmSeal (Aes256.new key).encryptBlock tagLen 2 nonce.toList aad
          (buf.take msgLen) ++ buf.drop (msgLen + tagLen)) := by
  have hnonce : nonce.toList.length = ccmNonceLen := Vector.length_toList
  have hplain : (buf.take msgLen).length = msgLen := by
    rw [List.length_take]
    omega
  have hgap : ((buf.drop msgLen).take tagLen).length = tagLen := by
    rw [List.length_take, List.length_drop]
    omega
  have hsplit : buf.take msgLen ++ (buf.drop msgLen).take tagLen ++ buf.drop (msgLen + tagLen) =
      buf := by
    rw [List.append_assoc, ← List.drop_drop, List.take_append_drop, List.take_append_drop]
  have hblocks := ccmBlocks_eq hnonce htag aad (buf.take msgLen)
  have hwrite := ccmEncrypt_eq (buf.drop (msgLen + tagLen)) hgap (ccmSealed_eq key hblocks)
  rwa [hsplit, hplain, ctrXor_eq_standard _ hnonce (hplain.trans_lt hmsg),
    ccmTag_eq_standard _ hnonce haad (le_blockSize_of_mem htag), ← CounterCbcMac.ccmSeal] at hwrite

/-- Two bytes and room for a tag of eight, in a buffer of twelve. -/
theorem ccmEncrypt_eq_standard_two :
    ccmEncryptInPlaceAad (Vector.replicate 32 0) (Vector.replicate ccmNonceLen 0).toList [1]
        (List.replicate 12 0) 2 8 =
      (.ok 10, CounterCbcMac.ccmSeal (Aes256.new (Vector.replicate 32 0)).encryptBlock 8 2
        (Vector.replicate ccmNonceLen 0).toList [1] [0, 0] ++ [0, 0]) :=
  ccmEncrypt_eq_standard (Vector.replicate 32 0) (Vector.replicate ccmNonceLen 0)
    (by decide) (by decide) (by decide) (by decide)

end TetherMesh.Protocol
