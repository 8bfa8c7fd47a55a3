import TetherMesh.Protocol.AesStandard
import TetherMesh.Protocol.Keystream

/-!
# Counter mode against the standard

Byte by byte, counter mode covers the data with AES-128 encryptions of a 128-bit number
that starts at the nonce and counts the blocks.

## Main results

* `iterate_increment` — the counter after so many blocks
* `getElem?_ctrApply`
-/

namespace TetherMesh.Protocol

open Math CS

/-- The counter after `i` blocks, as the number it stands for. -/
theorem iterate_increment (counter : Block) (i : ℕ) :
    increment^[i] counter = beBytes blockSize ((beValue counter.toList + i) % 2 ^ 128) := by
  have hvalue := beValue_iterate_increment counter i
  have hsize : 256 ^ blockSize = 2 ^ 128 := by decide
  rw [hsize] at hvalue
  rw [← hvalue, beBytes_beValue]

theorem getElem?_ctrApply (key nonce : Block) (data : List UInt8) (j : ℕ) :
    (ctrApply key nonce data)[j]? = data[j]?.map (· ^^^
      byteAt (Rijndael.aes128 key
        (beBytes blockSize ((beValue nonce.toList + j / 16) % 2 ^ 128))) (j % 16)) := by
  rw [ctrApply, getElem?_streamXor blockSize_pos, iterate_increment, Aes128.encryptBlock_eq]

/-- **Counter mode is the standard's**, with a counter of 128 bits: byte by byte, so that
twice restores the data and a prefix of the data has a prefix of the output. -/
theorem ctrApply_is_standard (key nonce : Block) (data : List UInt8) :
    (∀ j, (ctrApply key nonce data)[j]? = data[j]?.map (· ^^^
      byteAt (Rijndael.aes128 key
        (beBytes blockSize ((beValue nonce.toList + j / 16) % 2 ^ 128))) (j % 16))) ∧
    ctrApply key nonce (ctrApply key nonce data) = data ∧
    ∀ n, ctrApply key nonce (data.take n) = (ctrApply key nonce data).take n :=
  ⟨getElem?_ctrApply key nonce data, ctrApply_ctrApply key nonce data,
    streamXor_take blockSize_pos nonce data⟩

end TetherMesh.Protocol
