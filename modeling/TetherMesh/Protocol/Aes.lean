import TetherMesh.Math.Bytes

/-!
# The forward AES ciphers

AES-128 and AES-256, the encryption direction only: counter mode and CCM never
invoke the inverse cipher. A block is sixteen bytes, column after column; every
access goes through the total accessors `byteAt` and `setByte`.

## Main definitions

* `Aes128`, `Aes128.new`, `Aes128.encryptBlock`
* `Aes256`, `Aes256.new`, `Aes256.encryptBlock`
-/

namespace TetherMesh.Protocol

open Math

/-- `BLOCK`: the AES block size. -/
abbrev blockSize : ℕ := 16

/-- Sixteen bytes: a cipher block, a counter, an AES-128 key. -/
abbrev Block := Vector UInt8 blockSize

/-- A block of zeros. -/
def zeroBlock : Block := Vector.replicate blockSize 0

set_option maxRecDepth 2000 in
/-- `SBOX`. -/
def sboxTable : Vector UInt8 256 := #v[
    0x63, 0x7c, 0x77, 0x7b, 0xf2, 0x6b, 0x6f, 0xc5, 0x30, 0x01, 0x67, 0x2b, 0xfe, 0xd7, 0xab, 0x76,
    0xca, 0x82, 0xc9, 0x7d, 0xfa, 0x59, 0x47, 0xf0, 0xad, 0xd4, 0xa2, 0xaf, 0x9c, 0xa4, 0x72, 0xc0,
    0xb7, 0xfd, 0x93, 0x26, 0x36, 0x3f, 0xf7, 0xcc, 0x34, 0xa5, 0xe5, 0xf1, 0x71, 0xd8, 0x31, 0x15,
    0x04, 0xc7, 0x23, 0xc3, 0x18, 0x96, 0x05, 0x9a, 0x07, 0x12, 0x80, 0xe2, 0xeb, 0x27, 0xb2, 0x75,
    0x09, 0x83, 0x2c, 0x1a, 0x1b, 0x6e, 0x5a, 0xa0, 0x52, 0x3b, 0xd6, 0xb3, 0x29, 0xe3, 0x2f, 0x84,
    0x53, 0xd1, 0x00, 0xed, 0x20, 0xfc, 0xb1, 0x5b, 0x6a, 0xcb, 0xbe, 0x39, 0x4a, 0x4c, 0x58, 0xcf,
    0xd0, 0xef, 0xaa, 0xfb, 0x43, 0x4d, 0x33, 0x85, 0x45, 0xf9, 0x02, 0x7f, 0x50, 0x3c, 0x9f, 0xa8,
    0x51, 0xa3, 0x40, 0x8f, 0x92, 0x9d, 0x38, 0xf5, 0xbc, 0xb6, 0xda, 0x21, 0x10, 0xff, 0xf3, 0xd2,
    0xcd, 0x0c, 0x13, 0xec, 0x5f, 0x97, 0x44, 0x17, 0xc4, 0xa7, 0x7e, 0x3d, 0x64, 0x5d, 0x19, 0x73,
    0x60, 0x81, 0x4f, 0xdc, 0x22, 0x2a, 0x90, 0x88, 0x46, 0xee, 0xb8, 0x14, 0xde, 0x5e, 0x0b, 0xdb,
    0xe0, 0x32, 0x3a, 0x0a, 0x49, 0x06, 0x24, 0x5c, 0xc2, 0xd3, 0xac, 0x62, 0x91, 0x95, 0xe4, 0x79,
    0xe7, 0xc8, 0x37, 0x6d, 0x8d, 0xd5, 0x4e, 0xa9, 0x6c, 0x56, 0xf4, 0xea, 0x65, 0x7a, 0xae, 0x08,
    0xba, 0x78, 0x25, 0x2e, 0x1c, 0xa6, 0xb4, 0xc6, 0xe8, 0xdd, 0x74, 0x1f, 0x4b, 0xbd, 0x8b, 0x8a,
    0x70, 0x3e, 0xb5, 0x66, 0x48, 0x03, 0xf6, 0x0e, 0x61, 0x35, 0x57, 0xb9, 0x86, 0xc1, 0x1d, 0x9e,
    0xe1, 0xf8, 0x98, 0x11, 0x69, 0xd9, 0x8e, 0x94, 0x9b, 0x1e, 0x87, 0xe9, 0xce, 0x55, 0x28, 0xdf,
    0x8c, 0xa1, 0x89, 0x0d, 0xbf, 0xe6, 0x42, 0x68, 0x41, 0x99, 0x2d, 0x0f, 0xb0, 0x54, 0xbb, 0x16]

/-- S-box lookup. -/
def sbox (b : UInt8) : UInt8 := byteAt sboxTable b.toNat

/-- Multiply by `x` in the field of the AES polynomial. -/
def xtime (b : UInt8) : UInt8 :=
  let shifted := b <<< 1
  if b &&& 0x80 ≠ 0 then shifted ^^^ 0x1B else shifted

/-- The index of a byte of the state, column-major. -/
def idx (col row : ℕ) : ℕ := col * 4 + row

/-- Bytewise XOR of two blocks. -/
def xorBlock (a b : Block) : Block := Vector.ofFn fun i => a[i] ^^^ b[i]

theorem byteAt_xorBlock (a b : Block) {i : ℕ} (hi : i < blockSize) :
    byteAt (xorBlock a b) i = byteAt a i ^^^ byteAt b i := by
  rw [byteAt_of_lt _ hi, byteAt_of_lt _ hi, byteAt_of_lt _ hi, xorBlock, Vector.getElem_ofFn]
  rfl

/-! ## AES-128 -/

/-- An expanded AES-128 key schedule. -/
structure Aes128 where
  roundKeys : Vector Block 11
  deriving DecidableEq

namespace Aes128

/-- One round of the key expansion: the round keys so far, and the round constant. -/
def expandRound : Vector Block 11 × UInt8 → ℕ → Vector Block 11 × UInt8
  | (rk, rcon), r =>
    let prev := rk[r - 1]?.getD zeroBlock
    -- RotWord and SubWord, then the round constant into byte 0
    let t : Vector UInt8 4 := #v[sbox (byteAt prev 13), sbox (byteAt prev 14),
      sbox (byteAt prev 15), sbox (byteAt prev 12)]
    let t := setByte t 0 (byteAt t 0 ^^^ rcon)
    let cur := (List.range 4).foldl
      (fun cur j => setByte cur j (byteAt prev j ^^^ byteAt t j)) zeroBlock
    let cur := (List.range' 1 3).foldl
      (fun cur col => (List.range 4).foldl
        (fun cur j =>
          let i := idx col j
          setByte cur i (byteAt prev i ^^^ byteAt cur (i - 4))) cur) cur
    (rk.setIfInBounds r cur, xtime rcon)

/-- Expand a 128-bit key. -/
def new (key : Block) : Aes128 :=
  let rk := (Vector.replicate 11 zeroBlock).setIfInBounds 0 key
  ⟨((List.range' 1 10).foldl expandRound (rk, 1)).1⟩

/-- XOR a round key into the state. -/
def addRoundKey (state rk : Block) : Block := xorBlock state rk

def subBytes (state : Block) : Block := Vector.ofFn fun i => sbox state[i]

/-- Row `r` is rotated left by `r`. -/
def shiftRows (src : Block) : Block :=
  (List.range 4).foldl
    (fun state c => (List.range 4).foldl
      (fun state r => setByte state (idx c r) (byteAt src (idx ((c + r) % 4) r))) state) src

/-- Mix one column. -/
def mixColumn (state : Block) (c : ℕ) : Block :=
  let a0 := byteAt state (idx c 0)
  let a1 := byteAt state (idx c 1)
  let a2 := byteAt state (idx c 2)
  let a3 := byteAt state (idx c 3)
  let t := a0 ^^^ a1 ^^^ a2 ^^^ a3
  let state := setByte state (idx c 0) (a0 ^^^ t ^^^ xtime (a0 ^^^ a1))
  let state := setByte state (idx c 1) (a1 ^^^ t ^^^ xtime (a1 ^^^ a2))
  let state := setByte state (idx c 2) (a2 ^^^ t ^^^ xtime (a2 ^^^ a3))
  setByte state (idx c 3) (a3 ^^^ t ^^^ xtime (a3 ^^^ a0))

def mixColumns (state : Block) : Block := (List.range 4).foldl mixColumn state

/-- Encrypt one block. -/
def encryptBlock (aes : Aes128) (block : Block) : Block :=
  let rk (i : ℕ) : Block := aes.roundKeys[i]?.getD zeroBlock
  let block := addRoundKey block (rk 0)
  let block := (List.range' 1 9).foldl
    (fun block round => addRoundKey (mixColumns (shiftRows (subBytes block))) (rk round)) block
  -- the last round mixes no columns
  addRoundKey (shiftRows (subBytes block)) (rk 10)

end Aes128

/-! ## AES-256 -/

/-- An expanded AES-256 key schedule. -/
structure Aes256 where
  roundKeys : Vector Block 15
  deriving DecidableEq

namespace Aes256

/-- One word of the key expansion: the bytes so far, and the round constant. Every
eighth word is rotated, substituted and given the round constant, and every word half
way between two of those is substituted. -/
def expandWord : Vector UInt8 240 × UInt8 → ℕ → Vector UInt8 240 × UInt8
  | (w, rcon), i =>
    let p := (i - 1) * 4
    let t : Vector UInt8 4 := #v[byteAt w p, byteAt w (p + 1), byteAt w (p + 2), byteAt w (p + 3)]
    let (t, rcon) :=
      if i % 8 = 0 then
        ((#v[sbox (byteAt t 1) ^^^ rcon, sbox (byteAt t 2), sbox (byteAt t 3), sbox (byteAt t 0)] :
          Vector UInt8 4), xtime rcon)
      else if i % 8 = 4 then
        (#v[sbox (byteAt t 0), sbox (byteAt t 1), sbox (byteAt t 2), sbox (byteAt t 3)], rcon)
      else (t, rcon)
    let q := (i - 8) * 4
    let d := i * 4
    ((List.range 4).foldl
      (fun w j => setByte w (d + j) (byteAt w (q + j) ^^^ byteAt t j)) w, rcon)

/-- Expand a 256-bit key: sixty words, cut into fifteen round keys. -/
def new (key : Vector UInt8 32) : Aes256 :=
  let w : Vector UInt8 240 := (List.range 32).foldl (fun w i => setByte w i (byteAt key i))
    (Vector.replicate 240 0)
  let w := ((List.range' 8 52).foldl expandWord (w, 1)).1
  ⟨Vector.ofFn fun r => Vector.ofFn fun j => byteAt w (r * blockSize + j)⟩

/-- Encrypt one block. -/
def encryptBlock (aes : Aes256) (block : Block) : Block :=
  let rk (i : ℕ) : Block := aes.roundKeys[i]?.getD zeroBlock
  let block := Aes128.addRoundKey block (rk 0)
  let block := (List.range' 1 13).foldl
    (fun block round => Aes128.addRoundKey
      (Aes128.mixColumns (Aes128.shiftRows (Aes128.subBytes block))) (rk round)) block
  -- the last round mixes no columns
  Aes128.addRoundKey (Aes128.shiftRows (Aes128.subBytes block)) (rk 14)

end Aes256

end TetherMesh.Protocol
