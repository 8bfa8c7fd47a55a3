import TetherMesh.Math.Bytes
import TetherMesh.Math.MachineInt

/-!
# Streaming SHA-256

The hash behind the key derivations. Input is absorbed in any number of pieces
through a 64-byte buffer that is never left full.

## Main definitions

* `Sha256` — chaining value, buffer and length; the buffer has room by construction
* `Sha256.compress`, `Sha256.update`, `Sha256.finalize`, `sha256`

## Main results

* `Sha256.buflen_update_singleton` — a padding byte advances the buffer by one, which is
  why the padding loop ends
-/

namespace TetherMesh.Protocol

open Math

/-- `DIGEST_LEN`. -/
abbrev digestLen : ℕ := 32

namespace Sha256

/-- The block size of the hash. -/
abbrev block : ℕ := 64

/-- `K`. -/
def k : Vector UInt32 64 := #v[
    0x428a2f98, 0x71374491, 0xb5c0fbcf, 0xe9b5dba5, 0x3956c25b, 0x59f111f1, 0x923f82a4, 0xab1c5ed5,
    0xd807aa98, 0x12835b01, 0x243185be, 0x550c7dc3, 0x72be5d74, 0x80deb1fe, 0x9bdc06a7, 0xc19bf174,
    0xe49b69c1, 0xefbe4786, 0x0fc19dc6, 0x240ca1cc, 0x2de92c6f, 0x4a7484aa, 0x5cb0a9dc, 0x76f988da,
    0x983e5152, 0xa831c66d, 0xb00327c8, 0xbf597fc7, 0xc6e00bf3, 0xd5a79147, 0x06ca6351, 0x14292967,
    0x27b70a85, 0x2e1b2138, 0x4d2c6dfc, 0x53380d13, 0x650a7354, 0x766a0abb, 0x81c2c92e, 0x92722c85,
    0xa2bfe8a1, 0xa81a664b, 0xc24b8b70, 0xc76c51a3, 0xd192e819, 0xd6990624, 0xf40e3585, 0x106aa070,
    0x19a4c116, 0x1e376c08, 0x2748774c, 0x34b0bcb5, 0x391c0cb3, 0x4ed8aa4a, 0x5b9cca4f, 0x682e6ff3,
    0x748f82ee, 0x78a5636f, 0x84c87814, 0x8cc70208, 0x90befffa, 0xa4506ceb, 0xbef9a3f7, 0xc67178f2]

/-- `H0`. -/
def h0 : Vector UInt32 8 := #v[
    0x6a09e667, 0xbb67ae85, 0x3c6ef372, 0xa54ff53a,
    0x510e527f, 0x9b05688c, 0x1f83d9ab, 0x5be0cd19]

/-- Word `i`, or zero past the end. -/
def w32 {n : ℕ} (a : Vector UInt32 n) (i : ℕ) : UInt32 := a[i]?.getD 0

/-- Replace word `i`, if there is one. -/
def set32 {n : ℕ} (a : Vector UInt32 n) (i : ℕ) (v : UInt32) : Vector UInt32 n :=
  a.setIfInBounds i v

/-- Byte `i` of a slice, or zero past the end. -/
def b8 (a : List UInt8) (i : ℕ) : UInt8 := a.getD i 0

end Sha256

/-- A streaming SHA-256 state. Between calls the buffer is never full. -/
structure Sha256 where
  h : Vector UInt32 8
  buf : Vector UInt8 Sha256.block
  buflen : ℕ
  total : UInt64
  buflen_lt : buflen < Sha256.block
  deriving DecidableEq

namespace Sha256

/-- A fresh hash state. -/
def new : Sha256 := ⟨h0, Vector.replicate block 0, 0, 0, Nat.succ_pos 63⟩

/-- The message schedule of a block. -/
def schedule (blk : List UInt8) : Vector UInt32 64 :=
  let w : Vector UInt32 64 := (List.range 16).foldl
    (fun w i =>
      let j := i * 4
      set32 w i ((b8 blk j).toUInt32 <<< 24 ||| (b8 blk (j + 1)).toUInt32 <<< 16 |||
        (b8 blk (j + 2)).toUInt32 <<< 8 ||| (b8 blk (j + 3)).toUInt32))
    (Vector.replicate 64 0)
  (List.range' 16 48).foldl
    (fun w i =>
      let w15 := w32 w (i - 15)
      let w2 := w32 w (i - 2)
      let s0 := w15.rotateRight 7 ^^^ w15.rotateRight 18 ^^^ w15 >>> 3
      let s1 := w2.rotateRight 17 ^^^ w2.rotateRight 19 ^^^ w2 >>> 10
      set32 w i (w32 w (i - 16) + s0 + w32 w (i - 7) + s1)) w

/-- The eight working variables. -/
structure Working where
  a : UInt32
  b : UInt32
  c : UInt32
  d : UInt32
  e : UInt32
  f : UInt32
  g : UInt32
  hh : UInt32
  deriving DecidableEq, Repr

/-- One round of the compression. -/
def round (w : Vector UInt32 64) (v : Working) (i : ℕ) : Working :=
  let s1 := v.e.rotateRight 6 ^^^ v.e.rotateRight 11 ^^^ v.e.rotateRight 25
  let ch := (v.e &&& v.f) ^^^ (~~~v.e &&& v.g)
  let t1 := v.hh + s1 + ch + w32 k i + w32 w i
  let s0 := v.a.rotateRight 2 ^^^ v.a.rotateRight 13 ^^^ v.a.rotateRight 22
  let maj := (v.a &&& v.b) ^^^ (v.a &&& v.c) ^^^ (v.b &&& v.c)
  let t2 := s0 + maj
  ⟨t1 + t2, v.a, v.b, v.c, v.d + t1, v.e, v.f, v.g⟩

/-- Compress one block into the chaining value. -/
def compress (s : Sha256) (blk : List UInt8) : Sha256 :=
  let w := schedule blk
  let v : Working := ⟨w32 s.h 0, w32 s.h 1, w32 s.h 2, w32 s.h 3, w32 s.h 4, w32 s.h 5, w32 s.h 6,
    w32 s.h 7⟩
  let v := (List.range 64).foldl (round w) v
  { s with h := #v[w32 s.h 0 + v.a, w32 s.h 1 + v.b, w32 s.h 2 + v.c, w32 s.h 3 + v.d,
      w32 s.h 4 + v.e, w32 s.h 5 + v.f, w32 s.h 6 + v.g, w32 s.h 7 + v.hh] }

/-- How much of the input goes into the buffer: all of it, or the space that is left. -/
def taken (buflen len : ℕ) : ℕ :=
  let space := block - buflen
  if len < space then len else space

theorem taken_eq (buflen len : ℕ) : taken buflen len = min len (block - buflen) := by
  simp only [taken]
  split_ifs <;> omega

/-- The loop of `update`: full blocks straight from the input while the buffer is
empty, and through the buffer otherwise. -/
def absorb (s : Sha256) (data : List UInt8) : Sha256 :=
  if hdata : data = [] then s
  else if s.buflen = 0 ∧ block ≤ data.length then
    absorb (s.compress (data.take block)) (data.drop block)
  else
    let take := taken s.buflen data.length
    let buf := updateBytes s.buflen take (fun i _ => data.getD i 0) s.buf
    if hfull : s.buflen + take = block then
      absorb { s.compress buf.toList with buf := buf, buflen := 0, buflen_lt := Nat.succ_pos 63 }
        (data.drop take)
    else
      have hroom : s.buflen + take < block := by
        have := s.buflen_lt
        have := taken_eq s.buflen data.length
        omega
      absorb { s with buf := buf, buflen := s.buflen + take, buflen_lt := hroom } (data.drop take)
termination_by data.length
decreasing_by
  all_goals
    have hpos := List.length_pos_iff.mpr hdata
    have := s.buflen_lt
    have := taken_eq s.buflen data.length
    rw [List.length_drop]
    omega

/-- Absorb more input. -/
def update (s : Sha256) (data : List UInt8) : Sha256 :=
  -- the length wraps
  absorb { s with total := s.total + UInt64.ofNat data.length } data

theorem absorb_nil (s : Sha256) : s.absorb [] = s := by
  rw [absorb, dif_pos rfl]

/-- One byte advances the buffer by one, and empties it when it fills. -/
theorem buflen_update_singleton (s : Sha256) (b : UInt8) :
    (s.update [b]).buflen = (s.buflen + 1) % block := by
  have hlt := s.buflen_lt
  have htake : taken s.buflen [b].length = 1 := by
    rw [taken_eq, List.length_singleton]
    omega
  have hshort : ¬ (s.buflen = 0 ∧ block ≤ [b].length) :=
    fun h => absurd h.2 (Nat.not_le.mpr (by decide : 1 < block))
  rw [update, absorb, dif_neg (List.cons_ne_nil b []), if_neg hshort]
  simp only [htake, List.drop_succ_cons, List.drop_zero, absorb_nil]
  split_ifs with hfull
  · rw [hfull, Nat.mod_self]
  · have hroom : s.buflen + 1 < block := by omega
    exact (Nat.mod_eq_of_lt hroom).symm

/-- The padding loop: zeros until eight bytes of the buffer are left. The length
field does not count them. -/
def padZeros (s : Sha256) : Sha256 :=
  if s.buflen ≠ 56 then
    let padded := s.update [0x00]
    padZeros { padded with total := padded.total - 1 }
  else s
termination_by (120 - s.buflen) % 64
decreasing_by
  have hlt : s.buflen < 64 := s.buflen_lt
  have hstep : (s.update [0x00]).buflen = (s.buflen + 1) % 64 := buflen_update_singleton s 0x00
  rename_i hne
  -- 120 ≡ 56 modulo the block size, so this counts the bytes up to 56
  change (120 - (s.update [0x00]).buflen) % 64 < (120 - s.buflen) % 64
  omega

/-- Finish and produce the digest. -/
def finalize (s : Sha256) : Vector UInt8 digestLen :=
  let bits := s.total * 8
  let s := s.update [0x80]
  -- neither the marker nor the zeros count towards the length
  let s := padZeros { s with total := s.total - 1 }
  let s := s.update bits.toBeBytes.toList
  Vector.ofFn fun i => byteAt (w32 s.h (i.val / 4)).toBeBytes (i.val % 4)

end Sha256

/-- One-shot hash. -/
def sha256 (data : List UInt8) : Vector UInt8 digestLen := (Sha256.new.update data).finalize

end TetherMesh.Protocol
