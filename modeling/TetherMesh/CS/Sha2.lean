import Mathlib.Data.Nat.NthRoot.Defs
import TetherMesh.Math.Chunks
import TetherMesh.Math.Radix
import TetherMesh.Math.Recurrence

/-!
# The SHA-256 hash of FIPS 180-4

For messages that are whole bytes. The message is padded to whole blocks of sixteen words,
and the hash value is folded through them.

## Main definitions

* `initialHash`, `roundConstants` — the constants, from the roots of the first primes
* `schedule`, `round`, `compress` — the computation on a block
* `padded`, `sha256`

## Main results

* `wordAt_schedule` — the message schedule word by word
* `dvd_length_padded` — the padding fills whole blocks
-/

namespace TetherMesh.CS.Sha2

open Math

abbrev Word := UInt32

/-! ## Functions and constants -/

/-- `ROTR`. -/
def rotr (n x : Word) : Word := x >>> n ||| x <<< (32 - n)

/-- `Ch`. -/
def ch (x y z : Word) : Word := (x &&& y) ^^^ (~~~x &&& z)

/-- `Maj`. -/
def maj (x y z : Word) : Word := (x &&& y) ^^^ (x &&& z) ^^^ (y &&& z)

/-- `Σ₀`. -/
def bigSigma0 (x : Word) : Word := rotr 2 x ^^^ rotr 13 x ^^^ rotr 22 x

/-- `Σ₁`. -/
def bigSigma1 (x : Word) : Word := rotr 6 x ^^^ rotr 11 x ^^^ rotr 25 x

/-- `σ₀`. -/
def smallSigma0 (x : Word) : Word := rotr 7 x ^^^ rotr 18 x ^^^ x >>> 3

/-- `σ₁`. -/
def smallSigma1 (x : Word) : Word := rotr 17 x ^^^ rotr 19 x ^^^ x >>> 10

/-- The first sixty-four primes. -/
def primes : List ℕ :=
  (List.range 312).filter fun p => 2 ≤ p && (List.range p).all fun d => d < 2 || p % d ≠ 0

/-- The first thirty-two bits of the fractional part of the `k`-th root. -/
def rootFraction (k p : ℕ) : Word := UInt32.ofNat (Nat.nthRoot k (p * 2 ^ (32 * k)) % 2 ^ 32)

/-- `K`: from the cube roots of the first sixty-four primes. -/
def roundConstants : List Word := primes.map (rootFraction 3)

/-- `H⁽⁰⁾`: from the square roots of the first eight. -/
def initialHash : List Word := (primes.take 8).map (rootFraction 2)

/-! ## The computation on a block -/

/-- Word `i`. -/
def wordAt (w : List Word) (i : ℕ) : Word := w.getD i 0

/-- The word of the schedule after those so far. -/
def nextWord (w : List Word) : Word :=
  let t := w.length
  smallSigma1 (wordAt w (t - 2)) + wordAt w (t - 7) + smallSigma0 (wordAt w (t - 15)) +
    wordAt w (t - 16)

/-- The message schedule of the sixteen words of a block. -/
def schedule (m : List Word) : List Word := grow nextWord m 48

/-- The working variables. -/
structure Working where
  a : Word
  b : Word
  c : Word
  d : Word
  e : Word
  f : Word
  g : Word
  h : Word

/-- The working variables of a hash value. -/
def Working.ofHash (v : List Word) : Working :=
  ⟨wordAt v 0, wordAt v 1, wordAt v 2, wordAt v 3, wordAt v 4, wordAt v 5, wordAt v 6, wordAt v 7⟩

def Working.toList (v : Working) : List Word := [v.a, v.b, v.c, v.d, v.e, v.f, v.g, v.h]

/-- Step `t` on the working variables. -/
def round (w : List Word) (v : Working) (t : ℕ) : Working :=
  let t1 := v.h + bigSigma1 v.e + ch v.e v.f v.g + wordAt roundConstants t + wordAt w t
  let t2 := bigSigma0 v.a + maj v.a v.b v.c
  ⟨t1 + t2, v.a, v.b, v.c, v.d + t1, v.e, v.f, v.g⟩

/-- The hash value after a block. -/
def compress (v : List Word) (m : List Word) : List Word :=
  let w := schedule m
  (((List.range 64).foldl (round w) (.ofHash v)).toList).zipWith (· + ·) v

/-! ## Messages -/

/-- The bytes in a block. -/
abbrev blockSize : ℕ := 64

/-- The zeros of the padding: the fewest that leave room for the length and no more. -/
def zeros (len : ℕ) : ℕ := (119 - len % 64) % 64

/-- A one bit, zeros, and the length in bits as sixty-four bits. -/
def padded (message : List UInt8) : List UInt8 :=
  message ++ 0x80 :: (List.replicate (zeros message.length) 0 ++
    (beBytes 8 (8 * message.length)).toList)

/-- The words of a block. -/
def words (blk : List UInt8) : List Word :=
  (chunks 4 blk).map fun bytes => UInt32.ofNat (beValue bytes)

/-- SHA-256. -/
def sha256 (message : List UInt8) : List UInt8 :=
  ((chunks blockSize (padded message)).foldl (fun v blk => compress v (words blk))
    initialHash).flatMap fun w => (beBytes 4 w.toNat).toList

/-- The standard's own example. -/
example : sha256 [97, 98, 99] = [0xba, 0x78, 0x16, 0xbf, 0x8f, 0x01, 0xcf, 0xea, 0x41, 0x41, 0x40,
    0xde, 0x5d, 0xae, 0x22, 0x23, 0xb0, 0x03, 0x61, 0xa3, 0x96, 0x17, 0x7a, 0x9c, 0xb4, 0x10, 0xff,
    0x61, 0xf2, 0x00, 0x15, 0xad] := by decide +kernel

/-! ## The schedule word by word -/

section Schedule

variable {m : List Word} {i : ℕ}

theorem wordAt_schedule_of_lt (hi : i < m.length) : wordAt (schedule m) i = wordAt m i :=
  getD_grow_of_lt 0 48 hi

/-- **The schedule word by word**, behind the words of the block. -/
theorem wordAt_schedule (hm : m.length = 16) (hle : 16 ≤ i) (hi : i < 64) :
    wordAt (schedule m) i = smallSigma1 (wordAt (schedule m) (i - 2)) +
      wordAt (schedule m) (i - 7) + smallSigma0 (wordAt (schedule m) (i - 15)) +
      wordAt (schedule m) (i - 16) := by
  -- it was computed when the schedule had all words before it
  have hword : wordAt (schedule m) i = nextWord (grow nextWord m (i - m.length)) :=
    getD_grow 0 (hm.trans_le hle) (by omega)
  have hstay (j : ℕ) (hj : j < i) :
      wordAt (schedule m) j = wordAt (grow nextWord m (i - m.length)) j := by
    have hadd : i - m.length + (64 - i) = 48 := by omega
    rw [schedule, ← hadd]
    exact getD_grow_add 0 _ _ (by omega)
  have hlen : (grow nextWord m (i - m.length)).length = i := by
    rw [length_grow, Nat.add_sub_cancel' (hm.trans_le hle)]
  rw [hword, nextWord, hlen, hstay _ (by omega), hstay _ (by omega), hstay _ (by omega),
    hstay _ (by omega)]

end Schedule

/-! ## Padding -/

/-- The padded message is whole blocks. -/
theorem dvd_length_padded (message : List UInt8) : blockSize ∣ (padded message).length := by
  change 64 ∣ (padded message).length
  rw [padded, List.length_append, List.length_cons, List.length_append, List.length_replicate,
    Vector.length_toList, zeros]
  omega

end TetherMesh.CS.Sha2
