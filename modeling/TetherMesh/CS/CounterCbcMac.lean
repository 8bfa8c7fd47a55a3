import Mathlib.Data.List.Iterate
import TetherMesh.CS.StreamCipher

/-!
# Counter with CBC-MAC

The authenticated mode of RFC 3610 over any block cipher of sixteen octets, in the terms
of that document: `M` octets of authentication field, `L` octets of length field, a nonce
of `15 - L` octets. Everything is a sequence of octets; blocks are what they are cut into.

## Main definitions

* `firstBlock`, `encodedLength`, `authInput` — what is authenticated
* `authValue` — the CBC-MAC over it
* `counterBlock`, `keyBlock`, `encrypted`, `authField` — the key stream and what it covers
* `ccmSeal` — the encrypted message and the encrypted authentication value

## Main results

* `authInput_eq` — the authenticated blocks, part by part
* `encrypted_eq_streamXor` — the encrypted message as a stream under a stepped counter
-/

namespace TetherMesh.CS.CounterCbcMac

open Math

/-- The size of a block. -/
abbrev octets : ℕ := 16

/-- A block. -/
abbrev Octets := Vector UInt8 octets

/-- `v` in `len` octets, the most significant first. -/
def bigEndian (len v : ℕ) : List UInt8 :=
  (List.range len).map fun i => UInt8.ofNat (v / 256 ^ (len - 1 - i))

@[simp] theorem length_bigEndian (len v : ℕ) : (bigEndian len v).length = len := by
  rw [bigEndian, List.length_map, List.length_range]

/-- The sum of two blocks. -/
def addBlock (x y : Octets) : Octets := x.zipWith (· ^^^ ·) y

/-! ## Authentication -/

section Authentication

variable (M L : ℕ) (nonce a m : List UInt8)

/-- The flags of `B_0`: whether there is additional data, `(M - 2) / 2` and `L - 1`. -/
def flags (adata : Bool) : UInt8 := UInt8.ofNat (64 * adata.toNat + 8 * ((M - 2) / 2) + (L - 1))

/-- `B_0`: flags, nonce and message length. -/
def firstBlock : List UInt8 := flags M L (!a.isEmpty) :: (nonce ++ bigEndian L m.length)

/-- The length of the additional data, in front of it. -/
def encodedLength : List UInt8 :=
  if a.isEmpty then []
  else if a.length < 2 ^ 16 - 2 ^ 8 then bigEndian 2 a.length
  else if a.length < 2 ^ 32 then 0xFF :: 0xFE :: bigEndian 4 a.length
  else 0xFF :: 0xFF :: bigEndian 8 a.length

/-- `B_0, B_1, ..., B_n`: additional data and message each filled up with zeros. -/
def authInput : List Octets :=
  (chunks octets (firstBlock M L nonce a m ++ zeroFill octets (encodedLength a ++ a) ++
    zeroFill octets m)).map (pad octets)

variable (E : Octets → Octets)

/-- `X_1 = E(B_0)`, `X_(i+1) = E(X_i + B_i)`. -/
def cbcMac : List Octets → Octets
  | [] => Vector.replicate octets 0
  | b₀ :: blocks => blocks.foldl (fun x b => E (addBlock x b)) (E b₀)

/-- `T`: the first `M` octets of the last block. -/
def authValue : List UInt8 := (cbcMac E (authInput M L nonce a m)).toList.take M

end Authentication

/-! ## Encryption -/

section Encryption

variable (L : ℕ) (nonce : List UInt8)

/-- `A_i`: flags, nonce and counter. -/
def counterBlock (i : ℕ) : Octets :=
  pad octets (UInt8.ofNat (L - 1) :: (nonce ++ bigEndian L i))

variable (E : Octets → Octets)

/-- `S_i`. -/
def keyBlock (i : ℕ) : Octets := E (counterBlock L nonce i)

/-- The message under as many octets of `S_1, S_2, ...` as it is long. -/
def encrypted (m : List UInt8) : List UInt8 :=
  m.zipWith (· ^^^ ·)
    ((List.range ((m.length + octets - 1) / octets)).flatMap fun i =>
      (keyBlock L nonce E (i + 1)).toList)

/-- `U`: the authentication value under the first octets of `S_0`. -/
def authField (M : ℕ) (a m : List UInt8) : List UInt8 :=
  (authValue M L nonce a m E).zipWith (· ^^^ ·) ((keyBlock L nonce E 0).toList.take M)

end Encryption

/-- What is sent: the encrypted message, then the encrypted authentication value. -/
def ccmSeal (E : Octets → Octets) (M L : ℕ) (nonce a m : List UInt8) : List UInt8 :=
  encrypted L nonce E m ++ authField L nonce E M a m

variable {E : Octets → Octets} {M L : ℕ} {nonce a m : List UInt8}

theorem octets_pos : 0 < octets := Nat.succ_pos 15

/-- A nonce of `15 - L` octets makes the first block full. -/
theorem length_firstBlock (hnonce : nonce.length + L = 15) :
    (firstBlock M L nonce a m).length = octets := by
  rw [firstBlock, List.length_cons, List.length_append, length_bigEndian, hnonce]

/-- **The authenticated blocks, part by part.** -/
theorem authInput_eq (hnonce : nonce.length + L = 15) :
    authInput M L nonce a m = pad octets (firstBlock M L nonce a m) ::
      ((chunks octets (encodedLength a ++ a)).map (pad octets) ++
        (chunks octets m).map (pad octets)) := by
  have hfirst := length_firstBlock (M := M) (a := a) (m := m) hnonce
  rw [authInput, List.append_assoc, chunks_append octets_pos hfirst,
    chunks_append_of_dvd octets_pos (dvd_length_zeroFill octets_pos _), List.map_cons,
    List.map_append, map_pad_chunks_zeroFill octets_pos, map_pad_chunks_zeroFill octets_pos]

theorem length_keyBlocks (n : ℕ) :
    ((List.range n).flatMap fun i => (keyBlock L nonce E (i + 1)).toList).length = n * octets := by
  rw [List.length_flatMap]
  simp only [Vector.length_toList, List.map_const', List.length_range, List.sum_replicate_nat]

/-- **The encrypted message as a stream**: under any counter whose successive values give
`S_1, S_2, ...` for as long as the message lasts. -/
theorem encrypted_eq_streamXor {σ : Type*} {keystream : σ → Octets} {next : σ → σ} {s : σ}
    (hkey : ∀ i < (m.length + octets - 1) / octets,
      keystream (next^[i] s) = keyBlock L nonce E (i + 1)) :
    encrypted L nonce E m = streamXor keystream next s m := by
  -- whole blocks of the key stream, never fewer octets than the message
  have hfit : m.length ≤ ((List.range ((m.length + octets - 1) / octets)).flatMap fun i =>
      (keyBlock L nonce E (i + 1)).toList).length := by
    rw [length_keyBlocks]
    change m.length ≤ (m.length + 16 - 1) / 16 * 16
    omega
  rw [streamXor_eq_xorInto octets_pos, counters_eq_iterate, length_chunks, encrypted,
    ← xorInto_eq_zipWith hfit, ← List.range_map_iterate, List.flatMap_map]
  congr 1
  apply List.flatMap_congr
  intro i hi
  rw [hkey i (List.mem_range.mp hi)]

end TetherMesh.CS.CounterCbcMac
