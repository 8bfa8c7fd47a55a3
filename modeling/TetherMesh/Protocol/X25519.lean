import Mathlib.FieldTheory.Finite.Basic
import TetherMesh.Math.MontgomeryCurve
import TetherMesh.Math.Prime25519
import TetherMesh.Math.Radix

/-!
# X25519 key agreement

The field arithmetic is `fiat_crypto`'s and a parameter here. What it promises of each
operation holds on operands within bounds, which the types `Tight` and `Loose` stand for.

## Main definitions

* `Fiat` — the operations, and `Fiat.Sound`, what they promise; `Fiat.Multiplies` is as much of
  it as multiplying takes
* `clamp`, `Fiat.invert`, `Fiat.scalarmult`, `Fiat.publicKey`, `Fiat.x25519`

## Main results

* `Fiat.Multiplies.invert_pow`, `Fiat.Multiplies.invert` — the chain of squarings computes the
  inverse
* `Fiat.Sound.ladderStep`, `Fiat.Sound.ladder` — the loop with its deferred swaps runs the
  ladder of the curve
* `Fiat.Sound.leValue_scalarmult`
-/

namespace TetherMesh.Protocol.X25519

open Math
open Math.MontgomeryCurve (XZ)

/-- `KEY_LEN`. -/
abbrev keyLen : ℕ := 32

/-- Five limbs of 51 bits. -/
abbrev Limbs := Vector UInt64 5

/-- A reduced field element. -/
structure Tight where
  limbs : Limbs

/-- A field element that was added to and not carried since. -/
structure Loose where
  limbs : Limbs

/-- The operations of `fiat_crypto::curve25519_64`. -/
structure Fiat where
  fiatRelax : Tight → Loose
  fiatAdd : Tight → Tight → Loose
  fiatSub : Tight → Tight → Loose
  fiatCarryMul : Loose → Loose → Tight
  fiatCarrySquare : Loose → Tight
  fiatCarryScmul121666 : Loose → Tight
  fiatSelectznz : UInt8 → Limbs → Limbs → Limbs
  fiatFromBytes : Vector UInt8 keyLen → Tight
  fiatToBytes : Tight → Vector UInt8 keyLen

def tightZero : Tight := ⟨#v[0, 0, 0, 0, 0]⟩

def tightOne : Tight := ⟨#v[1, 0, 0, 0, 0]⟩

/-- Clamp a scalar. -/
def clamp (scalar : Vector UInt8 keyLen) : Vector UInt8 keyLen :=
  let k := setByte scalar 0 (byteAt scalar 0 &&& 248)
  let k := setByte k 31 (byteAt k 31 &&& 127)
  setByte k 31 (byteAt k 31 ||| 64)

/-- `BASE_POINT`: the point of which public keys are multiples. -/
def basePoint : Vector UInt8 keyLen := setByte (Vector.replicate keyLen 0) 0 9

/-- The variables of the loop. -/
structure Ladder where
  x2 : Tight
  z2 : Tight
  x3 : Tight
  z3 : Tight
  swap : UInt64

/-- Bit `pos` of a scalar. -/
def bitAt (k : Vector UInt8 keyLen) (pos : ℕ) : UInt64 :=
  let byte := byteAt k (pos >>> 3)
  ((byte >>> UInt8.ofNat (pos &&& 7)) &&& 1).toUInt64

namespace Fiat

variable (f : Fiat)

def relax (a : Tight) : Loose := f.fiatRelax a

def add (a b : Tight) : Loose := f.fiatAdd a b

def sub (a b : Tight) : Loose := f.fiatSub a b

def mul (a b : Loose) : Tight := f.fiatCarryMul a b

def sq (a : Loose) : Tight := f.fiatCarrySquare a

def mul121666 (a : Loose) : Tight := f.fiatCarryScmul121666 a

def sqT (a : Tight) : Tight := f.sq (f.relax a)

def mulT (a b : Tight) : Tight := f.mul (f.relax a) (f.relax b)

/-- Exchange two elements unless `swap` is zero. -/
def cswap (swap : UInt64) (a b : Tight) : Tight × Tight :=
  let c : UInt8 := if swap = 0 then 0 else 1
  (⟨f.fiatSelectznz c a.limbs b.limbs⟩, ⟨f.fiatSelectznz c b.limbs a.limbs⟩)

/-- The inverse, by a fixed chain of squarings and multiplications. -/
def invert (a : Tight) : Tight :=
  -- up to `z22` each is named by its exponent, from `z5` on by the run of ones in it
  let z2 := f.sqT a
  let z8 := f.sqT (f.sqT z2)
  let z9 := f.mulT z8 a
  let z11 := f.mulT z9 z2
  let z22 := f.sqT z11
  let z5 := f.mulT z22 z9
  let z10 := f.mulT (f.sqT^[4] (f.sqT z5)) z5
  let z20 := f.mulT (f.sqT^[9] (f.sqT z10)) z10
  let z40 := f.mulT (f.sqT^[19] (f.sqT z20)) z20
  let z50 := f.mulT (f.sqT^[9] (f.sqT z40)) z10
  let z100 := f.mulT (f.sqT^[49] (f.sqT z50)) z50
  let z200 := f.mulT (f.sqT^[99] (f.sqT z100)) z100
  let z250 := f.mulT (f.sqT^[49] (f.sqT z200)) z50
  f.mulT (f.sqT^[4] (f.sqT z250)) z11

/-- Decode a coordinate, its top bit masked off. -/
def fromBytes (b : Vector UInt8 keyLen) : Tight :=
  f.fiatFromBytes (setByte b 31 (byteAt b 31 &&& 0x7F))

def toBytes (a : Tight) : Vector UInt8 keyLen := f.fiatToBytes a

/-- One iteration of the loop, at bit `pos` of the scalar. -/
def ladderStep (k : Vector UInt8 keyLen) (x1 : Tight) (pos : ℕ) (s : Ladder) : Ladder :=
  let bit := bitAt k pos
  -- the exchange of the last iteration is undone together with this one's
  let swap := s.swap ^^^ bit
  let (x2, x3) := f.cswap swap s.x2 s.x3
  let (z2, z3) := f.cswap swap s.z2 s.z3
  let a := f.add x2 z2
  let b := f.sub x2 z2
  let aa := f.sq a
  let bb := f.sq b
  let e := f.sub aa bb
  let c := f.add x3 z3
  let d := f.sub x3 z3
  let da := f.mul d a
  let cb := f.mul c b
  { x3 := f.sq (f.add da cb)
    z3 := f.mul (f.relax x1) (f.relax (f.sq (f.sub da cb)))
    x2 := f.mul (f.relax aa) (f.relax bb)
    z2 := f.mul e (f.add bb (f.mul121666 e))
    swap := bit }

/-- The loop over the `n` low bits of the scalar, from the highest of them down. -/
def ladder (k : Vector UInt8 keyLen) (x1 : Tight) : ℕ → Ladder → Ladder
  | 0, s => s
  | pos + 1, s => ladder k x1 pos (f.ladderStep k x1 pos s)

/-- Scalar multiplication. -/
def scalarmult (scalar point : Vector UInt8 keyLen) : Vector UInt8 keyLen :=
  let k := clamp scalar
  let x1 := f.fromBytes point
  let s := f.ladder k x1 255 ⟨tightOne, tightZero, x1, tightOne, 0⟩
  -- the exchange of the last iteration is still to be undone
  let (x2, _) := f.cswap s.swap s.x2 s.x3
  let (z2, _) := f.cswap s.swap s.z2 s.z3
  f.toBytes (f.mulT x2 (f.invert z2))

/-- Derive the public key for a private key. -/
def publicKey (privateKey : Vector UInt8 keyLen) : Vector UInt8 keyLen :=
  f.scalarmult privateKey basePoint

/-- The secret shared with a peer. `none` when it is zero. -/
def x25519 (privateKey peerPublic : Vector UInt8 keyLen) : Option (Vector UInt8 keyLen) :=
  let shared := f.scalarmult privateKey peerPublic
  let acc := shared.toList.foldl (fun acc b => acc ||| b) 0
  if acc = 0 then none else some shared

end Fiat

/-! ## The bytes of coordinates and scalars -/

/-- Masking the top bit off leaves the remainder. -/
theorem leValue_masked (b : Vector UInt8 keyLen) :
    leValue (setByte b 31 (byteAt b 31 &&& 0x7F)).toList = leValue b.toList % 2 ^ 255 := by
  have htop : (byteAt b 31 &&& 0x7F).toNat = (byteAt b 31).toNat % 2 ^ 7 := by
    rw [UInt8.toNat_and]
    exact Nat.and_two_pow_sub_one_eq_mod _ 7
  have hsplit : (2 : ℕ) ^ 255 = 256 ^ 31 * 2 ^ 7 := by norm_num
  have hlow := leValue_take_lt (n := 31) b
  rw [leValue_setByte_last (n := 31), leValue_last (n := 31) b, htop, hsplit, Nat.mod_mul,
    Nat.add_mul_mod_self_left, Nat.mod_eq_of_lt hlow, Nat.add_mul_div_left _ _ (by norm_num),
    Nat.div_eq_of_lt hlow, Nat.zero_add]

theorem byteAt_clamp_first (scalar : Vector UInt8 keyLen) :
    byteAt (clamp scalar) 0 = byteAt scalar 0 &&& 248 := by
  rw [clamp, byteAt_setByte_ne _ (by decide), byteAt_setByte_ne _ (by decide),
    byteAt_setByte_self _ (by decide)]

theorem byteAt_clamp_last (scalar : Vector UInt8 keyLen) :
    byteAt (clamp scalar) 31 = (byteAt scalar 31 &&& 127) ||| 64 := by
  rw [clamp, byteAt_setByte_self _ (by decide), byteAt_setByte_self _ (by decide),
    byteAt_setByte_ne _ (by decide)]

/-- A clamped scalar has 255 bits, of which the highest is set and the three lowest are not. -/
theorem leValue_clamp (scalar : Vector UInt8 keyLen) :
    2 ^ 254 ≤ leValue (clamp scalar).toList ∧ leValue (clamp scalar).toList < 2 ^ 255 ∧
      8 ∣ leValue (clamp scalar).toList := by
  have hlow := leValue_take_lt (n := 31) (clamp scalar)
  have hhigh : 64 ≤ (byteAt (clamp scalar) 31).toNat := by
    rw [byteAt_clamp_last, UInt8.toNat_or]
    exact Nat.right_le_or
  have hlast : (byteAt (clamp scalar) 31).toNat < 128 := by
    rw [byteAt_clamp_last, UInt8.toNat_or, UInt8.toNat_and]
    exact Nat.or_lt_two_pow (n := 7) (Nat.and_lt_two_pow _ (by decide)) (by decide)
  have hfirst : leValue (clamp scalar).toList % 256 % 8 = 0 := by
    have hbyte : (clamp scalar).toList[0]?.getD 0 = byteAt (clamp scalar) 0 := by
      rw [Vector.getElem?_toList, byteAt]
    rw [leValue_mod, hbyte, byteAt_clamp_first, UInt8.toNat_and]
    exact (Nat.and_mod_two_pow (n := 3)).trans (Nat.and_zero _)
  refine ⟨?_, ?_, ?_⟩
  · rw [leValue_last (n := 31)]
    have := Nat.mul_le_mul_left (256 ^ 31) hhigh
    omega
  · rw [leValue_last (n := 31)]
    have := Nat.mul_le_mul_left (256 ^ 31) hlast
    omega
  · omega

/-! ## What the field operations promise -/

/-- The field. -/
abbrev Elem := ZMod fieldOrder

/-- The number limbs spell. -/
def limbsValue (limbs : Limbs) : ℕ := Nat.ofDigits (2 ^ 51) (limbs.toList.map UInt64.toNat)

/-- The limbs stand for an element, and none exceeds the bound. -/
structure Limbs.Holds (limbs : Limbs) (bound : ℕ) (x : Elem) : Prop where
  bounded : ∀ limb ∈ limbs.toList, limb.toNat ≤ bound
  value_eq : (limbsValue limbs : Elem) = x

/-- A reduced element stands for a number, and is within the bounds of its type. -/
def Tight.Holds (a : Tight) (x : Elem) : Prop := a.limbs.Holds (2 ^ 51) x

/-- The same for one that may be three times as large. -/
def Loose.Holds (a : Loose) (x : Elem) : Prop := a.limbs.Holds (3 * 2 ^ 51) x

/-- What is promised of the operations: on operands within bounds, each computes in the field. -/
structure Fiat.Sound (f : Fiat) : Prop where
  relax : ∀ {a : Tight} {x : Elem}, a.Holds x → (f.fiatRelax a).Holds x
  add : ∀ {a b : Tight} {x y : Elem}, a.Holds x → b.Holds y → (f.fiatAdd a b).Holds (x + y)
  sub : ∀ {a b : Tight} {x y : Elem}, a.Holds x → b.Holds y → (f.fiatSub a b).Holds (x - y)
  mul : ∀ {a b : Loose} {x y : Elem}, a.Holds x → b.Holds y →
    (f.fiatCarryMul a b).Holds (x * y)
  sq : ∀ {a : Loose} {x : Elem}, a.Holds x → (f.fiatCarrySquare a).Holds (x ^ 2)
  mul121666 : ∀ {a : Loose} {x : Elem}, a.Holds x →
    (f.fiatCarryScmul121666 a).Holds (121666 * x)
  /-- A selector of zero takes the first, of one the second. -/
  select : ∀ {c : UInt8} {a b : Tight} {x y : Elem}, c ≤ 1 → a.Holds x → b.Holds y →
    Tight.Holds ⟨f.fiatSelectznz c a.limbs b.limbs⟩ (if c = 0 then x else y)
  /-- A number of 255 bits is read, canonical or not. -/
  fromBytes : ∀ {b : Vector UInt8 keyLen}, leValue b.toList < 2 ^ 255 →
    (f.fiatFromBytes b).Holds (leValue b.toList)
  /-- The canonical number is written. -/
  toBytes : ∀ {a : Tight} {x : Elem}, a.Holds x → leValue (f.fiatToBytes a).toList = x.val

/-- What is promised of multiplying and squaring. -/
structure Fiat.Multiplies (f : Fiat) : Prop where
  relax : ∀ {a : Tight} {x : Elem}, a.Holds x → (f.fiatRelax a).Holds x
  mul : ∀ {a b : Loose} {x y : Elem}, a.Holds x → b.Holds y →
    (f.fiatCarryMul a b).Holds (x * y)
  sq : ∀ {a : Loose} {x : Elem}, a.Holds x → (f.fiatCarrySquare a).Holds (x ^ 2)

theorem Fiat.Sound.multiplies {f : Fiat} (h : f.Sound) : f.Multiplies where
  relax := h.relax
  mul := h.mul
  sq := h.sq

theorem tightZero_holds : tightZero.Holds 0 where
  bounded limb hlimb := by
    have hzero : limb = 0 := by simpa [tightZero] using hlimb
    rw [hzero]
    exact Nat.zero_le _
  value_eq := Nat.cast_zero

theorem tightOne_holds : tightOne.Holds 1 where
  bounded limb hlimb := by
    have hlimb : limb = 1 ∨ limb = 0 := by simpa [tightOne] using hlimb
    rcases hlimb with rfl | rfl
    · exact Nat.one_le_two_pow
    · exact Nat.zero_le _
  value_eq := Nat.cast_one

namespace Fiat

variable {f : Fiat} {a b : Tight} {x y : Elem}

theorem Sound.cswap (h : f.Sound) (swap : UInt64) (ha : a.Holds x) (hb : b.Holds y) :
    (f.cswap swap a b).1.Holds (if swap = 0 then x else y) ∧
      (f.cswap swap a b).2.Holds (if swap = 0 then y else x) := by
  have hselect {a b : Tight} {x y : Elem} (ha : a.Holds x) (hb : b.Holds y) :
      Tight.Holds ⟨f.fiatSelectznz (if swap = 0 then 0 else 1) a.limbs b.limbs⟩
        (if swap = 0 then x else y) := by
    by_cases hswap : swap = 0
    · rw [if_pos hswap, if_pos hswap]
      exact h.select (by decide) ha hb
    · rw [if_neg hswap, if_neg hswap]
      exact h.select (by decide) ha hb
  exact ⟨hselect ha hb, hselect hb ha⟩

/-! ## The chain of the inverse -/

namespace Multiplies

theorem sqT (h : f.Multiplies) (ha : a.Holds x) : (f.sqT a).Holds (x ^ 2) := h.sq (h.relax ha)

theorem mulT (h : f.Multiplies) (ha : a.Holds x) (hb : b.Holds y) :
    (f.mulT a b).Holds (x * y) :=
  h.mul (h.relax ha) (h.relax hb)

theorem iterate_sqT (h : f.Multiplies) (ha : a.Holds x) (n : ℕ) :
    (f.sqT^[n] a).Holds (x ^ 2 ^ n) := by
  induction n with
  | zero => rwa [Function.iterate_zero_apply, pow_zero, pow_one]
  | succ n ih =>
    rw [Function.iterate_succ_apply', pow_succ, pow_mul]
    exact h.sqT ih

/-- One link of the chain: a run of ones in the exponent is lengthened by another. -/
theorem link {m n : ℕ} (h : f.Multiplies) (ha : a.Holds (x ^ (2 ^ m - 1)))
    (hb : b.Holds (x ^ (2 ^ (n + 1) - 1))) :
    (f.mulT (f.sqT^[n] (f.sqT a)) b).Holds (x ^ (2 ^ (m + (n + 1)) - 1)) := by
  have hexp : (2 ^ m - 1) * 2 ^ (n + 1) + (2 ^ (n + 1) - 1) = 2 ^ (m + (n + 1)) - 1 := by
    have hm := Nat.one_le_two_pow (n := m)
    have hn := Nat.one_le_two_pow (n := n + 1)
    rw [Nat.sub_mul, one_mul, ← pow_add]
    have := Nat.mul_le_mul_right (2 ^ (n + 1)) hm
    rw [one_mul, ← pow_add] at this
    omega
  rw [← hexp, pow_add, pow_mul, ← Function.iterate_succ_apply]
  exact h.mulT (h.iterate_sqT ha (n + 1)) hb

/-- **The power of the chain.** -/
theorem invert_pow (h : f.Multiplies) (ha : a.Holds x) :
    (f.invert a).Holds (x ^ (2 ^ 255 - 21)) := by
  have hz2 := h.sqT ha
  have hz8 := h.sqT (h.sqT hz2)
  have hz9 := h.mulT hz8 ha
  have hz11 := h.mulT hz9 hz2
  have hz22 := h.sqT hz11
  have hz5 := h.mulT hz22 hz9
  rw [show ((((x ^ 2) ^ 2) ^ 2 * x) * x ^ 2) ^ 2 * (((x ^ 2) ^ 2) ^ 2 * x) =
    x ^ (2 ^ 5 - 1) by ring] at hz5
  rw [show ((x ^ 2) ^ 2) ^ 2 * x * x ^ 2 = x ^ 11 by ring] at hz11
  -- from here on the exponents are runs of ones
  have hz10 : Tight.Holds _ (x ^ (2 ^ 10 - 1)) := h.link (n := 4) hz5 hz5
  have hz20 : Tight.Holds _ (x ^ (2 ^ 20 - 1)) := h.link (n := 9) hz10 hz10
  have hz40 : Tight.Holds _ (x ^ (2 ^ 40 - 1)) := h.link (n := 19) hz20 hz20
  have hz50 : Tight.Holds _ (x ^ (2 ^ 50 - 1)) := h.link (n := 9) hz40 hz10
  have hz100 : Tight.Holds _ (x ^ (2 ^ 100 - 1)) := h.link (n := 49) hz50 hz50
  have hz200 : Tight.Holds _ (x ^ (2 ^ 200 - 1)) := h.link (n := 99) hz100 hz100
  have hz250 : Tight.Holds _ (x ^ (2 ^ 250 - 1)) := h.link (n := 49) hz200 hz50
  -- five more squarings make room for the last five bits, `01011`
  have hlast := h.mulT (h.iterate_sqT (h.sqT hz250) 4) hz11
  have hexp : (2 ^ 250 - 1) * (2 * 2 ^ 4) + 11 = 2 ^ 255 - 21 := by norm_num
  rwa [← pow_mul, ← pow_mul, ← pow_add, hexp] at hlast

/-- That power is the inverse, by Fermat's theorem. -/
theorem pow_eq_inv (x : Elem) : x ^ (2 ^ 255 - 21) = x⁻¹ := by
  by_cases hx : x = 0
  · rw [hx, inv_zero, zero_pow (by norm_num)]
  · have hfermat := ZMod.pow_card_sub_one_eq_one hx
    have hexp : fieldOrder - 1 = 2 ^ 255 - 21 + 1 := by norm_num [fieldOrder]
    rw [hexp, pow_succ] at hfermat
    exact eq_inv_of_mul_eq_one_left hfermat

/-- **The chain inverts**, and takes zero to zero. -/
theorem invert (h : f.Multiplies) (ha : a.Holds x) : (f.invert a).Holds x⁻¹ :=
  pow_eq_inv x ▸ h.invert_pow ha

end Multiplies

end Fiat

/-! ## The loop -/

/-- The variables hold the two fractions of the ladder, exchanged when the last bit was set. -/
structure Ladder.Holds (s : Ladder) (last : Bool) (pairs : XZ Elem × XZ Elem) : Prop where
  swap_eq : s.swap = last.toUInt64
  x2 : s.x2.Holds (if last then pairs.2.x else pairs.1.x)
  z2 : s.z2.Holds (if last then pairs.2.z else pairs.1.z)
  x3 : s.x3.Holds (if last then pairs.1.x else pairs.2.x)
  z3 : s.z3.Holds (if last then pairs.1.z else pairs.2.z)

/-- The bit that is read is one of the scalar as a number. -/
theorem bitAt_eq (k : Vector UInt8 keyLen) (pos : ℕ) :
    bitAt k pos = ((leValue k.toList).testBit pos).toUInt64 := by
  have hbyte : byteAt k (pos >>> 3) = k.toList[pos / 8]?.getD 0 := by
    rw [byteAt, Nat.shiftRight_eq_div_pow, Vector.getElem?_toList]
  have hshift : (pos &&& 7) % 2 ^ 8 % 8 = pos % 8 := by
    rw [Nat.and_two_pow_sub_one_eq_mod pos 3]
    omega
  have htoNat (bit : Bool) : bit.toUInt64.toNat = bit.toNat := by
    cases bit <;> rfl
  -- both are the same digit of one byte
  rw [bitAt, hbyte, testBit_leValue]
  apply UInt64.toNat_inj.mp
  rw [htoNat, Nat.toNat_testBit, UInt8.toNat_toUInt64, UInt8.toNat_and, UInt8.toNat_shiftRight,
    UInt8.toNat_ofNat', hshift, Nat.shiftRight_eq_div_pow]
  exact Nat.and_one_is_mod _

namespace Fiat.Sound

variable {f : Fiat} {k : Vector UInt8 keyLen} {pos : ℕ} {s : Ladder} {last bit : Bool}
  {pairs : XZ Elem × XZ Elem} {x1 : Tight} {u : Elem}

/-- Undoing the last exchange and making the next is one exchange. -/
theorem cswap_pairs (h : f.Sound) {a b : Tight} {x y : Elem}
    (ha : a.Holds (if last then y else x)) (hb : b.Holds (if last then x else y)) (bit : Bool) :
    (f.cswap (last.toUInt64 ^^^ bit.toUInt64) a b).1.Holds (if bit then y else x) ∧
      (f.cswap (last.toUInt64 ^^^ bit.toUInt64) a b).2.Holds (if bit then x else y) := by
  have hswap := h.cswap (last.toUInt64 ^^^ bit.toUInt64) ha hb
  cases last <;> cases bit <;> exact hswap

/-- **One iteration** is one step of the ladder. -/
theorem ladderStep (h : f.Sound) (hbit : bitAt k pos = bit.toUInt64) (hx1 : x1.Holds u)
    (hs : s.Holds last pairs) :
    (f.ladderStep k x1 pos s).Holds bit (MontgomeryCurve.ladderStep 121666 u pairs bit) := by
  have hx := h.cswap_pairs hs.x2 hs.x3 bit
  have hz := h.cswap_pairs hs.z2 hs.z3 bit
  rw [← hs.swap_eq, ← hbit] at hx hz
  -- after the exchange the first pair is the one the bit doubles
  have ha := h.add hx.1 hz.1
  have hb := h.sub hx.1 hz.1
  have haa := h.sq ha
  have hbb := h.sq hb
  have he := h.sub haa hbb
  have hda := h.mul (h.sub hx.2 hz.2) ha
  have hcb := h.mul (h.add hx.2 hz.2) hb
  have hx3 := h.sq (h.add hda hcb)
  have hz3 := h.mul (h.relax hx1) (h.relax (h.sq (h.sub hda hcb)))
  have hx2 := h.mul (h.relax haa) (h.relax hbb)
  have hz2 := h.mul he (h.add hbb (h.mul121666 he))
  cases bit with
  | false => exact ⟨hbit, hx2, hz2, hx3, hz3⟩
  | true =>
    -- the loop adds the pairs in the order it exchanged them to
    rw [MontgomeryCurve.ladderStep, XZ.diffAdd_comm]
    exact ⟨hbit, hx2, hz2, hx3, hz3⟩

/-- **The loop** runs the ladder on the bits of the scalar. -/
theorem ladder (h : f.Sound) (hx1 : x1.Holds u) (n : ℕ) (hs : s.Holds last pairs) :
    ∃ last, (f.ladder k x1 n s).Holds last
      ((MontgomeryCurve.lowBits (leValue k.toList) n).foldl
        (MontgomeryCurve.ladderStep 121666 u) pairs) := by
  induction n generalizing s last pairs with
  | zero => exact ⟨last, hs⟩
  | succ pos ih => exact ih (h.ladderStep (bitAt_eq k pos) hx1 hs)

theorem decoded (h : f.Sound) (point : Vector UInt8 keyLen) :
    (f.fromBytes point).Holds (leValue point.toList % 2 ^ 255 : ℕ) := by
  rw [← leValue_masked]
  -- with its top bit masked off the coordinate is one that may be read
  refine h.fromBytes ?_
  rw [leValue_masked]
  exact Nat.mod_lt _ (by norm_num)

/-- **What is computed** is the quotient of the ladder from the coordinate, on the bits of
the clamped scalar. -/
theorem leValue_scalarmult (h : f.Sound) (scalar point : Vector UInt8 keyLen)
    (hu : ((leValue point.toList % 2 ^ 255 : ℕ) : Elem) = u) :
    leValue (f.scalarmult scalar point).toList =
      ((MontgomeryCurve.ladder 121666 u
          (MontgomeryCurve.lowBits (leValue (clamp scalar).toList) 255)).1.x *
        (MontgomeryCurve.ladder 121666 u
          (MontgomeryCurve.lowBits (leValue (clamp scalar).toList) 255)).1.z⁻¹).val := by
  have hx1 := hu ▸ h.decoded point
  have hstart : Ladder.Holds ⟨tightOne, tightZero, f.fromBytes point, tightOne, 0⟩ false
      (⟨1, 0⟩, ⟨u, 1⟩) := ⟨rfl, tightOne_holds, tightZero_holds, hx1, tightOne_holds⟩
  obtain ⟨last, hs⟩ := h.ladder (k := clamp scalar) hx1 255 hstart
  rw [← MontgomeryCurve.ladder] at hs
  -- undoing the last exchange leaves the first pair in front
  have hx := h.cswap_pairs hs.x2 hs.x3 false
  have hz := h.cswap_pairs hs.z2 hs.z3 false
  rw [← hs.swap_eq, Bool.toUInt64, if_neg Bool.false_ne_true, UInt64.xor_zero] at hx hz
  exact h.toBytes (h.multiplies.mulT hx.1 (h.multiplies.invert hz.1))

end Fiat.Sound

end TetherMesh.Protocol.X25519
