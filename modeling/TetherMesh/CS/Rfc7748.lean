import Mathlib.Data.ZMod.Basic
import TetherMesh.Math.MontgomeryCurve
import TetherMesh.Math.Prime25519
import TetherMesh.Math.Radix

/-!
# The X25519 function of RFC 7748

The Montgomery ladder of section 5, in the variables of that document, and the decoding and
encoding of its arguments and result. The ladder is over any commutative ring.

## Main definitions

* `decodeScalar25519`, `decodeUCoordinate`, `encodeUCoordinate`
* `step`, `ladder`, `mulCoordinate` — the ladder
* `x25519`

## Main results

* `mulCoordinate_eq` — the ladder with its exchanges is the plain one on two pairs
* `leValue_encodeUCoordinate`
-/

namespace TetherMesh.CS.Rfc7748

open Math
open Math.MontgomeryCurve (XZ)

/-! ## The ladder -/

/-- The variables. -/
structure Variables (R : Type*) where
  x2 : R
  z2 : R
  x3 : R
  z3 : R
  swap : Bool

section Ladder

variable {R : Type*} [CommRing R]

/-- `cswap`. -/
def cswap (swap : Bool) (a b : R) : R × R := if swap then (b, a) else (a, b)

/-- The body of the loop, at bit `t` of the scalar. -/
def step (a24 u : R) (k : ℕ) (s : Variables R) (t : ℕ) : Variables R :=
  let x1 := u
  let kt := k.testBit t
  let swap := s.swap ^^ kt
  let (x2, x3) := cswap swap s.x2 s.x3
  let (z2, z3) := cswap swap s.z2 s.z3
  let a := x2 + z2
  let aa := a ^ 2
  let b := x2 - z2
  let bb := b ^ 2
  let e := aa - bb
  let c := x3 + z3
  let d := x3 - z3
  let da := d * a
  let cb := c * b
  { x3 := (da + cb) ^ 2
    z3 := x1 * (da - cb) ^ 2
    x2 := aa * bb
    z2 := e * (aa + a24 * e)
    swap := kt }

/-- The loop, from the highest bit down. -/
def ladder (a24 u : R) (k bits : ℕ) : Variables R :=
  (List.range bits).reverse.foldl (step a24 u k) ⟨1, 0, u, 1, false⟩

/-- The result of the loop as a quotient, where `p` is the order of the field. -/
def mulCoordinate (p bits : ℕ) (a24 : R) (k : ℕ) (u : R) : R :=
  let s := ladder a24 u k bits
  let (x2, _) := cswap s.swap s.x2 s.x3
  let (z2, _) := cswap s.swap s.z2 s.z3
  x2 * z2 ^ (p - 2)

end Ladder

/-! ## Curve25519 -/

/-- The number of a scalar, three of its bits cleared below, one above, and the next set. -/
def decodeScalar25519 (k : Vector UInt8 32) : ℕ :=
  let k := setByte k 0 (byteAt k 0 &&& 248)
  let k := setByte k 31 (byteAt k 31 &&& 127)
  let k := setByte k 31 (byteAt k 31 ||| 64)
  leValue k.toList

/-- The number of a coordinate, its top bit masked. -/
def decodeUCoordinate (u : Vector UInt8 32) : ℕ :=
  leValue (setByte u 31 (byteAt u 31 &&& 0x7F)).toList

/-- The bytes of a coordinate, reduced. -/
def encodeUCoordinate (u : ZMod fieldOrder) : Vector UInt8 32 := leBytes 32 u.val

/-- X25519. -/
def x25519 (k u : Vector UInt8 32) : Vector UInt8 32 :=
  encodeUCoordinate
    (mulCoordinate fieldOrder 255 121665 (decodeScalar25519 k) (decodeUCoordinate u))

theorem leValue_encodeUCoordinate (u : ZMod fieldOrder) :
    leValue (encodeUCoordinate u).toList = u.val := by
  have hlt : u.val < 256 ^ 32 := (ZMod.val_lt u).trans (by norm_num [fieldOrder])
  rw [encodeUCoordinate, leValue_leBytes, Nat.mod_eq_of_lt hlt]

/-! ## The ladder with its exchanges undone -/

section Pairs

variable {F : Type*} [Field F]

/-- The two pairs, the last exchange undone. -/
def Variables.pairs (s : Variables F) : XZ F × XZ F :=
  (⟨(cswap s.swap s.x2 s.x3).1, (cswap s.swap s.z2 s.z3).1⟩,
    ⟨(cswap s.swap s.x2 s.x3).2, (cswap s.swap s.z2 s.z3).2⟩)

/-- **One step on the pairs.** The constant is one more for the plain ladder, which starts
from the other square. -/
theorem pairs_step (a24 u : F) (k : ℕ) (s : Variables F) (t : ℕ) :
    (step a24 u k s t).pairs =
      MontgomeryCurve.ladderStep (a24 + 1) u s.pairs (k.testBit t) := by
  have hdouble (R : XZ F) : R.double (a24 + 1) =
      ⟨(R.x + R.z) ^ 2 * (R.x - R.z) ^ 2, ((R.x + R.z) ^ 2 - (R.x - R.z) ^ 2) *
        ((R.x + R.z) ^ 2 + a24 * ((R.x + R.z) ^ 2 - (R.x - R.z) ^ 2))⟩ := by
    rw [XZ.double, XZ.mk.injEq]
    exact ⟨rfl, by ring⟩
  cases hbit : k.testBit t <;> cases hswap : s.swap
  all_goals
    simp only [step, hbit, hswap, Variables.pairs, MontgomeryCurve.ladderStep, hdouble, cswap]
    first | rfl | rw [XZ.diffAdd_comm]; rfl

theorem pairs_ladder (a24 u : F) (k bits : ℕ) : (ladder a24 u k bits).pairs =
    MontgomeryCurve.ladder (a24 + 1) u (MontgomeryCurve.lowBits k bits) := by
  have hloop (n : ℕ) (s : Variables F) : ((List.range n).reverse.foldl (step a24 u k) s).pairs =
      (MontgomeryCurve.lowBits k n).foldl (MontgomeryCurve.ladderStep (a24 + 1) u) s.pairs := by
    induction n generalizing s with
    | zero => rfl
    | succ n ih =>
      rw [List.range_succ, List.reverse_append, List.reverse_singleton, List.singleton_append,
        List.foldl_cons, ih, pairs_step, MontgomeryCurve.lowBits, List.foldl_cons]
  exact hloop bits _

/-- **The result is the quotient of the plain ladder.** -/
theorem mulCoordinate_eq (p bits : ℕ) (a24 : F) (k : ℕ) (u : F) :
    mulCoordinate p bits a24 k u =
      (MontgomeryCurve.ladder (a24 + 1) u (MontgomeryCurve.lowBits k bits)).1.x *
        (MontgomeryCurve.ladder (a24 + 1) u (MontgomeryCurve.lowBits k bits)).1.z ^ (p - 2) := by
  rw [← pairs_ladder]
  rfl

end Pairs

end TetherMesh.CS.Rfc7748
