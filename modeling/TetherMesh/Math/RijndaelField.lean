import Mathlib.Algebra.Field.Defs
import Mathlib.Data.UInt
import Mathlib.Tactic.Ring

/-!
# The field of 256 elements, on bytes

A byte is a polynomial over the field of two elements, of degree at most seven: bit `i` is
the coefficient of `x ^ i`. Bytes are added by XOR and multiplied modulo
`x ^ 8 + x ^ 4 + x ^ 3 + x + 1`. Both operations are linear in the bits, so a law of
multiplication needs to be seen only on the eight bytes of one bit.

## Main definitions

* `carrylessMul`, `reduce` — the product of two polynomials, and its remainder
* `GF256` — the field

## Main results

* `GF256.induction` — what holds of zero and of the powers of `x`, and is kept by sums, holds
-/

namespace TetherMesh.Math

/-! ## Polynomials as numbers -/

/-- The product of the polynomial of the `n` low bits of `a` with that of `b`. -/
def carrylessMul (a b : ℕ) : ℕ → ℕ
  | 0 => 0
  | n + 1 => carrylessMul a b n ^^^ (a >>> n % 2) * b <<< n

/-- `x ^ 8 + x ^ 4 + x ^ 3 + x + 1`. -/
def rijndaelPolynomial : ℕ := 0x11B

/-- The remainder of a polynomial of degree below `8 + n`. -/
def reduce : ℕ → ℕ → ℕ
  | 0, p => p
  | n + 1, p => reduce n (p ^^^ (p >>> (8 + n) % 2) * rijndaelPolynomial <<< n)

/-- A multiple by one bit of a sum. -/
theorem bit_xor_mul (a a' n m : ℕ) :
    ((a ^^^ a') >>> n % 2) * m = (a >>> n % 2) * m ^^^ (a' >>> n % 2) * m := by
  have hbit (k : ℕ) : k >>> n % 2 = (k.testBit n).toNat := by
    rw [Nat.toNat_testBit, Nat.shiftRight_eq_div_pow]
  rw [hbit, hbit, hbit, Nat.testBit_xor]
  cases a.testBit n <;> cases a'.testBit n <;> simp

/-- A multiple of a sum by one bit. -/
theorem bit_mul_xor (a n m m' : ℕ) :
    (a >>> n % 2) * (m ^^^ m') = (a >>> n % 2) * m ^^^ (a >>> n % 2) * m' := by
  rcases Nat.mod_two_eq_zero_or_one (a >>> n) with hbit | hbit <;> simp [hbit]

theorem carrylessMul_xor_left (a a' b n : ℕ) :
    carrylessMul (a ^^^ a') b n = carrylessMul a b n ^^^ carrylessMul a' b n := by
  induction n with
  | zero => exact (Nat.xor_self 0).symm
  | succ n ih =>
    rw [carrylessMul, carrylessMul, carrylessMul, ih, bit_xor_mul]
    ac_rfl

theorem carrylessMul_xor_right (a b b' n : ℕ) :
    carrylessMul a (b ^^^ b') n = carrylessMul a b n ^^^ carrylessMul a b' n := by
  induction n with
  | zero => exact (Nat.xor_self 0).symm
  | succ n ih =>
    rw [carrylessMul, carrylessMul, carrylessMul, ih, Nat.shiftLeft_xor_distrib, bit_mul_xor]
    ac_rfl

theorem reduce_xor (n p q : ℕ) : reduce n (p ^^^ q) = reduce n p ^^^ reduce n q := by
  induction n generalizing p q with
  | zero => rfl
  | succ n ih =>
    rw [reduce, reduce, reduce, ← ih, bit_xor_mul]
    congr 1
    ac_rfl

/-! ## The field -/

/-- A byte as an element of the field. -/
structure GF256 where
  /-- The coefficients. -/
  byte : UInt8
  deriving DecidableEq, Repr

namespace GF256

variable {a b c : GF256}

instance : Zero GF256 := ⟨⟨0⟩⟩

instance : One GF256 := ⟨⟨1⟩⟩

instance : Add GF256 := ⟨fun a b => ⟨a.byte ^^^ b.byte⟩⟩

instance : Neg GF256 := ⟨id⟩

instance : Mul GF256 :=
  ⟨fun a b => ⟨UInt8.ofNat (reduce 7 (carrylessMul a.byte.toNat b.byte.toNat 8))⟩⟩

theorem ext (h : a.byte = b.byte) : a = b := by
  cases a
  cases b
  exact congrArg mk h

@[simp] theorem byte_zero : (0 : GF256).byte = 0 := rfl

@[simp] theorem byte_add (a b : GF256) : (a + b).byte = a.byte ^^^ b.byte := rfl

/-- `x ^ i`, for `i` at most seven. -/
def monomial (i : ℕ) : GF256 := ⟨UInt8.ofNat (2 ^ i)⟩

/-- A law on bytes, checked on each of them. -/
theorem forall_byte {P : GF256 → Prop} (h : ∀ n < 256, P ⟨UInt8.ofNat n⟩) (a : GF256) : P a := by
  have hbyte := h a.byte.toNat a.byte.toNat_lt
  rwa [UInt8.ofNat_toNat] at hbyte

/-- The terms of a polynomial, in the `n` low coefficients. -/
def lowTerms (a : GF256) : ℕ → GF256
  | 0 => 0
  | n + 1 => lowTerms a n + if a.byte.toNat.testBit n then monomial n else 0

theorem lowTerms_eight (a : GF256) : a.lowTerms 8 = a := by
  revert a
  exact forall_byte (by decide +kernel)

/-- **Induction over polynomials**: zero, the powers of `x`, and sums. -/
@[elab_as_elim]
theorem induction {P : GF256 → Prop} (zero : P 0) (monomial : ∀ i < 8, P (monomial i))
    (add : ∀ a b, P a → P b → P (a + b)) (a : GF256) : P a := by
  have hlow : ∀ n ≤ 8, P (a.lowTerms n) := by
    intro n hn
    induction n with
    | zero => exact zero
    | succ n ih =>
      refine add _ _ (ih (Nat.le_of_succ_le hn)) ?_
      split
      · exact monomial n hn
      · exact zero
  exact a.lowTerms_eight ▸ hlow 8 (Nat.le_refl 8)

theorem add_mul (a b c : GF256) : (a + b) * c = a * c + b * c := by
  apply ext
  change UInt8.ofNat (reduce 7 (carrylessMul (a.byte ^^^ b.byte).toNat c.byte.toNat 8)) = _
  rw [UInt8.toNat_xor, carrylessMul_xor_left, reduce_xor, UInt8.ofNat_xor]
  rfl

theorem mul_add (a b c : GF256) : a * (b + c) = a * b + a * c := by
  apply ext
  change UInt8.ofNat (reduce 7 (carrylessMul a.byte.toNat (b.byte ^^^ c.byte).toNat 8)) = _
  rw [UInt8.toNat_xor, carrylessMul_xor_right, reduce_xor, UInt8.ofNat_xor]
  rfl

theorem zero_mul (a : GF256) : 0 * a = 0 := by
  revert a
  exact forall_byte (by decide +kernel)

theorem mul_zero (a : GF256) : a * 0 = 0 := by
  revert a
  exact forall_byte (by decide +kernel)

theorem mul_comm (a b : GF256) : a * b = b * a := by
  induction a using GF256.induction with
  | zero => rw [zero_mul, mul_zero]
  | add a a' iha iha' => rw [add_mul, mul_add, iha, iha']
  | monomial i hi =>
    induction b using GF256.induction with
    | zero => rw [zero_mul, mul_zero]
    | add b b' ihb ihb' => rw [add_mul, mul_add, ihb, ihb']
    | monomial j hj =>
      have hall : ∀ i < 8, ∀ j < 8, monomial i * monomial j = monomial j * monomial i := by
        decide +kernel
      exact hall i hi j hj

theorem mul_assoc (a b c : GF256) : a * b * c = a * (b * c) := by
  induction a using GF256.induction with
  | zero => rw [zero_mul, zero_mul, zero_mul]
  | add a a' iha iha' => rw [add_mul, add_mul, add_mul, iha, iha']
  | monomial i hi =>
    induction b using GF256.induction with
    | zero => rw [mul_zero, zero_mul, mul_zero]
    | add b b' ihb ihb' => rw [mul_add, add_mul, add_mul, mul_add, ihb, ihb']
    | monomial j hj =>
      induction c using GF256.induction with
      | zero => rw [mul_zero, mul_zero, mul_zero]
      | add c c' ihc ihc' => rw [mul_add, mul_add, mul_add, ihc, ihc']
      | monomial k hk =>
        have hall : ∀ i < 8, ∀ j < 8, ∀ k < 8,
            monomial i * monomial j * monomial k = monomial i * (monomial j * monomial k) := by
          decide +kernel
        exact hall i hi j hj k hk

theorem one_mul (a : GF256) : 1 * a = a := by
  revert a
  exact forall_byte (by decide +kernel)

theorem add_self (a : GF256) : a + a = 0 := ext (UInt8.xor_self ..)

instance : CommRing GF256 where
  add_assoc a b c := ext (UInt8.xor_assoc ..)
  zero_add a := ext (UInt8.zero_xor ..)
  add_zero a := ext (UInt8.xor_zero ..)
  add_comm a b := ext (UInt8.xor_comm ..)
  neg_add_cancel := add_self
  left_distrib := mul_add
  right_distrib := add_mul
  zero_mul := zero_mul
  mul_zero := mul_zero
  mul_assoc := mul_assoc
  one_mul := one_mul
  mul_one a := (mul_comm a 1).trans (one_mul a)
  mul_comm := mul_comm
  nsmul := nsmulRec
  zsmul := zsmulRec

/-- `a ^ 2 * a ^ 4 * ... * a ^ 2 ^ n`. -/
def squares (a : GF256) : ℕ → GF256
  | 0 => 1
  | n + 1 => a * a * squares (a * a) n

/-- The inverse, as the power `254`. -/
instance : Inv GF256 := ⟨fun a => a.squares 7⟩

theorem mul_inv_cancel (a : GF256) (h : a ≠ 0) : a * a⁻¹ = 1 := by
  revert a
  exact forall_byte (by decide +kernel)

instance : Field GF256 where
  inv := Inv.inv
  exists_pair_ne := ⟨0, 1, by decide⟩
  mul_inv_cancel := mul_inv_cancel
  inv_zero := by decide +kernel
  nnqsmul := _
  qsmul := _

end GF256

end TetherMesh.Math
