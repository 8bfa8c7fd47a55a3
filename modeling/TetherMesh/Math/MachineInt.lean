import Mathlib.Data.UInt
import Mathlib.Data.Vector.Basic

/-!
# Fixed-width integers: checked and saturating operations, little-endian bytes

The operators of Lean's `UInt8` … `UInt64` wrap. This file adds the checked and
saturating variants that a no-panic program is written with, each with the
lemma that reads it as arithmetic on naturals, and the little-endian byte
arrays of the 32-bit words.

## Main results

* `UInt32.toNat_saturatingAdd`, `UInt64.toNat_saturatingAdd` — saturation is a `min`
* `UInt32.checkedAdd_eq_some_iff` — a checked sum exists exactly when it fits
* `UInt32.ofLeBytes_toLeBytes`, `UInt32.toLeBytes_ofLeBytes` — the byte layout is
  a bijection
-/

/-! ## Eight bits -/

namespace UInt8

/-- `a.checked_add(b)`. -/
def checkedAdd (a b : UInt8) : Option UInt8 :=
  if a.toNat + b.toNat < 2 ^ 8 then some (a + b) else none

/-- `a.checked_sub(b)`. -/
def checkedSub (a b : UInt8) : Option UInt8 :=
  if b ≤ a then some (a - b) else none

/-- `a.saturating_add(b)`. -/
def saturatingAdd (a b : UInt8) : UInt8 := UInt8.ofNat (min (a.toNat + b.toNat) (2 ^ 8 - 1))

/-- `a.saturating_sub(b)`. -/
def saturatingSub (a b : UInt8) : UInt8 := UInt8.ofNat (a.toNat - b.toNat)

theorem toNat_saturatingAdd (a b : UInt8) :
    (a.saturatingAdd b).toNat = min (a.toNat + b.toNat) (2 ^ 8 - 1) := by
  rw [saturatingAdd, toNat_ofNat']
  omega

theorem toNat_saturatingSub (a b : UInt8) : (a.saturatingSub b).toNat = a.toNat - b.toNat := by
  have := a.toNat_lt
  rw [saturatingSub, toNat_ofNat']
  omega

end UInt8

/-! ## Thirty-two bits -/

namespace UInt32

/-- `a.checked_add(b)`. -/
def checkedAdd (a b : UInt32) : Option UInt32 :=
  if a.toNat + b.toNat < 2 ^ 32 then some (a + b) else none

/-- `a.saturating_add(b)`. -/
def saturatingAdd (a b : UInt32) : UInt32 := UInt32.ofNat (min (a.toNat + b.toNat) (2 ^ 32 - 1))

/-- `a.saturating_mul(b)`. -/
def saturatingMul (a b : UInt32) : UInt32 := UInt32.ofNat (min (a.toNat * b.toNat) (2 ^ 32 - 1))

/-- `a.checked_div(b)`. -/
def checkedDiv (a b : UInt32) : Option UInt32 := if b = 0 then none else some (a / b)

/-- `u8::try_from(a)`. -/
def tryToUInt8 (a : UInt32) : Option UInt8 := if a.toNat < 2 ^ 8 then some a.toUInt8 else none

/-- `u32::MAX`. -/
def maxValue : UInt32 := 0xFFFFFFFF

@[simp] theorem toNat_maxValue : maxValue.toNat = 2 ^ 32 - 1 := rfl

theorem toNat_saturatingAdd (a b : UInt32) :
    (a.saturatingAdd b).toNat = min (a.toNat + b.toNat) (2 ^ 32 - 1) := by
  rw [saturatingAdd, toNat_ofNat']
  omega

theorem toNat_saturatingMul (a b : UInt32) :
    (a.saturatingMul b).toNat = min (a.toNat * b.toNat) (2 ^ 32 - 1) := by
  rw [saturatingMul, toNat_ofNat']
  omega

theorem exists_checkedDiv {a b : UInt32} (h : b.toNat ≠ 0) :
    ∃ c, a.checkedDiv b = some c ∧ c.toNat = a.toNat / b.toNat :=
  ⟨a / b, if_neg fun hzero => h (congrArg UInt32.toNat hzero), UInt32.toNat_div a b⟩

theorem exists_tryToUInt8 {a : UInt32} (h : a.toNat < 2 ^ 8) :
    ∃ c, a.tryToUInt8 = some c ∧ c.toNat = a.toNat := by
  refine ⟨a.toUInt8, if_pos h, ?_⟩
  rw [toNat_toUInt8, Nat.mod_eq_of_lt h]

theorem checkedAdd_eq_some_iff {a b c : UInt32} :
    a.checkedAdd b = some c ↔ a.toNat + b.toNat = c.toNat := by
  have := c.toNat_lt
  unfold checkedAdd
  split_ifs with h
  · rw [Option.some_inj, ← UInt32.toNat_inj, UInt32.toNat_add, Nat.mod_eq_of_lt h]
  · simp only [false_iff]
    omega

theorem checkedAdd_eq_none_iff {a b : UInt32} :
    a.checkedAdd b = none ↔ 2 ^ 32 ≤ a.toNat + b.toNat := by
  unfold checkedAdd
  split_ifs with h <;> simp <;> omega

/-- `x.to_le_bytes()`: the four base-256 digits, least significant first. -/
def toLeBytes (x : UInt32) : Vector UInt8 4 :=
  #v[UInt8.ofNat x.toNat, UInt8.ofNat (x.toNat / 2 ^ 8), UInt8.ofNat (x.toNat / 2 ^ 16),
    UInt8.ofNat (x.toNat / 2 ^ 24)]

/-- `x.to_be_bytes()`. -/
def toBeBytes (x : UInt32) : Vector UInt8 4 :=
  Vector.ofFn fun i => UInt8.ofNat (x.toNat / 2 ^ (8 * (3 - i.val)))

/-- `x.rotate_right(n)`, for `0 < n < 32`. -/
def rotateRight (x n : UInt32) : UInt32 := x >>> n ||| x <<< (32 - n)

/-- `u32::from_le_bytes(b)`. -/
def ofLeBytes (b : Vector UInt8 4) : UInt32 :=
  UInt32.ofNat ((b.get 0).toNat + 2 ^ 8 * (b.get 1).toNat + 2 ^ 16 * (b.get 2).toNat +
    2 ^ 24 * (b.get 3).toNat)

@[simp] theorem ofLeBytes_toLeBytes (x : UInt32) : ofLeBytes (toLeBytes x) = x := by
  have := x.toNat_lt
  apply UInt32.toNat_inj.mp
  -- each byte is the remainder of its digit, and the digits add up
  change (UInt32.ofNat ((UInt8.ofNat x.toNat).toNat +
    2 ^ 8 * (UInt8.ofNat (x.toNat / 2 ^ 8)).toNat +
    2 ^ 16 * (UInt8.ofNat (x.toNat / 2 ^ 16)).toNat +
    2 ^ 24 * (UInt8.ofNat (x.toNat / 2 ^ 24)).toNat)).toNat = x.toNat
  simp only [toNat_ofNat', UInt8.toNat_ofNat']
  omega

@[simp] theorem toLeBytes_ofLeBytes (b : Vector UInt8 4) : toLeBytes (ofLeBytes b) = b := by
  have h0 := (b.get 0).toNat_lt
  have h1 := (b.get 1).toNat_lt
  have h2 := (b.get 2).toNat_lt
  have h3 := (b.get 3).toNat_lt
  have hsum : (ofLeBytes b).toNat = (b.get 0).toNat + 2 ^ 8 * (b.get 1).toNat +
      2 ^ 16 * (b.get 2).toNat + 2 ^ 24 * (b.get 3).toNat := by
    rw [ofLeBytes, toNat_ofNat']
    exact Nat.mod_eq_of_lt (by omega)
  have hdigit (n : ℕ) {d : UInt8} (hd : n % 256 = d.toNat) : UInt8.ofNat n = d := by
    apply UInt8.toNat_inj.mp
    rw [UInt8.toNat_ofNat', ← hd]
  -- each byte is the digit of the sum at its place
  apply Vector.ext
  intro i hi
  match i, hi with
  | 0, _ => exact hdigit _ (by omega : _ = (b.get 0).toNat)
  | 1, _ => exact hdigit _ (by omega : _ = (b.get 1).toNat)
  | 2, _ => exact hdigit _ (by omega : _ = (b.get 2).toNat)
  | 3, _ => exact hdigit _ (by omega : _ = (b.get 3).toNat)

theorem toLeBytes_injective : Function.Injective toLeBytes :=
  Function.LeftInverse.injective ofLeBytes_toLeBytes

end UInt32

/-! ## Sixteen bits, signed -/

namespace Int16

/-- `a.saturating_sub(b)`. -/
def saturatingSub (a b : Int16) : Int16 :=
  Int16.ofInt (max (-2 ^ 15) (min (a.toInt - b.toInt) (2 ^ 15 - 1)))

/-- `u32::try_from(a)`. -/
def tryToUInt32 (a : Int16) : Option UInt32 :=
  if 0 ≤ a then some (UInt32.ofNat a.toInt.toNat) else none

theorem toInt_saturatingSub (a b : Int16) :
    (a.saturatingSub b).toInt = max (-2 ^ 15) (min (a.toInt - b.toInt) (2 ^ 15 - 1)) := by
  exact toInt_ofInt_of_le (by omega) (by omega)

theorem exists_tryToUInt32 {a : Int16} (h : 0 ≤ a.toInt) :
    ∃ c, a.tryToUInt32 = some c ∧ c.toNat = a.toInt.toNat := by
  have hlt := a.toInt_lt
  have hle : 0 ≤ a := le_iff_toInt_le.mpr h
  have hfits : a.toInt.toNat < 2 ^ 32 := by omega
  exact ⟨UInt32.ofNat a.toInt.toNat, if_pos hle, UInt32.toNat_ofNat_of_lt' hfits⟩

end Int16

/-! ## Sixty-four bits -/

namespace UInt64

/-- `a.saturating_add(b)`. -/
def saturatingAdd (a b : UInt64) : UInt64 := UInt64.ofNat (min (a.toNat + b.toNat) (2 ^ 64 - 1))

/-- `a.saturating_sub(b)`. -/
def saturatingSub (a b : UInt64) : UInt64 := UInt64.ofNat (a.toNat - b.toNat)

/-- `a.saturating_mul(b)`. -/
def saturatingMul (a b : UInt64) : UInt64 := UInt64.ofNat (min (a.toNat * b.toNat) (2 ^ 64 - 1))

/-- `a.checked_add(b)`. -/
def checkedAdd (a b : UInt64) : Option UInt64 :=
  if a.toNat + b.toNat < 2 ^ 64 then some (a + b) else none

/-- `a.checked_mul(b)`. -/
def checkedMul (a b : UInt64) : Option UInt64 :=
  if a.toNat * b.toNat < 2 ^ 64 then some (a * b) else none

/-- `a.checked_div(b)`. -/
def checkedDiv (a b : UInt64) : Option UInt64 := if b = 0 then none else some (a / b)

/-- `a.checked_shl(n)`: refused from 64 places on. Bits shifted out below that are lost. -/
def checkedShl (a : UInt64) (n : ℕ) : Option UInt64 :=
  if n < 64 then some (UInt64.ofNat (a.toNat * 2 ^ n)) else none

/-- `u32::try_from(a)`. -/
def tryToUInt32 (a : UInt64) : Option UInt32 := if a.toNat < 2 ^ 32 then some a.toUInt32 else none

/-- `x.to_be_bytes()`. -/
def toBeBytes (x : UInt64) : Vector UInt8 8 :=
  Vector.ofFn fun i => UInt8.ofNat (x.toNat / 2 ^ (8 * (7 - i.val)))

/-- `x.to_le_bytes()`. -/
def toLeBytes (x : UInt64) : Vector UInt8 8 :=
  Vector.ofFn fun i => UInt8.ofNat (x.toNat / 2 ^ (8 * i.val))

theorem toNat_saturatingAdd (a b : UInt64) :
    (a.saturatingAdd b).toNat = min (a.toNat + b.toNat) (2 ^ 64 - 1) := by
  rw [saturatingAdd, toNat_ofNat']
  omega

section Checked

variable {a b : UInt64}

theorem exists_checkedAdd (h : a.toNat + b.toNat < 2 ^ 64) :
    ∃ c, a.checkedAdd b = some c ∧ c.toNat = a.toNat + b.toNat := by
  refine ⟨a + b, if_pos h, ?_⟩
  rw [UInt64.toNat_add, Nat.mod_eq_of_lt h]

theorem exists_checkedMul (h : a.toNat * b.toNat < 2 ^ 64) :
    ∃ c, a.checkedMul b = some c ∧ c.toNat = a.toNat * b.toNat := by
  refine ⟨a * b, if_pos h, ?_⟩
  rw [UInt64.toNat_mul, Nat.mod_eq_of_lt h]

theorem exists_checkedDiv (h : b.toNat ≠ 0) :
    ∃ c, a.checkedDiv b = some c ∧ c.toNat = a.toNat / b.toNat :=
  ⟨a / b, if_neg fun hzero => h (congrArg UInt64.toNat hzero), UInt64.toNat_div a b⟩

theorem exists_tryToUInt32 (h : a.toNat < 2 ^ 32) :
    ∃ c, a.tryToUInt32 = some c ∧ c.toNat = a.toNat := by
  refine ⟨a.toUInt32, if_pos h, ?_⟩
  rw [toNat_toUInt32, Nat.mod_eq_of_lt h]

end Checked

end UInt64

/-! ## Sixty-four bits, signed -/

namespace Int64

/-- A number of 64 bits, signed. -/
abbrev Fits (n : ℤ) : Prop := -2 ^ 63 ≤ n ∧ n < 2 ^ 63

/-- `a.checked_add(b)`. -/
def checkedAdd (a b : Int64) : Option Int64 :=
  if Fits (a.toInt + b.toInt) then some (a + b) else none

/-- `a.checked_sub(b)`. -/
def checkedSub (a b : Int64) : Option Int64 :=
  if Fits (a.toInt - b.toInt) then some (a - b) else none

/-- `a.checked_mul(b)`. -/
def checkedMul (a b : Int64) : Option Int64 :=
  if Fits (a.toInt * b.toInt) then some (a * b) else none

/-- `a.checked_div(b)`: towards zero. -/
def checkedDiv (a b : Int64) : Option Int64 :=
  if b = 0 ∨ (a = minValue ∧ b = -1) then none else some (a / b)

/-- `u64::try_from(a)`. -/
def tryToUInt64 (a : Int64) : Option UInt64 := if 0 ≤ a then some a.toUInt64 else none

variable {a b : Int64}

theorem exists_checkedAdd (h : Fits (a.toInt + b.toInt)) :
    ∃ c, a.checkedAdd b = some c ∧ c.toInt = a.toInt + b.toInt := by
  refine ⟨a + b, if_pos h, ?_⟩
  rw [toInt_add, Int.bmod_eq_of_le (by omega) (by omega)]

theorem exists_checkedSub (h : Fits (a.toInt - b.toInt)) :
    ∃ c, a.checkedSub b = some c ∧ c.toInt = a.toInt - b.toInt := by
  refine ⟨a - b, if_pos h, ?_⟩
  rw [toInt_sub, Int.bmod_eq_of_le (by omega) (by omega)]

theorem exists_checkedMul (h : Fits (a.toInt * b.toInt)) :
    ∃ c, a.checkedMul b = some c ∧ c.toInt = a.toInt * b.toInt := by
  refine ⟨a * b, if_pos h, ?_⟩
  rw [toInt_mul, Int.bmod_eq_of_le (by omega) (by omega)]

/-- Division of numbers that are not negative rounds down. -/
theorem exists_checkedDiv (ha : 0 ≤ a.toInt) (hb : 0 < b.toInt) :
    ∃ c, a.checkedDiv b = some c ∧ c.toInt = a.toInt / b.toInt := by
  have hmin : a ≠ minValue := by
    rintro rfl
    exact absurd ha (by simp)
  have hzero : b ≠ 0 := by
    rintro rfl
    exact absurd hb (by simp)
  refine ⟨a / b, if_neg (not_or.mpr ⟨hzero, fun h => hmin h.1⟩), ?_⟩
  rw [toInt_div_of_ne_left a b hmin, Int.tdiv_eq_ediv_of_nonneg ha]

theorem exists_tryToUInt64 (h : 0 ≤ a.toInt) :
    ∃ c, a.tryToUInt64 = some c ∧ (c.toNat : ℤ) = a.toInt := by
  have hle : 0 ≤ a := le_iff_toInt_le.mpr h
  refine ⟨a.toUInt64, if_pos hle, ?_⟩
  rw [toNat_toUInt64_of_le hle]
  exact Int.toNat_of_nonneg h

end Int64
