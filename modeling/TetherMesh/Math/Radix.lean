import Mathlib.Data.Nat.Digits.Lemmas
import Mathlib.Tactic.LinearCombination
import TetherMesh.Math.Bytes
import TetherMesh.Math.MachineInt

/-!
# Byte strings as numbers

A byte string is a number in base 256, with the least significant byte first or
last. Both readings are bounded by the length, tell strings of one length apart,
and change by the difference of one digit when one byte is replaced.

## Main definitions

* `leValue`, `beValue` — the little-endian and the big-endian reading
* `leBytes`, `beBytes` — a number written either way

## Main results

* `leValue_append`, `beValue_append` — the value of two pieces
* `beValue_set` — what replacing a byte does to the value
* `testBit_leValue` — a bit of the value
* `leValue_inj`, `beValue_inj` — equal lengths and equal values give equal strings
-/

namespace TetherMesh.Math

/-- The number spelled with the least significant byte first. -/
def leValue (xs : List UInt8) : ℕ := Nat.ofDigits 256 (xs.map UInt8.toNat)

/-- The number spelled with the most significant byte first. -/
def beValue (xs : List UInt8) : ℕ := leValue xs.reverse

section LittleEndian

variable (xs ys : List UInt8)

@[simp] theorem leValue_nil : leValue [] = 0 := rfl

@[simp] theorem leValue_cons (x : UInt8) : leValue (x :: xs) = x.toNat + 256 * leValue xs := rfl

theorem leValue_append : leValue (xs ++ ys) = leValue xs + 256 ^ xs.length * leValue ys := by
  rw [leValue, List.map_append, Nat.ofDigits_append, List.length_map, leValue, leValue]

theorem leValue_lt : leValue xs < 256 ^ xs.length := by
  have hdigit : ∀ d ∈ xs.map UInt8.toNat, d < 256 := by
    intro d hd
    obtain ⟨x, _, rfl⟩ := List.mem_map.mp hd
    exact x.toNat_lt
  have hlt := Nat.ofDigits_lt_base_pow_length (b := 256) (by omega) hdigit
  rwa [List.length_map] at hlt

variable {xs ys}

theorem leValue_inj (hlen : xs.length = ys.length) (h : leValue xs = leValue ys) : xs = ys := by
  induction xs generalizing ys with
  | nil => exact (List.length_eq_zero_iff.mp hlen.symm).symm
  | cons x xs ih =>
    cases ys with
    | nil => cases hlen
    | cons y ys =>
      rw [leValue_cons, leValue_cons] at h
      have hx := x.toNat_lt
      have hy := y.toNat_lt
      have hhead : x = y := UInt8.toNat_inj.mp (by omega)
      have htail : leValue xs = leValue ys := by omega
      rw [hhead, ih (Nat.succ.inj hlen) htail]

theorem leValue_eq_zero_iff (xs : List UInt8) : leValue xs = 0 ↔ ∀ x ∈ xs, x = 0 := by
  induction xs with
  | nil => simp
  | cons x xs ih =>
    have hhead : x.toNat = 0 ↔ x = 0 := UInt8.toNat_inj (b := 0)
    have htail : 256 * leValue xs = 0 ↔ leValue xs = 0 := by omega
    rw [leValue_cons, Nat.add_eq_zero_iff, hhead, htail, ih, List.forall_mem_cons]

/-- The first byte is the remainder. -/
theorem leValue_mod (xs : List UInt8) : leValue xs % 256 = (xs[0]?.getD 0).toNat := by
  cases xs with
  | nil => rfl
  | cons x xs =>
    rw [leValue_cons, Nat.add_mul_mod_self_left, Nat.mod_eq_of_lt x.toNat_lt,
      List.getElem?_cons_zero, Option.getD_some]

/-- The value of an array by its last byte, which is the most significant. -/
theorem leValue_last {n : ℕ} (b : Vector UInt8 (n + 1)) :
    leValue b.toList = leValue (b.toList.take n) + 256 ^ n * (byteAt b n).toNat := by
  have hlen : (b.toList.take n).length = n := by
    rw [List.length_take, Vector.length_toList, Nat.min_eq_left (Nat.le_succ n)]
  have hsplit : b.toList = b.toList.take n ++ [byteAt b n] := by
    have hn : n < b.toList.length := Nat.lt_of_lt_of_eq (Nat.lt_succ_self n) b.length_toList.symm
    rw [byteAt_of_lt b (Nat.lt_succ_self n), ← Vector.getElem_toList hn,
      List.take_append_getElem hn, List.take_of_length_le (Nat.le_of_eq b.length_toList)]
  conv_lhs => rw [hsplit]
  rw [leValue_append, hlen, leValue_cons, leValue_nil, Nat.mul_zero,
    Nat.add_zero (byteAt b n).toNat]

theorem leValue_take_lt {n : ℕ} (b : Vector UInt8 (n + 1)) :
    leValue (b.toList.take n) < 256 ^ n := by
  have hlt := leValue_lt (b.toList.take n)
  rwa [List.length_take, Vector.length_toList, Nat.min_eq_left (Nat.le_succ n)] at hlt

/-- Replacing the last byte keeps what the others spell. -/
theorem leValue_setByte_last {n : ℕ} (b : Vector UInt8 (n + 1)) (v : UInt8) :
    leValue (setByte b n v).toList = leValue (b.toList.take n) + 256 ^ n * v.toNat := by
  rw [leValue_last, byteAt_setByte_self b (Nat.lt_succ_self n), toList_setByte,
    List.take_set_of_le (Nat.le_refl n)]

/-- A bit of the value is one of the byte it falls into. -/
theorem testBit_leValue (i : ℕ) :
    (leValue xs).testBit i = (xs[i / 8]?.getD 0).toNat.testBit (i % 8) := by
  induction xs generalizing i with
  | nil => simp
  | cons x xs ih =>
    rw [leValue_cons, Nat.add_comm, show (256 : ℕ) = 2 ^ 8 by rfl,
      Nat.testBit_two_pow_mul_add _ x.toNat_lt]
    by_cases hlow : i < 8
    · rw [if_pos hlow, Nat.div_eq_of_lt hlow, Nat.mod_eq_of_lt hlow, List.getElem?_cons_zero,
        Option.getD_some]
    · obtain ⟨j, rfl⟩ := Nat.exists_eq_add_of_le' (Nat.le_of_not_lt hlow)
      rw [if_neg hlow, Nat.add_sub_cancel, ih, Nat.add_div_right j (by omega),
        List.getElem?_cons_succ, Nat.add_mod_right]

end LittleEndian

/-- The last `n` bytes of a number, the least significant first. -/
def leBytes (n v : ℕ) : Vector UInt8 n := .ofFn fun i => UInt8.ofNat (v / 256 ^ i.val)

theorem toList_leBytes_succ (n v : ℕ) :
    (leBytes (n + 1) v).toList = UInt8.ofNat v :: (leBytes n (v / 256)).toList := by
  rw [leBytes, Vector.toList_ofFn, List.ofFn_succ, leBytes, Vector.toList_ofFn]
  refine congrArg₂ List.cons ?_ (congrArg List.ofFn (funext fun i => ?_))
  · rw [Fin.val_zero, pow_zero, Nat.div_one]
  · rw [Fin.val_succ, pow_succ', Nat.div_div_eq_div_mul]

theorem leValue_leBytes (n v : ℕ) : leValue (leBytes n v).toList = v % 256 ^ n := by
  induction n generalizing v with
  | zero => exact (Nat.mod_one v).symm
  | succ n ih =>
    have hbyte : (UInt8.ofNat v).toNat = v % 256 := UInt8.toNat_ofNat'
    rw [toList_leBytes_succ, leValue_cons, ih, hbyte, pow_succ', Nat.mod_mul]

theorem leValue_toLeBytes (x : UInt64) : leValue x.toLeBytes.toList = x.toNat := by
  have hx := x.toNat_lt
  have hbytes : x.toLeBytes.toList =
      List.ofFn fun i : Fin 8 => UInt8.ofNat (x.toNat / 2 ^ (8 * i.val)) := Vector.toList_ofFn
  rw [hbytes]
  simp only [List.ofFn_succ, List.ofFn_zero, leValue_cons, leValue_nil, UInt8.toNat_ofNat',
    Fin.val_succ, Fin.val_zero]
  omega

theorem toLeBytes_injective : Function.Injective UInt64.toLeBytes := by
  intro x y h
  apply UInt64.toNat_inj.mp
  rw [← leValue_toLeBytes, ← leValue_toLeBytes, h]

section BigEndian

variable {xs ys : List UInt8}

theorem beValue_append (xs ys : List UInt8) :
    beValue (xs ++ ys) = 256 ^ ys.length * beValue xs + beValue ys := by
  rw [beValue, List.reverse_append, leValue_append, List.length_reverse, Nat.add_comm]
  rfl

theorem beValue_cons (x : UInt8) (xs : List UInt8) :
    beValue (x :: xs) = 256 ^ xs.length * x.toNat + beValue xs := by
  rw [← List.singleton_append, beValue_append]
  rfl

theorem beValue_lt (xs : List UInt8) : beValue xs < 256 ^ xs.length := by
  rw [beValue, ← List.length_reverse]
  exact leValue_lt xs.reverse

theorem beValue_inj (hlen : xs.length = ys.length) (h : beValue xs = beValue ys) : xs = ys := by
  refine List.reverse_inj.mp (leValue_inj ?_ h)
  rw [List.length_reverse, List.length_reverse, hlen]

/-- The last `n` bytes of a number, the most significant first. -/
def beBytes (n v : ℕ) : Vector UInt8 n := .ofFn fun i => UInt8.ofNat (v / 256 ^ (n - 1 - i))

theorem toList_beBytes_succ (n v : ℕ) :
    (beBytes (n + 1) v).toList = UInt8.ofNat (v / 256 ^ n) :: (beBytes n v).toList := by
  rw [beBytes, Vector.toList_ofFn, List.ofFn_succ, beBytes, Vector.toList_ofFn]
  refine congrArg (List.cons _) (congrArg List.ofFn (funext fun i => ?_))
  have hplace : n + 1 - 1 - (i.val + 1) = n - 1 - i := by omega
  rw [Fin.val_succ, hplace]

theorem beValue_beBytes (n v : ℕ) : beValue (beBytes n v).toList = v % 256 ^ n := by
  induction n with
  | zero => exact (Nat.mod_one v).symm
  | succ n ih =>
    have hbyte : (UInt8.ofNat (v / 256 ^ n)).toNat = v / 256 ^ n % 256 := UInt8.toNat_ofNat'
    rw [toList_beBytes_succ, beValue_cons, Vector.length_toList, ih, hbyte, Nat.mod_pow_succ,
      Nat.add_comm]

/-- An array is the bytes of its value. -/
theorem beBytes_beValue {n : ℕ} (b : Vector UInt8 n) : beBytes n (beValue b.toList) = b := by
  have hlen : (beBytes n (beValue b.toList)).toList.length = b.toList.length := by
    rw [Vector.length_toList, Vector.length_toList]
  refine Vector.toList_inj.mp (beValue_inj hlen ?_)
  have hlt := beValue_lt b.toList
  rw [Vector.length_toList] at hlt
  rw [beValue_beBytes, Nat.mod_eq_of_lt hlt]

/-- Replacing a byte changes the value by the difference of the digits at its place,
counted from the end. -/
theorem beValue_set {i : ℕ} (hi : i < xs.length) (v : UInt8) :
    beValue (xs.set i v) + 256 ^ (xs.length - 1 - i) * xs[i].toNat =
      beValue xs + 256 ^ (xs.length - 1 - i) * v.toNat := by
  induction xs generalizing i with
  | nil => exact absurd hi (Nat.not_lt_zero i)
  | cons x xs ih =>
    cases i with
    | zero =>
      simp only [List.set_cons_zero, beValue_cons, List.getElem_cons_zero, List.length_cons,
        Nat.add_sub_cancel, Nat.sub_zero]
      ring
    | succ i =>
      have htail := ih (Nat.lt_of_succ_lt_succ hi)
      have hplace : xs.length + 1 - 1 - (i + 1) = xs.length - 1 - i := by omega
      simp only [List.set_cons_succ, beValue_cons, List.getElem_cons_succ, List.length_cons,
        List.length_set, hplace]
      linear_combination htail

end BigEndian

end TetherMesh.Math
