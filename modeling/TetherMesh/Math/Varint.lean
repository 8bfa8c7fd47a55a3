import Mathlib.Data.Nat.Bitwise

/-!
# Base-128 varints

A natural number as its base-128 digits, least significant first, every byte but
the last marked with its top bit.

## Main definitions

* `Varint.encode` — the shortest varint of a number
* `Varint.IsVarint`, `Varint.value` — any varint, and the number it stands for

## Main results

* `Varint.encode_of_lt`, `Varint.encode_of_le` — one digit at a time
* `Varint.length_encode_le_iff`, `Varint.length_encode_eq` — how many bytes a number takes
* `Varint.value_encode`, `Varint.value_lt` — the number of the shortest varint, and of any
* `Varint.exists_varint_or` — what the front of a byte string can be
-/

namespace TetherMesh.Math.Varint

/-- The shortest varint of `n`. -/
def encode (n : ℕ) : List UInt8 :=
  if n < 128 then [UInt8.ofNat n] else UInt8.ofNat (n % 128 + 128) :: encode (n / 128)
termination_by n

variable {n k : ℕ}

/-- A last digit. -/
theorem encode_of_lt (h : n < 128) : encode n = [UInt8.ofNat n] := by
  rw [encode, if_pos h]

/-- A digit with more to come. -/
theorem encode_of_le (h : 128 ≤ n) :
    encode n = UInt8.ofNat (n % 128 + 128) :: encode (n / 128) := by
  rw [encode, if_neg (Nat.not_lt.mpr h)]

theorem length_encode_pos (n : ℕ) : 0 < (encode n).length := by
  rw [encode]
  split_ifs
  · exact Nat.one_pos
  · exact Nat.succ_pos _

/-- **Length.** `k + 1` bytes hold exactly the numbers of `k + 1` digits. -/
theorem length_encode_le_iff : (encode n).length ≤ k + 1 ↔ n < 128 ^ (k + 1) := by
  induction k generalizing n with
  | zero =>
    by_cases h : n < 128
    · simp [encode_of_lt h, h]
    · have hpos := length_encode_pos (n / 128)
      rw [encode_of_le (Nat.not_lt.mp h), List.length_cons]
      omega
  | succ k ih =>
    by_cases h : n < 128
    · have hpow : 128 ^ 1 ≤ 128 ^ (k + 1 + 1) := Nat.pow_le_pow_right (by omega) (by omega)
      rw [encode_of_lt h, List.length_singleton]
      omega
    · rw [encode_of_le (Nat.not_lt.mp h), List.length_cons, Nat.add_le_add_iff_right, ih,
        Nat.div_lt_iff_lt_mul (by omega), ← Nat.pow_succ]

theorem length_encode_mono {m : ℕ} (h : n ≤ m) : (encode n).length ≤ (encode m).length := by
  obtain ⟨k, hk⟩ := Nat.exists_eq_add_of_lt (length_encode_pos m)
  rw [Nat.zero_add] at hk
  rw [hk, length_encode_le_iff]
  exact h.trans_lt (length_encode_le_iff.mp hk.le)

/-- A number of exactly `k + 2` digits. -/
theorem length_encode_eq (k : ℕ) (hlow : 128 ^ (k + 1) ≤ n) (hhigh : n < 128 ^ (k + 2)) :
    (encode n).length = k + 2 := by
  have hle : (encode n).length ≤ k + 2 := length_encode_le_iff.mpr hhigh
  have hgt : ¬ (encode n).length ≤ k + 1 := fun h =>
    absurd (length_encode_le_iff.mp h) (Nat.not_lt.mpr hlow)
  omega

/-! ## Varints that need not be the shortest -/

/-- Every byte but the last announces another. -/
inductive IsVarint : List UInt8 → Prop
  /-- The last digit. -/
  | last {b : UInt8} (hb : b.toNat < 128) : IsVarint [b]
  /-- A digit with more to come. -/
  | more {b : UInt8} {bs : List UInt8} (hb : 128 ≤ b.toNat) (hbs : IsVarint bs) : IsVarint (b :: bs)

/-- The number that seven bits of each byte stand for, the first byte's the lowest. -/
def value : List UInt8 → ℕ
  | [] => 0
  | b :: bs => b.toNat % 128 + 128 * value bs

variable {bs cs : List UInt8}

theorem value_append (bs cs : List UInt8) :
    value (bs ++ cs) = value bs + 128 ^ bs.length * value cs := by
  induction bs with
  | nil => rw [List.nil_append, value, List.length_nil, Nat.pow_zero, Nat.one_mul, Nat.zero_add]
  | cons b bs ih =>
    rw [List.cons_append, value, value, ih, List.length_cons, Nat.pow_succ', Nat.mul_add,
      Nat.add_assoc, Nat.mul_assoc]

theorem value_lt (bs : List UInt8) : value bs < 128 ^ bs.length := by
  induction bs with
  | nil => exact Nat.one_pos
  | cons b bs ih =>
    have hdigit := Nat.mod_lt b.toNat (by decide : 0 < 128)
    rw [value, List.length_cons, Nat.pow_succ]
    omega

theorem IsVarint.length_pos (h : IsVarint bs) : 0 < bs.length := by
  cases h with
  | last => exact Nat.one_pos
  | more => exact Nat.succ_pos _

/-- A varint is what announces more, and a last digit. -/
theorem isVarint_iff : IsVarint bs ↔ ∃ front b, bs = front ++ [b] ∧
    (∀ c ∈ front, 128 ≤ c.toNat) ∧ b.toNat < 128 := by
  constructor
  · intro h
    induction h with
    | @last b hb => exact ⟨[], b, rfl, fun c hc => absurd hc List.not_mem_nil, hb⟩
    | @more b bs hb _ ih =>
      obtain ⟨front, last, rfl, hfront, hlast⟩ := ih
      exact ⟨b :: front, last, rfl, List.forall_mem_cons.mpr ⟨hb, hfront⟩, hlast⟩
  · rintro ⟨front, b, rfl, hfront, hb⟩
    induction front with
    | nil => exact .last hb
    | cons c front ih =>
      obtain ⟨hc, hfront⟩ := List.forall_mem_cons.mp hfront
      exact .more hc (ih hfront)

/-- The shortest varint is one. -/
theorem isVarint_encode (n : ℕ) : IsVarint (encode n) := by
  induction n using encode.induct with
  | case1 n hlast =>
    rw [encode_of_lt hlast]
    refine .last ?_
    rwa [UInt8.toNat_ofNat_of_lt' (hlast.trans (by decide))]
  | case2 n hmore ih =>
    rw [encode_of_le (Nat.not_lt.mp hmore)]
    refine .more ?_ ih
    rw [UInt8.toNat_ofNat_of_lt' (show n % 128 + 128 < 256 by omega)]
    exact Nat.le_add_left _ _

/-- **The number of the shortest varint.** -/
theorem value_encode (n : ℕ) : value (encode n) = n := by
  induction n using encode.induct with
  | case1 n hlast =>
    rw [encode_of_lt hlast, value, value, UInt8.toNat_ofNat_of_lt' (hlast.trans (by decide)),
      Nat.mod_eq_of_lt hlast, Nat.mul_zero, Nat.add_zero]
  | case2 n hmore ih =>
    rw [encode_of_le (Nat.not_lt.mp hmore), value, ih,
      UInt8.toNat_ofNat_of_lt' (show n % 128 + 128 < 256 by omega)]
    omega

/-- Within its first `k` bytes a byte string has a varint at its front, or announces more
with each of them, or ends announcing more. -/
theorem exists_varint_or (k : ℕ) (bs : List UInt8) :
    (∃ ds rest, bs = ds ++ rest ∧ IsVarint ds ∧ ds.length ≤ k) ∨
      (∃ ds rest, bs = ds ++ rest ∧ ds.length = k ∧ ∀ b ∈ ds, 128 ≤ b.toNat) ∨
      bs.length < k ∧ ∀ b ∈ bs, 128 ≤ b.toNat := by
  induction k generalizing bs with
  | zero => exact .inr (.inl ⟨[], bs, rfl, rfl, fun b hb => absurd hb List.not_mem_nil⟩)
  | succ k ih =>
    cases bs with
    | nil => exact .inr (.inr ⟨Nat.succ_pos k, fun b hb => absurd hb List.not_mem_nil⟩)
    | cons b bs =>
      rcases Nat.lt_or_ge b.toNat 128 with hlast | hmore
      · exact .inl ⟨[b], bs, rfl, .last hlast, Nat.succ_le_succ (Nat.zero_le k)⟩
      rcases ih bs with ⟨ds, rest, rfl, hds, hlen⟩ | ⟨ds, rest, rfl, hlen, hall⟩ | ⟨hlen, hall⟩
      · exact .inl ⟨b :: ds, rest, rfl, .more hmore hds, Nat.succ_le_succ hlen⟩
      · exact .inr (.inl ⟨b :: ds, rest, rfl, congrArg (· + 1) hlen,
          List.forall_mem_cons.mpr ⟨hmore, hall⟩⟩)
      · exact .inr (.inr ⟨Nat.succ_lt_succ hlen, List.forall_mem_cons.mpr ⟨hmore, hall⟩⟩)

/-! ## Reading digits back into a machine word -/

/-- The bits a digit adds above those already read. -/
theorem or_digit {acc shift : ℕ} (hacc : acc < 2 ^ shift) (d : ℕ) :
    acc ||| d * 2 ^ shift = acc + d * 2 ^ shift := by
  rw [Nat.or_comm, Nat.mul_comm, ← Nat.two_pow_add_eq_or_of_lt hacc, Nat.add_comm]

/-- In a word of `w` bits, a digit of which the upper bits may be shifted out. -/
theorem or_digit_mod {acc shift w : ℕ} (hacc : acc < 2 ^ shift) (hshift : shift ≤ w) (d : ℕ) :
    acc ||| d * 2 ^ shift % 2 ^ w = (acc + d * 2 ^ shift) % 2 ^ w := by
  have hpow : 2 ^ w = 2 ^ (w - shift) * 2 ^ shift := by
    rw [← Nat.pow_add, Nat.sub_add_cancel hshift]
  -- what is left of the digit lies above the bits already read, and below the end of the word
  have hmod : d * 2 ^ shift % 2 ^ w = d % 2 ^ (w - shift) * 2 ^ shift := by
    rw [hpow, Nat.mul_mod_mul_right]
  have hfits : acc + d % 2 ^ (w - shift) * 2 ^ shift < 2 ^ w := by
    have hdigit := Nat.mul_le_mul_right (2 ^ shift)
      (Nat.succ_le_of_lt (Nat.mod_lt d (Nat.two_pow_pos (w - shift))))
    rw [Nat.succ_mul, ← hpow] at hdigit
    omega
  rw [← Nat.add_mod_mod, hmod, or_digit hacc, Nat.mod_eq_of_lt hfits]

end TetherMesh.Math.Varint
