import TetherMesh.Protocol.X25519

/-!
# Field operations that keep the promise

The operations are a parameter of the model. Here is one choice of them: each computes in
the field and spells the result in limbs without a carry left over.

## Main definitions

* `lowDigits` — the low digits of a number
* `Fiat.reference`

## Main results

* `Fiat.reference_sound`
-/

namespace TetherMesh.Protocol.X25519

open Math

/-- The low digits of a number, the least significant first. -/
def lowDigits (base : ℕ) : ℕ → ℕ → List ℕ
  | 0, _ => []
  | len + 1, n => n % base :: lowDigits base len (n / base)

variable {base len n : ℕ}

@[simp] theorem length_lowDigits : (lowDigits base len n).length = len := by
  induction len generalizing n with
  | zero => rfl
  | succ len ih => rw [lowDigits, List.length_cons, ih]

theorem lt_of_mem_lowDigits (hbase : 0 < base) {digit : ℕ} (h : digit ∈ lowDigits base len n) :
    digit < base := by
  induction len generalizing n with
  | zero => cases h
  | succ len ih =>
    rcases List.mem_cons.mp h with rfl | htail
    · exact Nat.mod_lt n hbase
    · exact ih htail

theorem ofDigits_lowDigits : Nat.ofDigits base (lowDigits base len n) = n % base ^ len := by
  induction len generalizing n with
  | zero => exact (Nat.mod_one n).symm
  | succ len ih =>
    rw [lowDigits, Nat.ofDigits_cons, ih, pow_succ', Nat.mod_mul]

/-- The bytes of a number. -/
def bytesOf (n : ℕ) : Vector UInt8 keyLen :=
  ⟨((lowDigits 256 keyLen n).map UInt8.ofNat).toArray, by simp⟩

theorem leValue_bytesOf (h : n < 256 ^ keyLen) : leValue (bytesOf n).toList = n := by
  have hdigits : (lowDigits 256 keyLen n).map (UInt8.toNat ∘ UInt8.ofNat) =
      lowDigits 256 keyLen n := by
    conv_rhs => rw [← List.map_id (lowDigits 256 keyLen n)]
    refine List.map_congr_left fun digit hdigit => ?_
    exact UInt8.toNat_ofNat_of_lt' (lt_of_mem_lowDigits (by norm_num) hdigit)
  have htoList : (bytesOf n).toList = (lowDigits 256 keyLen n).map UInt8.ofNat := rfl
  rw [leValue, htoList, List.map_map, hdigits, ofDigits_lowDigits, Nat.mod_eq_of_lt h]

/-- The limbs of a number. -/
def limbsOf (n : ℕ) : Limbs := ⟨((lowDigits (2 ^ 51) 5 n).map UInt64.ofNat).toArray, by simp⟩

theorem toNat_limbsOf (n : ℕ) :
    (limbsOf n).toList.map UInt64.toNat = lowDigits (2 ^ 51) 5 n := by
  have htoList : (limbsOf n).toList = (lowDigits (2 ^ 51) 5 n).map UInt64.ofNat := rfl
  rw [htoList, List.map_map]
  conv_rhs => rw [← List.map_id (lowDigits (2 ^ 51) 5 n)]
  refine List.map_congr_left fun digit hdigit => ?_
  exact UInt64.toNat_ofNat_of_lt' ((lt_of_mem_lowDigits (by norm_num) hdigit).trans (by norm_num))

/-- The limbs of a number stand for it, and are within every bound. -/
theorem limbsOf_holds {bound : ℕ} (hbound : 2 ^ 51 ≤ bound) (hn : n < 2 ^ 255) :
    (limbsOf n).Holds bound n where
  bounded limb hlimb := by
    have hdigit : limb.toNat ∈ lowDigits (2 ^ 51) 5 n :=
      toNat_limbsOf n ▸ List.mem_map_of_mem hlimb
    exact (lt_of_mem_lowDigits (by norm_num) hdigit).le.trans hbound
  value_eq := by
    have hn' : n < (2 ^ 51) ^ 5 := by rwa [← pow_mul]
    rw [limbsValue, toNat_limbsOf, ofDigits_lowDigits, Nat.mod_eq_of_lt hn']

theorem limbsOf_val_holds {bound : ℕ} (hbound : 2 ^ 51 ≤ bound) (x : Elem) :
    (limbsOf x.val).Holds bound x := by
  have hholds := limbsOf_holds hbound ((ZMod.val_lt x).trans (by norm_num [fieldOrder]))
  rwa [ZMod.natCast_zmod_val] at hholds

/-- The element that limbs stand for. -/
def value (limbs : Limbs) : Elem := limbsValue limbs

/-- Each operation computes in the field. -/
def Fiat.reference : Fiat where
  fiatRelax a := ⟨a.limbs⟩
  fiatAdd a b := ⟨limbsOf (value a.limbs + value b.limbs).val⟩
  fiatSub a b := ⟨limbsOf (value a.limbs - value b.limbs).val⟩
  fiatCarryMul a b := ⟨limbsOf (value a.limbs * value b.limbs).val⟩
  fiatCarrySquare a := ⟨limbsOf (value a.limbs ^ 2).val⟩
  fiatCarryScmul121666 a := ⟨limbsOf (121666 * value a.limbs).val⟩
  fiatSelectznz c a b := if c = 0 then a else b
  fiatFromBytes b := ⟨limbsOf (leValue b.toList)⟩
  fiatToBytes a := bytesOf (value a.limbs).val

theorem Fiat.reference_sound : Fiat.reference.Sound where
  relax h := ⟨fun limb hlimb => (h.bounded limb hlimb).trans (by norm_num), h.value_eq⟩
  add ha hb := ha.value_eq ▸ hb.value_eq ▸ limbsOf_val_holds (by norm_num) _
  sub ha hb := ha.value_eq ▸ hb.value_eq ▸ limbsOf_val_holds (by norm_num) _
  mul ha hb := ha.value_eq ▸ hb.value_eq ▸ limbsOf_val_holds (Nat.le_refl _) _
  sq ha := ha.value_eq ▸ limbsOf_val_holds (Nat.le_refl _) _
  mul121666 ha := ha.value_eq ▸ limbsOf_val_holds (Nat.le_refl _) _
  select {c a b x y} hc ha hb := by
    by_cases hzero : c = 0
    · rw [if_pos hzero]
      simpa [reference, hzero] using ha
    · rw [if_neg hzero]
      simpa [reference, hzero] using hb
  fromBytes hlt := limbsOf_holds (Nat.le_refl _) hlt
  toBytes {a x} ha := by
    have hlt : x.val < 256 ^ keyLen := (ZMod.val_lt x).trans (by norm_num [fieldOrder])
    rw [← leValue_bytesOf hlt, ← ha.value_eq]
    rfl

end TetherMesh.Protocol.X25519
