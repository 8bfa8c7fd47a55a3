import Mathlib.Tactic.LinearCombination
import TetherMesh.CS.Rijndael
import TetherMesh.Protocol.Aes

/-!
# The block ciphers are AES

The code keeps a state as sixteen bytes in a row, looks its S-box up in a table, mixes a
column with XORs and doublings, and expands a key into round keys or into one long array.
All of it is what FIPS 197 defines on four columns over the field of 256 elements.

## Main results

* `sbox_eq`, `xtime_eq` — the table, and doubling, in the field
* `toState_shiftRows`, `toState_mixColumns` and the others — the steps, one by one
* `Aes128.toState_roundKeys`, `Aes256.toState_roundKeys` — the key schedules
* `Aes128.encryptBlock_eq`, `Aes256.encryptBlock_eq`
-/

namespace TetherMesh.Protocol

open Math CS
open CS.Rijndael (Word State toState ofState wordAt)

/-! ## Bytes -/

/-- **The table is the S-box.** -/
theorem sbox_eq (b : UInt8) : ⟨sbox b⟩ = Rijndael.sBox ⟨b⟩ := by
  have hall : ∀ a : GF256, ⟨sbox a.byte⟩ = Rijndael.sBox a := GF256.forall_byte (by decide +kernel)
  exact hall ⟨b⟩

/-- Doubling is multiplication by `x`. -/
theorem xtime_eq (b : UInt8) : (⟨xtime b⟩ : GF256) = ⟨2⟩ * ⟨b⟩ := by
  have hall : ∀ a : GF256, ⟨xtime a.byte⟩ = (⟨2⟩ * a : GF256) :=
    GF256.forall_byte (by decide +kernel)
  exact hall ⟨b⟩

/-- The bytes of a block, by column and row. -/
theorem get_toState (b : Block) (c r : Fin 4) :
    ((toState b).get c).get r = ⟨byteAt b (idx c r)⟩ := by
  rw [toState, Rijndael.get_ofFn, Rijndael.get_ofFn, idx, Nat.mul_comm]

theorem idx_lt (c r : Fin 4) : idx c r < blockSize := by
  change c.val * 4 + r.val < 16
  omega

theorem ext_toState {s : State} {b : Block}
    (h : ∀ c r : Fin 4, (⟨byteAt b (idx c r)⟩ : GF256) = (s.get c).get r) : toState b = s :=
  Rijndael.ext_get fun c => Rijndael.ext_get fun r => (get_toState b c r).trans (h c r)

/-! ## The steps -/

namespace Aes128

theorem toState_addRoundKey (b k : Block) : toState (addRoundKey b k) = toState b + toState k := by
  refine ext_toState fun c r => ?_
  rw [addRoundKey, byteAt_xorBlock _ _ (idx_lt c r), Rijndael.get_add, Rijndael.get_add,
    get_toState, get_toState]
  rfl

theorem toState_subBytes (b : Block) : toState (subBytes b) = Rijndael.subBytes (toState b) := by
  refine ext_toState fun c r => ?_
  have hbyte : byteAt (subBytes b) (idx c r) = sbox (byteAt b (idx c r)) := by
    rw [byteAt_of_lt _ (idx_lt c r), byteAt_of_lt _ (idx_lt c r), subBytes, Vector.getElem_ofFn]
    rfl
  rw [hbyte, sbox_eq, ← get_toState, Rijndael.subBytes, Rijndael.get_map, Rijndael.subWord,
    Rijndael.get_map]

/-- Columns rewritten one after another, each byte from its own old value. -/
theorem byteAt_foldl_columns (f : ℕ → ℕ → UInt8 → UInt8) (b : Block) (n : ℕ) (c r : Fin 4) :
    byteAt ((List.range n).foldl (fun b c => updateBytes (c * 4) 4 (f c) b) b) (idx c r) =
      if c < n then f c r (byteAt b (idx c r)) else byteAt b (idx c r) := by
  induction n with
  | zero => rfl
  | succ n ih =>
    rw [List.range_succ, List.foldl_append, List.foldl_cons, List.foldl_nil,
      byteAt_updateBytes _ _ _ _ (idx_lt c r), ih, idx]
    by_cases hlast : c.val = n
    · rw [if_pos (by omega), if_neg (by omega), if_pos (by omega), ← hlast,
        Nat.add_sub_cancel_left]
    · rw [if_neg (by omega)]
      by_cases hbefore : c.val < n
      · rw [if_pos hbefore, if_pos (by omega)]
      · rw [if_neg hbefore, if_neg (by omega)]

theorem toState_shiftRows (b : Block) :
    toState (shiftRows b) = Rijndael.shiftRows (toState b) := by
  refine ext_toState fun c r => ?_
  have hcolumns : shiftRows b = (List.range 4).foldl
      (fun s c => updateBytes (c * 4) 4 (fun r _ => byteAt b (idx ((c + r) % 4) r)) s) b := rfl
  rw [hcolumns, byteAt_foldl_columns, if_pos c.isLt, Rijndael.shiftRows, Rijndael.get_ofFn,
    Rijndael.get_ofFn, get_toState, Fin.val_add]

/-- A row of the product with the fixed polynomial. -/
theorem get_polyMul_mixPolynomial (w : Word) (r : Fin 4) :
    (Rijndael.polyMul Rijndael.mixPolynomial w).get r =
      ⟨2⟩ * w.get r + ⟨3⟩ * w.get (r + 1) + w.get (r + 2) + w.get (r + 3) := by
  have h0 : Rijndael.mixPolynomial.get (-0) = ⟨2⟩ := rfl
  have h1 : Rijndael.mixPolynomial.get (-1) = ⟨3⟩ := rfl
  have h2 : Rijndael.mixPolynomial.get (-2) = 1 := rfl
  have h3 : Rijndael.mixPolynomial.get (-3) = 1 := rfl
  rw [Rijndael.polyMul, Rijndael.get_ofFn, ← Equiv.sum_comp (Equiv.addLeft r)]
  simp only [Equiv.coe_addLeft, sub_add_cancel_left, Fin.sum_univ_four, h0, h1, h2, h3, one_mul,
    add_zero]

/-- The byte the code mixes, of those of the row and of the next three. -/
theorem mixed_eq {a b c d t : UInt8} (ht : (⟨t⟩ : GF256) = ⟨a⟩ + ⟨b⟩ + ⟨c⟩ + ⟨d⟩) :
    (⟨a ^^^ t ^^^ xtime (a ^^^ b)⟩ : GF256) = ⟨2⟩ * ⟨a⟩ + ⟨3⟩ * ⟨b⟩ + ⟨c⟩ + ⟨d⟩ := by
  have hthree : (⟨3⟩ : GF256) = ⟨2⟩ + 1 := rfl
  have hdouble : (⟨xtime (a ^^^ b)⟩ : GF256) = ⟨2⟩ * (⟨a⟩ + ⟨b⟩) := xtime_eq (a ^^^ b)
  have hsum : (⟨a ^^^ t ^^^ xtime (a ^^^ b)⟩ : GF256) = ⟨a⟩ + ⟨t⟩ + ⟨xtime (a ^^^ b)⟩ := rfl
  rw [hsum, ht, hdouble, hthree]
  linear_combination GF256.add_self ⟨a⟩

/-- Four bytes of a column written in turn. -/
theorem byteAt_setByte_column (b : Block) (c c' r : Fin 4) (v : Fin 4 → UInt8) :
    byteAt (setByte (setByte (setByte (setByte b (idx c 0) (v 0)) (idx c 1) (v 1)) (idx c 2) (v 2))
      (idx c 3) (v 3)) (idx c' r) = if c' = c then v r else byteAt b (idx c' r) := by
  -- the four bytes are a window
  have hwindow := byteAt_foldl_setByte (c * 4) 4 (fun j _ => v (Fin.ofNat 4 j))
    (fun _ _ _ _ _ => rfl) b (idx_lt c' r)
  refine hwindow.trans ?_
  by_cases hc : c' = c
  · subst hc
    have hrow : Fin.ofNat 4 (idx c' r - c' * 4) = r := by
      apply Fin.ext
      simp only [idx, Fin.val_ofNat]
      omega
    rw [if_pos (by rw [idx]; omega), if_pos rfl, hrow]
  · have hout : ¬ (c.val * 4 ≤ idx c' r ∧ idx c' r < c * 4 + 4) := by
      have hne : c'.val ≠ c.val := fun heq => hc (Fin.ext heq)
      rw [idx]
      omega
    rw [if_neg hout, if_neg hc]

theorem get_toState_mixColumn (b : Block) (c c' : Fin 4) :
    (toState (mixColumn b c)).get c' = if c' = c then
      Rijndael.polyMul Rijndael.mixPolynomial ((toState b).get c) else (toState b).get c' := by
  refine Rijndael.ext_get fun r => ?_
  let a (r : Fin 4) : UInt8 := byteAt b (idx c r)
  let t : UInt8 := a 0 ^^^ a 1 ^^^ a 2 ^^^ a 3
  have hcolumn := byteAt_setByte_column b c c' r fun r => a r ^^^ t ^^^ xtime (a r ^^^ a (r + 1))
  rw [get_toState]
  refine (congrArg GF256.mk hcolumn).trans ?_
  split_ifs with hc
  · rw [get_polyMul_mixPolynomial, get_toState, get_toState, get_toState, get_toState]
    refine mixed_eq ?_
    have hcycle (a b c d : GF256) : a + b + c + d = b + c + d + a := by ring
    -- the sum of the column is the same from every row on
    match r with
    | 0 => rfl
    | 1 => exact hcycle _ _ _ _
    | 2 => exact (hcycle _ _ _ _).trans (hcycle _ _ _ _)
    | 3 => exact ((hcycle _ _ _ _).trans (hcycle _ _ _ _)).trans (hcycle _ _ _ _)
  · rw [get_toState]

theorem toState_mixColumns (b : Block) :
    toState (mixColumns b) = Rijndael.mixColumns (toState b) := by
  have hpart : ∀ n ≤ 4, ∀ c : Fin 4, (toState ((List.range n).foldl mixColumn b)).get c =
      if c.val < n then Rijndael.polyMul Rijndael.mixPolynomial ((toState b).get c)
      else (toState b).get c := by
    intro n hn
    induction n with
    | zero => exact fun _ => rfl
    | succ n ih =>
      intro c
      have hbefore := ih (Nat.le_of_succ_le hn)
      have hcolumn := get_toState_mixColumn ((List.range n).foldl mixColumn b) ⟨n, hn⟩ c
      rw [List.range_succ, List.foldl_append, List.foldl_cons, List.foldl_nil, hcolumn]
      by_cases hlast : c = ⟨n, hn⟩
      · rw [if_pos hlast, if_pos (by rw [hlast]; exact Nat.lt_succ_self n), hbefore, ← hlast,
          if_neg (by rw [hlast]; exact Nat.lt_irrefl n)]
      · have hne : c.val ≠ n := fun heq => hlast (Fin.ext heq)
        rw [if_neg hlast, hbefore]
        exact if_congr (by omega) rfl rfl
  refine Rijndael.ext_get fun c => ?_
  rw [mixColumns, hpart 4 (Nat.le_refl 4), if_pos c.isLt, Rijndael.mixColumns, Rijndael.get_map]

/-! ## The key schedule of AES-128 -/

/-- The key itself is the first words of the schedule. -/
theorem toState_key (nk : ℕ) (key : Vector UInt8 (4 * nk)) (b : Block) (r n : ℕ)
    (hr : 4 * r + 4 ≤ nk) (hb : ∀ i < blockSize, byteAt b i = byteAt key (16 * r + i)) :
    toState b = Rijndael.roundKey (Rijndael.expandKey nk (Rijndael.keyWords nk key) n) r := by
  refine ext_toState fun c r' => ?_
  have hlt : 4 * r + c.val < nk := by omega
  have hindex : 16 * r + idx c r' = 4 * (4 * r + c) + r' := by
    rw [idx]
    omega
  rw [Rijndael.roundKey, Rijndael.get_ofFn,
    Rijndael.wordAt_expandKey_of_lt n (by rwa [Rijndael.length_keyWords]),
    Rijndael.get_wordAt_keyWords key hlt, hb _ (idx_lt c r'), hindex]

/-- The last word of a round key rotated and substituted, with the round constant. -/
def scheduledBytes (prev : Block) (rcon : UInt8) : Vector UInt8 4 :=
  let t : Vector UInt8 4 := #v[sbox (byteAt prev 13), sbox (byteAt prev 14),
    sbox (byteAt prev 15), sbox (byteAt prev 12)]
  setByte t 0 (byteAt t 0 ^^^ rcon)

/-- The first column of the round key after `prev`. -/
def firstColumn (prev : Block) (t : Vector UInt8 4) : Block :=
  (List.range 4).foldl (fun cur j => setByte cur j (byteAt prev j ^^^ byteAt t j)) zeroBlock

/-- The first `n` other columns, each from the one before it. -/
def otherColumns (prev cur : Block) (n : ℕ) : Block :=
  (List.range' 1 n).foldl (fun cur col => (List.range 4).foldl
    (fun cur j => setByte cur (idx col j) (byteAt prev (idx col j) ^^^ byteAt cur (idx col j - 4)))
    cur) cur

/-- The round key after `prev`. -/
def nextRoundKey (prev : Block) (rcon : UInt8) : Block :=
  otherColumns prev (firstColumn prev (scheduledBytes prev rcon)) 3

theorem expandRound_eq (rk : Vector Block 11) (rcon : UInt8) (r : ℕ) :
    expandRound (rk, rcon) r =
      (rk.setIfInBounds r (nextRoundKey (rk[r - 1]?.getD zeroBlock) rcon), xtime rcon) := rfl

theorem byteAt_firstColumn (prev : Block) (t : Vector UInt8 4) (r : Fin 4) :
    byteAt (firstColumn prev t) r = byteAt prev r ^^^ byteAt t r := by
  have hwindow := byteAt_foldl_setByte 0 4 (fun j _ => byteAt prev j ^^^ byteAt t j)
    (fun _ _ _ _ _ => rfl) zeroBlock (show r.val < 16 by omega)
  simp only [Nat.zero_add] at hwindow
  exact hwindow.trans (if_pos ⟨Nat.zero_le _, r.isLt⟩)

theorem byteAt_otherColumns (prev cur : Block) {n : ℕ} (hn : n ≤ 3) :
    ∀ i < blockSize, byteAt (otherColumns prev cur n) i =
      if 4 ≤ i ∧ i < 4 * (n + 1) then byteAt prev i ^^^ byteAt (otherColumns prev cur n) (i - 4)
      else byteAt cur i := by
  induction n with
  | zero =>
    intro i _
    rw [if_neg (by omega)]
    rfl
  | succ n ih =>
    have hsize : blockSize = 16 := rfl
    have hstep : otherColumns prev cur (n + 1) = (List.range 4).foldl (fun a j =>
        setByte a ((1 + 1 * n) * 4 + j) (byteAt prev ((1 + 1 * n) * 4 + j) ^^^
          byteAt a ((1 + 1 * n) * 4 + j - 4))) (otherColumns prev cur n) := by
      rw [otherColumns, List.range'_concat, List.foldl_append]
      rfl
    -- the column before the one written is outside the window written
    have hwindow {i : ℕ} (hi : i < blockSize) := byteAt_foldl_setByte ((1 + 1 * n) * 4) 4
      (fun j a => byteAt prev ((1 + 1 * n) * 4 + j) ^^^ byteAt a ((1 + 1 * n) * 4 + j - 4))
      (fun j hj a a' h => congrArg (byteAt prev _ ^^^ ·) (h _ (by omega) (by omega)))
      (otherColumns prev cur n) hi
    rw [← hstep] at hwindow
    intro i hi
    by_cases hin : 4 * (n + 1) ≤ i ∧ i < 4 * (n + 2)
    · have hindex : (1 + 1 * n) * 4 + (i - (1 + 1 * n) * 4) = i := by omega
      rw [if_pos (by omega), hwindow hi, if_pos (by omega), hindex, hwindow (by omega),
        if_neg (by omega)]
    · rw [hwindow hi, if_neg (by omega), ih (by omega) i hi]
      by_cases hbefore : 4 ≤ i ∧ i < 4 * (n + 1)
      · rw [if_pos hbefore, if_pos (by omega), hwindow (by omega), if_neg (by omega)]
      · rw [if_neg hbefore, if_neg (by omega)]

theorem byteAt_nextRoundKey_zero (prev : Block) (rcon : UInt8) (r : Fin 4) :
    byteAt (nextRoundKey prev rcon) (idx 0 r) =
      byteAt prev (idx 0 r) ^^^ byteAt (scheduledBytes prev rcon) r := by
  have hindex : idx 0 r = r := by rw [idx, Nat.zero_mul, Nat.zero_add]
  have hlt : r.val < blockSize := hindex ▸ idx_lt 0 r
  rw [hindex, nextRoundKey, byteAt_otherColumns _ _ (Nat.le_refl 3) _ hlt, if_neg (by omega),
    byteAt_firstColumn]

theorem byteAt_nextRoundKey_succ (prev : Block) (rcon : UInt8) {c : ℕ} (hc : c < 3) (r : Fin 4) :
    byteAt (nextRoundKey prev rcon) (idx (c + 1) r) =
      byteAt prev (idx (c + 1) r) ^^^ byteAt (nextRoundKey prev rcon) (idx c r) := by
  have hlt : c + 1 < 4 := Nat.succ_lt_succ hc
  have hindex : idx (c + 1) r = idx c r + 4 := by
    rw [idx, idx]
    omega
  have hin : 4 ≤ idx (c + 1) r ∧ idx (c + 1) r < 4 * (3 + 1) := by
    rw [idx]
    omega
  rw [nextRoundKey, byteAt_otherColumns _ _ (Nat.le_refl 3) _ (idx_lt ⟨c + 1, hlt⟩ r), if_pos hin,
    hindex, Nat.add_sub_cancel]

theorem get_scheduledBytes (prev : Block) (rcon : UInt8) (w : Word)
    (hw : (toState prev).get 3 = w) {n : ℕ} (hrcon : (⟨rcon⟩ : GF256) = ⟨2⟩ ^ n) (r : Fin 4) :
    ⟨byteAt (scheduledBytes prev rcon) r⟩ =
      (Rijndael.subWord (Rijndael.rotWord w) + Rijndael.rcon (n + 1)).get r := by
  have hbyte (r : Fin 4) : (Rijndael.subWord (Rijndael.rotWord w)).get r =
      ⟨sbox (byteAt prev (idx 3 (r + 1 : Fin 4)))⟩ := by
    rw [sbox_eq, Rijndael.subWord, Rijndael.get_map, Rijndael.get_rotWord, ← hw]
    exact congrArg Rijndael.sBox (get_toState prev 3 (r + 1))
  rw [Rijndael.get_add, hbyte]
  match r with
  | 0 => exact congrArg (GF256.mk (sbox (byteAt prev 13)) + ·) hrcon
  | 1 => exact (add_zero _).symm
  | 2 => exact (add_zero _).symm
  | 3 => exact (add_zero _).symm

section Schedule

variable {w : List Word} {n : ℕ}

/-- **One round of the key expansion.** -/
theorem toState_nextRoundKey (hw : ∀ i, 4 ≤ i → i < 44 →
      wordAt w i = wordAt w (i - 4) + Rijndael.scheduled 4 i (wordAt w (i - 1)))
    (hn : n < 10) {prev : Block} {rcon : UInt8} (hprev : toState prev = Rijndael.roundKey w n)
    (hrcon : (⟨rcon⟩ : GF256) = ⟨2⟩ ^ n) :
    toState (nextRoundKey prev rcon) = Rijndael.roundKey w (n + 1) := by
  have hold (c : Fin 4) : (toState prev).get c = wordAt w (4 * n + c) := by
    rw [hprev, Rijndael.roundKey, Rijndael.get_ofFn]
  have hnew : ∀ c (hc : c < 4),
      (toState (nextRoundKey prev rcon)).get ⟨c, hc⟩ = wordAt w (4 * (n + 1) + c) := by
    intro c hc
    induction c with
    | zero =>
      have hlast : (toState prev).get 3 = wordAt w (4 * (n + 1) - 1) := hold 3
      have habove : (toState prev).get 0 = wordAt w (4 * (n + 1) - 4) := hold 0
      have hconst : 4 * (n + 1) % 4 = 0 := Nat.mul_mod_right 4 _
      rw [Nat.add_zero, hw _ (by omega) (by omega), Rijndael.scheduled, if_pos hconst,
        Nat.mul_div_cancel_left _ (by simp), ← habove, ← hlast]
      refine Rijndael.ext_get fun r => ?_
      rw [Rijndael.get_add, ← get_scheduledBytes prev rcon _ rfl hrcon r, get_toState, get_toState]
      exact congrArg GF256.mk (byteAt_nextRoundKey_zero prev rcon r)
    | succ c ih =>
      have hup : 4 * (n + 1) + (c + 1) - 4 = 4 * n + (c + 1) := by omega
      have hleft : 4 * (n + 1) + (c + 1) - 1 = 4 * (n + 1) + c := rfl
      rw [hw _ (by omega) (by omega), hup, hleft, Rijndael.scheduled, if_neg (by omega),
        if_neg (by omega), ← hold ⟨c + 1, hc⟩, ← ih (by omega)]
      refine Rijndael.ext_get fun r => ?_
      rw [Rijndael.get_add, get_toState, get_toState, get_toState]
      exact congrArg GF256.mk (byteAt_nextRoundKey_succ prev rcon (by omega) r)
  refine Rijndael.ext_get fun c => (hnew c c.isLt).trans ?_
  rw [Rijndael.roundKey, Rijndael.get_ofFn]

end Schedule

/-- **The round keys are those of the schedule.** -/
theorem toState_roundKeys (key : Block) {r : ℕ} (hr : r ≤ 10) :
    toState ((new key).roundKeys[r]?.getD zeroBlock) =
      Rijndael.roundKey (Rijndael.expandKey 4 (Rijndael.keyWords 4 key) 40) r := by
  set w := Rijndael.expandKey 4 (Rijndael.keyWords 4 key) 40 with hw
  have hlen : (Rijndael.keyWords 4 key).length = 4 := Rijndael.length_keyWords 4 key
  have hword (i : ℕ) (hle : 4 ≤ i) (hlt : i < 44) :
      wordAt w i = wordAt w (i - 4) + Rijndael.scheduled 4 i (wordAt w (i - 1)) :=
    Rijndael.wordAt_expandKey (by simp) hlen hle hlt
  have hpart : ∀ n ≤ 10, ∀ rk rcon, (List.range' 1 n).foldl expandRound
        ((Vector.replicate 11 zeroBlock).setIfInBounds 0 key, 1) = (rk, rcon) →
      (∀ r ≤ n, toState (rk[r]?.getD zeroBlock) = Rijndael.roundKey w r) ∧
        (⟨rcon⟩ : GF256) = ⟨2⟩ ^ n := by
    intro n hn
    induction n with
    | zero =>
      rintro rk rcon h
      obtain ⟨rfl, rfl⟩ := Prod.mk.inj h
      refine ⟨fun r hr => ?_, (pow_zero _).symm⟩
      rw [Nat.le_zero.mp hr, Vector.getElem?_setIfInBounds_self_of_lt (by simp), Option.getD_some]
      exact toState_key 4 key key 0 40 (Nat.le_refl 4) fun i _ => by rw [Nat.mul_zero, Nat.zero_add]
    | succ n ih =>
      rintro rk rcon h
      obtain ⟨hkeys, hrcon⟩ := ih (by omega) _ _ rfl
      rw [List.range'_concat, List.foldl_append, List.foldl_cons, List.foldl_nil,
        expandRound_eq] at h
      obtain ⟨rfl, rfl⟩ := Prod.mk.inj h
      have hlast : 1 + 1 * n = n + 1 := by omega
      refine ⟨fun r hr => ?_, ?_⟩
      · rw [hlast, Nat.add_sub_cancel]
        obtain hbefore | rfl := Nat.le_or_eq_of_le_succ hr
        · rw [Vector.getElem?_setIfInBounds_ne (by omega)]
          exact hkeys r hbefore
        · rw [Vector.getElem?_setIfInBounds_self_of_lt (by omega), Option.getD_some]
          exact toState_nextRoundKey hword hn (hkeys n (Nat.le_refl n)) hrcon
      · rw [xtime_eq, hrcon, pow_succ']
  exact (hpart 10 (Nat.le_refl 10) _ _ rfl).1 r hr

/-! ## The rounds -/

/-- A round that mixes the columns. -/
theorem toState_round (b k : Block) :
    toState (addRoundKey (mixColumns (shiftRows (subBytes b))) k) =
      Rijndael.mixColumns (Rijndael.shiftRows (Rijndael.subBytes (toState b))) + toState k := by
  rw [toState_addRoundKey, toState_mixColumns, toState_shiftRows, toState_subBytes]

theorem toState_rounds {rk : ℕ → Block} {w : List Word} {nr : ℕ}
    (hrk : ∀ r ≤ nr, toState (rk r) = Rijndael.roundKey w r) (b : Block) :
    toState (addRoundKey (shiftRows (subBytes ((List.range' 1 (nr - 1)).foldl
        (fun b r => addRoundKey (mixColumns (shiftRows (subBytes b))) (rk r))
        (addRoundKey b (rk 0))))) (rk nr)) =
      Rijndael.cipher nr w (toState b) := by
  have hrounds : ∀ (rounds : List ℕ), (∀ r ∈ rounds, r ≤ nr) → ∀ b,
      toState (rounds.foldl
          (fun b r => addRoundKey (mixColumns (shiftRows (subBytes b))) (rk r)) b) =
        rounds.foldl (fun s r => Rijndael.mixColumns (Rijndael.shiftRows (Rijndael.subBytes s)) +
          Rijndael.roundKey w r) (toState b) := by
    intro rounds hle b
    induction rounds generalizing b with
    | nil => rfl
    | cons r rounds ih =>
      have hhead := hrk r (hle r List.mem_cons_self)
      rw [List.foldl_cons, List.foldl_cons, ih (fun r h => hle r (List.mem_cons_of_mem _ h)),
        toState_round, hhead]
  have hbound (r : ℕ) (hr : r ∈ List.range' 1 (nr - 1)) : r ≤ nr := by
    have hmem := List.mem_range'_1.mp hr
    omega
  rw [toState_addRoundKey, toState_shiftRows, toState_subBytes, hrounds _ hbound,
    toState_addRoundKey, hrk 0 (Nat.zero_le nr), hrk nr (Nat.le_refl nr), Rijndael.cipher]

/-- **The code's AES-128 is the standard's.** -/
theorem encryptBlock_eq (key block : Block) :
    (new key).encryptBlock block = Rijndael.aes128 key block := by
  apply Rijndael.toState_injective
  refine (toState_rounds (fun _ hr => toState_roundKeys key hr) block).trans ?_
  rw [Rijndael.aes128, Rijndael.encrypt, Rijndael.toState_ofState]

end Aes128

/-! ## AES-256 -/

namespace Aes256

section Schedule

/-- What is added to the word eight before, and the round constant left behind. -/
def scheduledBytes (t : Vector UInt8 4) (rcon : UInt8) (i : ℕ) : Vector UInt8 4 × UInt8 :=
  if i % 8 = 0 then
    (#v[sbox (byteAt t 1) ^^^ rcon, sbox (byteAt t 2), sbox (byteAt t 3), sbox (byteAt t 0)],
      xtime rcon)
  else if i % 8 = 4 then
    (#v[sbox (byteAt t 0), sbox (byteAt t 1), sbox (byteAt t 2), sbox (byteAt t 3)], rcon)
  else (t, rcon)

/-- The four bytes of a word. -/
def wordBytes (a : Vector UInt8 240) (i : ℕ) : Vector UInt8 4 :=
  #v[byteAt a (i * 4), byteAt a (i * 4 + 1), byteAt a (i * 4 + 2), byteAt a (i * 4 + 3)]

theorem expandWord_eq (a : Vector UInt8 240) (rcon : UInt8) (i : ℕ) :
    expandWord (a, rcon) i =
      let t := scheduledBytes (wordBytes a (i - 1)) rcon i
      ((List.range 4).foldl (fun w j =>
        setByte w (i * 4 + j) (byteAt w ((i - 8) * 4 + j) ^^^ byteAt t.1 j)) a, t.2) := by
  rfl

/-- Four bytes as a word. -/
def toWord (t : Vector UInt8 4) : Word := .ofFn fun r => ⟨byteAt t r⟩

theorem get_toWord_wordBytes (a : Vector UInt8 240) (i : ℕ) (r : Fin 4) :
    (toWord (wordBytes a i)).get r = ⟨byteAt a (i * 4 + r)⟩ := by
  rw [toWord, Rijndael.get_ofFn]
  match r with
  | 0 | 1 | 2 | 3 => rfl

theorem toWord_scheduledBytes (t : Vector UInt8 4) (rcon : UInt8) {i : ℕ} (hi : 8 ≤ i)
    (hrcon : (⟨rcon⟩ : GF256) = ⟨2⟩ ^ ((i - 1) / 8)) :
    toWord (scheduledBytes t rcon i).1 = Rijndael.scheduled 8 i (toWord t) ∧
      (⟨(scheduledBytes t rcon i).2⟩ : GF256) = ⟨2⟩ ^ (i / 8) := by
  have hsub (r : Fin 4) : (Rijndael.subWord (toWord t)).get r = ⟨sbox (byteAt t r)⟩ := by
    rw [Rijndael.subWord, Rijndael.get_map, toWord, Rijndael.get_ofFn, sbox_eq]
  have hrot (r : Fin 4) : (Rijndael.subWord (Rijndael.rotWord (toWord t))).get r =
      ⟨sbox (byteAt t (r + 1 : Fin 4))⟩ := by
    rw [Rijndael.subWord, Rijndael.get_map, Rijndael.get_rotWord, toWord, Rijndael.get_ofFn,
      sbox_eq]
  unfold scheduledBytes Rijndael.scheduled
  split_ifs with heighth hhalf hspec hspec
  · have hquotient : (i - 1) / 8 = i / 8 - 1 := by omega
    rw [hquotient] at hrcon
    refine ⟨Rijndael.ext_get fun r => ?_, ?_⟩
    · rw [Rijndael.get_add, hrot, toWord, Rijndael.get_ofFn]
      match r with
      | 0 => exact congrArg (GF256.mk (sbox (byteAt t 1)) + ·) hrcon
      | 1 | 2 | 3 => exact (add_zero _).symm
    · rw [xtime_eq, hrcon, ← pow_succ', Nat.sub_add_cancel (by omega)]
  · refine ⟨Rijndael.ext_get fun r => ?_, by rwa [(by omega : (i - 1) / 8 = i / 8)] at hrcon⟩
    rw [hsub, toWord, Rijndael.get_ofFn]
    match r with
    | 0 | 1 | 2 | 3 => rfl
  · exact absurd ⟨by simp, hhalf⟩ hspec
  · exact absurd hspec.2 hhalf
  · exact ⟨rfl, by rwa [(by omega : (i - 1) / 8 = i / 8)] at hrcon⟩

/-- One word written, the others as they were. -/
theorem wordBytes_expandWord (a : Vector UInt8 240) (rcon : UInt8) {i k : ℕ} (hi : 8 ≤ i)
    (hlt : i < 60) (hk : k < 60) :
    toWord (wordBytes (expandWord (a, rcon) i).1 k) = if k = i then
      toWord (wordBytes a (i - 8)) + toWord (scheduledBytes (wordBytes a (i - 1)) rcon i).1
    else toWord (wordBytes a k) := by
  refine Rijndael.ext_get fun r => ?_
  have hwindow := byteAt_foldl_setByte (i * 4) 4 (fun j w => byteAt w ((i - 8) * 4 + j) ^^^
      byteAt (scheduledBytes (wordBytes a (i - 1)) rcon i).1 j)
    (fun j hj w w' h => congrArg (· ^^^ _) (h _ (by omega) (by omega))) a
    (show k * 4 + r.val < 240 by omega)
  rw [get_toWord_wordBytes, expandWord_eq]
  refine (congrArg GF256.mk hwindow).trans ?_
  split_ifs with hin hik hik
  · rw [Rijndael.get_add, get_toWord_wordBytes, toWord, Rijndael.get_ofFn, hik,
      Nat.add_sub_cancel_left]
    rfl
  · omega
  · omega
  · rw [get_toWord_wordBytes]

/-- The key copied to the front. -/
theorem byteAt_copyKey (key : Vector UInt8 32) {i : ℕ} (hi : i < 32) :
    byteAt ((List.range 32).foldl (fun w i => setByte w i (byteAt key i))
      (Vector.replicate 240 (0 : UInt8))) i = byteAt key i := by
  have hwindow := byteAt_foldl_setByte 0 32 (fun j _ => byteAt key j) (fun _ _ _ _ _ => rfl)
    (Vector.replicate 240 (0 : UInt8)) (show i < 240 by omega)
  simp only [Nat.zero_add] at hwindow
  exact hwindow.trans (if_pos ⟨Nat.zero_le i, hi⟩)

end Schedule

/-- **The words computed are those of the schedule.** -/
theorem toWord_expandWords (key : Vector UInt8 32) {k : ℕ} (hk : k < 60) :
    toWord (wordBytes ((List.range' 8 52).foldl expandWord ((List.range 32).foldl
      (fun w i => setByte w i (byteAt key i)) (Vector.replicate 240 0), 1)).1 k) =
      wordAt (Rijndael.expandKey 8 (Rijndael.keyWords 8 key) 52) k := by
  set w := Rijndael.expandKey 8 (Rijndael.keyWords 8 key) 52
  have hlen : (Rijndael.keyWords 8 key).length = 8 := Rijndael.length_keyWords 8 key
  have hpart : ∀ n ≤ 52, ∀ a rcon, (List.range' 8 n).foldl expandWord ((List.range 32).foldl
        (fun w i => setByte w i (byteAt key i)) (Vector.replicate 240 0), 1) = (a, rcon) →
      (∀ k < 8 + n, toWord (wordBytes a k) = wordAt w k) ∧
        (⟨rcon⟩ : GF256) = ⟨2⟩ ^ ((8 + n - 1) / 8) := by
    intro n hn
    induction n with
    | zero =>
      rintro a rcon h
      obtain ⟨rfl, rfl⟩ := Prod.mk.inj h
      refine ⟨fun k hk => Rijndael.ext_get fun r => ?_, (pow_zero _).symm⟩
      rw [get_toWord_wordBytes, byteAt_copyKey key (by omega), Nat.mul_comm,
        Rijndael.wordAt_expandKey_of_lt 52 (hlen.symm ▸ hk), Rijndael.get_wordAt_keyWords _ hk]
    | succ n ih =>
      rintro a rcon h
      obtain ⟨⟨a', rcon'⟩, hbefore⟩ : ∃ s, s = (List.range' 8 n).foldl expandWord
        ((List.range 32).foldl (fun w i => setByte w i (byteAt key i))
          (Vector.replicate 240 0), 1) := ⟨_, rfl⟩
      obtain ⟨hwords, hrcon⟩ := ih (by omega) _ _ hbefore.symm
      rw [List.range'_concat, List.foldl_append, ← hbefore, List.foldl_cons, List.foldl_nil,
        Nat.one_mul] at h
      have hscheduled := toWord_scheduledBytes (wordBytes a' (8 + n - 1)) rcon' (by omega) hrcon
      obtain ⟨rfl, rfl⟩ : (expandWord (a', rcon') (8 + n)).1 = a ∧
        (expandWord (a', rcon') (8 + n)).2 = rcon := by rw [h]; exact ⟨rfl, rfl⟩
      refine ⟨fun k hk => ?_, hscheduled.2⟩
      rw [wordBytes_expandWord a' rcon' (by omega) (by omega) (by omega)]
      split_ifs with hlast
      · rw [hscheduled.1, hwords _ (by omega), hwords _ (by omega), hlast]
        exact (Rijndael.wordAt_expandKey (by simp) hlen (by omega) (by omega)).symm
      · exact hwords k (by omega)
  exact (hpart 52 (Nat.le_refl 52) _ _ rfl).1 k hk

/-- **The round keys are those of the schedule.** -/
theorem toState_roundKeys (key : Vector UInt8 32) {r : ℕ} (hr : r ≤ 14) :
    toState ((new key).roundKeys[r]?.getD zeroBlock) =
      Rijndael.roundKey (Rijndael.expandKey 8 (Rijndael.keyWords 8 key) 52) r := by
  refine ext_toState fun c r' => ?_
  have hindex : r * blockSize + idx c r' = (4 * r + c) * 4 + r' := by
    change r * 16 + (c.val * 4 + r'.val) = _
    omega
  have hlt : 4 * r + c.val < 60 := by omega
  have hr' : r < 15 := Nat.lt_succ_of_le hr
  rw [Rijndael.roundKey, Rijndael.get_ofFn, ← toWord_expandWords key hlt, get_toWord_wordBytes,
    ← hindex, byteAt_of_lt _ (idx_lt c r'), new]
  simp only [Vector.getElem?_eq_getElem hr', Option.getD_some, Vector.getElem_ofFn]

/-- **The code's AES-256 is the standard's.** -/
theorem encryptBlock_eq (key : Vector UInt8 32) (block : Block) :
    (new key).encryptBlock block = Rijndael.aes256 key block := by
  apply Rijndael.toState_injective
  refine (Aes128.toState_rounds (fun _ hr => toState_roundKeys key hr) block).trans ?_
  rw [Rijndael.aes256, Rijndael.encrypt, Rijndael.toState_ofState]

end Aes256

end TetherMesh.Protocol
