import Mathlib.Algebra.BigOperators.Fin
import TetherMesh.Math.Bytes
import TetherMesh.Math.Recurrence
import TetherMesh.Math.RijndaelField

/-!
# The forward AES ciphers of FIPS 197

The state is four columns of four bytes, the key schedule a list of such columns, and every
step is one on the field of 256 elements. A key of `nk` columns has `nk + 6` rounds, so that
four is AES-128 and eight AES-256.

## Main definitions

* `sBox`, `shiftRows`, `mixColumns` — the steps on a state
* `expandKey` — the key schedule
* `cipher`, `encrypt` — the rounds, and the cipher on blocks of bytes

## Main results

* `wordAt_expandKey` — the key schedule word by word
* `encrypt_injective` — a key never encrypts two blocks alike
-/

namespace TetherMesh.CS.Rijndael

open Math

/-- A column: a word of the key schedule. -/
abbrev Word := Vector GF256 4

/-- Four columns. -/
abbrev State := Vector Word 4

theorem get_ofFn {α : Type*} {n : ℕ} (f : Fin n → α) (i : Fin n) : (Vector.ofFn f).get i = f i :=
  Vector.getElem_ofFn i.isLt

theorem get_map {α β : Type*} {n : ℕ} (f : α → β) (v : Vector α n) (i : Fin n) :
    (v.map f).get i = f (v.get i) := Vector.getElem_map ..

theorem get_add {α : Type*} [Add α] {n : ℕ} (v w : Vector α n) (i : Fin n) :
    (v + w).get i = v.get i + w.get i := Vector.getElem_add ..

theorem ext_get {α : Type*} {n : ℕ} {v w : Vector α n} (h : ∀ i, v.get i = w.get i) : v = w := by
  apply Vector.ext
  intro i hi
  exact h ⟨i, hi⟩

/-! ## SubBytes -/

/-- Bit `i` of a byte, modulo eight. -/
def bit (a : GF256) (i : ℕ) : Bool := a.byte.toNat.testBit (i % 8)

/-- The byte of eight bits. -/
def ofBits (f : ℕ → Bool) : GF256 :=
  ⟨UInt8.ofNat ((List.range 8).foldl (fun n i => n + 2 ^ i * (f i).toNat) 0)⟩

/-- The affine map over the bits. -/
def affine (a : GF256) : GF256 :=
  ofBits fun i => bit a i ^^ bit a (i + 4) ^^ bit a (i + 5) ^^ bit a (i + 6) ^^ bit a (i + 7) ^^
    bit ⟨0x63⟩ i

/-- The inverse in the field, and zero for zero, then the affine map. -/
def sBox (a : GF256) : GF256 := affine a⁻¹

def subWord (w : Word) : Word := w.map sBox

def subBytes (s : State) : State := s.map subWord

/-! ## ShiftRows and MixColumns -/

/-- Row `r` is rotated left by `r`. -/
def shiftRows (s : State) : State := .ofFn fun c => .ofFn fun r => (s.get (c + r)).get r

/-- The product of two columns as polynomials, modulo `y ^ 4 + 1`. -/
def polyMul (a b : Word) : Word := .ofFn fun i => ∑ j, a.get (i - j) * b.get j

/-- `{03} y ^ 3 + {01} y ^ 2 + {01} y + {02}`. -/
def mixPolynomial : Word := #v[⟨2⟩, ⟨1⟩, ⟨1⟩, ⟨3⟩]

/-- Each column is multiplied by the fixed polynomial. -/
def mixColumns (s : State) : State := s.map (polyMul mixPolynomial)

/-! ## The key schedule -/

def rotWord (w : Word) : Word := .ofFn fun r => w.get ⟨(r + 1) % 4, Nat.mod_lt _ four_pos⟩

theorem get_rotWord (w : Word) (r : Fin 4) : (rotWord w).get r = w.get (r + 1) := by
  rw [rotWord, get_ofFn]
  rfl

/-- The round constant `x ^ (i - 1)`, in the first byte. -/
def rcon (i : ℕ) : Word := #v[⟨2⟩ ^ (i - 1), 0, 0, 0]

/-- What word `i - 1` is turned into for word `i`. -/
def scheduled (nk i : ℕ) (temp : Word) : Word :=
  if i % nk = 0 then subWord (rotWord temp) + rcon (i / nk)
  else if 6 < nk ∧ i % nk = 4 then subWord temp
  else temp

/-- Word `i` of the schedule so far. -/
def wordAt (w : List Word) (i : ℕ) : Word := w.getD i (.replicate 4 0)

/-- The word after those of the schedule so far. -/
def nextWord (nk : ℕ) (w : List Word) : Word :=
  wordAt w (w.length - nk) + scheduled nk w.length (wordAt w (w.length - 1))

/-- The key and the next `n` words. -/
def expandKey (nk : ℕ) (key : List Word) (n : ℕ) : List Word := grow (nextWord nk) key n

section Schedule

variable {nk i : ℕ} {key : List Word}

theorem wordAt_expandKey_of_lt (n : ℕ) (hi : i < key.length) :
    wordAt (expandKey nk key n) i = wordAt key i := getD_grow_of_lt _ n hi

/-- **The schedule word by word**: each is the sum of the one `nk` before it and of what the
word just before is turned into. -/
theorem wordAt_expandKey (hnk : 0 < nk) (hkey : key.length = nk) {n : ℕ} (hle : nk ≤ i)
    (hi : i < nk + n) : wordAt (expandKey nk key n) i =
      wordAt (expandKey nk key n) (i - nk) +
        scheduled nk i (wordAt (expandKey nk key n) (i - 1)) := by
  -- it was computed when the schedule had all words before it
  have hword : wordAt (expandKey nk key n) i = nextWord nk (expandKey nk key (i - nk)) := by
    have hgrow : wordAt (expandKey nk key n) i =
        nextWord nk (expandKey nk key (i - key.length)) :=
      getD_grow _ (hkey.trans_le hle) (hkey ▸ hi)
    rwa [hkey] at hgrow
  have hstay (j : ℕ) (hj : j < i) :
      wordAt (expandKey nk key n) j = wordAt (expandKey nk key (i - nk)) j := by
    have hadd : i - nk + (nk + n - i) = n := by omega
    conv_lhs => rw [← hadd]
    exact getD_grow_add _ _ _ (by omega)
  have hlen : (expandKey nk key (i - nk)).length = i := by
    rw [expandKey, length_grow, hkey, Nat.add_sub_cancel' hle]
  rw [hword, nextWord, hlen, hstay _ (by omega), hstay _ (by omega)]

end Schedule

/-! ## The cipher -/

/-- The round key: four words of the schedule. -/
def roundKey (w : List Word) (round : ℕ) : State :=
  .ofFn fun c => wordAt w (4 * round + c)

/-- `nr` rounds, the last of which mixes no columns. -/
def cipher (nr : ℕ) (w : List Word) (s : State) : State :=
  let s := s + roundKey w 0
  let s := (List.range' 1 (nr - 1)).foldl
    (fun s round => mixColumns (shiftRows (subBytes s)) + roundKey w round) s
  shiftRows (subBytes s) + roundKey w nr

/-- Sixteen bytes, column after column. -/
def toState (block : Vector UInt8 16) : State :=
  .ofFn fun c => .ofFn fun r => ⟨byteAt block (4 * c + r)⟩

/-- The bytes of a state. -/
def ofState (s : State) : Vector UInt8 16 :=
  .ofFn fun i => ((s.get ⟨i / 4, by omega⟩).get ⟨i % 4, by omega⟩).byte

/-- The words of a key. -/
def keyWords (nk : ℕ) (key : Vector UInt8 (4 * nk)) : List Word :=
  (List.range nk).map fun i => .ofFn fun r => ⟨byteAt key (4 * i + r)⟩

theorem length_keyWords (nk : ℕ) (key : Vector UInt8 (4 * nk)) :
    (keyWords nk key).length = nk := by
  rw [keyWords, List.length_map, List.length_range]

theorem get_wordAt_keyWords {nk : ℕ} (key : Vector UInt8 (4 * nk)) {i : ℕ} (hi : i < nk)
    (r : Fin 4) : (wordAt (keyWords nk key) i).get r = ⟨byteAt key (4 * i + r)⟩ := by
  rw [wordAt, keyWords, List.getD_eq_getElem?_getD, List.getElem?_map, List.getElem?_range hi,
    Option.map_some, Option.getD_some, get_ofFn]

/-- The cipher under a key of `nk` words. -/
def encrypt (nk : ℕ) (key : Vector UInt8 (4 * nk)) (block : Vector UInt8 16) : Vector UInt8 16 :=
  let nr := nk + 6
  let w := expandKey nk (keyWords nk key) (4 * (nr + 1) - nk)
  ofState (cipher nr w (toState block))

/-- AES-128. -/
def aes128 (key block : Vector UInt8 16) : Vector UInt8 16 := encrypt 4 key block

/-- AES-256. -/
def aes256 (key : Vector UInt8 32) (block : Vector UInt8 16) : Vector UInt8 16 :=
  encrypt 8 key block

/-- The standard's own example. -/
example : aes128 (.ofFn fun i => UInt8.ofNat i) (.ofFn fun i => UInt8.ofNat (17 * i)) =
    #v[0x69, 0xc4, 0xe0, 0xd8, 0x6a, 0x7b, 0x04, 0x30, 0xd8, 0xcd, 0xb7, 0x80, 0x70, 0xb4, 0xc5,
      0x5a] := by decide +kernel

/-! ## Every step is one to one -/

/-- The affine map back. -/
def invAffine (a : GF256) : GF256 :=
  ofBits fun i => bit a (i + 2) ^^ bit a (i + 5) ^^ bit a (i + 7) ^^ bit ⟨0x05⟩ i

theorem invAffine_affine (a : GF256) : invAffine (affine a) = a := by
  revert a
  exact GF256.forall_byte (by decide +kernel)

theorem sBox_injective : Function.Injective sBox := by
  intro a b h
  have haffine : Function.Injective affine := Function.LeftInverse.injective invAffine_affine
  exact inv_injective (haffine h)

theorem subBytes_injective : Function.Injective subBytes := by
  have hword : Function.Injective subWord :=
    fun v w h => (Vector.map_inj_right fun _ _ heq => sBox_injective heq).mp h
  exact fun s t h => (Vector.map_inj_right fun _ _ heq => hword heq).mp h

theorem shiftRows_injective : Function.Injective shiftRows := by
  intro s t h
  refine ext_get fun c => ext_get fun r => ?_
  have hbyte := congrArg (fun s : State => (s.get (c - r)).get r) h
  simpa only [shiftRows, get_ofFn, sub_add_cancel] using hbyte

theorem polyMul_assoc (a b w : Word) : polyMul (polyMul a b) w = polyMul a (polyMul b w) := by
  refine ext_get fun i => ?_
  simp only [polyMul, get_ofFn, Finset.sum_mul, Finset.mul_sum]
  conv_rhs => rw [Finset.sum_comm]
  refine Finset.sum_congr rfl fun k _ => ?_
  -- the index of the inner sum is moved by `k`
  rw [← Equiv.sum_comp (Equiv.addRight k) fun j => a.get (i - j) * (b.get (j - k) * w.get k)]
  refine Finset.sum_congr rfl fun j _ => ?_
  rw [Equiv.coe_addRight, add_sub_cancel_right, mul_assoc, sub_sub, add_comm k]

theorem polyMul_one (w : Word) : polyMul #v[1, 0, 0, 0] w = w := by
  have hone : ∀ d : Fin 4, (#v[1, 0, 0, 0] : Word).get d = if d = 0 then 1 else 0 := by decide
  refine ext_get fun i => ?_
  rw [polyMul, get_ofFn]
  simp [hone, sub_eq_zero]

/-- `{0b} y ^ 3 + {0d} y ^ 2 + {09} y + {0e}`: the inverse of the fixed polynomial. -/
def invMixPolynomial : Word := #v[⟨0x0e⟩, ⟨0x09⟩, ⟨0x0d⟩, ⟨0x0b⟩]

theorem polyMul_invMixPolynomial : polyMul invMixPolynomial mixPolynomial = #v[1, 0, 0, 0] := by
  decide +kernel

theorem mixColumns_injective : Function.Injective mixColumns := by
  have hcolumn : Function.Injective (polyMul mixPolynomial) := by
    refine Function.LeftInverse.injective (g := polyMul invMixPolynomial) fun w => ?_
    rw [← polyMul_assoc, polyMul_invMixPolynomial, polyMul_one]
  exact fun s t h => (Vector.map_inj_right fun _ _ heq => hcolumn heq).mp h

theorem add_round_injective (k : State) : Function.Injective (· + k) := by
  intro s t h
  refine ext_get fun c => ext_get fun r => ?_
  have hbyte := congrArg (fun s : State => (s.get c).get r) h
  simpa only [get_add, add_left_inj] using hbyte

theorem cipher_injective (nr : ℕ) (w : List Word) : Function.Injective (cipher nr w) := by
  have hround (k : State) :
      Function.Injective fun s => mixColumns (shiftRows (subBytes s)) + k :=
    (add_round_injective k).comp
      (mixColumns_injective.comp (shiftRows_injective.comp subBytes_injective))
  have hrounds (rounds : List ℕ) : Function.Injective fun s : State =>
      rounds.foldl (fun s round => mixColumns (shiftRows (subBytes s)) + roundKey w round) s := by
    induction rounds with
    | nil => exact fun _ _ h => h
    | cons round rounds ih => exact ih.comp (hround _)
  exact (add_round_injective _).comp (shiftRows_injective.comp (subBytes_injective.comp
    ((hrounds _).comp (add_round_injective _))))

theorem toState_injective : Function.Injective toState := by
  intro b b' h
  refine ext_byteAt fun i hi => ?_
  have hbyte := congrArg (fun s : State => ((s.get ⟨i / 4, by omega⟩).get ⟨i % 4, by omega⟩).byte) h
  simpa only [toState, get_ofFn, Nat.div_add_mod] using hbyte

/-- The bytes of a state are read back as it. -/
theorem toState_ofState (s : State) : toState (ofState s) = s := by
  refine ext_get fun c => ext_get fun r => ?_
  have hlt : 4 * c.val + r.val < 16 := by omega
  have hcolumn : (⟨(4 * c.val + r.val) / 4, by omega⟩ : Fin 4) = c :=
    Fin.ext (show (4 * c.val + r.val) / 4 = c by omega)
  have hrow : (⟨(4 * c.val + r.val) % 4, by omega⟩ : Fin 4) = r :=
    Fin.ext (show (4 * c.val + r.val) % 4 = r by omega)
  rw [toState, get_ofFn, get_ofFn, byteAt_of_lt _ hlt, ofState, Vector.getElem_ofFn, hcolumn, hrow]

/-- **A key never encrypts two blocks alike.** -/
theorem encrypt_injective (nk : ℕ) (key : Vector UInt8 (4 * nk)) :
    Function.Injective (encrypt nk key) :=
  (Function.LeftInverse.injective toState_ofState).comp
    ((cipher_injective _ _).comp toState_injective)

end TetherMesh.CS.Rijndael
