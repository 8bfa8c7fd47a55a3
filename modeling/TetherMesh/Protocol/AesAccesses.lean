import TetherMesh.Math.CheckedBytes
import TetherMesh.Protocol.AesStandard

/-!
# No access of the block ciphers misses

The code reads and writes through accessors that answer zero, or do nothing, outside the
array. Here both ciphers are written again with accessors that answer `none` there, and
shown to answer what the code computes: the fallbacks are never reached.

## Main definitions

* `Aes128.new?`, `Aes128.encryptBlock?`, `Aes256.new?`, `Aes256.encryptBlock?`

## Main results

* `Aes128.new?_eq`, `Aes128.encryptBlock?_eq`, `Aes256.new?_eq`, `Aes256.encryptBlock?_eq`
* `encryptBlock_is_standard`
-/

namespace TetherMesh.Protocol

open Math CS

variable {i : ℕ}

theorem byteAt?_block (b : Block) (hi : i < 16) : byteAt? b i = some (byteAt b i) :=
  byteAt?_of_lt b hi

theorem setByte?_block (b : Block) (v : UInt8) (hi : i < 16) :
    setByte? b i v = some (setByte b i v) := setByte?_of_lt b v hi

theorem idx_add_lt {c r : ℕ} (hc : c < 4) (hr : r < 4) : idx c r < 16 := by
  rw [idx]
  omega

def sbox? (b : UInt8) : Option UInt8 := byteAt? sboxTable b.toNat

theorem sbox?_eq (b : UInt8) : sbox? b = some (sbox b) := byteAt?_of_lt sboxTable b.toNat_lt

namespace Aes128

/-! ## The key schedule of AES-128 -/

def scheduledBytes? (prev : Block) (rcon : UInt8) : Option (Vector UInt8 4) := do
  let t : Vector UInt8 4 := #[← sbox? (← byteAt? prev 13), ← sbox? (← byteAt? prev 14),
    ← sbox? (← byteAt? prev 15), ← sbox? (← byteAt? prev 12)].toVector
  setByte? t 0 ((← byteAt? t 0) ^^^ rcon)

def firstColumn? (prev : Block) (t : Vector UInt8 4) : Option Block :=
  (List.range 4).foldlM (fun cur j => do
    setByte? cur j ((← byteAt? prev j) ^^^ (← byteAt? t j))) zeroBlock

def otherColumns? (prev cur : Block) (n : ℕ) : Option Block :=
  (List.range' 1 n).foldlM (fun cur col => (List.range 4).foldlM
    (fun cur j => do
      let i := idx col j
      setByte? cur i ((← byteAt? prev i) ^^^ (← byteAt? cur (← sub? i 4))))
    cur) cur

def expandRound? : Vector Block 11 × UInt8 → ℕ → Option (Vector Block 11 × UInt8)
  | (rk, rcon), r => do
    let prev ← rk[← sub? r 1]?
    let cur ← otherColumns? prev (← firstColumn? prev (← scheduledBytes? prev rcon)) 3
    return (← setAt? rk r cur, xtime rcon)

/-- The key expansion with every access reported. -/
def new? (key : Block) : Option Aes128 := do
  let rk ← setAt? (Vector.replicate 11 zeroBlock) 0 key
  return ⟨(← (List.range' 1 10).foldlM expandRound? (rk, 1)).1⟩

theorem scheduledBytes?_eq (prev : Block) (rcon : UInt8) :
    scheduledBytes? prev rcon = some (scheduledBytes prev rcon) := by
  simp (disch := decide) only [scheduledBytes?, sbox?_eq, byteAt?_block, byteAt?_of_lt,
    setByte?_of_lt, some_bind]
  rfl

theorem firstColumn?_eq (prev : Block) (t : Vector UInt8 4) :
    firstColumn? prev t = some (firstColumn prev t) := by
  refine foldlM_eq_some (fun j hj cur => ?_) zeroBlock
  have hlt : j < 4 := List.mem_range.mp hj
  simp (disch := omega) only [byteAt?_block, byteAt?_of_lt, setByte?_block, some_bind]

theorem otherColumns?_eq (prev cur : Block) :
    otherColumns? prev cur 3 = some (otherColumns prev cur 3) := by
  refine foldlM_eq_some (fun c hc cur => foldlM_eq_some (fun j hj cur => ?_) cur) cur
  have hlt : j < 4 := List.mem_range.mp hj
  obtain ⟨hpos, hc⟩ := List.mem_range'_1.mp hc
  have hi : 4 ≤ idx c j ∧ idx c j < 16 := by
    rw [idx]
    omega
  simp (disch := omega) only [byteAt?_block, setByte?_block, sub?_of_le, some_bind]

theorem expandRound?_eq (s : Vector Block 11 × UInt8) {r : ℕ} (hpos : 1 ≤ r) (hr : r < 11) :
    expandRound? s r = some (expandRound s r) := by
  obtain ⟨rk, rcon⟩ := s
  have hprev : rk[r - 1]? = some (rk[r - 1]?.getD zeroBlock) :=
    getElem?_eq_some_getD rk zeroBlock (by omega)
  rw [expandRound?, sub?_of_le hpos, some_bind, hprev, expandRound_eq, nextRoundKey]
  simp only [scheduledBytes?_eq, firstColumn?_eq, otherColumns?_eq, setAt?_of_lt _ _ hr, some_bind,
    Option.pure_def]

theorem new?_eq (key : Block) : new? key = some (new key) := by
  have hrounds (s : Vector Block 11 × UInt8) :
      (List.range' 1 10).foldlM expandRound? s = some ((List.range' 1 10).foldl expandRound s) := by
    refine foldlM_eq_some (fun r hr s => ?_) s
    obtain ⟨hpos, hlt⟩ := List.mem_range'_1.mp hr
    exact expandRound?_eq s hpos hlt
  rw [new?, setAt?_of_lt _ _ (by simp), some_bind, hrounds]
  rfl

/-! ## The rounds -/

def subBytes? (state : Block) : Option Block := state.mapM sbox?

def shiftRows? (src : Block) : Option Block :=
  (List.range 4).foldlM (fun state c => (List.range 4).foldlM (fun state r => do
    setByte? state (idx c r) (← byteAt? src (idx ((c + r) % 4) r))) state) src

def mixColumn? (state : Block) (c : ℕ) : Option Block := do
  let a0 ← byteAt? state (idx c 0)
  let a1 ← byteAt? state (idx c 1)
  let a2 ← byteAt? state (idx c 2)
  let a3 ← byteAt? state (idx c 3)
  let t := a0 ^^^ a1 ^^^ a2 ^^^ a3
  let state ← setByte? state (idx c 0) (a0 ^^^ t ^^^ xtime (a0 ^^^ a1))
  let state ← setByte? state (idx c 1) (a1 ^^^ t ^^^ xtime (a1 ^^^ a2))
  let state ← setByte? state (idx c 2) (a2 ^^^ t ^^^ xtime (a2 ^^^ a3))
  setByte? state (idx c 3) (a3 ^^^ t ^^^ xtime (a3 ^^^ a0))

def mixColumns? (state : Block) : Option Block := (List.range 4).foldlM mixColumn? state

/-- A round that mixes the columns, under the round key looked up. -/
def round? {n : ℕ} (roundKeys : Vector Block n) (block : Block) (round : ℕ) : Option Block := do
  let block ← mixColumns? (← shiftRows? (← subBytes? block))
  return addRoundKey block (← roundKeys[round]?)

/-- The round without. -/
def lastRound? {n : ℕ} (roundKeys : Vector Block n) (block : Block) (round : ℕ) :
    Option Block := do
  let block ← shiftRows? (← subBytes? block)
  return addRoundKey block (← roundKeys[round]?)

/-- The encryption of a block with every access reported. -/
def encryptBlock? (aes : Aes128) (block : Block) : Option Block := do
  let block ← (List.range' 1 9).foldlM (round? aes.roundKeys)
    (addRoundKey block (← aes.roundKeys[0]?))
  lastRound? aes.roundKeys block 10

theorem subBytes?_eq (state : Block) : subBytes? state = some (subBytes state) := by
  have hsbox : sbox? = fun b => some (sbox b) := funext sbox?_eq
  have hmap : state.map sbox = subBytes state := by
    ext i hi
    rw [Vector.getElem_map, subBytes, Vector.getElem_ofFn]
    rfl
  rw [subBytes?, hsbox, ← hmap]
  exact Vector.mapM_pure (m := Option) sbox

theorem shiftRows?_eq (src : Block) : shiftRows? src = some (shiftRows src) := by
  refine foldlM_eq_some (fun c hc state => foldlM_eq_some (fun r hr state => ?_) state) src
  have hc := List.mem_range.mp hc
  have hr := List.mem_range.mp hr
  rw [byteAt?_block src (idx_add_lt (Nat.mod_lt _ (by simp)) hr), some_bind,
    setByte?_block _ _ (idx_add_lt hc hr)]

theorem mixColumn?_eq (state : Block) {c : ℕ} (hc : c < 4) :
    mixColumn? state c = some (mixColumn state c) := by
  have hbyte (b : Block) {r : ℕ} (hr : r < 4) : byteAt? b (idx c r) = some (byteAt b (idx c r)) :=
    byteAt?_block b (idx_add_lt hc hr)
  have hset (b : Block) (v : UInt8) {r : ℕ} (hr : r < 4) :
      setByte? b (idx c r) v = some (setByte b (idx c r) v) :=
    setByte?_block b v (idx_add_lt hc hr)
  simp (disch := decide) only [mixColumn?, hbyte, hset, some_bind]
  rfl

theorem mixColumns?_eq (state : Block) : mixColumns? state = some (mixColumns state) :=
  foldlM_eq_some (fun _ hc state => mixColumn?_eq state (List.mem_range.mp hc)) state

theorem round?_eq {n : ℕ} (roundKeys : Vector Block n) (block : Block) {r : ℕ} (hr : r < n) :
    round? roundKeys block r = some (addRoundKey (mixColumns (shiftRows (subBytes block)))
      (roundKeys[r]?.getD zeroBlock)) := by
  simp only [round?, subBytes?_eq, shiftRows?_eq, mixColumns?_eq, some_bind]
  rw [getElem?_eq_some_getD roundKeys zeroBlock hr]
  rfl

theorem lastRound?_eq {n : ℕ} (roundKeys : Vector Block n) (block : Block) {r : ℕ} (hr : r < n) :
    lastRound? roundKeys block r =
      some (addRoundKey (shiftRows (subBytes block)) (roundKeys[r]?.getD zeroBlock)) := by
  simp only [lastRound?, subBytes?_eq, shiftRows?_eq, some_bind]
  rw [getElem?_eq_some_getD roundKeys zeroBlock hr]
  rfl

/-- All rounds but the last. -/
theorem foldlM_round? {n nr : ℕ} (roundKeys : Vector Block n) (hnr : nr < n) (block : Block) :
    (List.range' 1 nr).foldlM (round? roundKeys) block = some ((List.range' 1 nr).foldl
      (fun block r => addRoundKey (mixColumns (shiftRows (subBytes block)))
        (roundKeys[r]?.getD zeroBlock)) block) := by
  refine foldlM_eq_some (fun r hr block => round?_eq roundKeys block ?_) block
  have hmem := List.mem_range'_1.mp hr
  omega

theorem encryptBlock?_eq (aes : Aes128) (block : Block) :
    aes.encryptBlock? block = some (aes.encryptBlock block) := by
  rw [encryptBlock?, getElem?_eq_some_getD aes.roundKeys zeroBlock (by simp), some_bind,
    foldlM_round? aes.roundKeys (by simp), some_bind, lastRound?_eq aes.roundKeys _ (by simp)]
  rfl

end Aes128

/-! ## AES-256 -/

namespace Aes256

def wordBytes? (w : Vector UInt8 240) (p : ℕ) : Option (Vector UInt8 4) := do
  return #[← byteAt? w p, ← byteAt? w (p + 1), ← byteAt? w (p + 2), ← byteAt? w (p + 3)].toVector

def scheduledBytes? (t : Vector UInt8 4) (rcon : UInt8) (i : ℕ) :
    Option (Vector UInt8 4 × UInt8) := do
  if i % 8 = 0 then
    return (#[(← sbox? (← byteAt? t 1)) ^^^ rcon, ← sbox? (← byteAt? t 2),
      ← sbox? (← byteAt? t 3), ← sbox? (← byteAt? t 0)].toVector, xtime rcon)
  else if i % 8 = 4 then
    return (#[← sbox? (← byteAt? t 0), ← sbox? (← byteAt? t 1), ← sbox? (← byteAt? t 2),
      ← sbox? (← byteAt? t 3)].toVector, rcon)
  else return (t, rcon)

def writeWord? (w : Vector UInt8 240) (t : Vector UInt8 4) (q d : ℕ) :
    Option (Vector UInt8 240) :=
  (List.range 4).foldlM
    (fun w j => do setByte? w (d + j) ((← byteAt? w (q + j)) ^^^ (← byteAt? t j))) w

def expandWord? : Vector UInt8 240 × UInt8 → ℕ → Option (Vector UInt8 240 × UInt8)
  | (w, rcon), i => do
    let t ← wordBytes? w ((← sub? i 1) * 4)
    let (t, rcon) ← scheduledBytes? t rcon i
    return (← writeWord? w t ((← sub? i 8) * 4) (i * 4), rcon)

def cutBlock? (w : Vector UInt8 240) (r : ℕ) : Option Block :=
  (List.range blockSize).foldlM
    (fun block j => do setByte? block j (← byteAt? w (r * blockSize + j))) zeroBlock

/-- The key expansion with every access reported. -/
def new? (key : Vector UInt8 32) : Option Aes256 := do
  let w : Vector UInt8 240 ← (List.range 32).foldlM
    (fun w i => do setByte? w i (← byteAt? key i)) (Vector.replicate 240 0)
  let s ← (List.range' 8 52).foldlM expandWord? (w, 1)
  return ⟨← (List.range 15).foldlM (fun rk r => do setAt? rk r (← cutBlock? s.1 r))
    (Vector.replicate 15 zeroBlock)⟩

/-- The encryption of a block with every access reported. -/
def encryptBlock? (aes : Aes256) (block : Block) : Option Block := do
  let block ← (List.range' 1 13).foldlM (Aes128.round? aes.roundKeys)
    (Aes128.addRoundKey block (← aes.roundKeys[0]?))
  Aes128.lastRound? aes.roundKeys block 14

theorem wordBytes?_eq (w : Vector UInt8 240) {i : ℕ} (hi : i < 60) :
    wordBytes? w (i * 4) = some (wordBytes w i) := by
  simp (disch := omega) only [wordBytes?, byteAt?_of_lt, some_bind]
  rfl

theorem scheduledBytes?_eq (t : Vector UInt8 4) (rcon : UInt8) (i : ℕ) :
    scheduledBytes? t rcon i = some (scheduledBytes t rcon i) := by
  unfold scheduledBytes? scheduledBytes
  split_ifs
  · simp (disch := decide) only [byteAt?_of_lt, sbox?_eq, some_bind]
    rfl
  · simp (disch := decide) only [byteAt?_of_lt, sbox?_eq, some_bind]
    rfl
  · rfl

theorem writeWord?_eq (w : Vector UInt8 240) (t : Vector UInt8 4) {q d : ℕ} (hq : q + 4 ≤ 240)
    (hd : d + 4 ≤ 240) : writeWord? w t q d = some ((List.range 4).foldl
      (fun w j => setByte w (d + j) (byteAt w (q + j) ^^^ byteAt t j)) w) := by
  refine foldlM_eq_some (fun j hj w => ?_) w
  have hlt := List.mem_range.mp hj
  simp (disch := omega) only [byteAt?_of_lt, setByte?_of_lt, some_bind]

theorem expandWord?_eq (s : Vector UInt8 240 × UInt8) {i : ℕ} (hi : 8 ≤ i) (hlt : i < 60) :
    expandWord? s i = some (expandWord s i) := by
  obtain ⟨w, rcon⟩ := s
  rw [expandWord_eq, expandWord?]
  simp (disch := omega) only [sub?_of_le, wordBytes?_eq, scheduledBytes?_eq, writeWord?_eq,
    some_bind, Option.pure_def]

theorem cutBlock?_eq (w : Vector UInt8 240) {r : ℕ} (hr : r < 15) :
    cutBlock? w r = some (Vector.ofFn fun j => byteAt w (r * blockSize + j)) := by
  rw [← foldl_setIfInBounds (fun j => byteAt w (r * blockSize + j)) zeroBlock]
  refine foldlM_eq_some (fun j hj block => ?_) zeroBlock
  have hlt : j < 16 := List.mem_range.mp hj
  have hin : r * 16 + j < 240 := by omega
  rw [byteAt?_of_lt w hin, some_bind, setByte?_block _ _ hlt]
  rfl

theorem new?_eq (key : Vector UInt8 32) : new? key = some (new key) := by
  have hcopy (w : Vector UInt8 240) : (List.range 32).foldlM
        (fun w i => do setByte? w i (← byteAt? key i)) w =
      some ((List.range 32).foldl (fun w i => setByte w i (byteAt key i)) w) := by
    refine foldlM_eq_some (fun i hi w => ?_) w
    have hlt := List.mem_range.mp hi
    simp (disch := omega) only [byteAt?_of_lt, setByte?_of_lt, some_bind]
  have hwords (s : Vector UInt8 240 × UInt8) :
      (List.range' 8 52).foldlM expandWord? s = some ((List.range' 8 52).foldl expandWord s) := by
    refine foldlM_eq_some (fun i hi s => ?_) s
    obtain ⟨hle, hlt⟩ := List.mem_range'_1.mp hi
    exact expandWord?_eq s hle hlt
  have hcut (w : Vector UInt8 240) (rk : Vector Block 15) :
      (List.range 15).foldlM (fun rk r => do setAt? rk r (← cutBlock? w r)) rk =
        some (Vector.ofFn fun r => Vector.ofFn fun j => byteAt w (r * blockSize + j)) := by
    rw [← foldl_setIfInBounds (fun r => Vector.ofFn fun j => byteAt w (r * blockSize + j)) rk]
    refine foldlM_eq_some (fun r hr rk => ?_) rk
    have hlt := List.mem_range.mp hr
    rw [cutBlock?_eq w hlt, some_bind, setAt?_of_lt _ _ hlt]
  rw [new?, hcopy, some_bind, hwords, some_bind, hcut]
  rfl

theorem encryptBlock?_eq (aes : Aes256) (block : Block) :
    aes.encryptBlock? block = some (aes.encryptBlock block) := by
  rw [encryptBlock?, getElem?_eq_some_getD aes.roundKeys zeroBlock (by simp), some_bind,
    Aes128.foldlM_round? aes.roundKeys (by simp), some_bind,
    Aes128.lastRound?_eq aes.roundKeys _ (by simp)]
  rfl

end Aes256

/-! ## Both together -/

/-- **The block ciphers are AES**, and no access of theirs falls back on a zero: with every
access reported the key expansion and the encryption answer, and answer the same. -/
theorem encryptBlock_is_standard :
    (∀ key block : Block, (Aes128.new key).encryptBlock block = Rijndael.aes128 key block ∧
      (do (← Aes128.new? key).encryptBlock? block) = some (Rijndael.aes128 key block)) ∧
    ∀ (key : Vector UInt8 32) (block : Block),
      (Aes256.new key).encryptBlock block = Rijndael.aes256 key block ∧
        (do (← Aes256.new? key).encryptBlock? block) = some (Rijndael.aes256 key block) := by
  refine ⟨fun key block => ⟨Aes128.encryptBlock_eq key block, ?_⟩,
    fun key block => ⟨Aes256.encryptBlock_eq key block, ?_⟩⟩
  · rw [Aes128.new?_eq, some_bind, Aes128.encryptBlock?_eq, Aes128.encryptBlock_eq]
  · rw [Aes256.new?_eq, some_bind, Aes256.encryptBlock?_eq, Aes256.encryptBlock_eq]

end TetherMesh.Protocol
