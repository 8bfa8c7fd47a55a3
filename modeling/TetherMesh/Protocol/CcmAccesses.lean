import TetherMesh.Protocol.AesAccesses
import TetherMesh.Protocol.CcmStandard

/-!
# What CCM refuses, and what its callers must not pass

Both directions refuse a short buffer and a nonce that is not thirteen bytes long, decryption
also a tag that does not verify, and nothing else is refused. For a tag that fits a block no
access misses, whatever the lengths of message and additional data, and for a message of at
most 65535 blocks no two blocks of the keystream coincide.

## Main definitions

* `ccmEncryptInPlaceAad?`, `ccmDecryptInPlaceAad?` — both directions with every access
  reported
* `ccmKeystream` — the keystream blocks of one message
* `CcmVerifies` — the tag in a buffer is the one that belongs there

## Main results

* `ccmEncrypt?_eq`, `ccmDecrypt?_eq` — no access misses
* `nodup_ccmKeystream` — no keystream block of a message is used twice
* `ccmVerifies_iff_encrypt` — what verifies is what encryption writes
* `ccm_refusals` — what is refused, and by whom
-/

namespace TetherMesh.Protocol

open Math CS

/-! ## The code with every access reported -/

def ccmBlocks? (nonce : List UInt8) (msgLen tagLen : ℕ) (hasAad : Bool) :
    Option (Except CcmError (Block × Block)) :=
  if nonce.length ≠ ccmNonceLen then
    some (.error .badNonce)
  else do
    let l : ℕ := 2
    let tField := (tagLen - 2) / 2
    let adata : UInt8 := if hasAad then 0x40 else 0x00
    let b0 ← setByte? zeroBlock 0
      (adata ||| (UInt8.ofNat tField <<< 3) ||| (UInt8.ofNat l).saturatingSub 1)
    let b0 ← updateBytes? 1 nonce.length (fun i _ => nonce.getD i 0) b0
    let b0 ← setByte? b0 14 (UInt8.ofNat (msgLen >>> 8 &&& 0xFF))
    let b0 ← setByte? b0 15 (UInt8.ofNat (msgLen &&& 0xFF))
    let a0 ← setByte? zeroBlock 0 ((UInt8.ofNat l).saturatingSub 1)
    let a0 ← updateBytes? 1 nonce.length (fun i _ => nonce.getD i 0) a0
    return .ok (b0, a0)

/-- XOR a block in byte by byte. -/
def xorBlock? (x blk : Block) : Option Block :=
  (List.range blockSize).foldlM
    (fun x i => do setByte? x i ((← byteAt? x i) ^^^ (← byteAt? blk i))) x

def aadStep? (aes : Aes256) : Block × Block × ℕ → UInt8 → Option (Block × Block × ℕ)
  | (x, blk, n), b => do
    let (x, blk, n) ←
      if n = blockSize then do
        let x ← aes.encryptBlock? (← xorBlock? x blk)
        pure (x, zeroBlock, 0)
      else pure (x, blk, n)
    return (x, ← setByte? blk n b, n + 1)

/-- The MAC over the additional data. -/
def aadMac (aes : Aes256) (x : Block) (aad : List UInt8) : Block :=
  let blk := setByte zeroBlock 0 (UInt8.ofNat (aad.length >>> 8 &&& 0xFF))
  let blk := setByte blk 1 (UInt8.ofNat (aad.length &&& 0xFF))
  let s := aad.foldl (aadStep aes) (x, blk, 2)
  aes.encryptBlock (xorBlock s.1 s.2.1)

/-- The MAC over the plaintext. -/
def textMac (aes : Aes256) (x : Block) (plaintext : List UInt8) : Block :=
  (chunks blockSize plaintext).foldl
    (fun x chunk =>
      aes.encryptBlock (updateBytes 0 chunk.length (fun i cur => cur ^^^ chunk.getD i 0) x)) x

theorem cbcMac_eq_textMac (aes : Aes256) (b0 : Block) (aad plaintext : List UInt8) :
    cbcMac aes b0 aad plaintext = textMac aes
      (if aad.isEmpty then aes.encryptBlock b0 else aadMac aes (aes.encryptBlock b0) aad)
      plaintext := rfl

def aadMac? (aes : Aes256) (x : Block) (aad : List UInt8) : Option Block := do
  let blk ← setByte? zeroBlock 0 (UInt8.ofNat (aad.length >>> 8 &&& 0xFF))
  let blk ← setByte? blk 1 (UInt8.ofNat (aad.length &&& 0xFF))
  let s ← aad.foldlM (aadStep? aes) (x, blk, 2)
  aes.encryptBlock? (← xorBlock? s.1 s.2.1)

def textMac? (aes : Aes256) (x : Block) (plaintext : List UInt8) : Option Block :=
  (chunks blockSize plaintext).foldlM
    (fun x chunk => do
      aes.encryptBlock?
        (← updateBytes? 0 chunk.length (fun i cur => cur ^^^ chunk.getD i 0) x)) x

def cbcMac? (aes : Aes256) (b0 : Block) (aad plaintext : List UInt8) : Option Block := do
  let x ← aes.encryptBlock? b0
  let x ← if aad.isEmpty then pure x else aadMac? aes x aad
  textMac? aes x plaintext

def ctrBlock? (aes : Aes256) (a0 : Block) (counter : UInt16) : Option Block := do
  let ks ← setByte? a0 14 (counter >>> 8 &&& 0xFF).toUInt8
  let ks ← setByte? ks 15 (counter &&& 0xFF).toUInt8
  aes.encryptBlock? ks

def ctrXor? (aes : Aes256) (a0 : Block) (data : List UInt8) : Option (List UInt8) :=
  streamXor? (ctrBlock? aes a0) (· + 1) 1 data

/-- Decryption with every access reported. -/
def ccmDecryptInPlaceAad? (key : Vector UInt8 32) (nonce aad buf : List UInt8) (tagLen : ℕ) :
    Option (Except CcmError ℕ × List UInt8) :=
  if buf.length < tagLen then
    some (.error .tooShort, buf)
  else do
    let msgLen := buf.length - tagLen
    match ← ccmBlocks? nonce msgLen tagLen (!aad.isEmpty) with
    | .error e => return (.error e, buf)
    | .ok (b0, a0) =>
      let aes ← Aes256.new? key
      let sent := (buf.drop msgLen).take tagLen
      let received ← updateBytes? 0 sent.length (fun i _ => sent.getD i 0) zeroBlock
      let s0 ← aes.encryptBlock? a0
      let received ← (List.range tagLen).foldlM (fun received i => do
        setByte? received i ((← byteAt? received i) ^^^ (← byteAt? s0 i))) received
      let body ← ctrXor? aes a0 (buf.take msgLen)
      let buf := body ++ buf.drop msgLen
      let expect ← cbcMac? aes b0 aad body
      let diff ← (List.range tagLen).foldlM (fun diff i => do
        return diff ||| ((← byteAt? expect i) ^^^ (← byteAt? received i))) 0
      return if diff ≠ 0 then (.error .unauthentic, buf) else (.ok msgLen, buf)

/-- Encryption with every access reported. -/
def ccmEncryptInPlaceAad? (key : Vector UInt8 32) (nonce aad buf : List UInt8)
    (msgLen tagLen : ℕ) : Option (Except CcmError ℕ × List UInt8) :=
  let total := msgLen + tagLen
  if buf.length < total then
    some (.error .tooShort, buf)
  else do
    match ← ccmBlocks? nonce msgLen tagLen (!aad.isEmpty) with
    | .error e => return (.error e, buf)
    | .ok (b0, a0) =>
      let aes ← Aes256.new? key
      let body := buf.take msgLen
      let tag ← cbcMac? aes b0 aad body
      let buf := (← ctrXor? aes a0 body) ++ buf.drop msgLen
      let s0 ← aes.encryptBlock? a0
      let buf ← (List.range tagLen).foldlM (fun buf i => do
        setList? buf (msgLen + i) ((← byteAt? tag i) ^^^ (← byteAt? s0 i))) buf
      return (.ok total, buf)

/-! ## No access misses -/

variable {key : Vector UInt8 32} {nonce aad buf : List UInt8} {msgLen tagLen : ℕ}

theorem ccmBlocks?_eq (nonce : List UInt8) (msgLen tagLen : ℕ) (hasAad : Bool) :
    ccmBlocks? nonce msgLen tagLen hasAad = some (ccmBlocks nonce msgLen tagLen hasAad) := by
  unfold ccmBlocks? ccmBlocks
  by_cases hnonce : nonce.length ≠ ccmNonceLen
  · rw [if_pos hnonce, if_pos hnonce]
  · have hlen : 1 + nonce.length ≤ blockSize := by
      rw [not_not.mp hnonce]
      decide
    rw [if_neg hnonce, if_neg hnonce]
    simp (disch := decide) only [setByte?_block, updateBytes?_eq _ _ hlen, some_bind,
      Option.pure_def]

theorem xorBlock?_eq (x blk : Block) : xorBlock? x blk = some (xorBlock x blk) := by
  have hloop : (List.range blockSize).foldl
      (fun x i => setByte x i (byteAt x i ^^^ byteAt blk i)) x = xorBlock x blk := by
    refine ext_byteAt fun i hi => ?_
    have hbyte := byteAt_updateBytes 0 blockSize (fun i v => v ^^^ byteAt blk i) x hi
    simp only [updateBytes, Nat.zero_add] at hbyte
    rw [hbyte, if_pos ⟨Nat.zero_le i, hi⟩, byteAt_xorBlock _ _ hi, Nat.sub_zero]
  rw [← hloop]
  refine foldlM_eq_some (fun i hi x => ?_) x
  have hlt : i < 16 := List.mem_range.mp hi
  simp (disch := omega) only [byteAt?_block, setByte?_block, some_bind]

section

variable (aes : Aes256)

/-- The block being filled never runs over. -/
theorem aadStep?_eq (s : Block × Block × ℕ) (b : UInt8) (hs : s.2.2 ≤ blockSize) :
    aadStep? aes s b = some (aadStep aes s b) ∧ (aadStep aes s b).2.2 ≤ blockSize := by
  obtain ⟨x, blk, n⟩ := s
  by_cases hfull : n = blockSize
  · have hstep : aadStep aes (x, blk, n) b =
        (aes.encryptBlock (xorBlock x blk), setByte zeroBlock 0 b, 1) := by
      rw [aadStep, if_pos hfull]
    simp (disch := decide) only [hstep, aadStep?, if_pos hfull, xorBlock?_eq,
      Aes256.encryptBlock?_eq, some_bind, Option.pure_def, setByte?_block]
    exact ⟨trivial, by simp⟩
  · have hlt : n < 16 := lt_of_le_of_ne hs hfull
    have hstep : aadStep aes (x, blk, n) b = (x, setByte blk n b, n + 1) := by
      rw [aadStep, if_neg hfull]
    simp only [hstep, aadStep?, if_neg hfull, some_bind, Option.pure_def, setByte?_block _ _ hlt]
    exact ⟨trivial, hlt⟩

theorem aadMac?_eq (x : Block) (aad : List UInt8) :
    aadMac? aes x aad = some (aadMac aes x aad) := by
  have hloop (blk : Block) := foldlM_eq_some_of (P := fun s => s.2.2 ≤ blockSize)
    (fun b (_ : b ∈ aad) s hs => aadStep?_eq aes s b hs) (b := (x, blk, 2)) (show 2 ≤ 16 by simp)
  simp (disch := decide) only [aadMac?, setByte?_block, some_bind, (hloop _).1, xorBlock?_eq,
    Aes256.encryptBlock?_eq]
  rfl

theorem textMac?_eq (x : Block) (plaintext : List UInt8) :
    textMac? aes x plaintext = some (textMac aes x plaintext) := by
  refine foldlM_eq_some (fun chunk hchunk x => ?_) x
  have hlen : 0 + chunk.length ≤ blockSize :=
    (Nat.zero_add _).trans_le (length_le_of_mem_chunks hchunk)
  rw [updateBytes?_eq _ _ hlen, some_bind, Aes256.encryptBlock?_eq]

theorem cbcMac?_eq (b0 : Block) (aad plaintext : List UInt8) :
    cbcMac? aes b0 aad plaintext = some (cbcMac aes b0 aad plaintext) := by
  rw [cbcMac_eq_textMac, cbcMac?, Aes256.encryptBlock?_eq, some_bind]
  by_cases hempty : aad.isEmpty = true
  · rw [if_pos hempty, if_pos hempty]
    exact textMac?_eq aes _ plaintext
  · rw [if_neg hempty, if_neg hempty, aadMac?_eq, some_bind]
    exact textMac?_eq aes _ plaintext

theorem ctrBlock?_eq (a0 : Block) (counter : UInt16) :
    ctrBlock? aes a0 counter = some (ctrBlock aes a0 counter) := by
  simp (disch := decide) only [ctrBlock?, setByte?_block, some_bind, Aes256.encryptBlock?_eq]
  rfl

theorem ctrXor?_eq (a0 : Block) (data : List UInt8) :
    ctrXor? aes a0 data = some (ctrXor aes a0 data) := streamXor?_eq (ctrBlock?_eq aes a0) 1 data

end

/-- **Encryption never misses**, whatever the lengths, as long as the tag fits a block. -/
theorem ccmEncrypt?_eq (htag : tagLen ≤ blockSize) :
    ccmEncryptInPlaceAad? key nonce aad buf msgLen tagLen =
      some (ccmEncryptInPlaceAad key nonce aad buf msgLen tagLen) := by
  unfold ccmEncryptInPlaceAad? ccmEncryptInPlaceAad
  by_cases hshort : buf.length < msgLen + tagLen
  · rw [if_pos hshort, if_pos hshort]
  · rw [if_neg hshort, if_neg hshort, ccmBlocks?_eq, some_bind]
    rcases ccmBlocks_cases nonce msgLen tagLen (!aad.isEmpty) with ⟨-, herr⟩ | ⟨-, b0, a0, hok⟩
    · rw [herr]
      rfl
    · rw [hok]
      have hwrite (tag s0 : Block) {buf' : List UInt8} (hlen : buf'.length = buf.length) :
          (List.range tagLen).foldlM (fun buf i => do
              setList? buf (msgLen + i) ((← byteAt? tag i) ^^^ (← byteAt? s0 i))) buf' =
            some (overwrite buf' msgLen
              ((List.range tagLen).map fun i => byteAt tag i ^^^ byteAt s0 i)) := by
        rw [← foldl_set_eq_overwrite]
        refine (foldlM_eq_some_of (P := fun b => b.length = buf.length)
          (fun i hi b hb => ?_) hlen).1
        have hlt := List.mem_range.mp hi
        have hi' : i < 16 := hlt.trans_le htag
        rw [byteAt?_block tag hi', some_bind, byteAt?_block s0 hi', some_bind, setList?,
          if_pos (by omega)]
        exact ⟨rfl, by rw [List.length_set, hb]⟩
      have hlen : (ctrXor (Aes256.new key) a0 (buf.take msgLen) ++ buf.drop msgLen).length =
          buf.length := by
        rw [List.length_append, length_ctrXor, ← List.length_append, List.take_append_drop]
      simp only [Aes256.new?_eq, cbcMac?_eq, ctrXor?_eq, Aes256.encryptBlock?_eq, some_bind,
        hwrite _ _ hlen, Option.pure_def]

/-- **Decryption never misses** either. -/
theorem ccmDecrypt?_eq (htag : tagLen ≤ blockSize) :
    ccmDecryptInPlaceAad? key nonce aad buf tagLen =
      some (ccmDecryptInPlaceAad key nonce aad buf tagLen) := by
  unfold ccmDecryptInPlaceAad? ccmDecryptInPlaceAad
  by_cases hshort : buf.length < tagLen
  · rw [if_pos hshort, if_pos hshort]
  · rw [if_neg hshort, if_neg hshort]
    dsimp only
    rw [ccmBlocks?_eq, some_bind]
    rcases ccmBlocks_cases nonce (buf.length - tagLen) tagLen (!aad.isEmpty) with
      ⟨-, herr⟩ | ⟨-, b0, a0, hok⟩
    · rw [herr]
      rfl
    · rw [hok]
      have hsent : 0 + ((buf.drop (buf.length - tagLen)).take tagLen).length ≤ blockSize :=
        (Nat.zero_add _).trans_le ((List.length_take_le _ _).trans htag)
      have hunmask (s0 received : Block) : (List.range tagLen).foldlM (fun received i => do
            setByte? received i ((← byteAt? received i) ^^^ (← byteAt? s0 i))) received =
          some (updateBytes 0 tagLen (fun i v => v ^^^ byteAt s0 i) received) := by
        simp only [updateBytes, Nat.zero_add]
        refine foldlM_eq_some (fun i hi received => ?_) received
        have hlt : i < 16 := (List.mem_range.mp hi).trans_le htag
        simp (disch := omega) only [byteAt?_block, setByte?_block, some_bind]
      have hdiff (expect received : Block) : (List.range tagLen).foldlM (fun diff i => do
            return diff ||| ((← byteAt? expect i) ^^^ (← byteAt? received i))) (0 : UInt8) =
          some ((List.range tagLen).foldl
            (fun diff i => diff ||| (byteAt expect i ^^^ byteAt received i)) 0) := by
        refine foldlM_eq_some (fun i hi diff => ?_) 0
        have hlt : i < 16 := (List.mem_range.mp hi).trans_le htag
        simp (disch := omega) only [byteAt?_block, some_bind, Option.pure_def]
      simp only [Aes256.new?_eq, updateBytes?_eq _ _ hsent, Aes256.encryptBlock?_eq, hunmask,
        ctrXor?_eq, cbcMac?_eq, hdiff, some_bind]
      rfl

/-! ## The keystream -/

/-- The keystream blocks of one message: that of the tag, then those of the body. -/
def ccmKeystream (key : Vector UInt8 32) (nonce : List UInt8) (tagLen : ℕ) (hasAad : Bool)
    (body : List UInt8) : List Block :=
  match ccmBlocks nonce body.length tagLen hasAad with
  | .error _ => []
  | .ok (_, a0) =>
    let aes := Aes256.new key
    aes.encryptBlock a0 :: (counters (· + 1) 1 (chunks blockSize body)).map (ctrBlock aes a0)

/-- The body is covered by the keystream blocks behind the first. -/
theorem ctrXor_eq_xorInto (aes : Aes256) (a0 : Block) (body : List UInt8) :
    ctrXor aes a0 body = xorInto body
      (((counters (· + 1) 1 (chunks blockSize body)).map (ctrBlock aes a0)).flatMap
        Vector.toList) := by
  rw [List.flatMap_map]
  exact streamXor_eq_xorInto blockSize_pos 1 body

theorem bigEndian_two_injOn {i j : ℕ} (hi : i < 2 ^ 16) (hj : j < 2 ^ 16)
    (h : CounterCbcMac.bigEndian 2 i = CounterCbcMac.bigEndian 2 j) : i = j := by
  rw [bigEndian_two, bigEndian_two] at h
  obtain ⟨hhigh, htail⟩ := List.cons.inj h
  have hhigh := congrArg UInt8.toNat hhigh
  have hlow := congrArg UInt8.toNat (List.cons.inj htail).1
  rw [UInt8.toNat_ofNat', UInt8.toNat_ofNat'] at hhigh hlow
  omega

theorem snd_of_ccmBlocks {hasAad : Bool} {b0 a0 : Block}
    (h : ccmBlocks nonce msgLen tagLen hasAad = .ok (b0, a0)) :
    a0 = pad blockSize (1 :: nonce) := by
  have hnonce := length_of_ccmBlocks h
  rw [ccmBlocks, if_neg (not_not.mpr hnonce)] at h
  obtain ⟨-, rfl⟩ := Prod.mk.inj (Except.ok.inj h)
  exact pad_head 1 nonce

/-- The blocks are those of the standard, `S_0` first. -/
theorem ccmKeystream_eq (key : Vector UInt8 32) (hnonce : nonce.length = ccmNonceLen)
    (tagLen : ℕ) (hasAad : Bool) {body : List UInt8}
    (hbody : (chunks blockSize body).length < 2 ^ 16) :
    ccmKeystream key nonce tagLen hasAad body =
      (List.range ((chunks blockSize body).length + 1)).map
        (CounterCbcMac.keyBlock 2 nonce (Aes256.new key).encryptBlock) := by
  rcases ccmBlocks_cases nonce body.length tagLen hasAad with ⟨hbad, -⟩ | ⟨-, b0, a0, hok⟩
  · exact absurd hnonce hbad
  obtain rfl := snd_of_ccmBlocks hok
  rw [ccmKeystream, hok, List.range_succ_eq_map, List.map_cons, List.map_map, counters_eq_iterate,
    ← List.range_map_iterate]
  dsimp only
  rw [List.map_map]
  refine congrArg₂ List.cons ?_ (List.map_congr_left fun i hi => ?_)
  · rw [pad_counter_zero, CounterCbcMac.keyBlock]
  · have hlt := List.mem_range.mp hi
    rw [Function.comp_apply, iterate_counter, ctrBlock_eq _ hnonce (by omega)]
    rfl

/-- **No two keystream blocks of a message coincide** before the counter comes round. -/
theorem nodup_ccmKeystream (key : Vector UInt8 32) (nonce : List UInt8) (tagLen : ℕ)
    (hasAad : Bool) {body : List UInt8} (hbody : body.length ≤ 65535 * 16) :
    (ccmKeystream key nonce tagLen hasAad body).Nodup := by
  by_cases hnonce : nonce.length = ccmNonceLen
  · have hchunks : (chunks blockSize body).length < 2 ^ 16 := by
      rw [length_chunks]
      change (body.length + 16 - 1) / 16 < 2 ^ 16
      omega
    rw [ccmKeystream_eq key hnonce tagLen hasAad hchunks]
    refine List.Nodup.map_on (fun i hi j hj h => ?_) List.nodup_range
    have hi := List.mem_range.mp hi
    have hj := List.mem_range.mp hj
    -- the cipher tells blocks apart, and these hold different counters
    have hblocks : CounterCbcMac.counterBlock 2 nonce i = CounterCbcMac.counterBlock 2 nonce j := by
      rw [CounterCbcMac.keyBlock, CounterCbcMac.keyBlock, Aes256.encryptBlock_eq,
        Aes256.encryptBlock_eq] at h
      exact Rijndael.encrypt_injective 8 key h
    have hlen (i : ℕ) : ((1 : UInt8) :: (nonce ++ CounterCbcMac.bigEndian 2 i)).length = 16 := by
      rw [List.length_cons, List.length_append, CounterCbcMac.length_bigEndian, hnonce]
    have hbytes := pad_injective ((hlen i).trans (hlen j).symm) (hlen i).le hblocks
    exact bigEndian_two_injOn (by omega) (by omega)
      (List.append_cancel_left (List.cons.inj hbytes).2)
  · rw [ccmKeystream, ccmBlocks_badNonce hnonce]
    exact List.nodup_nil

/-! ## What is refused -/

theorem ccmEncrypt_answer (key : Vector UInt8 32) (nonce aad buf : List UInt8)
    (msgLen tagLen : ℕ) : (ccmEncryptInPlaceAad key nonce aad buf msgLen tagLen).1 =
      if buf.length < msgLen + tagLen then .error .tooShort
      else if nonce.length ≠ ccmNonceLen then .error .badNonce
      else .ok (msgLen + tagLen) := by
  unfold ccmEncryptInPlaceAad
  dsimp only
  split_ifs with hshort hnonce
  · rfl
  · rw [ccmBlocks_badNonce hnonce]
  · rcases ccmBlocks_cases nonce msgLen tagLen (!aad.isEmpty) with ⟨hbad, -⟩ | ⟨-, b0, a0, hok⟩
    · exact absurd hbad hnonce
    · rw [hok]

/-- **Encryption XORs the message** with the keystream blocks behind the first. -/
theorem take_ccmEncrypt (hok : (ccmEncryptInPlaceAad key nonce aad buf msgLen tagLen).1 =
      .ok (msgLen + tagLen)) :
    (ccmEncryptInPlaceAad key nonce aad buf msgLen tagLen).2.take msgLen =
      xorInto (buf.take msgLen)
        ((ccmKeystream key nonce tagLen (!aad.isEmpty) (buf.take msgLen)).tail.flatMap
          Vector.toList) := by
  have hanswer := ccmEncrypt_answer key nonce aad buf msgLen tagLen
  rw [hok] at hanswer
  split_ifs at hanswer with hshort hnonce
  have hlen : (buf.take msgLen).length = msgLen := List.length_take_of_le (by omega)
  rcases ccmBlocks_cases nonce msgLen tagLen (!aad.isEmpty) with ⟨hbad, -⟩ | ⟨-, b0, a0, hblocks⟩
  · exact absurd hbad hnonce
  · unfold ccmEncryptInPlaceAad
    dsimp only
    rw [if_neg hshort, hblocks, ccmKeystream, hlen, hblocks]
    dsimp only
    rw [List.tail_cons, ← ctrXor_eq_xorInto]
    -- the tag is written behind the message
    have hbody : (ctrXor (Aes256.new key) a0 (buf.take msgLen)).length = msgLen := by
      rw [length_ctrXor, hlen]
    have hroom : tagLen ≤ (buf.drop msgLen).length := by
      rw [List.length_drop]
      omega
    generalize ctrXor (Aes256.new key) a0 (buf.take msgLen) = cipher at hbody ⊢
    subst hbody
    rw [overwrite_behind _ (by rwa [List.length_map, List.length_range]), List.append_assoc,
      List.take_left]

/-- The tag that belongs behind a ciphertext: the one of the plaintext it decrypts to. -/
def ccmTagBehind (key : Vector UInt8 32) (nonce aad body : List UInt8) (tagLen : ℕ) : List UInt8 :=
  match ccmBlocks nonce body.length tagLen (!aad.isEmpty) with
  | .error _ => []
  | .ok (b0, a0) =>
    ccmTag (Aes256.new key) b0 a0 aad (ctrXor (Aes256.new key) a0 body) tagLen

/-- The tag in the buffer verifies: it is the one that belongs behind the ciphertext before it,
as far as a block holds it. -/
def CcmVerifies (key : Vector UInt8 32) (nonce aad buf : List UInt8) (tagLen : ℕ) : Prop :=
  (buf.drop (buf.length - tagLen)).take blockSize =
    (ccmTagBehind key nonce aad (buf.take (buf.length - tagLen)) tagLen).take blockSize

instance (key : Vector UInt8 32) (nonce aad buf : List UInt8) (tagLen : ℕ) :
    Decidable (CcmVerifies key nonce aad buf tagLen) :=
  inferInstanceAs (Decidable (_ = _))

theorem ccmVerifies_append_iff {body sent : List UInt8} (hsent : sent.length = tagLen)
    {b0 a0 : Block} (hblocks : ccmBlocks nonce body.length tagLen (!aad.isEmpty) = .ok (b0, a0)) :
    CcmVerifies key nonce aad (body ++ sent) tagLen ↔ sent.take blockSize =
      (ccmTag (Aes256.new key) b0 a0 aad (ctrXor (Aes256.new key) a0 body) tagLen).take
        blockSize := by
  have hmsg : (body ++ sent).length - tagLen = body.length := by
    rw [List.length_append, hsent, Nat.add_sub_cancel]
  rw [CcmVerifies, hmsg, List.take_left, List.drop_left, ccmTagBehind, hblocks]

theorem ccmDecrypt_answer (key : Vector UInt8 32) (nonce aad buf : List UInt8) (tagLen : ℕ) :
    (ccmDecryptInPlaceAad key nonce aad buf tagLen).1 =
      if buf.length < tagLen then .error .tooShort
      else if nonce.length ≠ ccmNonceLen then .error .badNonce
      else if CcmVerifies key nonce aad buf tagLen then .ok (buf.length - tagLen)
      else .error .unauthentic := by
  by_cases hshort : buf.length < tagLen
  · rw [if_pos hshort, ccmDecrypt_short hshort]
  rw [if_neg hshort]
  by_cases hnonce : nonce.length = ccmNonceLen
  · obtain ⟨body, sent, rfl, hsent⟩ := exists_eq_append_tag (Nat.not_lt.mp hshort)
    rcases ccmBlocks_cases nonce body.length tagLen (!aad.isEmpty) with
      ⟨hbad, -⟩ | ⟨-, b0, a0, hblocks⟩
    · exact absurd hnonce hbad
    · rw [if_neg (not_not.mpr hnonce), ccmDecrypt_eq_take key hsent hblocks, List.length_append,
        hsent, Nat.add_sub_cancel]
      exact if_congr (ccmVerifies_append_iff hsent hblocks).symm rfl rfl
  · rw [if_pos hnonce, ccmDecrypt_badNonce (Nat.not_lt.mp hshort) hnonce]

/-- **A tag within a block verifies** exactly behind what encryption writes. -/
theorem ccmVerifies_iff_encrypt (htag : tagLen ≤ blockSize) (hlen : tagLen ≤ buf.length)
    (hnonce : nonce.length = ccmNonceLen) : CcmVerifies key nonce aad buf tagLen ↔
      ∃ p room, room.length = tagLen ∧
        ccmEncryptInPlaceAad key nonce aad (p ++ room) p.length tagLen =
          (.ok (p.length + tagLen), buf) := by
  have hanswer := ccmDecrypt_answer key nonce aad buf tagLen
  rw [if_neg (Nat.not_lt.mpr hlen), if_neg (not_not.mpr hnonce)] at hanswer
  constructor
  · intro hverifies
    rw [if_pos hverifies] at hanswer
    obtain ⟨hplen, room, hroom, hencrypt⟩ := (ccmDecrypt_ok_iff_encrypt htag).mp ⟨hanswer, rfl⟩
    exact ⟨_, room, hroom, by rwa [hplen]⟩
  · intro ⟨p, room, hroom, hencrypt⟩
    obtain ⟨hok, -⟩ := (ccmDecrypt_ok_iff_encrypt htag).mpr ⟨rfl, room, hroom, hencrypt⟩
    by_contra hnot
    rw [if_neg hnot, hok] at hanswer
    cases hanswer

/-- A tag of no bytes is computed like any other. -/
theorem not_ccm_refuses_undefined :
    ¬ ∀ (key : Vector UInt8 32) (nonce aad buf : List UInt8) (msgLen tagLen : ℕ),
      65536 ≤ msgLen ∨ tagLen ∉ standardTagLens ∨ 0xFF00 ≤ aad.length →
        ∃ e, (ccmEncryptInPlaceAad key nonce aad buf msgLen tagLen).1 = .error e := by
  intro h
  obtain ⟨e, he⟩ := h (Vector.replicate 32 0) (List.replicate 13 0) [] [] 0 0
    (.inr (.inl (by decide)))
  rw [ccmEncrypt_answer, if_neg (by simp), if_neg (by simp)] at he
  cases he

/-- **CCM refuses a short buffer, a nonce that is not thirteen bytes long and, in decryption, a
tag that does not verify, and nothing else.** A tag that fits a block verifies exactly behind
what encryption writes, and makes no access miss. A message is XORed with the keystream blocks
behind the first, and one of at most 65535 blocks meets no block twice. -/
theorem ccm_refusals (key : Vector UInt8 32) (nonce aad buf : List UInt8) (msgLen tagLen : ℕ) :
    (ccmEncryptInPlaceAad key nonce aad buf msgLen tagLen).1 =
      (if buf.length < msgLen + tagLen then .error .tooShort
        else if nonce.length ≠ ccmNonceLen then .error .badNonce
        else .ok (msgLen + tagLen)) ∧
    (ccmDecryptInPlaceAad key nonce aad buf tagLen).1 =
      (if buf.length < tagLen then .error .tooShort
        else if nonce.length ≠ ccmNonceLen then .error .badNonce
        else if CcmVerifies key nonce aad buf tagLen then .ok (buf.length - tagLen)
        else .error .unauthentic) ∧
    (tagLen ≤ blockSize →
      (tagLen ≤ buf.length → nonce.length = ccmNonceLen →
        (CcmVerifies key nonce aad buf tagLen ↔ ∃ p room, room.length = tagLen ∧
          ccmEncryptInPlaceAad key nonce aad (p ++ room) p.length tagLen =
            (.ok (p.length + tagLen), buf))) ∧
        ccmEncryptInPlaceAad? key nonce aad buf msgLen tagLen =
          some (ccmEncryptInPlaceAad key nonce aad buf msgLen tagLen) ∧
        ccmDecryptInPlaceAad? key nonce aad buf tagLen =
          some (ccmDecryptInPlaceAad key nonce aad buf tagLen)) ∧
    ((ccmEncryptInPlaceAad key nonce aad buf msgLen tagLen).1 = .ok (msgLen + tagLen) →
      (ccmEncryptInPlaceAad key nonce aad buf msgLen tagLen).2.take msgLen =
        xorInto (buf.take msgLen)
          ((ccmKeystream key nonce tagLen (!aad.isEmpty) (buf.take msgLen)).tail.flatMap
            Vector.toList)) ∧
    ∀ (hasAad : Bool) (body : List UInt8), body.length ≤ 65535 * 16 →
      (ccmKeystream key nonce tagLen hasAad body).Nodup :=
  ⟨ccmEncrypt_answer key nonce aad buf msgLen tagLen,
    ccmDecrypt_answer key nonce aad buf tagLen,
    fun htag => ⟨ccmVerifies_iff_encrypt htag, ccmEncrypt?_eq htag, ccmDecrypt?_eq htag⟩,
    take_ccmEncrypt,
    fun hasAad _ hbody => nodup_ccmKeystream key nonce tagLen hasAad hbody⟩

end TetherMesh.Protocol
