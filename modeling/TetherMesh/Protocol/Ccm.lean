import Mathlib.Data.List.GetD
import TetherMesh.Protocol.Crypto

/-!
# AES-256-CCM in place

CCM authenticates a plaintext and its associated data with a CBC-MAC, encrypts
the plaintext in counter mode and appends the encrypted tag. Encryption and
decryption are written separately and work in one buffer. A function that works
in place is modelled by its answer together with the buffer it leaves behind.

## Main definitions

* `ccmBlocks`, `cbcMac`, `ctrXor`
* `ccmEncryptInPlaceAad`, `ccmDecryptInPlaceAad`
* `ccmSealed` — what encryption writes

## Main results

* `ccmEncrypt_eq`, `ccmDecrypt_eq` — both directions in terms of `ccmSealed`
* `ccmDecrypt_outcomes` — the four answers, and `ccmDecrypt_tooShort_iff` and the others one
  by one
* `ccmDecrypt_accepts_exactly_encrypted` — decryption accepts what encryption writes
  and nothing else
-/

namespace TetherMesh.Protocol

open Math CS

/-- What went wrong in an authenticated decryption. -/
inductive CcmError
  | tooShort
  | unauthentic
  | badNonce
  deriving DecidableEq, Repr

/-- `CCM_TAG_LEN`. -/
abbrev ccmTagLen : ℕ := 8

/-- The tag is part of a block. -/
theorem ccmTagLen_le : ccmTagLen ≤ blockSize := Nat.le_of_ble_eq_true rfl

/-- `CCM_NONCE_LEN`. -/
abbrev ccmNonceLen : ℕ := 13

/-- The first MAC block and the counter block zero. -/
def ccmBlocks (nonce : List UInt8) (msgLen tagLen : ℕ) (hasAad : Bool) :
    Except CcmError (Block × Block) :=
  if nonce.length ≠ ccmNonceLen then
    .error .badNonce
  else
    let l : ℕ := 2
    let tField := (tagLen - 2) / 2
    let adata : UInt8 := if hasAad then 0x40 else 0x00
    -- flags, nonce, and the message length in the last two bytes
    let b0 := setByte zeroBlock 0
      (adata ||| (UInt8.ofNat tField <<< 3) ||| (UInt8.ofNat l).saturatingSub 1)
    let b0 := updateBytes 1 nonce.length (fun i _ => nonce.getD i 0) b0
    let b0 := setByte b0 14 (UInt8.ofNat (msgLen >>> 8 &&& 0xFF))
    let b0 := setByte b0 15 (UInt8.ofNat (msgLen &&& 0xFF))
    let a0 := setByte zeroBlock 0 ((UInt8.ofNat l).saturatingSub 1)
    let a0 := updateBytes 1 nonce.length (fun i _ => nonce.getD i 0) a0
    .ok (b0, a0)

/-- One byte of associated data: the accumulator, the block being filled, and how
much of it is filled. A full block is absorbed first. -/
def aadStep (aes : Aes256) : Block × Block × ℕ → UInt8 → Block × Block × ℕ
  | (x, blk, n), b =>
    let (x, blk, n) :=
      if n = blockSize then (aes.encryptBlock (xorBlock x blk), zeroBlock, 0) else (x, blk, n)
    (x, setByte blk n b, n + 1)

/-- The CBC-MAC of the first block, the associated data and the plaintext. -/
def cbcMac (aes : Aes256) (b0 : Block) (aad plaintext : List UInt8) : Block :=
  let x := aes.encryptBlock b0
  let x :=
    if aad.isEmpty then x
    else
      let blk := setByte zeroBlock 0 (UInt8.ofNat (aad.length >>> 8 &&& 0xFF))
      let blk := setByte blk 1 (UInt8.ofNat (aad.length &&& 0xFF))
      let (x, blk, _) := aad.foldl (aadStep aes) (x, blk, 2)
      aes.encryptBlock (xorBlock x blk)
  (chunks blockSize plaintext).foldl
    (fun x chunk =>
      aes.encryptBlock (updateBytes 0 chunk.length (fun i cur => cur ^^^ chunk.getD i 0) x)) x

/-- The keystream block of a counter value. -/
def ctrBlock (aes : Aes256) (a0 : Block) (counter : UInt16) : Block :=
  let ks := setByte a0 14 (counter >>> 8 &&& 0xFF).toUInt8
  let ks := setByte ks 15 (counter &&& 0xFF).toUInt8
  aes.encryptBlock ks

/-- The body in counter mode, from counter one. The counter wraps. -/
def ctrXor (aes : Aes256) (a0 : Block) (data : List UInt8) : List UInt8 :=
  streamXor (ctrBlock aes a0) (· + 1) 1 data

/-- Decrypt and verify `ciphertext ‖ tag`, with additional authenticated data. -/
def ccmDecryptInPlaceAad (key : Vector UInt8 32) (nonce aad buf : List UInt8) (tagLen : ℕ) :
    Except CcmError ℕ × List UInt8 :=
  if buf.length < tagLen then
    (.error .tooShort, buf)
  else
    let msgLen := buf.length - tagLen
    match ccmBlocks nonce msgLen tagLen (!aad.isEmpty) with
    | .error e => (.error e, buf)
    | .ok (b0, a0) =>
      let aes := Aes256.new key
      -- recover the tag first: it is encrypted with counter zero
      let sent := (buf.drop msgLen).take tagLen
      let received := updateBytes 0 sent.length (fun i _ => sent.getD i 0) zeroBlock
      let s0 := aes.encryptBlock a0
      let received := updateBytes 0 tagLen (fun i v => v ^^^ byteAt s0 i) received
      let body := ctrXor aes a0 (buf.take msgLen)
      let buf := body ++ buf.drop msgLen
      let expect := cbcMac aes b0 aad body
      -- every byte is compared; the plaintext stays in the buffer either way
      let diff := (List.range tagLen).foldl
        (fun diff i => diff ||| (byteAt expect i ^^^ byteAt received i)) 0
      if diff ≠ 0 then (.error .unauthentic, buf) else (.ok msgLen, buf)

/-- Encrypt and authenticate the first `msgLen` bytes, with additional authenticated
data. A total beyond the address space is beyond every buffer too. -/
def ccmEncryptInPlaceAad (key : Vector UInt8 32) (nonce aad buf : List UInt8)
    (msgLen tagLen : ℕ) : Except CcmError ℕ × List UInt8 :=
  let total := msgLen + tagLen
  if buf.length < total then
    (.error .tooShort, buf)
  else
    match ccmBlocks nonce msgLen tagLen (!aad.isEmpty) with
    | .error e => (.error e, buf)
    | .ok (b0, a0) =>
      let aes := Aes256.new key
      let body := buf.take msgLen
      let tag := cbcMac aes b0 aad body
      let buf := ctrXor aes a0 body ++ buf.drop msgLen
      let s0 := aes.encryptBlock a0
      (.ok total, overwrite buf msgLen
        ((List.range tagLen).map fun i => byteAt tag i ^^^ byteAt s0 i))

/-- Decrypt and authenticate without associated data. -/
def ccmDecryptInPlace (key : Vector UInt8 32) (nonce buf : List UInt8) (tagLen : ℕ) :
    Except CcmError ℕ × List UInt8 := ccmDecryptInPlaceAad key nonce [] buf tagLen

/-- Encrypt and authenticate without associated data. -/
def ccmEncryptInPlace (key : Vector UInt8 32) (nonce buf : List UInt8) (msgLen tagLen : ℕ) :
    Except CcmError ℕ × List UInt8 := ccmEncryptInPlaceAad key nonce [] buf msgLen tagLen

/-! ## The keystream -/

@[simp] theorem length_ctrXor (aes : Aes256) (a0 : Block) (data : List UInt8) :
    (ctrXor aes a0 data).length = data.length := length_streamXor blockSize_pos 1 data

@[simp] theorem ctrXor_ctrXor (aes : Aes256) (a0 : Block) (data : List UInt8) :
    ctrXor aes a0 (ctrXor aes a0 data) = data := streamXor_streamXor blockSize_pos 1 data

/-! ## What encryption writes -/

variable {key : Vector UInt8 32} {nonce aad buf p : List UInt8} {tagLen : ℕ} {b0 a0 : Block}

/-- The encrypted tag. -/
def ccmTag (aes : Aes256) (b0 a0 : Block) (aad plaintext : List UInt8) (tagLen : ℕ) : List UInt8 :=
  (List.range tagLen).map fun i =>
    byteAt (cbcMac aes b0 aad plaintext) i ^^^ byteAt (aes.encryptBlock a0) i

@[simp] theorem length_ccmTag (aes : Aes256) (b0 a0 : Block) (aad plaintext : List UInt8)
    (tagLen : ℕ) : (ccmTag aes b0 a0 aad plaintext tagLen).length = tagLen := by
  rw [ccmTag, List.length_map, List.length_range]

/-- A thirteen-byte nonce gives blocks, any other is refused. -/
theorem ccmBlocks_cases (nonce : List UInt8) (msgLen tagLen : ℕ) (hasAad : Bool) :
    (nonce.length ≠ ccmNonceLen ∧ ccmBlocks nonce msgLen tagLen hasAad = .error .badNonce) ∨
      (nonce.length = ccmNonceLen ∧
        ∃ b0 a0, ccmBlocks nonce msgLen tagLen hasAad = .ok (b0, a0)) := by
  unfold ccmBlocks
  by_cases hlen : nonce.length = ccmNonceLen
  · rw [if_neg (not_not.mpr hlen)]
    exact .inr ⟨hlen, _, _, rfl⟩
  · rw [if_pos hlen]
    exact .inl ⟨hlen, rfl⟩

/-- A nonce that has thirteen bytes by its type gives blocks. -/
theorem exists_ccmBlocks (n : Vector UInt8 ccmNonceLen) (msgLen tagLen : ℕ) (hasAad : Bool) :
    ∃ b0 a0, ccmBlocks n.toList msgLen tagLen hasAad = .ok (b0, a0) := by
  rcases ccmBlocks_cases n.toList msgLen tagLen hasAad with ⟨hbad, -⟩ | ⟨-, hok⟩
  · exact absurd Vector.length_toList hbad
  · exact hok

/-- What encryption writes for a plaintext: the ciphertext and the encrypted tag. -/
def ccmSealed (key : Vector UInt8 32) (nonce aad p : List UInt8) (tagLen : ℕ) :
    Option (List UInt8) :=
  match ccmBlocks nonce p.length tagLen (!aad.isEmpty) with
  | .error _ => none
  | .ok (b0, a0) =>
    let aes := Aes256.new key
    some (ctrXor aes a0 p ++ ccmTag aes b0 a0 aad p tagLen)

theorem ccmSealed_eq (key : Vector UInt8 32)
    (hblocks : ccmBlocks nonce p.length tagLen (!aad.isEmpty) = .ok (b0, a0)) :
    ccmSealed key nonce aad p tagLen =
      some (ctrXor (Aes256.new key) a0 p ++ ccmTag (Aes256.new key) b0 a0 aad p tagLen) := by
  rw [ccmSealed, hblocks]

/-- Every plaintext is sealed under such a nonce. -/
theorem exists_ccmSealed (key : Vector UInt8 32) (n : Vector UInt8 ccmNonceLen) (aad p : List UInt8)
    (tagLen : ℕ) : ∃ sealed, ccmSealed key n.toList aad p tagLen = some sealed := by
  obtain ⟨b0, a0, hok⟩ := exists_ccmBlocks n p.length tagLen (!aad.isEmpty)
  exact ⟨_, ccmSealed_eq key hok⟩

theorem length_of_ccmSealed {sealed : List UInt8}
    (h : ccmSealed key nonce aad p tagLen = some sealed) : sealed.length = p.length + tagLen := by
  rcases ccmBlocks_cases nonce p.length tagLen (!aad.isEmpty) with ⟨-, herr⟩ | ⟨-, b0, a0, hok⟩
  · rw [ccmSealed, herr] at h
    cases h
  · rw [ccmSealed_eq key hok] at h
    obtain rfl := Option.some.inj h
    rw [List.length_append, length_ctrXor, length_ccmTag]

/-- Encryption replaces the plaintext and the room for the tag, and nothing further. -/
theorem ccmEncrypt_eq (rest : List UInt8) {room sealed : List UInt8} (hroom : room.length = tagLen)
    (hsealed : ccmSealed key nonce aad p tagLen = some sealed) :
    ccmEncryptInPlaceAad key nonce aad (p ++ room ++ rest) p.length tagLen =
      (.ok (p.length + tagLen), sealed ++ rest) := by
  have hlen : ¬ (p ++ room ++ rest).length < p.length + tagLen := by
    rw [List.length_append, List.length_append, hroom]
    omega
  rcases ccmBlocks_cases nonce p.length tagLen (!aad.isEmpty) with ⟨-, herr⟩ | ⟨-, b0, a0, hok⟩
  · rw [ccmSealed, herr] at hsealed
    cases hsealed
  · rw [ccmSealed_eq key hok] at hsealed
    obtain rfl := Option.some.inj hsealed
    have htake : (p ++ room ++ rest).take p.length = p := by
      rw [List.append_assoc, List.take_left]
    have hdrop : (p ++ room ++ rest).drop p.length = room ++ rest := by
      rw [List.append_assoc, List.drop_left]
    simp only [ccmEncryptInPlaceAad, if_neg hlen, hok, htake, hdrop]
    -- the tag goes over the room left for it
    have htag : room.length = (ccmTag (Aes256.new key) b0 a0 aad p tagLen).length := by
      rw [length_ccmTag, hroom]
    have hwrite := overwrite_append (ctrXor (Aes256.new key) a0 p) rest htag
    rw [length_ctrXor, List.append_assoc] at hwrite
    rw [Prod.mk.injEq]
    exact ⟨rfl, hwrite⟩

/-- A buffer without room for the tag is refused. -/
theorem ccmEncrypt_short {msgLen : ℕ} (h : buf.length < msgLen + tagLen) :
    ccmEncryptInPlaceAad key nonce aad buf msgLen tagLen = (.error .tooShort, buf) := by
  rw [ccmEncryptInPlaceAad]
  exact if_pos h

/-! ## What decryption accepts -/

/-- The recovered tag agrees with the computed one exactly when the bytes received are the
encrypted tag, as far as a block holds them. -/
theorem tag_matches_iff {sent : List UInt8} {s0 expect : Block} (hsent : sent.length = tagLen) :
    (List.range tagLen).foldl (fun diff i => diff ||| (byteAt expect i ^^^ byteAt
        (updateBytes 0 tagLen (fun i v => v ^^^ byteAt s0 i)
          (updateBytes 0 sent.length (fun i _ => sent.getD i 0) zeroBlock)) i)) 0 = 0 ↔
      sent.take blockSize =
        ((List.range tagLen).map fun i => byteAt expect i ^^^ byteAt s0 i).take blockSize := by
  have hreceived (i : ℕ) (hi : i < tagLen) (hblock : i < blockSize) : byteAt
      (updateBytes 0 tagLen (fun i v => v ^^^ byteAt s0 i)
        (updateBytes 0 sent.length (fun i _ => sent.getD i 0) zeroBlock)) i =
        sent.getD i 0 ^^^ byteAt s0 i := by
    rw [byteAt_updateBytes 0 _ _ _ hblock, if_pos (by omega),
      byteAt_updateBytes 0 _ _ _ hblock, if_pos (by omega), Nat.sub_zero]
  rw [foldl_or_eq_zero_iff, and_iff_right rfl]
  simp only [List.mem_range]
  -- XOR with the keystream moves from one side of the equation to the other
  constructor
  · intro hsame
    apply List.ext_getElem
    · rw [List.length_take, List.length_take, hsent, List.length_map, List.length_range]
    · intro i hi hi'
      rw [List.length_take, hsent, lt_min_iff] at hi
      have hbyte := hsame i hi.2
      rw [hreceived i hi.2 hi.1, UInt8.xor_eq_zero_iff,
        List.getD_eq_getElem _ _ (hsent ▸ hi.2)] at hbyte
      rw [List.getElem_take, List.getElem_take, List.getElem_map, List.getElem_range, hbyte,
        xor_xor_cancel]
  · intro hsame i hi
    by_cases hblock : i < blockSize
    · have hbyte := congrArg (fun bytes : List UInt8 => bytes[i]?) hsame
      rw [List.getElem?_take_of_lt hblock, List.getElem?_take_of_lt hblock, List.getElem?_map,
        List.getElem?_range hi, List.getElem?_eq_getElem (hsent ▸ hi), Option.map_some,
        Option.some_inj] at hbyte
      rw [hreceived i hi hblock, UInt8.xor_eq_zero_iff, List.getD_eq_getElem _ _ (hsent ▸ hi),
        hbyte, xor_xor_cancel]
    · -- beyond the block both sides read zero
      rw [byteAt_of_le _ (Nat.not_lt.mp hblock), byteAt_of_le _ (Nat.not_lt.mp hblock),
        UInt8.xor_self]

theorem ccmDecrypt_short (h : buf.length < tagLen) :
    ccmDecryptInPlaceAad key nonce aad buf tagLen = (.error .tooShort, buf) := by
  rw [ccmDecryptInPlaceAad, if_pos h]

theorem ccmBlocks_badNonce (h : nonce.length ≠ ccmNonceLen) (msgLen : ℕ) (hasAad : Bool) :
    ccmBlocks nonce msgLen tagLen hasAad = .error .badNonce := if_pos h

theorem ccmDecrypt_badNonce (hlen : tagLen ≤ buf.length) (h : nonce.length ≠ ccmNonceLen) :
    ccmDecryptInPlaceAad key nonce aad buf tagLen = (.error .badNonce, buf) := by
  simp only [ccmDecryptInPlaceAad, if_neg (not_lt.mpr hlen), ccmBlocks_badNonce h]

/-- A buffer long enough is a body and a tag. -/
theorem exists_eq_append_tag (h : tagLen ≤ buf.length) :
    ∃ body sent, buf = body ++ sent ∧ sent.length = tagLen :=
  ⟨buf.take (buf.length - tagLen), buf.drop (buf.length - tagLen),
    (List.take_append_drop _ _).symm, by rw [List.length_drop]; omega⟩

/-- Decryption of a body and a tag: the body is decrypted in any case, and accepted when the
tag is the one of the plaintext found, as far as a block holds it. -/
theorem ccmDecrypt_eq_take (key : Vector UInt8 32) {body sent : List UInt8}
    (hsent : sent.length = tagLen)
    (hblocks : ccmBlocks nonce body.length tagLen (!aad.isEmpty) = .ok (b0, a0)) :
    ccmDecryptInPlaceAad key nonce aad (body ++ sent) tagLen =
      (if sent.take blockSize = (ccmTag (Aes256.new key) b0 a0 aad
          (ctrXor (Aes256.new key) a0 body) tagLen).take blockSize
        then .ok body.length else .error .unauthentic,
        ctrXor (Aes256.new key) a0 body ++ sent) := by
  have hlen : (body ++ sent).length = body.length + tagLen := by rw [List.length_append, hsent]
  have hmsg : (body ++ sent).length - tagLen = body.length := by rw [hlen, Nat.add_sub_cancel]
  have hshort : ¬ (body ++ sent).length < tagLen := by omega
  simp only [ccmDecryptInPlaceAad, if_neg hshort, hmsg, hblocks, List.take_left, List.drop_left,
    List.take_of_length_le hsent.le]
  by_cases hsame : sent.take blockSize = (ccmTag (Aes256.new key) b0 a0 aad
      (ctrXor (Aes256.new key) a0 body) tagLen).take blockSize
  · rw [if_neg (not_not.mpr ((tag_matches_iff hsent).mpr hsame)), if_pos hsame]
  · rw [if_pos fun hzero => hsame ((tag_matches_iff hsent).mp hzero), if_neg hsame]

/-- A tag within a block is compared whole. -/
theorem ccmDecrypt_eq (key : Vector UInt8 32) {body sent : List UInt8}
    (hsent : sent.length = tagLen) (htag : tagLen ≤ blockSize)
    (hblocks : ccmBlocks nonce body.length tagLen (!aad.isEmpty) = .ok (b0, a0)) :
    ccmDecryptInPlaceAad key nonce aad (body ++ sent) tagLen =
      (if sent = ccmTag (Aes256.new key) b0 a0 aad (ctrXor (Aes256.new key) a0 body) tagLen
        then .ok body.length else .error .unauthentic,
        ctrXor (Aes256.new key) a0 body ++ sent) := by
  rw [ccmDecrypt_eq_take key hsent hblocks, List.take_of_length_le (hsent.le.trans htag),
    List.take_of_length_le ((length_ccmTag ..).le.trans htag)]

/-- Decryption answers a plaintext exactly when that plaintext is sealed as the buffer. -/
theorem ccmDecrypt_ok_iff (htag : tagLen ≤ blockSize) {n : ℕ} :
    ((ccmDecryptInPlaceAad key nonce aad buf tagLen).1 = .ok n ∧
        (ccmDecryptInPlaceAad key nonce aad buf tagLen).2.take n = p) ↔
      ccmSealed key nonce aad p tagLen = some buf ∧ p.length = n := by
  by_cases hshort : buf.length < tagLen
  · rw [ccmDecrypt_short hshort]
    constructor
    · intro ⟨hanswer, _⟩
      cases hanswer
    · intro ⟨hsealed, _⟩
      have := length_of_ccmSealed hsealed
      omega
  by_cases hn : nonce.length = ccmNonceLen
  swap
  · rw [ccmDecrypt_badNonce (not_lt.mp hshort) hn, ccmSealed, ccmBlocks_badNonce hn]
    constructor
    · intro ⟨hanswer, _⟩
      cases hanswer
    · intro ⟨hsealed, _⟩
      cases hsealed
  obtain ⟨body, sent, rfl, hsent⟩ := exists_eq_append_tag (not_lt.mp hshort)
  rcases ccmBlocks_cases nonce body.length tagLen (!aad.isEmpty) with ⟨hbad, -⟩ | ⟨-, b0, a0, hok⟩
  · exact absurd hn hbad
  · rw [ccmDecrypt_eq key hsent htag hok]
    dsimp only
    constructor
    · intro ⟨hanswer, hplain⟩
      by_cases hsame :
          sent = ccmTag (Aes256.new key) b0 a0 aad (ctrXor (Aes256.new key) a0 body) tagLen
      · rw [if_pos hsame] at hanswer
        obtain rfl := Except.ok.inj hanswer
        rw [List.take_left' (length_ctrXor _ _ _)] at hplain
        subst hplain
        rw [ccmSealed_eq key (by rw [length_ctrXor, hok]), ctrXor_ctrXor,
          ← hsame]
        exact ⟨rfl, length_ctrXor _ _ _⟩
      · rw [if_neg hsame] at hanswer
        cases hanswer
    · intro ⟨hsealed, hlen⟩
      have hplen : p.length = body.length := by
        have htotal := length_of_ccmSealed hsealed
        rw [List.length_append, hsent] at htotal
        omega
      rw [ccmSealed_eq key (by rw [hplen, hok]), Option.some_inj] at hsealed
      -- the body is the ciphertext of `p`, and the rest its tag
      obtain ⟨hbody, htagged⟩ := List.append_inj hsealed (by rw [length_ctrXor, hplen])
      have hplain : ctrXor (Aes256.new key) a0 body = p := by rw [← hbody, ctrXor_ctrXor]
      rw [hplain, if_pos htagged.symm, ← hlen, hplen, List.take_left' hplen]
      exact ⟨rfl, rfl⟩

/-- A plaintext is sealed as `buf` exactly when encrypting it, in a buffer with room
for the tag, writes `buf`. -/
theorem ccmSealed_iff_encrypt : ccmSealed key nonce aad p tagLen = some buf ↔
    ∃ room, room.length = tagLen ∧
      ccmEncryptInPlaceAad key nonce aad (p ++ room) p.length tagLen =
        (.ok (p.length + tagLen), buf) := by
  constructor
  · intro hsealed
    have hroom : (List.replicate tagLen (0 : UInt8)).length = tagLen := List.length_replicate
    have hencrypt := ccmEncrypt_eq [] hroom hsealed
    rw [List.append_nil, List.append_nil] at hencrypt
    exact ⟨_, hroom, hencrypt⟩
  · intro ⟨room, hroom, hencrypt⟩
    rcases ccmBlocks_cases nonce p.length tagLen (!aad.isEmpty) with ⟨-, herr⟩ | ⟨-, b0, a0, hok⟩
    · rw [ccmEncryptInPlaceAad, if_neg (by rw [List.length_append, hroom]; omega)] at hencrypt
      simp [herr] at hencrypt
    · have hsealed := ccmSealed_eq key hok
      have hagain := ccmEncrypt_eq [] hroom hsealed
      rw [List.append_nil, List.append_nil, hencrypt, Prod.mk.injEq] at hagain
      rw [hsealed, hagain.2]

/-- Every buffer gets one of four answers, told apart by its length, the nonce and the tag. -/
theorem ccmDecrypt_outcomes (key : Vector UInt8 32) (nonce aad buf : List UInt8)
    (htag : tagLen ≤ blockSize) :
    ((ccmDecryptInPlaceAad key nonce aad buf tagLen).1 = .error .tooShort ∧
        buf.length < tagLen) ∨
      ((ccmDecryptInPlaceAad key nonce aad buf tagLen).1 = .error .badNonce ∧
        tagLen ≤ buf.length ∧ nonce.length ≠ ccmNonceLen) ∨
      ((∃ n, (ccmDecryptInPlaceAad key nonce aad buf tagLen).1 = .ok n) ∧
        tagLen ≤ buf.length ∧ nonce.length = ccmNonceLen) ∨
      ((ccmDecryptInPlaceAad key nonce aad buf tagLen).1 = .error .unauthentic ∧
        tagLen ≤ buf.length ∧ nonce.length = ccmNonceLen) := by
  by_cases hshort : buf.length < tagLen
  · exact .inl ⟨congrArg Prod.fst (ccmDecrypt_short hshort), hshort⟩
  have hlong := not_lt.mp hshort
  by_cases hn : nonce.length = ccmNonceLen
  · obtain ⟨body, sent, rfl, hsent⟩ := exists_eq_append_tag hlong
    rcases ccmBlocks_cases nonce body.length tagLen (!aad.isEmpty) with
      ⟨hbad, -⟩ | ⟨-, b0, a0, hblocks⟩
    · exact absurd hn hbad
    · -- only now it is the tag that decides
      have heq := congrArg Prod.fst (ccmDecrypt_eq key hsent htag hblocks)
      dsimp only at heq
      split_ifs at heq
      · exact .inr (.inr (.inl ⟨⟨_, heq⟩, hlong, hn⟩))
      · exact .inr (.inr (.inr ⟨heq, hlong, hn⟩))
  · exact .inr (.inl ⟨congrArg Prod.fst (ccmDecrypt_badNonce hlong hn), hlong, hn⟩)

theorem ccmDecrypt_tooShort_iff (htag : tagLen ≤ blockSize) :
    (ccmDecryptInPlaceAad key nonce aad buf tagLen).1 = .error .tooShort ↔
      buf.length < tagLen := by
  rcases ccmDecrypt_outcomes key nonce aad buf htag with
    ⟨h, hlen⟩ | ⟨h, hlen, -⟩ | ⟨⟨n, h⟩, hlen, -⟩ | ⟨h, hlen, -⟩ <;> simp [h] <;> omega

theorem ccmDecrypt_badNonce_iff (htag : tagLen ≤ blockSize) :
    (ccmDecryptInPlaceAad key nonce aad buf tagLen).1 = .error .badNonce ↔
      tagLen ≤ buf.length ∧ nonce.length ≠ ccmNonceLen := by
  rcases ccmDecrypt_outcomes key nonce aad buf htag with
    ⟨h, hlen⟩ | ⟨h, hlen, hn⟩ | ⟨⟨n, h⟩, -, hn⟩ | ⟨h, -, hn⟩
  · simp [h, Nat.not_le.mpr hlen]
  · simp [h, hlen, hn]
  · simp [h, hn]
  · simp [h, hn]

/-- An answer is a plaintext of which encryption makes the buffer. -/
theorem ccmDecrypt_ok_iff_encrypt (htag : tagLen ≤ blockSize) {n : ℕ} :
    ((ccmDecryptInPlaceAad key nonce aad buf tagLen).1 = .ok n ∧
        (ccmDecryptInPlaceAad key nonce aad buf tagLen).2.take n = p) ↔
      p.length = n ∧ ∃ room, room.length = tagLen ∧
        ccmEncryptInPlaceAad key nonce aad (p ++ room) n tagLen = (.ok (n + tagLen), buf) := by
  rw [ccmDecrypt_ok_iff htag, ccmSealed_iff_encrypt, and_comm]
  refine and_congr_right fun hlen => ?_
  rw [hlen]

/-- A buffer that is not authentic is made of no plaintext. -/
theorem ccmDecrypt_unauthentic_iff (htag : tagLen ≤ blockSize) :
    (ccmDecryptInPlaceAad key nonce aad buf tagLen).1 = .error .unauthentic ↔
      tagLen ≤ buf.length ∧ nonce.length = ccmNonceLen ∧
        ∀ p room, room.length = tagLen →
          ccmEncryptInPlaceAad key nonce aad (p ++ room) p.length tagLen ≠
            (.ok (p.length + tagLen), buf) := by
  -- the four outcomes exclude one another, so each answer tells which one it was
  have houtcome := ccmDecrypt_outcomes key nonce aad buf htag
  constructor
  · intro hbad
    rcases houtcome with ⟨h, -⟩ | ⟨h, -⟩ | ⟨⟨n, h⟩, -⟩ | ⟨-, hlen, hn⟩
    · simp [h] at hbad
    · simp [h] at hbad
    · simp [h] at hbad
    · refine ⟨hlen, hn, fun p room hroom hencrypt => ?_⟩
      have hgood := ((ccmDecrypt_ok_iff_encrypt htag).mpr ⟨rfl, room, hroom, hencrypt⟩).1
      rw [hbad] at hgood
      cases hgood
  · intro ⟨hlen, hn, hnone⟩
    rcases houtcome with ⟨-, hshort⟩ | ⟨-, -, hbad⟩ | ⟨⟨n, h⟩, -⟩ | ⟨h, -⟩
    · omega
    · exact absurd hn hbad
    · -- an accepted buffer would be the encryption of what was found in it
      obtain ⟨hplen, room, hroom, hencrypt⟩ := (ccmDecrypt_ok_iff_encrypt htag).mp ⟨h, rfl⟩
      exact absurd (by rwa [hplen]) (hnone _ room hroom)
    · exact h

/-- What was encrypted is accepted, and is the plaintext again. -/
theorem ccmDecrypt_encrypted (htag : tagLen ≤ blockSize) (hn : nonce.length = ccmNonceLen)
    {room : List UInt8} (rest : List UInt8) (hroom : room.length = tagLen) :
    ∃ sealed, ccmEncryptInPlaceAad key nonce aad (p ++ room ++ rest) p.length tagLen =
        (.ok (p.length + tagLen), sealed ++ rest) ∧
      (ccmDecryptInPlaceAad key nonce aad sealed tagLen).1 = .ok p.length ∧
      (ccmDecryptInPlaceAad key nonce aad sealed tagLen).2.take p.length = p := by
  rcases ccmBlocks_cases nonce p.length tagLen (!aad.isEmpty) with
    ⟨hbad, -⟩ | ⟨-, b0, a0, hblocks⟩
  · exact absurd hn hbad
  · have hsealed := ccmSealed_eq key hblocks
    obtain ⟨hgood, hplain⟩ := (ccmDecrypt_ok_iff htag).mpr ⟨hsealed, rfl⟩
    exact ⟨_, ccmEncrypt_eq rest hroom hsealed, hgood, hplain⟩

/-- Behind one body only one tag is accepted. -/
theorem tag_unique_of_ccmDecrypt (htag : tagLen ≤ blockSize) {body sent sent' : List UInt8}
    (hsent : sent.length = tagLen) (hsent' : sent'.length = tagLen) {n n' : ℕ}
    (hok : (ccmDecryptInPlaceAad key nonce aad (body ++ sent) tagLen).1 = .ok n)
    (hok' : (ccmDecryptInPlaceAad key nonce aad (body ++ sent') tagLen).1 = .ok n') :
    sent = sent' := by
  rcases ccmBlocks_cases nonce body.length tagLen (!aad.isEmpty) with
    ⟨hbad, -⟩ | ⟨-, b0, a0, hblocks⟩
  · rw [ccmDecrypt_badNonce (by rw [List.length_append, hsent]; omega) hbad] at hok
    cases hok
  · rw [ccmDecrypt_eq key hsent htag hblocks] at hok
    rw [ccmDecrypt_eq key hsent' htag hblocks] at hok'
    dsimp only at hok hok'
    split_ifs at hok hok' with hsame hsame'
    rw [hsame, hsame']

/-- **CCM decryption accepts exactly the image of encryption.** A buffer shorter than
its tag is too short; any nonce but one of thirteen bytes is bad; otherwise the answer is
the plaintext whose encryption is the buffer, whatever bytes stood in the room for the
tag, and an unauthentic buffer is the encryption of none. Conversely, what encryption wrote
decrypts to the plaintext it was given. -/
theorem ccmDecrypt_accepts_exactly_encrypted (key : Vector UInt8 32) (nonce aad buf : List UInt8)
    (htag : tagLen ≤ blockSize) :
    let answer := ccmDecryptInPlaceAad key nonce aad buf tagLen
    (answer.1 = .error .tooShort ↔ buf.length < tagLen) ∧
      (answer.1 = .error .badNonce ↔ tagLen ≤ buf.length ∧ nonce.length ≠ ccmNonceLen) ∧
      (∀ n p, (answer.1 = .ok n ∧ answer.2.take n = p) ↔ p.length = n ∧
        ∃ room, room.length = tagLen ∧ ccmEncryptInPlaceAad key nonce aad (p ++ room) n tagLen =
          (.ok (n + tagLen), buf)) ∧
      (answer.1 = .error .unauthentic ↔ tagLen ≤ buf.length ∧ nonce.length = ccmNonceLen ∧
        ∀ p room, room.length = tagLen →
          ccmEncryptInPlaceAad key nonce aad (p ++ room) p.length tagLen ≠
            (.ok (p.length + tagLen), buf)) ∧
      (nonce.length = ccmNonceLen → ∀ p room rest, room.length = tagLen →
        ∃ sealed, ccmEncryptInPlaceAad key nonce aad (p ++ room ++ rest) p.length tagLen =
            (.ok (p.length + tagLen), sealed ++ rest) ∧
          (ccmDecryptInPlaceAad key nonce aad sealed tagLen).1 = .ok p.length ∧
          (ccmDecryptInPlaceAad key nonce aad sealed tagLen).2.take p.length = p) := by
  intro answer
  refine ⟨ccmDecrypt_tooShort_iff htag, ccmDecrypt_badNonce_iff htag, ?_, ?_, ?_⟩
  · intro n p
    exact ccmDecrypt_ok_iff_encrypt htag
  · exact ccmDecrypt_unauthentic_iff htag
  · intro hn p room rest hroom
    exact ccmDecrypt_encrypted htag hn rest hroom

/-- Two letters are sealed and opened again, and refused if the tag is another. -/
theorem ccmDecrypt_accepts_exactly_encrypted_hi :
    let key : Vector UInt8 32 := Vector.replicate 32 7
    let nonce : List UInt8 := List.replicate 13 1
    ∃ sealed, ccmEncryptInPlaceAad key nonce [3] ([104, 105] ++ List.replicate 8 0) 2 8 =
        (.ok 10, sealed) ∧ (ccmDecryptInPlaceAad key nonce [3] sealed 8).1 = .ok 2 ∧
      (ccmDecryptInPlaceAad key nonce [3] sealed 8).2.take 2 = [104, 105] ∧
      (ccmDecryptInPlaceAad key nonce [3] (sealed.take 2 ++ (sealed.drop 2).map (· + 1)) 8).1 =
        .error .unauthentic := by
  intro key nonce
  have htag : 8 ≤ blockSize := by decide
  obtain ⟨sealed, hencrypt, hok, hplain⟩ :=
    (ccmDecrypt_accepts_exactly_encrypted key nonce [3] [] htag).2.2.2.2 rfl [104, 105]
      (List.replicate 8 0) [] rfl
  rw [List.append_nil, List.append_nil] at hencrypt
  refine ⟨sealed, hencrypt, hok, hplain, ?_⟩
  set forged := sealed.take 2 ++ (sealed.drop 2).map (· + 1)
  have hlen : sealed.length = 10 :=
    length_of_ccmSealed (ccmSealed_iff_encrypt.mpr ⟨List.replicate 8 0, rfl, hencrypt⟩)
  have hsent : (sealed.drop 2).length = 8 := by rw [List.length_drop, hlen]
  have hforged : ((sealed.drop 2).map (· + 1)).length = 8 := by rw [List.length_map, hsent]
  obtain ⟨-, -, haccepts, hrefuses, -⟩ :=
    ccmDecrypt_accepts_exactly_encrypted key nonce [3] forged htag
  refine hrefuses.mpr ⟨by rw [List.length_append, hforged]; omega, rfl, fun p room hroom h => ?_⟩
  -- were it the encryption of some plaintext, both tags would be accepted
  have hok' := ((haccepts p.length p).mpr ⟨rfl, room, hroom, h⟩).1
  rw [← List.take_append_drop 2 sealed] at hok
  have hsame := tag_unique_of_ccmDecrypt htag hsent hforged hok hok'
  have hbyte := congrArg (fun bytes : List UInt8 => bytes[0]?) hsame
  rw [List.getElem?_map, List.getElem?_eq_getElem (by omega), Option.map_some,
    Option.some_inj] at hbyte
  simp at hbyte

end TetherMesh.Protocol
