import TetherMesh.Protocol.Ccm

/-!
# The blocks a CBC-MAC is computed over

The MAC code absorbs associated data byte by byte and the plaintext chunk by
chunk. Both amount to chaining one list of blocks: the first block with nonce and
length, the length-prefixed associated data, and the plaintext, each padded with
zeros.

## Main definitions

* `aadBlocks`, `textBlocks`, `macBlocks`
* `macInput` — the blocks of a message under a tag of eight bytes

## Main results

* `cbcMac_eq_cbcFold` — the code computes the chain over `macBlocks`
* `macInput_prefix_free`
* `macBlocks_injective` — the blocks determine nonce and plaintext of any length, and
  associated data of a common length
-/

namespace TetherMesh.Protocol

open Math CS

/-- The two-byte length in front of associated data. -/
def aadPrefix (aad : List UInt8) : List UInt8 :=
  [UInt8.ofNat (aad.length >>> 8 &&& 0xFF), UInt8.ofNat (aad.length &&& 0xFF)]

/-- The blocks of the associated data, none if there is none. -/
def aadBlocks (aad : List UInt8) : List Block :=
  if aad.isEmpty then [] else (chunks blockSize (aadPrefix aad ++ aad)).map (pad blockSize)

/-- The blocks of the plaintext. -/
def textBlocks (plaintext : List UInt8) : List Block :=
  (chunks blockSize plaintext).map (pad blockSize)

/-- Everything fed to the cipher for the MAC, in order. -/
def macBlocks (b0 : Block) (aad plaintext : List UInt8) : List Block :=
  b0 :: (aadBlocks aad ++ textBlocks plaintext)

theorem xorBlock_zeroBlock (b : Block) : xorBlock zeroBlock b = b := by
  apply ext_byteAt
  intro i hi
  rw [byteAt_xorBlock _ _ hi, byteAt_of_lt zeroBlock hi, zeroBlock, Vector.getElem_replicate,
    UInt8.zero_xor]

/-- XORing a chunk in byte by byte is XORing its zero-padded block. -/
theorem updateBytes_xor_eq (x : Block) (chunk : List UInt8) :
    updateBytes 0 chunk.length (fun i cur => cur ^^^ chunk.getD i 0) x =
      xorBlock x (pad blockSize chunk) := by
  apply ext_byteAt
  intro i hi
  rw [byteAt_updateBytes _ _ _ _ hi, byteAt_xorBlock _ _ hi, byteAt_pad _ hi]
  by_cases hin : i < chunk.length
  · rw [if_pos (by omega), List.getD_eq_getElem?_getD, Nat.sub_zero]
  · rw [if_neg (by omega), List.getElem?_eq_none (not_lt.mp hin), Option.getD_none, UInt8.xor_zero]

section

variable (aes : Aes256)

/-- The associated-data loop, entered with a partly filled block, chains the blocks of
what is pending and what is to come. -/
theorem aadFold_eq (x : Block) {pending : List UInt8} (hne : pending ≠ [])
    (hle : pending.length ≤ blockSize) (aad : List UInt8) :
    aes.encryptBlock (xorBlock
        (aad.foldl (aadStep aes) (x, pad blockSize pending, pending.length)).1
        (aad.foldl (aadStep aes) (x, pad blockSize pending, pending.length)).2.1) =
      cbcFold aes.encryptBlock xorBlock x
        ((chunks blockSize (pending ++ aad)).map (pad blockSize)) := by
  induction aad generalizing x pending with
  | nil =>
    rw [List.append_nil, chunks_of_length_le hne hle]
    rfl
  | cons b aad ih =>
    rw [List.foldl_cons, aadStep]
    by_cases hfull : pending.length = blockSize
    · -- the pending block is complete and is absorbed
      have hfirst : setByte zeroBlock 0 b = pad blockSize [b] := by
        rw [zeroBlock, ← pad_nil]
        exact setByte_pad [] b
      have hrest := ih (aes.encryptBlock (xorBlock x (pad blockSize pending)))
        (List.cons_ne_nil b []) (by rw [List.length_singleton]; exact blockSize_pos)
      rw [if_pos hfull]
      dsimp only
      rw [chunks_append blockSize_pos hfull, List.map_cons, cbcFold_cons, hfirst]
      exact hrest
    · -- the byte joins the pending block
      have hroom : pending.length < blockSize := lt_of_le_of_ne hle hfull
      have hlen : pending.length + 1 = (pending ++ [b]).length := by
        rw [List.length_append, List.length_singleton]
      rw [if_neg hfull]
      dsimp only
      rw [setByte_pad pending, hlen, List.append_cons pending b aad]
      have hrest := ih x (List.append_ne_nil_of_right_ne_nil pending (List.cons_ne_nil b []))
        (hlen ▸ Nat.succ_le_of_lt hroom)
      exact hrest

/-- **The code computes the chain over `macBlocks`.** -/
theorem cbcMac_eq_cbcFold (b0 : Block) (aad plaintext : List UInt8) :
    cbcMac aes b0 aad plaintext =
      cbcFold aes.encryptBlock xorBlock zeroBlock (macBlocks b0 aad plaintext) := by
  have htext (x : Block) : (chunks blockSize plaintext).foldl
      (fun x chunk =>
        aes.encryptBlock (updateBytes 0 chunk.length (fun i cur => cur ^^^ chunk.getD i 0) x)) x =
      cbcFold aes.encryptBlock xorBlock x (textBlocks plaintext) := by
    rw [textBlocks, cbcFold, List.foldl_map]
    apply List.foldl_ext
    intro x chunk _
    rw [updateBytes_xor_eq x chunk]
  rw [macBlocks, cbcFold_cons, xorBlock_zeroBlock, cbcFold_append, cbcMac]
  dsimp only
  rw [htext]
  congr 1
  rw [aadBlocks]
  by_cases hempty : aad.isEmpty = true
  · rw [if_pos hempty, if_pos hempty, cbcFold_nil]
  · rw [if_neg hempty, if_neg hempty]
    -- the loop starts with the two length bytes pending
    have hhead : setByte (setByte zeroBlock 0 (UInt8.ofNat (aad.length >>> 8 &&& 0xFF))) 1
        (UInt8.ofNat (aad.length &&& 0xFF)) = pad blockSize (aadPrefix aad) := by
      rw [zeroBlock, ← pad_nil, aadPrefix]
      exact (congrArg (setByte · 1 _) (setByte_pad [] _)).trans (setByte_pad [_] _)
    have hlen : (aadPrefix aad).length ≤ blockSize := by
      rw [aadPrefix, List.length_cons, List.length_singleton]
      decide
    rw [hhead]
    exact aadFold_eq aes (aes.encryptBlock b0) (List.cons_ne_nil _ _) hlen aad

end

/-! ## What the blocks determine -/

variable {nonce nonce' aad aad' p p' : List UInt8} {msgLen tagLen tagLen' : ℕ} {hasAad : Bool}
  {b0 a0 b0' a0' : Block}

theorem length_of_ccmBlocks (h : ccmBlocks nonce msgLen tagLen hasAad = .ok (b0, a0)) :
    nonce.length = ccmNonceLen := by
  rcases ccmBlocks_cases nonce msgLen tagLen hasAad with ⟨-, herr⟩ | ⟨hlen, -⟩
  · rw [h] at herr
    cases herr
  · exact hlen

/-- The first block carries the nonce in bytes 1 to 13. -/
theorem byteAt_ccmBlocks_nonce (h : ccmBlocks nonce msgLen tagLen hasAad = .ok (b0, a0)) {i : ℕ}
    (hi : i < ccmNonceLen) : byteAt b0 (i + 1) = nonce.getD i 0 := by
  have hlen := length_of_ccmBlocks h
  have hi' : i < 13 := hi
  have hlt : i + 1 < blockSize := show i + 1 < 16 by omega
  rw [ccmBlocks, if_neg (not_not.mpr hlen)] at h
  obtain ⟨rfl, -⟩ := Prod.mk.inj (Except.ok.inj h)
  have hin : 1 ≤ i + 1 ∧ i + 1 < 1 + nonce.length := by
    rw [hlen]
    change 1 ≤ i + 1 ∧ i + 1 < 1 + 13
    omega
  -- the length field behind the nonce does not reach it
  rw [byteAt_setByte_ne _ (by omega), byteAt_setByte_ne _ (by omega),
    byteAt_updateBytes _ _ _ _ hlt, if_pos hin, Nat.add_sub_cancel]

/-- And the message length in its last two bytes. -/
theorem byteAt_ccmBlocks_len (h : ccmBlocks nonce msgLen tagLen hasAad = .ok (b0, a0)) :
    (byteAt b0 14).toNat = msgLen / 256 % 256 ∧ (byteAt b0 15).toNat = msgLen % 256 := by
  have hlen := length_of_ccmBlocks h
  rw [ccmBlocks, if_neg (not_not.mpr hlen)] at h
  obtain ⟨rfl, -⟩ := Prod.mk.inj (Except.ok.inj h)
  rw [byteAt_setByte_ne _ (by decide), byteAt_setByte_self _ (by decide),
    byteAt_setByte_self _ (by decide), UInt8.toNat_ofNat', UInt8.toNat_ofNat',
    Nat.and_two_pow_sub_one_eq_mod _ 8, Nat.and_two_pow_sub_one_eq_mod _ 8,
    Nat.shiftRight_eq_div_pow]
  omega

/-- Plaintexts with the same padded chunks and the same length field are equal: the field
gives the length modulo 2¹⁶, and the number of chunks gives the rest. -/
theorem textBlocks_injective (hmod : p.length % 65536 = p'.length % 65536)
    (h : textBlocks p = textBlocks p') : p = p' := by
  have hcount := congrArg List.length h
  simp only [textBlocks, List.length_map, length_chunks] at hcount
  refine map_pad_chunks_injective blockSize_pos ?_ h
  change (p.length + 16 - 1) / 16 = (p'.length + 16 - 1) / 16 at hcount
  omega

theorem aadBlocks_injective (hlen : aad.length = aad'.length)
    (h : aadBlocks aad = aadBlocks aad') : aad = aad' := by
  by_cases hempty : aad = []
  · subst hempty
    exact (List.length_eq_zero_iff.mp hlen.symm).symm
  · have hempty' : aad' ≠ [] := by
      intro hnil
      rw [hnil, List.length_nil] at hlen
      exact hempty (List.length_eq_zero_iff.mp hlen)
    rw [aadBlocks, aadBlocks, if_neg (by simpa using hempty), if_neg (by simpa using hempty')] at h
    have hbytes := map_pad_chunks_injective blockSize_pos (by
      simp [aadPrefix, hlen]) h
    exact (List.append_inj hbytes rfl).2

/-- Associated data of one length takes up as many blocks. -/
theorem length_aadBlocks (hlen : aad.length = aad'.length) :
    (aadBlocks aad).length = (aadBlocks aad').length := by
  have hiff : aad.isEmpty = aad'.isEmpty := by
    rw [Bool.eq_iff_iff, List.isEmpty_iff_length_eq_zero, List.isEmpty_iff_length_eq_zero, hlen]
  simp only [aadBlocks, hiff]
  split
  · rfl
  · simp [aadPrefix, hlen]

/-- **The blocks determine what is authenticated**: nonce, associated data of a given
length, and a plaintext of any length. -/
theorem macBlocks_injective (hb : ccmBlocks nonce p.length tagLen (!aad.isEmpty) = .ok (b0, a0))
    (hb' : ccmBlocks nonce' p'.length tagLen' (!aad'.isEmpty) = .ok (b0', a0'))
    (hlen : aad.length = aad'.length) (h : macBlocks b0 aad p = macBlocks b0' aad' p') :
    nonce = nonce' ∧ aad = aad' ∧ p = p' := by
  obtain ⟨rfl, hrest⟩ := List.cons.inj h
  -- the text starts at the same block
  obtain ⟨haad, htext⟩ := List.append_inj hrest (length_aadBlocks hlen)
  refine ⟨?_, aadBlocks_injective hlen haad, textBlocks_injective ?_ htext⟩
  · have hn := length_of_ccmBlocks hb
    have hn' := length_of_ccmBlocks hb'
    apply List.ext_getElem (hn.trans hn'.symm)
    intro i hi hi'
    have hbyte := (byteAt_ccmBlocks_nonce hb (hn ▸ hi)).symm.trans
      (byteAt_ccmBlocks_nonce hb' (hn ▸ hi))
    rwa [List.getD_eq_getElem _ _ hi, List.getD_eq_getElem _ _ hi'] at hbyte
  · obtain ⟨hhigh, hlow⟩ := byteAt_ccmBlocks_len hb
    obtain ⟨hhigh', hlow'⟩ := byteAt_ccmBlocks_len hb'
    omega

/-! ## No sequence of blocks is the beginning of another -/

/-- The first byte of the first block tells whether there is associated data. -/
theorem byteAt_ccmBlocks_flags (h : ccmBlocks nonce msgLen ccmTagLen hasAad = .ok (b0, a0)) :
    byteAt b0 0 = if hasAad then 0x59 else 0x19 := by
  have hlen := length_of_ccmBlocks h
  rw [ccmBlocks, if_neg (not_not.mpr hlen)] at h
  obtain ⟨rfl, -⟩ := Prod.mk.inj (Except.ok.inj h)
  rw [byteAt_setByte_ne _ (by decide), byteAt_setByte_ne _ (by decide),
    byteAt_updateBytes _ _ _ _ (by decide), if_neg (by omega), byteAt_setByte_self _ (by decide)]
  cases hasAad <;> decide

/-- The first block of associated data starts with its length. -/
theorem exists_aadBlocks_cons (hne : aad ≠ []) : ∃ b rest, aadBlocks aad = b :: rest ∧
    (byteAt b 0).toNat = aad.length / 256 % 256 ∧ (byteAt b 1).toNat = aad.length % 256 := by
  have hcons : aadPrefix aad ++ aad ≠ [] :=
    List.append_ne_nil_of_left_ne_nil (List.cons_ne_nil _ _) _
  have hblocks : aadBlocks aad = pad blockSize ((aadPrefix aad ++ aad).take blockSize) ::
      (chunks blockSize ((aadPrefix aad ++ aad).drop blockSize)).map (pad blockSize) := by
    rw [aadBlocks, if_neg (by simpa using hne), chunks_of_ne_nil blockSize_pos hcons, List.map_cons]
  refine ⟨_, _, hblocks, ?_, ?_⟩
  · rw [byteAt_pad _ (by decide)]
    change (UInt8.ofNat (aad.length >>> 8 &&& 0xFF)).toNat = _
    rw [UInt8.toNat_ofNat', Nat.and_two_pow_sub_one_eq_mod _ 8, Nat.shiftRight_eq_div_pow]
    omega
  · rw [byteAt_pad _ (by decide)]
    change (UInt8.ofNat (aad.length &&& 0xFF)).toNat = _
    rw [UInt8.toNat_ofNat', Nat.and_two_pow_sub_one_eq_mod _ 8]
    omega

/-- Blocks that begin alike belong to associated data of one length. -/
theorem length_eq_of_prefixed_aadBlocks {rest rest' : List Block}
    (hempty : aad.isEmpty = aad'.isEmpty) (haad : aad.length < 2 ^ 16)
    (haad' : aad'.length < 2 ^ 16)
    (h : aadBlocks aad ++ rest <+: aadBlocks aad' ++ rest') : aad.length = aad'.length := by
  by_cases hne : aad = []
  · subst hne
    rw [List.isEmpty_iff.mp hempty.symm]
  · have hne' : aad' ≠ [] := by
      intro hnil
      rw [hnil] at hempty
      exact hne (List.isEmpty_iff.mp hempty)
    obtain ⟨b, blocks, hb, hhigh, hlow⟩ := exists_aadBlocks_cons hne
    obtain ⟨b', blocks', hb', hhigh', hlow'⟩ := exists_aadBlocks_cons hne'
    rw [hb, hb', List.cons_append, List.cons_append, List.cons_prefix_cons] at h
    obtain ⟨rfl, -⟩ := h
    omega

/-- The blocks the MAC of a message is computed over, under a tag of eight bytes. -/
def macInput (nonce : Vector UInt8 ccmNonceLen) (aad plaintext : List UInt8) : List Block :=
  match ccmBlocks nonce.toList plaintext.length ccmTagLen (!aad.isEmpty) with
  | .error _ => []
  | .ok (b0, _) => macBlocks b0 aad plaintext

section MacInput

variable {n n' : Vector UInt8 ccmNonceLen}

/-- The code chains exactly these blocks. -/
theorem exists_cbcMac_eq_macInput (n : Vector UInt8 ccmNonceLen) (aad p : List UInt8) :
    ∃ b0 a0, ccmBlocks n.toList p.length ccmTagLen (!aad.isEmpty) = .ok (b0, a0) ∧
      macInput n aad p = macBlocks b0 aad p ∧ ∀ aes : Aes256, cbcMac aes b0 aad p =
        cbcFold aes.encryptBlock xorBlock zeroBlock (macInput n aad p) := by
  obtain ⟨b0, a0, hblocks⟩ := exists_ccmBlocks n p.length ccmTagLen (!aad.isEmpty)
  have hinput : macInput n aad p = macBlocks b0 aad p := by rw [macInput, hblocks]
  refine ⟨b0, a0, hblocks, hinput, fun aes => ?_⟩
  rw [hinput, cbcMac_eq_cbcFold]

/-- Blocks that are the beginning of others are all of them, and of the same message. -/
theorem eq_of_prefixed_macInput (haad : aad.length < 2 ^ 16) (haad' : aad'.length < 2 ^ 16)
    (hp : p.length < 2 ^ 16) (hp' : p'.length < 2 ^ 16)
    (h : macInput n aad p <+: macInput n' aad' p') : (n, aad, p) = (n', aad', p') := by
  obtain ⟨b0, a0, hblocks, hinput, -⟩ := exists_cbcMac_eq_macInput n aad p
  obtain ⟨b0', a0', hblocks', hinput', -⟩ := exists_cbcMac_eq_macInput n' aad' p'
  rw [hinput, hinput'] at h
  obtain ⟨hfirst, hrest⟩ := List.cons_prefix_cons.mp h
  -- the first block fixes the length of the text, and whether there is associated data
  obtain ⟨hhigh, hlow⟩ := byteAt_ccmBlocks_len hblocks
  obtain ⟨hhigh', hlow'⟩ := byteAt_ccmBlocks_len hblocks'
  have hflag := byteAt_ccmBlocks_flags hblocks
  have hflag' := byteAt_ccmBlocks_flags hblocks'
  rw [hfirst] at hhigh hlow hflag
  have hplen : p.length = p'.length := by omega
  have hempty : aad.isEmpty = aad'.isEmpty := by
    rw [hflag] at hflag'
    revert hflag'
    cases aad.isEmpty <;> cases aad'.isEmpty <;> decide
  -- so both sequences have the same number of blocks, and one is not longer than the other
  have halen := length_eq_of_prefixed_aadBlocks hempty haad haad' hrest
  have hcount : (macBlocks b0 aad p).length = (macBlocks b0' aad' p').length := by
    simp only [macBlocks, List.length_cons, List.length_append, length_aadBlocks halen, textBlocks,
      List.length_map, length_chunks, hplen]
  obtain ⟨hn, rfl, rfl⟩ := macBlocks_injective hblocks hblocks' halen (h.eq_of_length hcount)
  rw [Vector.toList_inj.mp hn]

/-- **The MAC input is injective and prefix-free.** The code chains one sequence of blocks for
each message; the sequences of different messages are different, and neither is the beginning
of the other. -/
theorem macInput_prefix_free (haad : aad.length < 2 ^ 16) (haad' : aad'.length < 2 ^ 16)
    (hp : p.length < 2 ^ 16) (hp' : p'.length < 2 ^ 16) (hne : (n, aad, p) ≠ (n', aad', p')) :
    macInput n aad p ≠ macInput n' aad' p' ∧ ¬ macInput n aad p <+: macInput n' aad' p' ∧
      ¬ macInput n' aad' p' <+: macInput n aad p ∧
      ∀ (n : Vector UInt8 ccmNonceLen) (aad p : List UInt8), ∃ b0 a0,
        ccmBlocks n.toList p.length ccmTagLen (!aad.isEmpty) = .ok (b0, a0) ∧
          ∀ aes : Aes256, cbcMac aes b0 aad p =
            cbcFold aes.encryptBlock xorBlock zeroBlock (macInput n aad p) := by
  refine ⟨fun heq => ?_, fun hprefix => ?_, fun hprefix => ?_, fun n aad p => ?_⟩
  · exact hne (eq_of_prefixed_macInput haad haad' hp hp' (heq ▸ List.prefix_rfl))
  · exact hne (eq_of_prefixed_macInput haad haad' hp hp' hprefix)
  · exact hne (eq_of_prefixed_macInput haad' haad hp' hp hprefix).symm
  · obtain ⟨b0, a0, hblocks, -, hchain⟩ := exists_cbcMac_eq_macInput n aad p
    exact ⟨b0, a0, hblocks, hchain⟩

/-- A zero byte moved from the plaintext to the associated data. -/
theorem macInput_prefix_free_moved :
    ¬ macInput (Vector.replicate ccmNonceLen 0) [1] [0, 2] <+:
      macInput (Vector.replicate ccmNonceLen 0) [1, 0] [2] :=
  have hne : ((Vector.replicate ccmNonceLen 0, [1], [0, 2]) :
      Vector UInt8 ccmNonceLen × List UInt8 × List UInt8) ≠
    (Vector.replicate ccmNonceLen 0, [1, 0], [2]) := by decide
  (macInput_prefix_free (by decide) (by decide) (by decide) (by decide) hne).2.1

end MacInput

end TetherMesh.Protocol
