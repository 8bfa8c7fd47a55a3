import TetherMesh.Groups.Opening

/-!
# What the tag of an envelope covers

The tag is decided by the input of the key derivation, the nonce and the blocks fed
to the CBC-MAC. The epoch, the plaintext, the originator, the packet identifier and
the invariant header bits all reach at least one of them, for plaintexts of every
length. The message type and the group identifier reach none: an envelope whose type
or group is replaced opens like the original.

## Main definitions

* `SealCall`, `tagInput`, `TagInput.tag`
* `SealCall.Differs`, `SealCall.BoundDiffers` — two calls differ at all, or in a field
  the tag covers
* `retarget` — replace the type and the group of an envelope

## Main results

* `tagInput_eq_iff` — exactly the covered fields are determined
* `open_retargeted` — a retargeted envelope is accepted
* `seal_tag_binds_iff`
-/

namespace TetherMesh.Groups

open Math CS Protocol

/-- The arguments of one call of `seal`, the group key apart. -/
structure SealCall where
  msgType : MsgType
  groupId : UInt32
  epoch : UInt8
  plaintext : List UInt8
  binding : Binding
  deriving DecidableEq

/-- What decides a tag: the input of the key derivation, the CCM nonce, and the blocks
fed to the CBC-MAC. -/
structure TagInput where
  keyInput : List UInt8
  nonce : Vector UInt8 ccmNonceLen
  blocks : List Block
  deriving DecidableEq

/-- The tag input of a call. -/
def tagInput (groupKey : Vector UInt8 32) (c : SealCall) : TagInput :=
  let n := nonce c.binding.fromNode c.binding.id c.epoch
  let aad := (aadFromHeader c.binding.header).toList
  { keyInput := epochKeyInput groupKey c.epoch
    nonce := n
    blocks := match ccmBlocks n.toList c.plaintext.length ccmTagLen (!aad.isEmpty) with
      | .error _ => []
      | .ok (b0, _) => macBlocks b0 aad c.plaintext }

/-- The tag, computed from its input alone. -/
def TagInput.tag (t : TagInput) : List UInt8 :=
  let aes := Aes256.new (sha256 t.keyInput)
  let a0 := match ccmBlocks t.nonce.toList 0 ccmTagLen true with
    | .error _ => zeroBlock
    | .ok (_, a0) => a0
  (List.range ccmTagLen).map fun i =>
    byteAt (cbcFold aes.encryptBlock xorBlock zeroBlock t.blocks) i ^^^
      byteAt (aes.encryptBlock a0) i

namespace SealCall

/-- The calls differ in a field the tag covers. -/
def BoundDiffers (c c' : SealCall) : Prop :=
  c.epoch ≠ c'.epoch ∨ c.plaintext ≠ c'.plaintext ∨ c.binding.fromNode ≠ c'.binding.fromNode ∨
    c.binding.id ≠ c'.binding.id ∨ ¬ SameInvariant c.binding.header c'.binding.header

/-- The calls differ in some field a receiver acts on. -/
def Differs (c c' : SealCall) : Prop :=
  c.msgType ≠ c'.msgType ∨ c.groupId ≠ c'.groupId ∨ c.BoundDiffers c'

end SealCall

/-! ## What reaches the tag -/

/-- The epoch is the last byte of the key input. -/
theorem getElem?_epochKeyInput (groupKey : Vector UInt8 32) (epoch : UInt8) :
    (epochKeyInput groupKey epoch)[52]? = some epoch := by
  have hlast (input : Vector UInt8 53) : ((setByte input 52 epoch).toList.take 53)[52]? =
      some epoch := by
    have hread := getElem?_toList_append (setByte input 52 epoch) [] (show 52 < 53 by decide)
    rw [List.append_nil] at hread
    rw [List.getElem?_take_of_lt (by decide), hread, setByte, Vector.getElem_setIfInBounds_self]
  exact hlast _

/-- The first four bytes of the nonce are the originator, the next four the identifier. -/
theorem byteAt_nonce (fromNode id : UInt32) (epoch : UInt8) {i : ℕ} (hi : i < 4) :
    byteAt (nonce fromNode id epoch) i = byteAt fromNode.toLeBytes i ∧
      byteAt (nonce fromNode id epoch) (i + 4) = byteAt id.toLeBytes i := by
  have hlt : i < ccmNonceLen := hi.trans (by decide)
  have hlt' : i + 4 < ccmNonceLen := (Nat.add_lt_add_right hi 4).trans (by decide)
  constructor
  · rw [nonce, byteAt_setByte_ne _ (by omega), byteAt_updateBytes _ _ _ _ hlt, if_neg (by omega),
      byteAt_updateBytes _ _ _ _ hlt, if_pos (by omega), Nat.sub_zero]
  · rw [nonce, byteAt_setByte_ne _ (by omega), byteAt_updateBytes _ _ _ _ hlt', if_pos (by omega),
      Nat.add_sub_cancel]

/-- The nonce determines the originator and the packet identifier. -/
theorem nonce_injective {fromNode fromNode' id id' : UInt32} {epoch epoch' : UInt8}
    (h : nonce fromNode id epoch = nonce fromNode' id' epoch') :
    fromNode = fromNode' ∧ id = id' := by
  constructor
  · apply UInt32.toLeBytes_injective
    apply ext_byteAt
    intro i hi
    rw [← (byteAt_nonce fromNode id epoch hi).1, h, (byteAt_nonce fromNode' id' epoch' hi).1]
  · apply UInt32.toLeBytes_injective
    apply ext_byteAt
    intro i hi
    rw [← (byteAt_nonce fromNode id epoch hi).2, h, (byteAt_nonce fromNode' id' epoch' hi).2]

/-- **The tag input determines exactly the covered fields**, for plaintexts of every
length; type and group do not occur in it. -/
theorem tagInput_eq_iff (groupKey : Vector UInt8 32) (c c' : SealCall) :
    tagInput groupKey c = tagInput groupKey c' ↔ ¬ c.BoundDiffers c' := by
  constructor
  · intro h hdiffers
    obtain ⟨b0, a0, hb⟩ := exists_ccmBlocks (nonce c.binding.fromNode c.binding.id c.epoch)
      c.plaintext.length ccmTagLen (!(aadFromHeader c.binding.header).toList.isEmpty)
    obtain ⟨b0', a0', hb'⟩ := exists_ccmBlocks (nonce c'.binding.fromNode c'.binding.id c'.epoch)
      c'.plaintext.length ccmTagLen (!(aadFromHeader c'.binding.header).toList.isEmpty)
    -- epoch from the key input, sender and identifier from the nonce, the rest from the blocks
    have hkey := congrArg TagInput.keyInput h
    have hnonce := congrArg TagInput.nonce h
    have hblocks := congrArg TagInput.blocks h
    simp only [tagInput, hb, hb'] at hkey hnonce hblocks
    have hepoch : c.epoch = c'.epoch := by
      have hlast := congrArg (·[52]?) hkey
      rwa [getElem?_epochKeyInput, getElem?_epochKeyInput, Option.some_inj] at hlast
    obtain ⟨hfrom, hid⟩ := nonce_injective hnonce
    obtain ⟨-, haad, hplain⟩ := macBlocks_injective hb hb'
      (by rw [Vector.length_toList, Vector.length_toList]) hblocks
    have hsame := aadFromHeader_eq_iff.mp (Vector.toList_inj.mp haad)
    rcases hdiffers with h | h | h | h | h
    · exact h hepoch
    · exact h hplain
    · exact h hfrom
    · exact h hid
    · exact h hsame
  · intro hsame
    simp only [SealCall.BoundDiffers, not_or, not_not] at hsame
    obtain ⟨hepoch, hplain, hfrom, hid, hheader⟩ := hsame
    simp only [tagInput, hepoch, hplain, hfrom, hid, aadFromHeader_eq_iff.mpr hheader]

/-- **The tag of an envelope is computed from its tag input.** -/
theorem tag_of_sealedUnder {groupKey : Vector UInt8 32} {c : SealCall} {sealed : List UInt8}
    (h : sealedUnder groupKey c.binding c.epoch c.plaintext = some sealed) :
    sealed.drop c.plaintext.length = (tagInput groupKey c).tag := by
  obtain ⟨b0, a0, hb⟩ := exists_ccmBlocks (nonce c.binding.fromNode c.binding.id c.epoch)
    c.plaintext.length ccmTagLen (!(aadFromHeader c.binding.header).toList.isEmpty)
  -- the counter block does not depend on the message
  have ha0 : ∃ b0', ccmBlocks (nonce c.binding.fromNode c.binding.id c.epoch).toList 0 ccmTagLen
      true = .ok (b0', a0) := by
    have hlen : ¬ (nonce c.binding.fromNode c.binding.id c.epoch).toList.length ≠ ccmNonceLen :=
      not_not.mpr Vector.length_toList
    rw [ccmBlocks, if_neg hlen] at hb
    rw [ccmBlocks, if_neg hlen]
    exact ⟨_, congrArg (fun a => Except.ok (_, a)) (Prod.mk.inj (Except.ok.inj hb)).2⟩
  obtain ⟨b0', ha0⟩ := ha0
  rw [sealedUnder, ccmSealed_eq _ hb] at h
  obtain rfl := Option.some.inj h
  rw [List.drop_left' (length_ctrXor _ _ _)]
  simp only [TagInput.tag, tagInput, hb, ha0, ccmTag, cbcMac_eq_cbcFold, epochKey]

/-! ## Type and group -/

/-- Replace the type byte and the group field of an envelope, keeping all else. -/
def retarget (buf : List UInt8) (msgType : MsgType) (groupId : UInt32) : List UInt8 :=
  overwrite (buf.set 1 msgType.toU8) 2 groupId.toLeBytes.toList

theorem retarget_append (msgType msgType' : MsgType) (groupId groupId' : UInt32) (epoch : UInt8)
    (sealed : List UInt8) :
    retarget ((envelopeHead msgType groupId epoch).toList ++ sealed) msgType' groupId' =
      (envelopeHead msgType' groupId' epoch).toList ++ sealed := by
  have hword : groupId.toLeBytes.toList.length = groupId'.toLeBytes.toList.length := by
    rw [Vector.length_toList, Vector.length_toList]
  exact overwrite_append [version, msgType'.toU8] (epoch :: sealed) hword

/-- **A retargeted envelope opens like the original.** -/
theorem open_retargeted {groupKey : Vector UInt8 32} {c : SealCall} {buf : List UInt8}
    (hseals : SealsAs groupKey c.binding c.msgType c.groupId c.epoch c.plaintext buf)
    (msgType' : MsgType) {groupId' : UInt32} (hgroup : groupId' ≠ 0) :
    (openInPlace groupKey c.binding (retarget buf msgType' groupId')).1 =
      .ok c.plaintext.length := by
  obtain ⟨-, sealed, hsealed, rfl⟩ := sealsAs_iff.mp hseals
  have htag : ccmTagLen ≤ sealed.length := by
    rw [length_of_ccmSealed hsealed]
    exact Nat.le_add_left _ _
  have hok := ((ccmDecrypt_ok_iff ccmTagLen_le).mpr ⟨hsealed, rfl⟩).1
  rw [retarget_append, openInPlace_eq hgroup htag]
  dsimp only
  rw [hok]
  rfl

/-- **What the tag binds.** Two calls that differ get different tag inputs exactly when
they differ in epoch, plaintext, originator, identifier or an invariant header bit; the
tag written is computed from the tag input; and every envelope whose type and group are
replaced by valid values is accepted. -/
theorem seal_tag_binds_iff (groupKey : Vector UInt8 32) :
    (∀ c c' : SealCall, (c.Differs c' → tagInput groupKey c ≠ tagInput groupKey c') ↔
      (c.Differs c' → c.BoundDiffers c')) ∧
    (∀ (c : SealCall) (sealed : List UInt8),
      sealedUnder groupKey c.binding c.epoch c.plaintext = some sealed →
        sealed.drop c.plaintext.length = (tagInput groupKey c).tag) ∧
    (∀ (c : SealCall) (buf : List UInt8) (msgType' : MsgType) (groupId' : UInt32), groupId' ≠ 0 →
      SealsAs groupKey c.binding c.msgType c.groupId c.epoch c.plaintext buf →
        (openInPlace groupKey c.binding (retarget buf msgType' groupId')).1 =
          .ok c.plaintext.length) := by
  refine ⟨fun c c' => imp_congr_right fun _ => ?_, fun c sealed => tag_of_sealedUnder, ?_⟩
  · rw [Ne, tagInput_eq_iff, not_not]
  · exact fun c buf msgType' groupId' hgroup hseals => open_retargeted hseals msgType' hgroup

/-- Two calls that differ in type and group have the same tag input, and the envelope of
the one is accepted as the other. -/
theorem seal_tag_ignores_type_and_group :
    let groupKey : Vector UInt8 32 := Vector.replicate 32 0
    let binding : Binding := ⟨Vector.replicate 16 0, 1, 2⟩
    let c : SealCall := ⟨.data, 7, 3, [], binding⟩
    let c' : SealCall := ⟨.roster, 8, 3, [], binding⟩
    c.Differs c' ∧ tagInput groupKey c = tagInput groupKey c' ∧
      ∃ buf, SealsAs groupKey binding c.msgType c.groupId c.epoch c.plaintext buf ∧
        (openInPlace groupKey binding (retarget buf c'.msgType c'.groupId)).1 = .ok 0 := by
  intro groupKey binding c c'
  have hsame : ¬ c.BoundDiffers c' := by
    intro hdiffers
    rcases hdiffers with h | h | h | h | h
    · exact h rfl
    · exact h rfl
    · exact h rfl
    · exact h rfl
    · exact h ⟨fun _ _ _ => rfl, rfl⟩
  refine ⟨.inl (by decide), (tagInput_eq_iff groupKey c c').mpr hsame, ?_⟩
  obtain ⟨sealed, hsealed⟩ := exists_sealedUnder groupKey binding c.epoch c.plaintext
  have hseals : SealsAs groupKey c.binding c.msgType c.groupId c.epoch c.plaintext _ :=
    sealsAs_iff.mpr ⟨by decide, sealed, hsealed, rfl⟩
  exact ⟨_, hseals, open_retargeted hseals c'.msgType (by decide)⟩

end TetherMesh.Groups
