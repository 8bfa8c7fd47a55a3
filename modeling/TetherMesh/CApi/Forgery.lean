import TetherMesh.CApi.Copies

/-!
# What one known text gives away

A channel frame is its payload under a keystream that the packet identifier and the sender
determine, and nothing else protects it. So whoever heard one frame and knows what it says has the
keystream of its identifier. It opens every frame under that identifier, and makes the frames that
those who have the key would make. This is what an identifier must not be used twice for.

## Main definitions

* `saidBy` — what the key reads in a frame
* `overheard`, `forged` — reading and writing with what one frame says in place of the key

## Main results

* `known_text_gives_away`
-/

namespace TetherMesh.CApi

open Math Protocol Protocol.Message

/-- What is read in a frame with the channel key. -/
def saidBy (key : TmKey) (frame : List UInt8) : List UInt8 :=
  (tmFrameDecrypt (some frame) (some key) (some []) (some 0)).plaintext

/-- What is read in `frame` by somebody who knows that `heard` says `said`. -/
def overheard (heard said frame : List UInt8) : List UInt8 :=
  xorInto (frame.drop headerLen) (xorInto said (heard.drop headerLen))

/-- What is written by somebody who knows that `heard` says `said`. -/
def forged (heard said : List UInt8) (h : Header) (text : List UInt8) : List UInt8 :=
  h.encode.toList ++ xorInto text (xorInto said (heard.drop headerLen))

variable {heard frame text : List UInt8} {g h : Header} {key : TmKey} {call : EncodeCall}
  {data : Data}

theorem saidBy_eq (hdec : Header.decode heard = some g) (key : TmKey) :
    saidBy key heard = ctrApply key.bytes (nonce g.id g.fromNode 0) (heard.drop headerLen) := by
  rw [saidBy, tmFrameDecrypt, Frame.decodeInPlace, hdec]
  exact List.take_length

/-- The keystream of an identifier is what a frame says over its body. -/
theorem ctrApply_eq_of_heard (hdec : Header.decode heard = some g)
    (hle : headerLen + text.length ≤ heard.length) :
    ctrApply key.bytes (nonce g.id g.fromNode 0) text =
      xorInto text (xorInto (saidBy key heard) (heard.drop headerLen)) := by
  have hknown := saidBy_eq hdec key
  have hbody : ctrApply key.bytes (nonce g.id g.fromNode 0) (saidBy key heard) =
      heard.drop headerLen := by
    rw [hknown, ctrApply_ctrApply]
  have hreach : text.length ≤ (saidBy key heard).length := by
    rw [hknown, length_ctrApply, List.length_drop]
    omega
  rw [← hbody]
  exact CS.streamXor_eq_of_known blockSize_pos _ hreach

/-- It opens what it reaches. -/
theorem overheard_eq (hdec : Header.decode heard = some g) (hdec' : Header.decode frame = some h)
    (hid : h.id = g.id) (hfrom : h.fromNode = g.fromNode) (hle : frame.length ≤ heard.length) :
    overheard heard (saidBy key heard) frame = saidBy key frame := by
  have hlen := Header.le_length_of_decode hdec'
  rw [saidBy_eq hdec', hid, hfrom, overheard]
  refine (ctrApply_eq_of_heard hdec ?_).symm
  rw [List.length_drop]
  omega

/-- It makes what an encoder makes with the key. -/
theorem forged_eq_built (hdec : Header.decode heard = some g) (hpos : 0 < call.answer.1)
    (huses : call.Uses key) (hcarried : call.carried = some data) (hid : call.id = g.id)
    (hfrom : call.fromNode = g.fromNode) (hle : headerLen + (wrapped data).length ≤ heard.length) :
    forged heard (saidBy key heard) call.origin (wrapped data) = built call.answer := by
  obtain ⟨body, hbuilt, hbody⟩ := EncodeCall.exists_body hpos huses
  rw [hbuilt, hbody data hcarried, hid, hfrom, ctrApply_eq_of_heard hdec hle]
  rfl

/-- **One known text gives away its identifier.** Whoever heard a frame and knows what it says
reads, without the channel key, every frame no longer than it under the same identifier and sender;
writes, without the key, the very frame that any encode call with the key builds there, whatever its
other arguments; and so acknowledges any request. -/
theorem known_text_gives_away (hdec : Header.decode heard = some g) (key : TmKey) :
    (∀ frame h, Header.decode frame = some h → h.id = g.id → h.fromNode = g.fromNode →
        frame.length ≤ heard.length →
        overheard heard (saidBy key heard) frame = saidBy key frame) ∧
      (∀ (call : EncodeCall) data, 0 < call.answer.1 → call.Uses key → call.carried = some data →
        call.id = g.id → call.fromNode = g.fromNode →
        headerLen + (wrapped data).length ≤ heard.length →
        forged heard (saidBy key heard) call.origin (wrapped data) = built call.answer) ∧
      ∀ toNode requestId hopLimit channelHash oldId status, requestId ≠ 0 →
        headerLen + 11 ≤ heard.length →
        tmAcknowledges (some (saidBy key (forged heard (saidBy key heard)
            (originHeader g.fromNode toNode g.id hopLimit channelHash false)
            (wrapped (acknowledgement requestId))))) (some oldId) status =
          (1, some requestId, status.map fun _ => 0) := by
  refine ⟨fun frame h hdec' hid hfrom hle => overheard_eq hdec hdec' hid hfrom hle,
    fun call data hpos huses hcarried hid hfrom hle =>
      forged_eq_built hdec hpos huses hcarried hid hfrom hle, ?_⟩
  intro toNode requestId hopLimit channelHash oldId status hrequest hlong
  let call : EncodeCall := .ack g.fromNode toNode g.id requestId hopLimit channelHash (some key)
    (some (List.replicate 27 0))
  have hpos : 0 < call.answer.1 := tmAckEncode_pos List.length_replicate.ge
  have hfits := length_wrapped_acknowledgement_le requestId
  have hforged : forged heard (saidBy key heard) call.origin (wrapped (acknowledgement requestId)) =
      built call.answer :=
    forged_eq_built hdec hpos rfl rfl rfl rfl (by omega)
  have hack := tmAcknowledges_ack hpos [] 0 oldId status
  rw [if_neg hrequest] at hack
  change tmAcknowledges (some (saidBy key (forged heard (saidBy key heard) call.origin
    (wrapped (acknowledgement requestId))))) (some oldId) status = _
  rw [hforged]
  exact hack

/-- Two other letters, under the identifier that node 1 has used for a text. -/
def noText : EncodeCall :=
  .text 1 2 3 3 97 0 (some ⟨Vector.replicate 16 7⟩) (some [110, 111]) (some (List.replicate 64 0))

/-- They are written with what the text says. -/
theorem known_text_gives_away_no :
    forged (built (hiText 2 97).answer)
        (saidBy ⟨Vector.replicate 16 7⟩ (built (hiText 2 97).answer)) noText.origin
        (appBytes 1 [110, 111]) =
      built noText.answer := by
  have hkey : (hiText 2 97).Uses ⟨Vector.replicate 16 7⟩ := rfl
  have hlen : (appBytes 1 [110, 111]).length = 6 := by
    rw [length_appBytes, if_neg (List.cons_ne_nil _ _), Math.Varint.encode_of_lt (by decide)]
    rfl
  have hpos : 0 < noText.answer.1 := by
    refine tmTextEncode_pos ?_ ?_ <;> rw [hlen]
    · norm_num
    · rw [List.length_replicate]
      norm_num
  obtain ⟨h, hdec, limit, relayNode, rfl⟩ :=
    (EncodeCall.IsCopy.built (hiText 2 97)).exists_header (hiText_pos 2 97) hkey
  have hheard : (built (hiText 2 97).answer).length = headerLen + 6 := by
    rw [(EncodeCall.built_channel (hiText_pos 2 97) hkey rfl).2, Frame.length_sealed]
    exact congrArg _ length_hi
  exact (known_text_gives_away hdec ⟨Vector.replicate 16 7⟩).2.1 noText _ hpos rfl rfl rfl rfl
    (hheard.symm ▸ Nat.add_le_add_left hlen.le _)

end TetherMesh.CApi
