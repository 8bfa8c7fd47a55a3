import TetherMesh.CApi.Copies
import TetherMesh.Groups.Opening

/-!
# A group message crosses the mesh

The sender seals a message for the header its frame will have, and puts the envelope into an
extension frame. A member opens whatever frame arrives with the header it arrived under. The
frame holds up to 212 bytes of message, relays change nothing, and no other frame of the
C interface is read as a group message.

## Main definitions

* `GroupMessage` — a group message as a member reads it
* `openEnvelope`, `readMessage` — read the envelope under a header, read a frame
* `crossingLen` — how long the frame of a message is

## Main results

* `openEnvelope_eq_some_iff` — what an envelope opens to was sealed under this header
* `message_crosses` — from the sender through relays to a member
* `members_read_exactly` — what a member reads in any frame
-/

namespace TetherMesh.Groups

open Math Protocol Protocol.Message CApi

/-- `PORTNUM`. -/
def portnum : UInt32 := 256

/-- A group message as a member reads it. -/
structure GroupMessage where
  fromNode : UInt32
  id : UInt32
  msgType : MsgType
  groupId : UInt32
  epoch : UInt8
  text : List UInt8
  deriving DecidableEq

/-- Open an envelope that arrived under this header. -/
def openEnvelope (groupKey : Vector UInt8 32) (header : Header) (payload : List UInt8) :
    Option GroupMessage :=
  match parse payload, openInPlace groupKey ⟨header.encode, header.fromNode, header.id⟩ payload with
  | .ok e, (.ok n, buf) => some ⟨header.fromNode, header.id, e.msgType, e.groupId, e.epoch,
      (buf.drop headerBytes).take n⟩
  | _, _ => none

/-- Read a frame as a group message: decrypt it, take it apart and open the envelope in it. -/
def readMessage (groupKey : Vector UInt8 32) (channel : TmKey) (frame : List UInt8) :
    Option GroupMessage :=
  match Frame.decodeInPlace frame channel.bytes 0 with
  | (.error _, _) => none
  | (.ok (header, payload), _) =>
    match Data.decode payload with
    | .error _ => none
    | .ok data =>
      if data.portnum ≠ portnum then none else openEnvelope groupKey header data.payload

variable {groupKey : Vector UInt8 32} {channel : TmKey} {frame payload : List UInt8}
  {header : Header} {m : GroupMessage} {group : GroupEpoch} {binding : Binding}
  {msgType : MsgType} {text room : List UInt8} {n : ℕ}

/-! ## Reading -/

/-- **An envelope opens to what was sealed under the header**, and to nothing else. -/
theorem openEnvelope_eq_some_iff : openEnvelope groupKey header payload = some m ↔
    m.fromNode = header.fromNode ∧ m.id = header.id ∧
      SealsAs groupKey ⟨header.encode, header.fromNode, header.id⟩ m.msgType m.groupId m.epoch
        m.text payload := by
  constructor
  · intro h
    unfold openEnvelope at h
    split at h
    · rename_i e n buf hparse hopen
      have hok : (openInPlace groupKey ⟨header.encode, header.fromNode, header.id⟩ payload).1 =
          .ok n := by rw [hopen]
      obtain ⟨msgType, groupId, epoch, p, -, hlen, hseals⟩ := exists_sealsAs hok
      obtain ⟨hparsed, -, htext⟩ := hseals.opens
      -- the parser and the cipher speak of one envelope
      obtain rfl := Except.ok.inj (hparse.symm.trans hparsed)
      rw [hopen, hlen] at htext
      obtain rfl := Option.some.inj h
      refine ⟨rfl, rfl, ?_⟩
      dsimp only at htext ⊢
      rwa [htext]
    · cases h
  · rintro ⟨hfrom, hid, hseals⟩
    obtain ⟨hparse, hok, htext⟩ := hseals.opens
    unfold openEnvelope
    rw [hparse]
    generalize openInPlace groupKey ⟨header.encode, header.fromNode, header.id⟩ payload = opened
      at hok htext
    obtain ⟨answer, buf⟩ := opened
    obtain rfl : answer = .ok m.text.length := hok
    dsimp only at htext ⊢
    rw [htext, ← hfrom, ← hid]

/-- A header rewritten by relays opens the same. -/
theorem openEnvelope_sentAs {header' : Header} (hsent : SentAs header header') :
    openEnvelope groupKey header' payload = openEnvelope groupKey header payload := by
  have hsame : SameInvariant header.encode header'.encode := by
    obtain ⟨hopLimit, relayNode, rfl⟩ := hsent
    exact sameInvariant_update header hopLimit relayNode
  have hopen : openInPlace groupKey ⟨header'.encode, header.fromNode, header.id⟩ payload =
      openInPlace groupKey ⟨header.encode, header.fromNode, header.id⟩ payload :=
    openInPlace_congr rfl rfl (aadFromHeader_eq_iff.mpr hsame).symm
  unfold openEnvelope
  rw [hsent.fromNode_eq, hsent.id_eq, hopen]

theorem readMessage_append (head : Vector UInt8 headerLen) (body : List UInt8) :
    readMessage groupKey channel (head.toList ++ body) =
      match Data.decode (ctrApply channel.bytes
        (Protocol.nonce (Header.ofBytes head).id (Header.ofBytes head).fromNode 0) body) with
      | .error _ => none
      | .ok data => if data.portnum ≠ portnum then none
        else openEnvelope groupKey (Header.ofBytes head) data.payload := by
  rw [readMessage, Frame.decodeInPlace_append]

theorem readMessage_short (hshort : frame.length < headerLen) :
    readMessage groupKey channel frame = none := by
  rw [readMessage, Frame.decodeInPlace, Header.decode_eq_none_iff.mpr hshort]

/-- **Relays do not change what a member reads**, in any frame. -/
theorem readMessage_relayChain (relays : List (UInt8 × UInt32)) :
    readMessage groupKey channel (relayChain frame relays) =
      readMessage groupKey channel frame := by
  rcases Nat.lt_or_ge frame.length headerLen with hshort | hlong
  · rw [relayChain_of_length_lt hshort]
  · obtain ⟨head, body, rfl⟩ := exists_eq_toList_append hlong
    obtain ⟨head', hchain, hsent⟩ :=
      exists_relayChain relays (SentAs.refl (Header.ofBytes head)) body
    rw [hchain, readMessage_append, readMessage_append, hsent.fromNode_eq, hsent.id_eq]
    simp only [openEnvelope_sentAs hsent]

/-- **What a member reads in a frame** is what was sealed under the header it arrived with. -/
theorem readMessage_eq_some_iff : readMessage groupKey channel frame = some m ↔
    ∃ (head : Vector UInt8 headerLen) (body : List UInt8) (data : Data),
      frame = head.toList ++ body ∧
      (Header.ofBytes head).fromNode = m.fromNode ∧ (Header.ofBytes head).id = m.id ∧
      Data.decode (ctrApply channel.bytes (Protocol.nonce m.id m.fromNode 0) body) = .ok data ∧
      data.portnum = portnum ∧
      SealsAs groupKey ⟨head, m.fromNode, m.id⟩ m.msgType m.groupId m.epoch m.text
        data.payload := by
  constructor
  · intro h
    rcases Nat.lt_or_ge frame.length headerLen with hshort | hlong
    · rw [readMessage_short hshort] at h
      cases h
    · obtain ⟨head, body, rfl⟩ := exists_eq_toList_append hlong
      rw [readMessage_append] at h
      cases hdata : Data.decode (ctrApply channel.bytes
          (Protocol.nonce (Header.ofBytes head).id (Header.ofBytes head).fromNode 0) body) with
      | error e =>
        rw [hdata] at h
        cases h
      | ok data =>
        rw [hdata] at h
        dsimp only at h
        split_ifs at h with hport
        obtain ⟨hfrom, hid, hseals⟩ := openEnvelope_eq_some_iff.mp h
        rw [Header.encode_ofBytes, ← hfrom, ← hid] at hseals
        rw [← hfrom, ← hid] at hdata
        exact ⟨head, body, data, rfl, hfrom.symm, hid.symm, hdata, not_not.mp hport, hseals⟩
  · rintro ⟨head, body, data, rfl, hfrom, hid, hdata, hport, hseals⟩
    rw [readMessage_append, hfrom, hid, hdata]
    dsimp only
    rw [if_neg (not_not.mpr hport), openEnvelope_eq_some_iff, Header.encode_ofBytes, hfrom, hid]
    exact ⟨rfl, rfl, hseals⟩

/-- No frame of the C interface is read as a group message but an extension on the port of the
groups, and what it was given was sealed for its header. -/
theorem extension_of_readMessage {call : EncodeCall} (hcopy : call.IsCopy frame)
    (hpos : 0 < call.answer.1) (huses : call.Uses channel) (hchannel : tmIsPki (some frame) = 0)
    (hread : readMessage groupKey channel frame = some m) :
    ∃ toNode hopLimit channelHash wantAck payload out,
      call = .extension m.fromNode toNode m.id hopLimit channelHash wantAck portnum (some channel)
        payload out ∧
      SealsAs groupKey ⟨call.origin.encode, m.fromNode, m.id⟩ m.msgType m.groupId m.epoch m.text
        (borrow payload) := by
  cases hcarried : call.carried with
  | none =>
    rw [hcopy.tmIsPki_eq_one hpos huses hcarried] at hchannel
    exact absurd hchannel one_ne_zero
  | some data =>
    obtain ⟨hfits, hbuilt⟩ := call.built_channel hpos huses hcarried
    obtain ⟨relays, rfl⟩ := hcopy
    rw [readMessage_relayChain, hbuilt] at hread
    obtain ⟨head, body, opened, hframe, hfrom, hid, hdata, hport, hseals⟩ :=
      readMessage_eq_some_iff.mp hread
    -- the header that was read is the one the call asked for, and so is the wrapper
    obtain ⟨hhead, rfl⟩ :=
      List.append_inj hframe (by rw [Vector.length_toList, Vector.length_toList])
    obtain rfl := Vector.toList_inj.mp hhead
    rw [Header.ofBytes_encode] at hfrom hid
    rw [← hfrom, ← hid, ctrApply_ctrApply,
      decode_wrapped (Nat.lt_of_le_of_lt hfits scratch_lt)] at hdata
    obtain rfl := Except.ok.inj hdata
    -- no other encoder writes the port of the groups
    cases call with
    | text =>
      cases hcarried
      exact absurd hport (by simp [portnum])
    | extension fromNode toNode id hopLimit channelHash wantAck port own payload out =>
      obtain rfl : own = some channel := huses
      cases hcarried
      obtain rfl : port = portnum := hport
      obtain rfl : fromNode = m.fromNode := hfrom
      obtain rfl : id = m.id := hid
      exact ⟨toNode, hopLimit, channelHash, wantAck, payload, out, rfl, hseals⟩
    | ack =>
      cases hcarried
      exact absurd hport (by simp [acknowledgement, PortNum.routingApp, portnum])
    | nodeinfo fromNode toNode id hopLimit channelHash wantResponse own user out =>
      obtain ⟨user, -, rfl⟩ := Option.map_eq_some_iff.mp hcarried
      exact absurd hport (by simp [announcement, PortNum.nodeinfoApp, portnum])
    | pki => cases hcarried

/-- **A member reads exactly what was sealed.** A frame is read as a message iff it is a header
and, under the channel key, a wrapper on the port of the groups around the sealing of that
message for that header. Relays change nothing in this. Of the frames that the C interface builds
only extensions are read so. -/
theorem members_read_exactly (groupKey : Vector UInt8 32) (channel : TmKey) (frame : List UInt8)
    (m : GroupMessage) :
    (readMessage groupKey channel frame = some m ↔
      ∃ (head : Vector UInt8 headerLen) (body : List UInt8) (data : Data),
        frame = head.toList ++ body ∧
        (Header.ofBytes head).fromNode = m.fromNode ∧ (Header.ofBytes head).id = m.id ∧
        Data.decode (ctrApply channel.bytes (Protocol.nonce m.id m.fromNode 0) body) = .ok data ∧
        data.portnum = portnum ∧
        SealsAs groupKey ⟨head, m.fromNode, m.id⟩ m.msgType m.groupId m.epoch m.text
          data.payload) ∧
    (∀ relays, readMessage groupKey channel (relayChain frame relays) =
      readMessage groupKey channel frame) ∧
    ∀ call : EncodeCall, call.IsCopy frame → 0 < call.answer.1 → call.Uses channel →
      tmIsPki (some frame) = 0 → readMessage groupKey channel frame = some m →
        ∃ toNode hopLimit channelHash wantAck payload out,
          call = .extension m.fromNode toNode m.id hopLimit channelHash wantAck portnum
            (some channel) payload out ∧
          SealsAs groupKey ⟨call.origin.encode, m.fromNode, m.id⟩ m.msgType m.groupId m.epoch
            m.text (borrow payload) := by
  refine ⟨readMessage_eq_some_iff, readMessage_relayChain, ?_⟩
  intro call hcopy hpos huses hchannel hread
  exact extension_of_readMessage hcopy hpos huses hchannel hread

/-! ## Sending -/

/-- How long the frame of a message is: header, wrapper, envelope and text. -/
def crossingLen (n : ℕ) : ℕ := headerLen + (if n + overhead < 128 then 5 else 6) + overhead + n

/-- The wrapper of an envelope is a port number of three bytes, a tag and a length. -/
theorem length_envelope_appBytes (hlen : 0 < payload.length) :
    (appBytes portnum payload).length =
      4 + (Varint.encode payload.length).length + payload.length := by
  have hport : portnumBytes portnum = 3 := rfl
  rw [length_appBytes, hport, if_neg (List.ne_nil_of_length_pos hlen)]
  omega

/-- **The frame of a message** has room for 212 bytes of text. -/
theorem appBytes_fits_iff {dst : List UInt8} (hlen : payload.length = text.length + overhead) :
    (appBytes portnum payload).length ≤ maxPayload ∧
        headerLen + (appBytes portnum payload).length ≤ dst.length ↔
      text.length ≤ 212 ∧ crossingLen text.length ≤ dst.length := by
  have hpos : 0 < payload.length := by
    rw [hlen]
    exact Nat.add_pos_right _ (by simp)
  have hsizes : headerLen = 16 ∧ maxPayload = 233 ∧ overhead = 15 := ⟨rfl, rfl, rfl⟩
  rw [length_envelope_appBytes hpos, crossingLen]
  rcases Nat.lt_or_ge payload.length 128 with hone | htwo
  · rw [Varint.encode_of_lt hone, if_pos (hlen ▸ hone), List.length_singleton]
    omega
  · rw [if_neg (hlen ▸ not_lt.mpr htwo)]
    rcases Nat.lt_or_ge payload.length (128 ^ 2) with htop | hthree
    · rw [Varint.length_encode_eq 0 (by simpa using htwo) htop]
      omega
    · have hdigits := Varint.length_encode_pos payload.length
      norm_num at hthree
      omega

/-- An extension is framed exactly when its wrapper fits the ceiling and the output. -/
theorem tmExtensionEncode_pos_iff {fromNode toNode id : UInt32}
    {hopLimit channelHash wantAck : UInt8} {dst : List UInt8} :
    0 < (tmExtensionEncode fromNode toNode id hopLimit channelHash wantAck portnum (some channel)
      (some payload) (some dst)).1 ↔
      (appBytes portnum payload).length ≤ maxPayload ∧
        headerLen + (appBytes portnum payload).length ≤ dst.length := by
  refine (encodeFrame_pos_iff scratch_lt tmEArg_neg fun n hn => asI32_of_lt hn).trans ?_
  -- the ceiling is below the scratch buffer
  exact ⟨And.right, fun h => ⟨h.1.trans maxPayload_le, h⟩⟩

/-- Sealing that succeeds writes the sealing of the message, and has a byte for every byte of
it and fifteen more. -/
theorem sealsAs_of_sealInto (hok : (sealInto group binding msgType text room).1 = .ok n) :
    n = text.length + overhead ∧
      ((sealInto group binding msgType text room).2.take n).length = n ∧
      SealsAs group.groupKey binding msgType group.groupId group.epoch text
        ((sealInto group binding msgType text room).2.take n) := by
  obtain ⟨hgroup, hroom⟩ := (sealInto_ok_iff group binding msgType text room).1.mp ⟨n, hok⟩
  obtain ⟨sealed, hsealed⟩ := exists_sealedUnder group.groupKey binding group.epoch text
  rw [sealInto_eq group msgType hgroup hroom hsealed] at hok ⊢
  have hlen : ((envelopeHead msgType group.groupId group.epoch).toList ++ sealed).length =
      text.length + overhead := by
    rw [List.length_append, Vector.length_toList, length_of_ccmSealed hsealed]
    change 7 + (text.length + 8) = text.length + 15
    omega
  obtain rfl := Except.ok.inj hok
  rw [List.take_left' hlen]
  exact ⟨rfl, hlen, sealsAs_iff.mpr ⟨hgroup, sealed, hsealed, rfl⟩⟩

/-- **A group message crosses the mesh.** Seal a text for the header its frame will have and
send the envelope as an extension. The frame is built exactly when the text has at most 212
bytes and the output has room; and then every member that the frame reaches, through any relays,
reads who sent it, under which identifier, group and epoch, and the text. -/
theorem message_crosses (group : GroupEpoch) (fromNode toNode id : UInt32)
    (hopLimit channelHash wantAck : UInt8) (channel : TmKey) (msgType : MsgType)
    (text room dst : List UInt8) (n : ℕ) :
    let header := originHeader fromNode toNode id hopLimit channelHash (wantAck ≠ 0)
    let envelope := sealInto group ⟨header.encode, fromNode, id⟩ msgType text room
    let answer := tmExtensionEncode fromNode toNode id hopLimit channelHash wantAck portnum
      (some channel) (some (envelope.2.take n)) (some dst)
    envelope.1 = .ok n →
      (0 < answer.1 ↔ text.length ≤ 212 ∧ crossingLen text.length ≤ dst.length) ∧
      (0 < answer.1 → ∀ relays,
        readMessage group.groupKey channel (relayChain (built answer) relays) =
          some ⟨fromNode, id, msgType, group.groupId, group.epoch, text⟩) := by
  intro header envelope answer hok
  obtain ⟨htotal, hlen, hseals⟩ := sealsAs_of_sealInto hok
  refine ⟨?_, fun hpos relays => ?_⟩
  · exact tmExtensionEncode_pos_iff.trans (appBytes_fits_iff (hlen.trans htotal))
  · obtain ⟨hfits, hbuilt⟩ :=
      built_encodeFrame scratch_lt tmEArg_neg (fun n hn => asI32_of_lt hn) hpos
    rw [readMessage_relayChain, readMessage_eq_some_iff]
    refine ⟨header.encode, _, { portnum := portnum, payload := envelope.2.take n }, hbuilt, ?_, ?_,
      ?_, rfl, hseals⟩
    · rw [Header.ofBytes_encode]
      rfl
    · rw [Header.ofBytes_encode]
      rfl
    · exact (congrArg Data.decode (ctrApply_ctrApply ..)).trans
        (decode_wrapped (Nat.lt_of_le_of_lt hfits scratch_lt))

/-- Two letters to everybody, in an envelope of seventeen bytes: they are framed and read. -/
theorem message_crosses_hi :
    let group : GroupEpoch := ⟨Vector.replicate 32 0x42, 0xCAFE, 0⟩
    let channel : TmKey := ⟨Vector.replicate 16 7⟩
    let header := originHeader 1 0xFFFFFFFF 9 3 8 false
    let envelope := sealInto group ⟨header.encode, 1, 9⟩ .data [104, 105] (List.replicate 17 0)
    let answer := tmExtensionEncode 1 0xFFFFFFFF 9 3 8 0 portnum (some channel)
      (some (envelope.2.take 17)) (some (List.replicate 64 0))
    0 < answer.1 ∧ ∀ relays,
      readMessage group.groupKey channel (relayChain (built answer) relays) =
        some ⟨1, 9, .data, 0xCAFE, 0, [104, 105]⟩ := by
  intro group channel header envelope answer
  have hroom : [(104 : UInt8), 105].length + overhead ≤ (List.replicate 17 (0 : UInt8)).length := by
    rw [List.length_replicate]
    rfl
  obtain ⟨sealed, hsealed⟩ := exists_sealedUnder group.groupKey ⟨header.encode, 1, 9⟩ 0 [104, 105]
  have hok : envelope.1 = .ok 17 :=
    congrArg Prod.fst (sealInto_eq group .data (by simp [group]) hroom hsealed)
  obtain ⟨hframed, hread⟩ := message_crosses group 1 0xFFFFFFFF 9 3 8 0 channel .data [104, 105]
    (List.replicate 17 0) (List.replicate 64 0) 17 hok
  -- sixteen bytes of header, five of wrapper, fifteen of envelope and two of text
  have hpos : 0 < answer.1 := hframed.mpr (by decide)
  exact ⟨hpos, hread hpos⟩

end TetherMesh.Groups
