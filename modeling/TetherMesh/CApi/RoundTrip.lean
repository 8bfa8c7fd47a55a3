import TetherMesh.CApi.Receive
import TetherMesh.CApi.Relaying

/-!
# What an encoder builds, the matching decoder reads back

The decoder runs on the bytes the encoder answered after they have been through
any number of relays. A relay changes neither the header fields the nonce is made
of nor the body, so what comes out of the cipher is the wrapper that went in, and
the message layer reads that back.

## Main definitions

* `Carries` — an opened frame decodes to a port number and a payload
* `Reports` — what a look at the header says

## Main results

* `carries_of_encodeFrame`, `carries_of_pki` — one transport at a time
* `encoders_round_trip` — the four encoders against their decoders, through relays
-/

namespace TetherMesh.CApi

open Math Protocol Protocol.Message

/-- The frame opened, and what came out decodes to a payload on a port. -/
structure Carries (opened : Opened) (portnum : UInt32) (payload : List UInt8)
    (wantResponse : Bool) : Prop where
  /-- Opening succeeded. -/
  code : opened.code = tmOk
  /-- So does decoding, whatever the place for the answer held. -/
  decoded : ∀ old, ∃ d, tmDataDecode (some opened.plaintext) (some old) = (tmOk, some d) ∧
    d.portnum = portnum ∧ (borrow d.payload).take d.payloadLen = payload ∧
    d.wantResponse = wantResponse.toUInt8

/-- A look at the header reports who sent the frame to whom, as what, and from how far. -/
def Reports (frame : List UInt8) (fromNode toNode id : UInt32) (hopLimit : UInt8)
    (wantAck : Bool) : Prop :=
  ∀ old, ∃ h, tmHeaderPeek (some frame) (some old) = (tmOk, some h) ∧ h.fromNode = fromNode ∧
    h.toNode = toNode ∧ h.id = id ∧ h.wantAck = wantAck.toUInt8 ∧ h.hopStart = hopLimit &&& 7

/-- The frame an encoder answered: as many bytes of its output as it says. -/
def built (answer : ℤ × Ptr (List UInt8)) : List UInt8 := (borrow answer.2).take answer.1.toNat

section Transports

variable {fromNode toNode id : UInt32} {hopLimit channelHash : UInt8} {wantAck : Bool}
  {head : Vector UInt8 headerLen} {body : List UInt8}

/-- The header of a frame at its origin. -/
theorem sentAs_origin (fromNode toNode id : UInt32) (hopLimit channelHash : UInt8)
    (wantAck : Bool) :
    SentAs { originHeader fromNode toNode id hopLimit channelHash wantAck with
        hopStart := hopLimit &&& 7 }
      (Header.ofBytes (originHeader fromNode toNode id hopLimit channelHash wantAck).encode) := by
  rw [Header.ofBytes_encode]
  exact ⟨_, _, rfl⟩

theorem reports_of_sentAs
    (hsent : SentAs { originHeader fromNode toNode id hopLimit channelHash wantAck with
        hopStart := hopLimit &&& 7 } (Header.ofBytes head)) :
    Reports (head.toList ++ body) fromNode toNode id hopLimit wantAck := by
  intro old
  obtain ⟨limit, relayNode, hhead⟩ := hsent
  rw [tmHeaderPeek, Frame.peekHeader_append, hhead]
  exact ⟨_, rfl, rfl, rfl, rfl, rfl, rfl⟩

/-- A wrapper some buffer holds decodes to what was wrapped. -/
theorem decode_wrapped {data : Data} (hlen : (wrapped data).length < Protobuf.usizeLimit) :
    Data.decode (wrapped data) = .ok data :=
  decodeWith_of_foldl data.numbers_ne_zero data.foldl_fields hlen

/-- A wrapper that came out of an opened frame is read back. -/
theorem carries_of_plaintext (data : Data) {opened : Opened} (hcode : opened.code = tmOk)
    (hplain : opened.plaintext = wrapped data)
    (hlen : (wrapped data).length < Protobuf.usizeLimit) :
    Carries opened data.portnum data.payload data.wantResponse := by
  refine ⟨hcode, fun old => ?_⟩
  rw [hplain, tmDataDecode, decode_wrapped hlen]
  exact ⟨_, rfl, rfl, List.take_length, rfl⟩

/-- What the receiver makes of a frame, after any relays: the payload comes out of it, and
its header is the one that was sent. -/
def ReadsBack (frame : List UInt8) (openFrame : List UInt8 → Opened) (fromNode toNode id : UInt32)
    (hopLimit : UInt8) (wantAck : Bool) (portnum : UInt32) (payload : List UInt8)
    (wantResponse : Bool) : Prop :=
  ∀ relays, Carries (openFrame (relayChain frame relays)) portnum payload wantResponse ∧
    Reports (relayChain frame relays) fromNode toNode id hopLimit wantAck

/-- **The channel cipher** under the nonce of the header is undone under that of the relayed
header. -/
theorem tmFrameDecrypt_sent {h : Header} (hsent : SentAs h (Header.ofBytes head)) (p : List UInt8)
    (key : TmKey) (payloadOut : List UInt8) (lenOut : ℕ) :
    tmFrameDecrypt (some (head.toList ++ ctrApply key.bytes (nonce h.id h.fromNode 0) p))
        (some key) (some payloadOut) (some lenOut) =
      ⟨tmOk, some (head.toList ++ p), some p, some p.length⟩ := by
  obtain ⟨limit, relayNode, hhead⟩ := hsent
  rw [tmFrameDecrypt, Frame.decodeInPlace_append, hhead]
  dsimp only
  rw [ctrApply_ctrApply]

/-- What a channel encoder answers, when it answers a length, is the frame of its wrapper,
and the wrapper fits its scratch buffer. -/
theorem built_encodeFrame {header : Header} {data : Data} {scratch : ℕ} {refused : ℤ}
    {answer : ℕ → ℤ} {key : TmKey} {dst : List UInt8} (hscratch : scratch < Protobuf.usizeLimit)
    (hrefused : refused < 0) (hanswer : ∀ n < 2 ^ 31, answer n = n)
    (hpos : 0 < (encodeFrame header data scratch refused answer key dst).1) :
    (wrapped data).length ≤ scratch ∧
      built ((encodeFrame header data scratch refused answer key dst).1,
        some (encodeFrame header data scratch refused answer key dst).2) =
          Frame.sealed header (wrapped data) key.bytes 0 := by
  by_cases h : (wrapped data).length ≤ scratch ∧ (wrapped data).length ≤ maxPayload ∧
      headerLen + (wrapped data).length ≤ dst.length
  · obtain ⟨hfits, hceiling, hroom⟩ := h
    -- far below where the answer would leave the positive numbers
    have hsmall : headerLen + (wrapped data).length < 2 ^ 31 := by
      change 16 + (wrapped data).length < 2 ^ 31
      change (wrapped data).length ≤ 233 at hceiling
      omega
    refine ⟨hfits, ?_⟩
    rw [encodeFrame_ok hscratch hfits hceiling hroom, hanswer _ hsmall]
    exact List.take_left' Frame.length_sealed
  · exfalso
    rcases encodeFrame_refused hscratch h with heq | heq
    · rw [heq] at hpos
      exact absurd hpos (not_lt.mpr hrefused.le)
    · rw [heq] at hpos
      exact absurd hpos (not_lt.mpr tmEArg_neg.le)

/-- **A frame of a channel encoder** is read back under the same key. -/
theorem readsBack_of_encodeFrame {data : Data} {scratch : ℕ} {refused : ℤ} {answer : ℕ → ℤ}
    {key : TmKey} {dst : List UInt8} (hscratch : scratch < Protobuf.usizeLimit)
    (hrefused : refused < 0) (hanswer : ∀ n < 2 ^ 31, answer n = n)
    (hpos : 0 < (encodeFrame (originHeader fromNode toNode id hopLimit channelHash wantAck) data
      scratch refused answer key dst).1) (payloadOut : List UInt8) (lenOut : ℕ) :
    let frame := encodeFrame (originHeader fromNode toNode id hopLimit channelHash wantAck) data
      scratch refused answer key dst
    ReadsBack (built (frame.1, some frame.2))
      (fun frame => tmFrameDecrypt (some frame) (some key) (some payloadOut) (some lenOut))
      fromNode toNode id hopLimit wantAck data.portnum data.payload data.wantResponse := by
  intro frame relays
  obtain ⟨hfits, hbuilt⟩ := built_encodeFrame hscratch hrefused hanswer hpos
  -- relays keep the body and the two fields the nonce is made of
  obtain ⟨head', hchain, hsent⟩ := exists_relayChain relays
    (sentAs_origin fromNode toNode id hopLimit channelHash wantAck)
    (ctrApply key.bytes (nonce id fromNode 0) (wrapped data))
  have hreceived : relayChain (built (frame.1, some frame.2)) relays =
      head'.toList ++ ctrApply key.bytes (nonce id fromNode 0) (wrapped data) := by
    rw [hbuilt]
    exact hchain
  have hopen := tmFrameDecrypt_sent hsent (wrapped data) key payloadOut lenOut
  rw [hreceived]
  refine ⟨?_, reports_of_sentAs hsent⟩
  exact carries_of_plaintext data (congrArg Opened.code hopen)
    ((congrArg Opened.plaintext hopen).trans List.take_length) (Nat.lt_of_le_of_lt hfits hscratch)

/-- **The sealed body** opens under the nonce its trailing bytes and the relayed header
make up. -/
theorem carries_of_pki {portnum extraNonce : UInt32} {payload sealed : List UInt8} {key : TmPkiKey}
    {h : Header} (hsent : SentAs h (Header.ofBytes head))
    (hlen : (appBytes portnum payload).length < Protobuf.usizeLimit)
    (hsealed : ccmSealed key.bytes (pkiNonce h.id extraNonce.toLeBytes h.fromNode).toList []
      (appBytes portnum payload) ccmTagLen = some sealed) (payloadOut : List UInt8) (lenOut : ℕ) :
    Carries (tmPkiDecrypt (some (head.toList ++ (sealed ++ extraNonce.toLeBytes.toList)))
      (some key) (some payloadOut) (some lenOut)) portnum payload false := by
  obtain ⟨limit, relayNode, hhead⟩ := hsent
  have hsealedLen : sealed.length = (appBytes portnum payload).length + 8 :=
    length_of_ccmSealed hsealed
  have hbody : (sealed ++ extraNonce.toLeBytes.toList).length = sealed.length + 4 := by
    rw [List.length_append, Vector.length_toList]
  obtain ⟨hok, hplain⟩ :=
    (ccmDecrypt_ok_iff ccmTagLen_le).mpr ⟨hsealed, rfl⟩
  generalize hdecrypt : ccmDecryptInPlaceAad key.bytes
    (pkiNonce h.id extraNonce.toLeBytes h.fromNode).toList [] sealed ccmTagLen = opened
    at hok hplain
  obtain ⟨answer, buf⟩ := opened
  obtain rfl : answer = .ok (appBytes portnum payload).length := hok
  -- the last four bytes are the extra nonce, what is before them is sealed
  have hopen : tmPkiDecrypt (some (head.toList ++ (sealed ++ extraNonce.toLeBytes.toList)))
      (some key) (some payloadOut) (some lenOut) =
        ⟨tmOk, some (head.toList ++ buf ++ extraNonce.toLeBytes.toList), some buf,
          some (appBytes portnum payload).length⟩ := by
    rw [tmPkiDecrypt, Frame.peekHeader_append, hhead]
    dsimp only
    rw [List.drop_left' Vector.length_toList, List.take_left' Vector.length_toList, hbody,
      if_neg (by change ¬ sealed.length + 4 < 12; omega), Nat.add_sub_cancel, List.drop_left,
      List.take_left, pad_toList, ccmDecryptInPlace, hdecrypt]
  rw [hopen]
  exact carries_of_plaintext { portnum := portnum, payload := payload } rfl hplain hlen

/-- **A direct message** is read back under the key agreed with its sender. -/
theorem readsBack_of_pki {wantAck : UInt8} {key : TmPkiKey} {extraNonce portnum : UInt32}
    {payload dst : List UInt8}
    (hpos : 0 < (tmPkiEncode fromNode toNode id hopLimit wantAck (some key) extraNonce portnum
      (some payload) (some dst)).1) (payloadOut : List UInt8) (lenOut : ℕ) :
    ReadsBack (built (tmPkiEncode fromNode toNode id hopLimit wantAck (some key) extraNonce portnum
        (some payload) (some dst)))
      (fun frame => tmPkiDecrypt (some frame) (some key) (some payloadOut) (some lenOut))
      fromNode toNode id hopLimit (wantAck ≠ 0) portnum payload false := by
  by_cases h : (appBytes portnum payload).length + ccmTagLen ≤ 240 ∧
      (appBytes portnum payload).length + ccmTagLen + headerLen + 4 ≤ dst.length
  · obtain ⟨hfits, hroom⟩ := h
    obtain ⟨sealed, hsealed⟩ := exists_pkiSealed key id extraNonce.toLeBytes fromNode
      (appBytes portnum payload)
    -- the bytes answered are the frame and nothing behind it
    have hbuilt : built (tmPkiEncode fromNode toNode id hopLimit wantAck (some key) extraNonce
        portnum (some payload) (some dst)) =
        pkiFrame (originHeader fromNode toNode id hopLimit 0 (wantAck ≠ 0)) sealed extraNonce := by
      rw [tmPkiEncode_ok hfits hroom hsealed]
      exact List.take_left
    intro relays
    obtain ⟨head', hchain, hsent⟩ := exists_relayChain relays
      (sentAs_origin fromNode toNode id hopLimit 0 (wantAck ≠ 0))
      (sealed ++ extraNonce.toLeBytes.toList)
    rw [hbuilt, pkiFrame, List.append_assoc, hchain]
    refine ⟨carries_of_pki hsent ?_ hsealed payloadOut lenOut, reports_of_sentAs hsent⟩
    exact Nat.lt_of_le_of_lt (Nat.le_of_add_right_le hfits) scratch_lt
  · rw [tmPkiEncode_refused h] at hpos
    exact absurd hpos (not_lt.mpr tmEShort_neg.le)

end Transports

/-- The record a `User` encoder wrote is read back field by field. -/
theorem tmUserDecode_encodings (user : TmUser)
    (hlen : (Protobuf.encodings user.profile.fields).length < Protobuf.usizeLimit) (old : TmUser) :
    ∃ u, tmUserDecode (some (Protobuf.encodings user.profile.fields)) (some old) = (tmOk, some u) ∧
      u.profile = user.profile := by
  have hdecode : User.decode (Protobuf.encodings user.profile.fields) = .ok user.profile :=
    decodeWith_of_foldl user.profile.numbers_ne_zero user.profile.foldl_fields hlen
  rw [tmUserDecode, hdecode]
  exact ⟨_, rfl, rfl⟩

/-- **An identity frame** is read back under the same key, down to the user it names. -/
theorem readsBack_of_nodeinfo {fromNode toNode id : UInt32}
    {hopLimit channelHash wantResponse : UInt8} {key : TmKey} {user : TmUser} {dst : List UInt8}
    (hpos : 0 < (tmNodeinfoEncode fromNode toNode id hopLimit channelHash wantResponse (some key)
      (some user) (some dst)).1) (payloadOut : List UInt8) (lenOut : ℕ) :
    ∃ record,
      ReadsBack (built (tmNodeinfoEncode fromNode toNode id hopLimit channelHash wantResponse
          (some key) (some user) (some dst)))
        (fun frame => tmFrameDecrypt (some frame) (some key) (some payloadOut) (some lenOut))
        fromNode toNode id hopLimit false PortNum.nodeinfoApp record (wantResponse ≠ 0) ∧
      ∀ old, ∃ u, tmUserDecode (some record) (some old) = (tmOk, some u) ∧
        some u.profile = some user.profile := by
  rcases Nat.lt_or_ge 160 (Protobuf.encodings user.profile.fields).length with hlong | hfits
  · rw [tmNodeinfoEncode_refused hlong] at hpos
    exact absurd hpos (not_lt.mpr tmEShort_neg.le)
  · rw [tmNodeinfoEncode_ok hfits] at hpos ⊢
    refine ⟨Protobuf.encodings user.profile.fields, ?_, fun old => ?_⟩
    · exact readsBack_of_encodeFrame scratch_lt tmEShort_neg (fun n hn => tryI32_of_lt hn) hpos
        payloadOut lenOut
    · obtain ⟨u, hdecode, hprofile⟩ :=
        tmUserDecode_encodings user (Nat.lt_of_le_of_lt hfits (by decide)) old
      exact ⟨u, hdecode, congrArg some hprofile⟩

section Encoders

variable {fromNode toNode id : UInt32} {hopLimit channelHash wantAck : UInt8}
  {payload out : Ptr (List UInt8)}

/-- A text is read back. With a null pointer nothing is built. -/
theorem readsBack_of_text {key : Ptr TmKey}
    (hpos : 0 < (tmTextEncode fromNode toNode id hopLimit channelHash wantAck key payload out).1)
    (payloadOut : List UInt8) (lenOut : ℕ) :
    ReadsBack (built (tmTextEncode fromNode toNode id hopLimit channelHash wantAck key payload out))
      (fun frame => tmFrameDecrypt (some frame) key (some payloadOut) (some lenOut))
      fromNode toNode id hopLimit (wantAck ≠ 0) 1 (borrow payload) false := by
  match key, payload, out with
  | some key, some payload, some dst =>
    exact readsBack_of_encodeFrame scratch_lt tmEArg_neg (fun n hn => asI32_of_lt hn) hpos
      payloadOut lenOut
  | none, _, _ | some _, none, _ | some _, some _, none =>
    exact absurd hpos (not_lt.mpr tmEArg_neg.le)

/-- An extension's payload is read back, on the port it claimed. -/
theorem readsBack_of_extension {portnum : UInt32} {key : Ptr TmKey}
    (hpos : 0 < (tmExtensionEncode fromNode toNode id hopLimit channelHash wantAck portnum key
      payload out).1) (payloadOut : List UInt8) (lenOut : ℕ) :
    ReadsBack (built (tmExtensionEncode fromNode toNode id hopLimit channelHash wantAck portnum key
        payload out))
      (fun frame => tmFrameDecrypt (some frame) key (some payloadOut) (some lenOut))
      fromNode toNode id hopLimit (wantAck ≠ 0) portnum (borrow payload) false := by
  unfold tmExtensionEncode at hpos ⊢
  cases hprivate : portnumIsPrivateUse portnum with
  | false =>
    -- a reserved port is refused before the pointers are looked at
    rw [hprivate] at hpos
    exact absurd hpos (not_lt.mpr tmEReservedPortnum_neg.le)
  | true =>
    rw [hprivate] at hpos
    match key, payload, out with
    | some key, some payload, some dst =>
      exact readsBack_of_encodeFrame scratch_lt tmEArg_neg (fun n hn => asI32_of_lt hn) hpos
        payloadOut lenOut
    | none, _, _ | some _, none, _ | some _, some _, none =>
      exact absurd hpos (not_lt.mpr tmEArg_neg.le)

/-- An identity is read back, down to the user it names. -/
theorem readsBack_of_identity {wantResponse : UInt8} {key : Ptr TmKey} {user : Ptr TmUser}
    (hpos : 0 < (tmNodeinfoEncode fromNode toNode id hopLimit channelHash wantResponse key user
      out).1) (payloadOut : List UInt8) (lenOut : ℕ) :
    ∃ record,
      ReadsBack (built (tmNodeinfoEncode fromNode toNode id hopLimit channelHash wantResponse key
          user out))
        (fun frame => tmFrameDecrypt (some frame) key (some payloadOut) (some lenOut))
        fromNode toNode id hopLimit false PortNum.nodeinfoApp record (wantResponse ≠ 0) ∧
      ∀ old, ∃ u, tmUserDecode (some record) (some old) = (tmOk, some u) ∧
        some u.profile = user.map TmUser.profile := by
  match key, user, out with
  | some key, some u, some dst => exact readsBack_of_nodeinfo hpos payloadOut lenOut
  | none, _, _ | some _, none, _ | some _, some _, none =>
    exact absurd hpos (not_lt.mpr tmEArg_neg.le)

/-- A direct message is read back. -/
theorem readsBack_of_direct {key : Ptr TmPkiKey} {extraNonce portnum : UInt32}
    (hpos : 0 < (tmPkiEncode fromNode toNode id hopLimit wantAck key extraNonce portnum payload
      out).1) (payloadOut : List UInt8) (lenOut : ℕ) :
    ReadsBack (built (tmPkiEncode fromNode toNode id hopLimit wantAck key extraNonce portnum payload
        out))
      (fun frame => tmPkiDecrypt (some frame) key (some payloadOut) (some lenOut))
      fromNode toNode id hopLimit (wantAck ≠ 0) portnum (borrow payload) false := by
  match key, payload, out with
  | some key, some payload, some dst => exact readsBack_of_pki hpos payloadOut lenOut
  | none, _, _ | some _, none, _ | some _, some _, none =>
    exact absurd hpos (not_lt.mpr tmEArg_neg.le)

end Encoders

/-- **What an encoder builds, the matching decoder reads back**, through any number of
relays. For an identity frame the payload is a record that decodes to the user passed in. -/
theorem encoders_round_trip (fromNode toNode id : UInt32) (hopLimit channelHash : UInt8)
    (payloadOut : List UInt8) (lenOut : ℕ) :
    (∀ (wantAck : UInt8) (key : Ptr TmKey) (txt out : Ptr (List UInt8)),
      let answer := tmTextEncode fromNode toNode id hopLimit channelHash wantAck key txt out
      0 < answer.1 →
        ReadsBack (built answer)
          (fun frame => tmFrameDecrypt (some frame) key (some payloadOut) (some lenOut))
          fromNode toNode id hopLimit (wantAck ≠ 0) 1 (borrow txt) false) ∧
    (∀ (wantAck : UInt8) (portnum : UInt32) (key : Ptr TmKey) (payload out : Ptr (List UInt8)),
      let answer := tmExtensionEncode fromNode toNode id hopLimit channelHash wantAck portnum key
        payload out
      0 < answer.1 →
        ReadsBack (built answer)
          (fun frame => tmFrameDecrypt (some frame) key (some payloadOut) (some lenOut))
          fromNode toNode id hopLimit (wantAck ≠ 0) portnum (borrow payload) false) ∧
    (∀ (wantResponse : UInt8) (key : Ptr TmKey) (user : Ptr TmUser) (out : Ptr (List UInt8)),
      let answer := tmNodeinfoEncode fromNode toNode id hopLimit channelHash wantResponse key user
        out
      0 < answer.1 → ∃ record,
        ReadsBack (built answer)
          (fun frame => tmFrameDecrypt (some frame) key (some payloadOut) (some lenOut))
          fromNode toNode id hopLimit false PortNum.nodeinfoApp record (wantResponse ≠ 0) ∧
        ∀ old, ∃ u, tmUserDecode (some record) (some old) = (tmOk, some u) ∧
          some u.profile = user.map TmUser.profile) ∧
    (∀ (wantAck : UInt8) (key : Ptr TmPkiKey) (extraNonce portnum : UInt32)
      (payload out : Ptr (List UInt8)),
      let answer := tmPkiEncode fromNode toNode id hopLimit wantAck key extraNonce portnum payload
        out
      0 < answer.1 →
        ReadsBack (built answer)
          (fun frame => tmPkiDecrypt (some frame) key (some payloadOut) (some lenOut))
          fromNode toNode id hopLimit (wantAck ≠ 0) portnum (borrow payload) false) := by
  refine ⟨?_, ?_, ?_, ?_⟩
  · intro wantAck key txt out answer hpos
    exact readsBack_of_text hpos payloadOut lenOut
  · intro wantAck portnum key payload out answer hpos
    exact readsBack_of_extension hpos payloadOut lenOut
  · intro wantResponse key user out answer hpos
    exact readsBack_of_identity hpos payloadOut lenOut
  · intro wantAck key extraNonce portnum payload out answer hpos
    exact readsBack_of_direct hpos payloadOut lenOut

/-- Four frames from node 1 to node 2, each with two letters or a name in it. -/
theorem encoders_round_trip_hi :
    let key : TmKey := ⟨Vector.replicate 16 7⟩
    let pki : TmPkiKey := ⟨Vector.replicate 32 7⟩
    let user : TmUser := ⟨some [33, 49], some [78], none, none, none, 43, 0⟩
    let out : List UInt8 := List.replicate 64 0
    let text := tmTextEncode 1 2 3 3 8 1 (some key) (some [104, 105]) (some out)
    let extension := tmExtensionEncode 1 2 3 3 8 0 256 (some key) (some [104, 105]) (some out)
    let nodeinfo := tmNodeinfoEncode 1 2 3 3 8 1 (some key) (some user) (some out)
    let direct := tmPkiEncode 1 2 3 3 1 (some pki) 9 1 (some [104, 105]) (some out)
    ReadsBack (built text) (fun f => tmFrameDecrypt (some f) (some key) (some []) (some 0))
      1 2 3 3 true 1 [104, 105] false ∧
    ReadsBack (built extension) (fun f => tmFrameDecrypt (some f) (some key) (some []) (some 0))
      1 2 3 3 false 256 [104, 105] false ∧
    (∃ record,
      ReadsBack (built nodeinfo) (fun f => tmFrameDecrypt (some f) (some key) (some []) (some 0))
        1 2 3 3 false PortNum.nodeinfoApp record true ∧
      ∀ old, ∃ u, tmUserDecode (some record) (some old) = (tmOk, some u) ∧
        some u.profile = some user.profile) ∧
    ReadsBack (built direct) (fun f => tmPkiDecrypt (some f) (some pki) (some []) (some 0))
      1 2 3 3 true 1 [104, 105] false := by
  intro key pki user out text extension nodeinfo direct
  have hout : out.length = 64 := List.length_replicate
  have hsizes : headerLen = 16 ∧ maxPayload = 233 ∧ ccmTagLen = 8 := ⟨rfl, rfl, rfl⟩
  -- how many bytes each payload takes once wrapped
  have htext : (appBytes 1 [104, 105]).length = 6 := by
    simp [appBytes, wrapped, Data.fields, fieldIf, fieldSome, Protobuf.Field.encoding,
      Protobuf.Field.tag, Protobuf.Value.encoding, Protobuf.Value.wireType, Varint.encode_of_lt]
  have hextension : (appBytes 256 [104, 105]).length = 7 := by
    simp [appBytes, wrapped, Data.fields, fieldIf, fieldSome, Protobuf.Field.encoding,
      Protobuf.Field.tag, Protobuf.Value.encoding, Protobuf.Value.wireType, Varint.encode_of_lt,
      Varint.encode_of_le]
  have hrecord : (Protobuf.encodings user.profile.fields).length = 9 := by
    simp [user, TmUser.profile, borrow, User.fields, fieldIf, fieldSome, Protobuf.Field.encoding,
      Protobuf.Field.tag, Protobuf.Value.encoding, Protobuf.Value.wireType, Varint.encode_of_lt]
  have hnodeinfo : (wrapped (announcement user 1)).length = 15 := by
    have hne : Protobuf.encodings user.profile.fields ≠ [] := fun h => by simp [h] at hrecord
    simp [announcement, hne, hrecord, PortNum.nodeinfoApp, wrapped, Data.fields, fieldIf, fieldSome,
      Protobuf.Field.encoding, Protobuf.Field.tag, Protobuf.Value.encoding,
      Protobuf.Value.wireType, Varint.encode_of_lt]
  obtain ⟨h1, h2, h3, h4⟩ := encoders_round_trip 1 2 3 3 8 [] 0
  refine ⟨h1 1 (some key) (some [104, 105]) (some out) ?_,
    h2 0 256 (some key) (some [104, 105]) (some out) ?_,
    h3 1 (some key) (some user) (some out) ?_,
    h4 1 (some pki) 9 1 (some [104, 105]) (some out) ?_⟩
  · exact tmTextEncode_pos (by omega) (by omega)
  · exact tmExtensionEncode_pos rfl (by omega) (by omega)
  · exact tmNodeinfoEncode_pos (by omega) (by omega) (by omega)
  · exact tmPkiEncode_pos (by omega) (by omega)

end TetherMesh.CApi
