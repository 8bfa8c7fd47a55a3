import TetherMesh.CApi.PkiMarker
import TetherMesh.CApi.AckLoop

/-!
# Copies of a frame

A frame that an encoder built travels as copies of itself, each through relays of its
own. Whatever the relays, a copy has the header its call asked for but for the two fields
relays rewrite, opens under the channel key to what the call wrapped, and is an
acknowledgement only if the call was one.

## Main definitions

* `EncodeCall.origin`, `EncodeCall.carried`, `EncodeCall.Uses` — what a call puts into its frame
* `EncodeCall.IsCopy` — the frame of a call after any relays
* `EncodeCall.Reads` — a frame opens to what a call was given

## Main results

* `EncodeCall.built_channel`, `EncodeCall.exists_body` — what a call builds
* `EncodeCall.IsCopy.exists_head` — what a copy is made of
* `EncodeCall.IsCopy.reads` — a copy reads as it was sent
* `EncodeCall.IsCopy.acknowledges` — only an acknowledgement is taken for one
-/

namespace TetherMesh.CApi

open Math Protocol Protocol.Message

namespace EncodeCall

/-- Who sends the frame. -/
def fromNode : EncodeCall → UInt32
  | text fromNode .. | extension fromNode .. | ack fromNode .. | nodeinfo fromNode ..
  | pki fromNode .. => fromNode

/-- The identifier of the frame. -/
def id : EncodeCall → UInt32
  | text _ _ id .. | extension _ _ id .. | ack _ _ id .. | nodeinfo _ _ id .. | pki _ _ id .. => id

/-- The hops the frame starts with. -/
def hopLimit : EncodeCall → UInt8
  | text _ _ _ hopLimit .. | extension _ _ _ hopLimit .. | ack _ _ _ _ hopLimit ..
  | nodeinfo _ _ _ hopLimit .. | pki _ _ _ hopLimit .. => hopLimit

/-- Whether the frame asks to be acknowledged. -/
def wantsAck : EncodeCall → Bool
  | text _ _ _ _ _ wantAck .. | extension _ _ _ _ _ wantAck .. | pki _ _ _ _ wantAck .. =>
    wantAck ≠ 0
  | ack .. | nodeinfo .. => false

/-- The request that an acknowledgement answers. -/
def requestId : EncodeCall → Option UInt32
  | ack _ _ _ requestId .. => some requestId
  | _ => none

/-- The header of the frame. -/
def origin (call : EncodeCall) : Header :=
  originHeader call.fromNode call.toNode call.id call.hopLimit (call.channelHash.getD 0)
    call.wantsAck

/-- The header as it is read back, its hop count in three bits. -/
def onAir (call : EncodeCall) : Header := { call.origin with hopStart := call.hopLimit &&& 7 }

/-- What a channel frame wraps. The payload of a direct message is sealed otherwise. -/
def carried : EncodeCall → Option Data
  | text _ _ _ _ _ _ _ txt _ => some { portnum := 1, payload := borrow txt }
  | extension _ _ _ _ _ _ portnum _ payload _ =>
    some { portnum := portnum, payload := borrow payload }
  | ack _ _ _ requestId .. => some (acknowledgement requestId)
  | nodeinfo _ _ _ _ _ wantResponse _ user _ => user.map fun user => announcement user wantResponse
  | pki .. => none

/-- The call frames its payload under this channel key, or seals it for one node. -/
def Uses (key : TmKey) : EncodeCall → Prop
  | text _ _ _ _ _ _ own .. | extension _ _ _ _ _ _ _ own .. | ack _ _ _ _ _ _ own ..
  | nodeinfo _ _ _ _ _ _ own .. => own = some key
  | pki _ toNode .. => toNode ≠ broadcastAddr

/-- The frame opens to what the call was given: a direct message under the key it was sealed
with, any other under the channel key. -/
def Reads (key : TmKey) (frame : List UInt8) (call : EncodeCall) : Prop :=
  match call with
  | pki _ _ _ _ _ own _ portnum payload _ => ∀ payloadOut lenOut,
    Carries (tmPkiDecrypt (some frame) own (some payloadOut) (some lenOut)) portnum (borrow payload)
      false
  | call => ∃ data, call.carried = some data ∧ ∀ payloadOut lenOut,
    Carries (tmFrameDecrypt (some frame) (some key) (some payloadOut) (some lenOut)) data.portnum
      data.payload data.wantResponse

variable {call : EncodeCall} {key : TmKey} {data : Data} {frame : List UInt8}

/-! ## What a call builds -/

/-- **A channel call** builds the frame of what it wraps. -/
theorem built_channel (hpos : 0 < call.answer.1) (huses : call.Uses key)
    (hcarried : call.carried = some data) :
    (wrapped data).length ≤ 240 ∧
      built call.answer = Frame.sealed call.origin (wrapped data) key.bytes 0 := by
  cases call with
  | text fromNode toNode id hopLimit channelHash wantAck own txt out =>
    obtain rfl : own = some key := huses
    cases hcarried
    match txt, out with
    | some txt, some dst =>
      exact built_encodeFrame scratch_lt tmEArg_neg (fun n hn => asI32_of_lt hn) hpos
    | none, _ | some _, none => exact absurd hpos (not_lt.mpr tmEArg_neg.le)
  | extension fromNode toNode id hopLimit channelHash wantAck portnum own payload out =>
    obtain rfl : own = some key := huses
    cases hcarried
    simp only [answer] at hpos ⊢
    unfold tmExtensionEncode at hpos ⊢
    cases hprivate : portnumIsPrivateUse portnum with
    | false =>
      rw [hprivate] at hpos
      exact absurd hpos (not_lt.mpr tmEReservedPortnum_neg.le)
    | true =>
      rw [hprivate] at hpos
      match payload, out with
      | some payload, some dst =>
        exact built_encodeFrame scratch_lt tmEArg_neg (fun n hn => asI32_of_lt hn) hpos
      | none, _ | some _, none => exact absurd hpos (not_lt.mpr tmEArg_neg.le)
  | ack fromNode toNode id requestId hopLimit channelHash own out =>
    obtain rfl : own = some key := huses
    cases hcarried
    match out with
    | some dst =>
      obtain ⟨hfits, hbuilt⟩ := built_encodeFrame (Nat.lt_trans (by simp) scratch_lt) tmEArg_neg
        (fun n hn => tryI32_of_lt hn) hpos
      exact ⟨hfits.trans (by simp), hbuilt⟩
    | none => exact absurd hpos (not_lt.mpr tmEArg_neg.le)
  | nodeinfo fromNode toNode id hopLimit channelHash wantResponse own user out =>
    obtain rfl : own = some key := huses
    match user, out with
    | some user, some dst =>
      cases hcarried
      rcases Nat.lt_or_ge 160 (Protobuf.encodings user.profile.fields).length with hlong | hfits
      · rw [answer, tmNodeinfoEncode_refused hlong] at hpos
        exact absurd hpos (not_lt.mpr tmEShort_neg.le)
      · rw [answer, tmNodeinfoEncode_ok hfits] at hpos ⊢
        exact built_encodeFrame scratch_lt tmEShort_neg (fun n hn => tryI32_of_lt hn) hpos
    | none, _ => cases hcarried
    | some _, none => exact absurd hpos (not_lt.mpr tmEArg_neg.le)
  | pki => cases hcarried

/-- **Every call** builds its header in front of a body. -/
theorem exists_body (hpos : 0 < call.answer.1) (huses : call.Uses key) :
    ∃ body, built call.answer = call.origin.encode.toList ++ body ∧
      ∀ data, call.carried = some data →
        body = ctrApply key.bytes (nonce call.id call.fromNode 0) (wrapped data) := by
  cases hcarried : call.carried with
  | some data =>
    refine ⟨_, (built_channel hpos huses hcarried).2, fun data' hdata => ?_⟩
    obtain rfl := Option.some.inj hdata
    rfl
  | none =>
    suffices h : ∃ body, built call.answer = call.origin.encode.toList ++ body by
      obtain ⟨body, hbody⟩ := h
      exact ⟨body, hbody, fun data hdata => nomatch hdata⟩
    -- a direct message, or an announcement of nobody
    cases call with
    | text | extension | ack => cases hcarried
    | nodeinfo fromNode toNode id hopLimit channelHash wantResponse own user out =>
      match own, user, out with
      | some _, some _, _ => cases hcarried
      | none, _, _ | some _, none, _ => exact absurd hpos (not_lt.mpr tmEArg_neg.le)
    | pki fromNode toNode id hopLimit wantAck own extraNonce portnum payload out =>
      match own, payload, out with
      | some own, some payload, some dst =>
        by_cases h : (appBytes portnum payload).length + ccmTagLen ≤ 240 ∧
            (appBytes portnum payload).length + ccmTagLen + headerLen + 4 ≤ dst.length
        · obtain ⟨sealed, hsealed⟩ := exists_pkiSealed own id extraNonce.toLeBytes fromNode
            (appBytes portnum payload)
          refine ⟨sealed ++ extraNonce.toLeBytes.toList, ?_⟩
          rw [answer, tmPkiEncode_ok h.1 h.2 hsealed, ← List.append_assoc]
          exact List.take_left
        · rw [answer, tmPkiEncode_refused h] at hpos
          exact absurd hpos (not_lt.mpr tmEShort_neg.le)
      | none, _, _ | some _, none, _ | some _, some _, none =>
        exact absurd hpos (not_lt.mpr tmEArg_neg.le)

/-- A wrapper that is taken for an acknowledgement is on the port of routing control, and names
the request it answers. -/
theorem routing_of_tmAcknowledges (hlen : (wrapped data).length < Protobuf.usizeLimit)
    {oldId requestId : UInt32} {outStatus status : Ptr UInt32}
    (hack : tmAcknowledges (some (wrapped data)) (some oldId) outStatus =
      (1, some requestId, status)) :
    data.portnum = PortNum.routingApp ∧ data.requestId = requestId := by
  have hread : classifyAck (wrapped data) =
      (Protocol.acknowledges data).map fun ack => (ack.requestId, ack.status) := by
    rw [classifyAck, decode_wrapped hlen]
  rw [tmAcknowledges] at hack
  rw [hread, Protocol.acknowledges] at hack
  split_ifs at hack with hother
  · exact absurd (congrArg Prod.fst hack) zero_ne_one
  · rw [not_or, not_not] at hother
    exact ⟨hother.1, Option.some.inj (Prod.mk.inj (Prod.mk.inj hack).2).1⟩

/-! ## Copies -/

/-- The frame is what the call built, after some relays. -/
def IsCopy (call : EncodeCall) (frame : List UInt8) : Prop :=
  ∃ relays, frame = relayChain (built call.answer) relays

namespace IsCopy

/-- What was just built. -/
theorem built (call : EncodeCall) : call.IsCopy (built call.answer) := ⟨[], rfl⟩

/-- A relay makes a copy of a copy. -/
theorem relay (h : call.IsCopy frame) (relayHopLimit : UInt8) (ourNodeNum : UInt32) :
    call.IsCopy (borrow (tmRelayPrepare (some frame) relayHopLimit ourNodeNum).2) := by
  obtain ⟨relays, rfl⟩ := h
  refine ⟨relays ++ [(relayHopLimit, ourNodeNum)], ?_⟩
  rw [relayChain, relayChain, List.foldl_append]
  rfl

variable (hcopy : call.IsCopy frame) (hpos : 0 < call.answer.1) (huses : call.Uses key)

include hcopy hpos huses

/-- **What a copy is made of**: the header its call asked for but for what relays rewrite, and
the body its call built. -/
theorem exists_head : ∃ head body, frame = Vector.toList head ++ body ∧
    SentAs call.onAir (Header.ofBytes head) ∧
      ∀ data, call.carried = some data →
        body = ctrApply key.bytes (nonce call.id call.fromNode 0) (wrapped data) := by
  obtain ⟨relays, rfl⟩ := hcopy
  obtain ⟨body, hbuilt, hbody⟩ := exists_body hpos huses
  have hsent : SentAs call.onAir (Header.ofBytes call.origin.encode) :=
    sentAs_origin call.fromNode call.toNode call.id call.hopLimit _ call.wantsAck
  obtain ⟨head, hchain, hsent'⟩ := exists_relayChain relays hsent body
  rw [hbuilt]
  exact ⟨head, body, hchain, hsent', hbody⟩

/-- Its header. -/
theorem exists_header : ∃ h, Header.decode frame = some h ∧ SentAs call.onAir h := by
  obtain ⟨head, body, rfl, hsent, -⟩ := exists_head hcopy hpos huses
  exact ⟨_, Header.decode_append head body, hsent⟩

/-- It opens to what the call wrapped. -/
theorem tmFrameDecrypt_plaintext (hcarried : call.carried = some data) (payloadOut : List UInt8)
    (lenOut : ℕ) :
    (tmFrameDecrypt (some frame) (some key) (some payloadOut) (some lenOut)).code = tmOk ∧
      (tmFrameDecrypt (some frame) (some key) (some payloadOut) (some lenOut)).plaintext =
        wrapped data := by
  obtain ⟨head, body, rfl, hsent, hbody⟩ := exists_head hcopy hpos huses
  have hopen := tmFrameDecrypt_sent hsent (wrapped data) key payloadOut lenOut
  rw [hbody data hcarried]
  exact ⟨congrArg Opened.code hopen, (congrArg Opened.plaintext hopen).trans List.take_length⟩

/-- **A copy reads as it was sent.** -/
theorem reads : call.Reads key frame := by
  have hchannel (data : Data) (hcarried : call.carried = some data) (payloadOut : List UInt8)
      (lenOut : ℕ) :
      Carries (tmFrameDecrypt (some frame) (some key) (some payloadOut) (some lenOut)) data.portnum
        data.payload data.wantResponse := by
    obtain ⟨hcode, hplain⟩ :=
      tmFrameDecrypt_plaintext hcopy hpos huses hcarried payloadOut lenOut
    exact carries_of_plaintext data hcode hplain
      (Nat.lt_of_le_of_lt (built_channel hpos huses hcarried).1 scratch_lt)
  cases call with
  | text | extension | ack => exact ⟨_, rfl, hchannel _ rfl⟩
  | nodeinfo fromNode toNode id hopLimit channelHash wantResponse own user out =>
    match own, user, out with
    | some _, some _, _ => exact ⟨_, rfl, hchannel _ rfl⟩
    | none, _, _ | some _, none, _ => exact absurd hpos (not_lt.mpr tmEArg_neg.le)
  | pki =>
    obtain ⟨relays, rfl⟩ := hcopy
    exact fun payloadOut lenOut => (readsBack_of_direct hpos payloadOut lenOut relays).1

/-- It asks its addressee for an acknowledgement, if its call did. -/
theorem tmWantsAck_iff (ourNodeNum : UInt32) :
    tmWantsAck (some frame) ourNodeNum = 1 ↔ call.wantsAck = true ∧ call.toNode = ourNodeNum := by
  obtain ⟨head, body, rfl, ⟨limit, relayNode, hhead⟩, -⟩ := exists_head hcopy hpos huses
  rw [tmWantsAck, wantsAcknowledgement, Frame.peekHeader_append, hhead]
  simp [onAir, origin, originHeader]

/-- It bears the mark of a direct message when its call is one. -/
theorem tmIsPki_eq_one (hdirect : call.carried = none) : tmIsPki (some frame) = 1 := by
  obtain ⟨head, body, rfl, ⟨limit, relayNode, hhead⟩, -⟩ := exists_head hcopy hpos huses
  rw [tmIsPki, Frame.peekHeader_append, hhead]
  cases call with
  | text | extension | ack => cases hdirect
  | nodeinfo fromNode toNode id hopLimit channelHash wantResponse own user out =>
    cases own with
    | none => exact absurd hpos (not_lt.mpr tmEArg_neg.le)
    | some =>
      cases user with
      | none => exact absurd hpos (not_lt.mpr tmEArg_neg.le)
      | some => cases hdirect
  | pki =>
    have hto : _ ≠ broadcastAddr := huses
    simp [onAir, origin, originHeader, channelHash, EncodeCall.toNode, Header.isBroadcast, hto]

/-- **Only an acknowledgement is taken for one**, and for that of the request it answers. -/
theorem acknowledges (hchannel : tmIsPki (some frame) = 0) {payloadOut : List UInt8} {lenOut : ℕ}
    {oldId requestId : UInt32} {outStatus status : Ptr UInt32}
    (hack : tmAcknowledges
      (some (tmFrameDecrypt (some frame) (some key) (some payloadOut) (some lenOut)).plaintext)
      (some oldId) outStatus = (1, some requestId, status)) :
    call.requestId = some requestId := by
  cases hcarried : call.carried with
  | none =>
    rw [tmIsPki_eq_one hcopy hpos huses hcarried] at hchannel
    exact absurd hchannel one_ne_zero
  | some data =>
    have hlen : (wrapped data).length < Protobuf.usizeLimit :=
      Nat.lt_of_le_of_lt (built_channel hpos huses hcarried).1 scratch_lt
    rw [(tmFrameDecrypt_plaintext hcopy hpos huses hcarried payloadOut lenOut).2] at hack
    -- no other encoder writes the port of routing control
    obtain ⟨hport, hrequest⟩ := routing_of_tmAcknowledges hlen hack
    cases call with
    | text =>
      cases hcarried
      exact absurd hport (by simp [PortNum.routingApp])
    | extension fromNode toNode id hopLimit channelHash wantAck portnum own payload out =>
      cases hcarried
      obtain rfl : portnum = PortNum.routingApp := hport
      exact absurd hpos (not_lt.mpr tmEReservedPortnum_neg.le)
    | ack =>
      cases hcarried
      exact congrArg some hrequest
    | nodeinfo fromNode toNode id hopLimit channelHash wantResponse own user out =>
      obtain ⟨user, -, rfl⟩ := Option.map_eq_some_iff.mp hcarried
      exact absurd hport (by simp [announcement, PortNum.routingApp, PortNum.nodeinfoApp])
    | pki => cases hcarried

end IsCopy

end EncodeCall

end TetherMesh.CApi
