import TetherMesh.CApi.Abi
import TetherMesh.Protocol.Ccm
import TetherMesh.Protocol.MessageRoundTrip

/-!
# The C interface: building frames

## Main definitions

* `tmTextEncode`, `tmExtensionEncode`, `tmAckEncode`, `tmNodeinfoEncode` — frames under
  the channel key, each its own payload in `encodeFrame`
* `tmPkiEncode` — a direct message under a key agreed with one peer
* `tmRelayPrepare` — patch a received frame for rebroadcast

## Main results

* `encodeFrame_ok`, `encodeFrame_refused` — what a channel encoder answers and writes
* `tmPkiEncode_ok`, `tmPkiEncode_refused` — the same for a direct message
-/

namespace TetherMesh.CApi

open Math Protocol Protocol.Message

/-- The header of a frame this node originates. -/
def originHeader (fromNode toNode id : UInt32) (hopLimit channelHash : UInt8) (wantAck : Bool) :
    Header where
  toNode := toNode
  fromNode := fromNode
  id := id
  hopLimit := hopLimit
  wantAck := wantAck
  viaMqtt := false
  hopStart := hopLimit
  channel := channelHash
  nextHop := 0
  relayNode := (fromNode &&& 0xFF).toUInt8

/-- What every channel encoder does with its payload: wrap it in a scratch buffer of
`scratch` bytes, answering `refused` if it does not fit, and frame what was written. -/
def encodeFrame (header : Header) (data : Data) (scratch : ℕ) (refused : ℤ) (answer : ℕ → ℤ)
    (key : TmKey) (dst : List UInt8) : ℤ × List UInt8 :=
  match data.encode (List.replicate scratch 0) with
  | (.error _, _) => (refused, dst)
  | (.ok plainLen, plain) =>
    if plain.length < plainLen then (refused, dst)
    else match Frame.encode header (plain.take plainLen) key.bytes 0 dst with
      | (.ok n, dst) => (answer n, dst)
      | (.error _, dst) => (tmEArg, dst)

/-- Encode a text message into a frame. -/
def tmTextEncode (fromNode toNode id : UInt32) (hopLimit channelHash wantAck : UInt8)
    (key : Ptr TmKey) (text out : Ptr (List UInt8)) : ℤ × Ptr (List UInt8) :=
  match key, text, out with
  | some key, some txt, some dst =>
    let (code, dst) := encodeFrame
      (originHeader fromNode toNode id hopLimit channelHash (wantAck ≠ 0))
      { portnum := 1, payload := txt } 240 tmEArg asI32 key dst
    (code, some dst)
  | _, _, _ => (tmEArg, out)

/-- Is this portnum in the range an extension may claim? -/
def portnumIsPrivateUse (portnum : UInt32) : Bool := 256 ≤ portnum

/-- Encode a frame on a private-use portnum. -/
def tmExtensionEncode (fromNode toNode id : UInt32) (hopLimit channelHash wantAck : UInt8)
    (portnum : UInt32) (key : Ptr TmKey) (payload out : Ptr (List UInt8)) :
    ℤ × Ptr (List UInt8) :=
  if !portnumIsPrivateUse portnum then (tmEReservedPortnum, out)
  else match key, payload, out with
    | some key, some bodyIn, some dst =>
      let (code, dst) := encodeFrame
        (originHeader fromNode toNode id hopLimit channelHash (wantAck ≠ 0))
        { portnum := portnum, payload := bodyIn } 240 tmEArg asI32 key dst
      (code, some dst)
    | _, _, _ => (tmEArg, out)

/-- Build and encrypt an acknowledgement of `requestId`. -/
def tmAckEncode (fromNode toNode id requestId : UInt32) (hopLimit channelHash : UInt8)
    (key : Ptr TmKey) (out : Ptr (List UInt8)) : ℤ × Ptr (List UInt8) :=
  match key, out with
  | some key, some dst =>
    let (code, dst) := encodeFrame (originHeader fromNode toNode id hopLimit channelHash false)
      (acknowledgement requestId) 64 tmEArg (tryI32 tmEShort) key dst
    (code, some dst)
  | _, _ => (tmEArg, out)

/-- What a node publishes about itself. -/
structure TmUser where
  id : Ptr (List UInt8)
  longName : Ptr (List UInt8)
  shortName : Ptr (List UInt8)
  publicKey : Ptr (List UInt8)
  macaddr : Ptr (List UInt8)
  hwModel : UInt32
  role : UInt32

/-- Read a pointer and a length, null being an absent field. -/
def borrow (p : Ptr (List UInt8)) : List UInt8 := p.getD []

/-- The identity record these fields describe. -/
def TmUser.profile (u : TmUser) : User where
  id := borrow u.id
  longName := borrow u.longName
  shortName := borrow u.shortName
  macaddr := borrow u.macaddr
  publicKey := borrow u.publicKey
  hwModel := u.hwModel
  role := u.role

/-- Build and encrypt a frame announcing this node. -/
def tmNodeinfoEncode (fromNode toNode id : UInt32) (hopLimit channelHash wantResponse : UInt8)
    (key : Ptr TmKey) (user : Ptr TmUser) (out : Ptr (List UInt8)) : ℤ × Ptr (List UInt8) :=
  match key, user, out with
  | some key, some u, some dst =>
    match u.profile.encode (List.replicate 160 0) with
    | (.error _, _) => (tmEShort, out)
    | (.ok ulen, ubuf) =>
      if ubuf.length < ulen then (tmEShort, out)
      else
        let (code, dst) := encodeFrame
          (originHeader fromNode toNode id hopLimit channelHash false)
          { portnum := PortNum.nodeinfoApp, payload := ubuf.take ulen,
            wantResponse := wantResponse ≠ 0 }
          240 tmEShort (tryI32 tmEShort) key dst
        (code, some dst)
  | _, _, _ => (tmEArg, out)

/-- The nonce of a direct message: identifier, extra nonce, sender, and a zero. -/
def pkiNonce (id : UInt32) (extraNonce : Vector UInt8 4) (fromNode : UInt32) :
    Vector UInt8 ccmNonceLen :=
  let n := Vector.replicate ccmNonceLen 0
  let n := updateBytes 0 4 (fun i _ => byteAt id.toLeBytes i) n
  let n := updateBytes 4 4 (fun i _ => byteAt extraNonce i) n
  updateBytes 8 4 (fun i _ => byteAt fromNode.toLeBytes i) n

/-- Build and seal a direct message. -/
def tmPkiEncode (fromNode toNode id : UInt32) (hopLimit wantAck : UInt8) (key : Ptr TmPkiKey)
    (extraNonce portnum : UInt32) (payload out : Ptr (List UInt8)) : ℤ × Ptr (List UInt8) :=
  match key, payload, out with
  | some key, some payload, some dst =>
    let data : Data := { portnum := portnum, payload := payload }
    match data.encode (List.replicate 240 0) with
    | (.error _, _) => (tmEShort, out)
    | (.ok plainLen, work) =>
      let nonce := pkiNonce id extraNonce.toLeBytes fromNode
      match ccmEncryptInPlace key.bytes nonce.toList work plainLen ccmTagLen with
      | (.error _, _) => (tmEShort, out)
      | (.ok sealed, work) =>
        let hdr := (originHeader fromNode toNode id hopLimit 0x00 (wantAck ≠ 0)).encode
        let total := sealed + headerLen + 4
        if dst.length < total then (tmEShort, out)
        else
          let dst := overwrite dst 0 hdr.toList
          let dst := overwrite dst headerLen (work.take sealed)
          let dst := overwrite dst (headerLen + sealed) extraNonce.toLeBytes.toList
          (tryI32 tmEShort total, some dst)
  | _, _, _ => (tmEArg, out)

/-- Patch a received frame in place so it can be rebroadcast. -/
def tmRelayPrepare (frame : Ptr (List UInt8)) (relayHopLimit : UInt8) (ourNodeNum : UInt32) :
    ℤ × Ptr (List UInt8) :=
  match frame with
  | none => (tmEArg, none)
  | some buf =>
    match Header.decode buf with
    | none => (tmEShort, some buf)
    | some h =>
      let h := { h with hopLimit := relayHopLimit, relayNode := (ourNodeNum &&& 0xFF).toUInt8 }
      (tmOk, some (overwrite buf 0 h.encode.toList))

/-! ## What the encoders answer -/

theorem scratch_lt : 240 < Protobuf.usizeLimit := by decide

/-- The scratch buffer takes more than the ceiling allows. -/
theorem maxPayload_le : maxPayload ≤ 240 := by decide

section Answers

variable {header : Header} {data : Data} {scratch : ℕ} {refused : ℤ} {answer : ℕ → ℤ} {key : TmKey}
  {dst : List UInt8}

/-- The bytes of a payload wrapper. -/
def wrapped (data : Data) : List UInt8 := Protobuf.encodings data.fields

/-- The bytes of a wrapper that carries a payload on a port and nothing else. -/
def appBytes (portnum : UInt32) (payload : List UInt8) : List UInt8 :=
  wrapped { portnum := portnum, payload := payload }

/-- Fields that fit a scratch buffer are written there. -/
theorem encodeFields_scratch {fs : List Protobuf.Field} (hnumbers : ∀ f ∈ fs, f.number ≠ 0)
    (hscratch : scratch < Protobuf.usizeLimit) (hfits : (Protobuf.encodings fs).length ≤ scratch) :
    encodeFields fs (List.replicate scratch 0) =
      (.ok (Protobuf.encodings fs).length, Protobuf.encodings fs ++
        List.replicate (scratch - (Protobuf.encodings fs).length) 0) := by
  have hlen : (List.replicate scratch (0 : UInt8)).length = scratch := List.length_replicate
  refine (encodeFields_fits hnumbers ?_ ?_).trans ?_
  · rwa [hlen]
  · rwa [hlen]
  · rw [List.drop_replicate]

/-- Fields that do not fit are refused. -/
theorem encodeFields_scratch_short {fs : List Protobuf.Field} (hnumbers : ∀ f ∈ fs, f.number ≠ 0)
    (hscratch : scratch < Protobuf.usizeLimit) (hshort : scratch < (Protobuf.encodings fs).length) :
    ∃ buf, encodeFields fs (List.replicate scratch 0) = (.error .bufferTooSmall, buf) := by
  have hlen : (List.replicate scratch (0 : UInt8)).length = scratch := List.length_replicate
  obtain ⟨buf, -, hbuf⟩ := encodeFields_short hnumbers (by rwa [hlen]) (by rwa [hlen])
  exact ⟨buf, hbuf⟩

theorem encode_scratch (data : Data) (hscratch : scratch < Protobuf.usizeLimit)
    (hfits : (wrapped data).length ≤ scratch) :
    data.encode (List.replicate scratch 0) =
      (.ok (wrapped data).length,
        wrapped data ++ List.replicate (scratch - (wrapped data).length) 0) :=
  encodeFields_scratch data.numbers_ne_zero hscratch hfits

theorem encode_scratch_short (data : Data) (hscratch : scratch < Protobuf.usizeLimit)
    (hshort : scratch < (wrapped data).length) :
    ∃ buf, data.encode (List.replicate scratch 0) = (.error .bufferTooSmall, buf) :=
  encodeFields_scratch_short data.numbers_ne_zero hscratch hshort

/-- The scratch buffer holds no less than was written to it. -/
theorem not_length_lt (written room : List UInt8) :
    ¬ (written ++ room).length < written.length := by
  rw [List.length_append]
  omega

/-- **A channel encoder** writes the frame of its payload when that fits the scratch
buffer, the ceiling and the output. -/
theorem encodeFrame_ok (hscratch : scratch < Protobuf.usizeLimit)
    (hfits : (wrapped data).length ≤ scratch) (hceiling : (wrapped data).length ≤ maxPayload)
    (hroom : headerLen + (wrapped data).length ≤ dst.length) :
    encodeFrame header data scratch refused answer key dst =
      (answer (headerLen + (wrapped data).length),
        Frame.sealed header (wrapped data) key.bytes 0 ++
          dst.drop (headerLen + (wrapped data).length)) := by
  rw [encodeFrame, encode_scratch data hscratch hfits]
  dsimp only
  rw [if_neg (not_length_lt _ _), List.take_left, Frame.encode,
    Frame.encodeBounded_ok hceiling hroom]

/-- Otherwise it refuses and writes nothing. -/
theorem encodeFrame_refused (hscratch : scratch < Protobuf.usizeLimit)
    (h : ¬ ((wrapped data).length ≤ scratch ∧ (wrapped data).length ≤ maxPayload ∧
      headerLen + (wrapped data).length ≤ dst.length)) :
    encodeFrame header data scratch refused answer key dst = (refused, dst) ∨
      encodeFrame header data scratch refused answer key dst = (tmEArg, dst) := by
  -- either the scratch buffer is too short, or the frame is refused
  rcases Nat.lt_or_ge scratch (wrapped data).length with hshort | hfits
  · obtain ⟨buf, hbuf⟩ := encode_scratch_short data hscratch hshort
    left
    rw [encodeFrame, hbuf]
  · obtain ⟨e, herr⟩ := Frame.encode_refused header key.bytes 0
      fun hframe => h ⟨hfits, hframe⟩
    right
    rw [encodeFrame, encode_scratch data hscratch hfits]
    dsimp only
    rw [if_neg (not_length_lt _ _), List.take_left, herr]

/-- A frame whose payload fits is not empty. -/
theorem encodeFrame_pos (hscratch : scratch < Protobuf.usizeLimit)
    (hfits : (wrapped data).length ≤ scratch) (hceiling : (wrapped data).length ≤ maxPayload)
    (hroom : headerLen + (wrapped data).length ≤ dst.length)
    (hanswer : ∀ n < 2 ^ 31, answer n = n) :
    0 < (encodeFrame header data scratch refused answer key dst).1 := by
  have hsmall : headerLen + (wrapped data).length < 2 ^ 31 := by
    change 16 + (wrapped data).length < 2 ^ 31
    change (wrapped data).length ≤ 233 at hceiling
    omega
  rw [encodeFrame_ok hscratch hfits hceiling hroom, hanswer _ hsmall]
  exact Int.natCast_pos.mpr (Nat.add_pos_left (Nat.succ_pos 15) _)

/-- No other frame is answered with a length. -/
theorem encodeFrame_pos_iff (hscratch : scratch < Protobuf.usizeLimit) (hrefused : refused < 0)
    (hanswer : ∀ n < 2 ^ 31, answer n = n) :
    0 < (encodeFrame header data scratch refused answer key dst).1 ↔
      (wrapped data).length ≤ scratch ∧ (wrapped data).length ≤ maxPayload ∧
        headerLen + (wrapped data).length ≤ dst.length := by
  constructor
  · intro hpos
    by_contra hfits
    have hanswers : encodeFrame header data scratch refused answer key dst = (refused, dst) ∨
        encodeFrame header data scratch refused answer key dst = (tmEArg, dst) :=
      encodeFrame_refused hscratch hfits
    rcases hanswers with heq | heq
    · rw [heq] at hpos
      exact absurd hpos (not_lt.mpr hrefused.le)
    · rw [heq] at hpos
      exact absurd hpos (not_lt.mpr tmEArg_neg.le)
  · rintro ⟨hfits, hceiling, hroom⟩
    exact encodeFrame_pos hscratch hfits hceiling hroom hanswer

section Built

variable {fromNode toNode id : UInt32} {hopLimit channelHash wantAck : UInt8}
  {payload : List UInt8}

/-- A text is framed when its wrapper fits the ceiling and the output. -/
theorem tmTextEncode_pos (hceiling : (appBytes 1 payload).length ≤ maxPayload)
    (hroom : headerLen + (appBytes 1 payload).length ≤ dst.length) :
    0 < (tmTextEncode fromNode toNode id hopLimit channelHash wantAck (some key) (some payload)
      (some dst)).1 := by
  rw [tmTextEncode]
  exact encodeFrame_pos scratch_lt (hceiling.trans maxPayload_le) hceiling hroom
    fun n hn => asI32_of_lt hn

/-- So is the payload of an extension that claims a private port. -/
theorem tmExtensionEncode_pos {portnum : UInt32} (hprivate : portnumIsPrivateUse portnum = true)
    (hceiling : (appBytes portnum payload).length ≤ maxPayload)
    (hroom : headerLen + (appBytes portnum payload).length ≤ dst.length) :
    0 < (tmExtensionEncode fromNode toNode id hopLimit channelHash wantAck portnum (some key)
      (some payload) (some dst)).1 := by
  rw [tmExtensionEncode, hprivate]
  exact encodeFrame_pos scratch_lt (hceiling.trans maxPayload_le) hceiling hroom
    fun n hn => asI32_of_lt hn

end Built

/-- The wrapper of an identity frame. -/
def announcement (user : TmUser) (wantResponse : UInt8) : Data where
  portnum := PortNum.nodeinfoApp
  payload := Protobuf.encodings user.profile.fields
  wantResponse := wantResponse ≠ 0

section Announcement

variable {fromNode toNode id : UInt32} {hopLimit channelHash wantResponse : UInt8} {user : TmUser}

/-- **The identity encoder** frames its record when the scratch buffer takes it. -/
theorem tmNodeinfoEncode_ok (hfits : (Protobuf.encodings user.profile.fields).length ≤ 160) :
    tmNodeinfoEncode fromNode toNode id hopLimit channelHash wantResponse (some key) (some user)
        (some dst) =
      Prod.map (fun code => code) some
        (encodeFrame (originHeader fromNode toNode id hopLimit channelHash false)
          (announcement user wantResponse) 240 tmEShort (tryI32 tmEShort) key dst) := by
  rw [tmNodeinfoEncode]
  dsimp only
  rw [User.encode, encodeFields_scratch user.profile.numbers_ne_zero (by decide) hfits]
  dsimp only
  rw [if_neg (not_length_lt _ _), List.take_left]
  rfl

/-- It is framed when its wrapper fits the ceiling and the output as well. -/
theorem tmNodeinfoEncode_pos (hfits : (Protobuf.encodings user.profile.fields).length ≤ 160)
    (hceiling : (wrapped (announcement user wantResponse)).length ≤ maxPayload)
    (hroom : headerLen + (wrapped (announcement user wantResponse)).length ≤ dst.length) :
    0 < (tmNodeinfoEncode fromNode toNode id hopLimit channelHash wantResponse (some key)
      (some user) (some dst)).1 := by
  rw [tmNodeinfoEncode_ok hfits]
  exact encodeFrame_pos scratch_lt (hceiling.trans maxPayload_le) hceiling hroom
    fun n hn => tryI32_of_lt hn

/-- Otherwise it refuses and writes nothing. -/
theorem tmNodeinfoEncode_refused (hlong : 160 < (Protobuf.encodings user.profile.fields).length) :
    tmNodeinfoEncode fromNode toNode id hopLimit channelHash wantResponse (some key) (some user)
      (some dst) = (tmEShort, some dst) := by
  obtain ⟨buf, hbuf⟩ := encodeFields_scratch_short user.profile.numbers_ne_zero (by decide) hlong
  rw [tmNodeinfoEncode, User.encode, hbuf]

end Announcement

end Answers

/-! ### Direct messages -/

section Direct

variable {fromNode toNode id extraNonce portnum : UInt32} {hopLimit wantAck : UInt8}
  {key : TmPkiKey} {payload dst : List UInt8}

/-- The nonce has thirteen bytes, so a direct message can always be sealed. -/
theorem exists_pkiSealed (key : TmPkiKey) (id : UInt32) (extraNonce : Vector UInt8 4)
    (fromNode : UInt32) (p : List UInt8) :
    ∃ sealed, ccmSealed key.bytes (pkiNonce id extraNonce fromNode).toList [] p ccmTagLen =
      some sealed :=
  exists_ccmSealed key.bytes (pkiNonce id extraNonce fromNode) [] p ccmTagLen

/-- Sealing in the scratch buffer: the zeros behind the payload make room for the tag. -/
theorem ccmEncrypt_scratch {k : Vector UInt8 32} {nonce p sealed : List UInt8}
    (hfits : p.length + ccmTagLen ≤ 240)
    (hsealed : ccmSealed k nonce [] p ccmTagLen = some sealed) :
    ccmEncryptInPlace k nonce (p ++ List.replicate (240 - p.length) 0) p.length ccmTagLen =
      (.ok sealed.length, sealed ++ List.replicate (240 - p.length - ccmTagLen) 0) := by
  have hsplit : List.replicate (240 - p.length) (0 : UInt8) =
      List.replicate ccmTagLen 0 ++ List.replicate (240 - p.length - ccmTagLen) 0 := by
    rw [List.replicate_append_replicate, Nat.add_sub_cancel' (by omega)]
  have htag : (List.replicate ccmTagLen (0 : UInt8)).length = ccmTagLen := by
    rw [List.length_replicate]
  rw [hsplit, ← List.append_assoc, length_of_ccmSealed hsealed]
  exact ccmEncrypt_eq _ htag hsealed

/-- The bytes of a direct message around its sealed body. -/
def pkiFrame (header : Header) (sealed : List UInt8) (extraNonce : UInt32) : List UInt8 :=
  header.encode.toList ++ sealed ++ extraNonce.toLeBytes.toList

@[simp] theorem length_pkiFrame (header : Header) (sealed : List UInt8) (extraNonce : UInt32) :
    (pkiFrame header sealed extraNonce).length = sealed.length + headerLen + 4 := by
  rw [pkiFrame, List.length_append, List.length_append, Vector.length_toList, Vector.length_toList,
    Nat.add_comm headerLen]

/-- Header, sealed body and extra nonce are written one behind the other. -/
theorem overwrite_pkiFrame (header : Header) (sealed : List UInt8) (extraNonce : UInt32)
    (hroom : sealed.length + headerLen + 4 ≤ dst.length) :
    overwrite (overwrite (overwrite dst 0 header.encode.toList) headerLen sealed)
        (headerLen + sealed.length) extraNonce.toLeBytes.toList =
      pkiFrame header sealed extraNonce ++ dst.drop (sealed.length + headerLen + 4) := by
  have hhead : header.encode.toList.length = headerLen := Vector.length_toList
  have hextra : extraNonce.toLeBytes.toList.length = 4 := Vector.length_toList
  have hbody : (header.encode.toList ++ sealed).length = headerLen + sealed.length := by
    rw [List.length_append, hhead]
  have htotal := length_pkiFrame header sealed extraNonce
  rw [← htotal, ← overwrite_front (by omega), pkiFrame, ← hbody]
  generalize header.encode.toList = head at *
  rw [← hhead, overwrite_overwrite, overwrite_overwrite]
  · omega
  · omega

/-- **The direct-message encoder** seals its payload when that fits the scratch buffer
together with its tag, and the output. -/
theorem tmPkiEncode_ok {sealed : List UInt8}
    (hfits : (appBytes portnum payload).length + ccmTagLen ≤ 240)
    (hroom : (appBytes portnum payload).length + ccmTagLen + headerLen + 4 ≤ dst.length)
    (hsealed : ccmSealed key.bytes (pkiNonce id extraNonce.toLeBytes fromNode).toList []
      (appBytes portnum payload) ccmTagLen = some sealed) :
    tmPkiEncode fromNode toNode id hopLimit wantAck (some key) extraNonce portnum (some payload)
        (some dst) =
      (((pkiFrame (originHeader fromNode toNode id hopLimit 0 (wantAck ≠ 0)) sealed
          extraNonce).length : ℤ),
        some (pkiFrame (originHeader fromNode toNode id hopLimit 0 (wantAck ≠ 0)) sealed
            extraNonce ++
          dst.drop ((appBytes portnum payload).length + ccmTagLen + headerLen + 4))) := by
  have hlen : sealed.length = (appBytes portnum payload).length + ccmTagLen :=
    length_of_ccmSealed hsealed
  have hscratch := encode_scratch { portnum := portnum, payload := payload } scratch_lt
    (Nat.le_of_add_right_le hfits)
  rw [show wrapped { portnum := portnum, payload := payload } = appBytes portnum payload from rfl]
    at hscratch
  generalize appBytes portnum payload = p at *
  rw [← hlen] at hroom ⊢
  -- wrap the payload in the scratch buffer, seal it there, and copy the pieces out
  rw [tmPkiEncode]
  dsimp only
  rw [hscratch]
  dsimp only
  rw [ccmEncrypt_scratch hfits hsealed]
  dsimp only
  rw [if_neg (not_lt.mpr hroom), List.take_left, overwrite_pkiFrame _ _ _ hroom, length_pkiFrame]
  have hsmall : sealed.length + headerLen + 4 < 2 ^ 31 := by
    change sealed.length + 16 + 4 < 2 ^ 31
    omega
  rw [tryI32_of_lt hsmall]

/-- A direct message that fits is built. -/
theorem tmPkiEncode_pos (hfits : (appBytes portnum payload).length + ccmTagLen ≤ 240)
    (hroom : (appBytes portnum payload).length + ccmTagLen + headerLen + 4 ≤ dst.length) :
    0 < (tmPkiEncode fromNode toNode id hopLimit wantAck (some key) extraNonce portnum
      (some payload) (some dst)).1 := by
  obtain ⟨sealed, hsealed⟩ := exists_pkiSealed key id extraNonce.toLeBytes fromNode
    (appBytes portnum payload)
  rw [tmPkiEncode_ok hfits hroom hsealed, length_pkiFrame]
  exact Int.natCast_pos.mpr (Nat.succ_pos _)

/-- Otherwise it refuses and writes nothing. -/
theorem tmPkiEncode_refused
    (h : ¬ ((appBytes portnum payload).length + ccmTagLen ≤ 240 ∧
      (appBytes portnum payload).length + ccmTagLen + headerLen + 4 ≤ dst.length)) :
    tmPkiEncode fromNode toNode id hopLimit wantAck (some key) extraNonce portnum (some payload)
      (some dst) = (tmEShort, some dst) := by
  obtain ⟨sealed, hsealed⟩ := exists_pkiSealed key id extraNonce.toLeBytes fromNode
    (appBytes portnum payload)
  rcases Nat.lt_or_ge 240 (appBytes portnum payload).length with hlong | hscratch
  · obtain ⟨buf, hbuf⟩ := encode_scratch_short { portnum := portnum, payload := payload } scratch_lt
      hlong
    rw [tmPkiEncode]
    dsimp only
    rw [hbuf]
  have hencode := encode_scratch { portnum := portnum, payload := payload } scratch_lt hscratch
  rw [show wrapped { portnum := portnum, payload := payload } = appBytes portnum payload from rfl]
    at hencode
  rw [tmPkiEncode]
  dsimp only
  rw [hencode]
  dsimp only
  generalize appBytes portnum payload = p at *
  by_cases hfits : p.length + ccmTagLen ≤ 240
  · -- there is room for the tag, so it is the output that is too short
    have hshort : dst.length < sealed.length + headerLen + 4 := by
      rw [length_of_ccmSealed hsealed]
      exact not_le.mp fun hroom => h ⟨hfits, hroom⟩
    rw [ccmEncrypt_scratch hfits hsealed]
    dsimp only
    rw [if_pos hshort]
  · -- the wrapper fills the scratch buffer so far that no tag fits behind it
    have hwork : (p ++ List.replicate (240 - p.length) (0 : UInt8)).length <
        p.length + ccmTagLen := by
      rw [List.length_append, List.length_replicate]
      omega
    rw [ccmEncryptInPlace, ccmEncrypt_short hwork]

end Direct

end TetherMesh.CApi
