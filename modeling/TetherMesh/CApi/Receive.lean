import TetherMesh.CApi.Transmit
import TetherMesh.Protocol.History
import TetherMesh.Protocol.Routing

/-!
# The C interface: receiving

## Main definitions

* `TmCtx`, `tmCtxInit`, `tmRxObserve`, `tmNoteOriginated` — a node's routing state
* `tmFrameDecrypt`, `tmPkiDecrypt` — open a frame in place
* `tmDataDecode`, `tmUserDecode`, `tmHeaderPeek` — read what arrived
* `tmWantsAck`, `tmAcknowledges` — acknowledgements
-/

namespace TetherMesh.CApi

open Math Protocol Protocol.Message

/-! ## Routing -/

/-- `TM_ABI_VERSION`. -/
def tmAbiVersion : UInt32 := 8

/-- `TM_E_ABI`: the caller's header and the library disagree. -/
def tmEAbi : ℤ := -2

/-- `HISTORY`: how many packets a context remembers. -/
abbrev historyLen : ℕ := 400

/-- A node's routing state. -/
structure TmCtx where
  history : PacketHistory historyLen
  duty : DutyCycle
  window : ContentionWindow
  nodeNum : UInt32
  role : Role

/-- Initialise a context. -/
def tmCtxInit (ctx : Ptr TmCtx) (abi nodeNum : UInt32) : ℤ × Ptr TmCtx :=
  match ctx with
  | none => (tmEArg, none)
  | some old =>
    if abi ≠ tmAbiVersion then (tmEAbi, some old)
    else match DutyCycle.new 1000 3600000 0 with
      | none => (tmEArg, some old)
      | some duty =>
        (tmOk, some ⟨PacketHistory.empty, duty, ContentionWindow.meshtasticShape, nodeNum, .client⟩)

/-- What a received frame turned out to be. -/
structure TmRx where
  fromNode : UInt32
  toNode : UInt32
  id : UInt32
  hopLimit : UInt8
  wantAck : UInt8
  channelHash : UInt8
  duplicate : UInt8
  /-- 1 if the caller should rebroadcast after waiting. -/
  relay : UInt8
  relayWindowSlots : UInt8
  /-- The hop limit of the frame to rebroadcast. -/
  relayHopLimit : UInt8
  /-- Reason when `relay` is 0. -/
  suppressed : UInt8
  deriving DecidableEq, Repr

/-- The number of a reason: `TM_SUPPRESSED_DUPLICATE` and the others. -/
def suppressedCode : Suppressed → UInt8
  | .duplicate => 1
  | .hopLimitExhausted => 2
  | .alreadyRelayedByAnother => 3
  | .dutyBudgetExhausted => 4

/-- Observe a received frame: parse its header, note it in history, and decide whether
to relay. -/
def tmRxObserve (ctx : Ptr TmCtx) (frame : Ptr (List UInt8)) (snrQ4 : Int16) (airtimeUs : Micros)
    (nowUs : UInt64) (heardRelayed : UInt8) (out : Ptr TmRx) : ℤ × Ptr TmCtx × Ptr TmRx :=
  match ctx, frame, out with
  | some c, some bytes, some _ =>
    match Header.decode bytes with
    | none => (tmEShort, ctx, out)
    | some h =>
      let (seen, history) := c.history.observe h.fromNode h.id
      let duplicate := seen == .duplicate
      let observed : Observed := ⟨h.hopLimit, snrQ4, duplicate, heardRelayed ≠ 0, airtimeUs⟩
      let (decision, duty) := shouldRelay observed c.role c.window c.duty nowUs
      let r : TmRx := ⟨h.fromNode, h.toNode, h.id, h.hopLimit, h.wantAck.toUInt8, h.channel,
        duplicate.toUInt8, 0, 0, 0, 0⟩
      let r := match decision with
        | .after windowSlots hopLimit =>
          { r with relay := 1, relayWindowSlots := windowSlots, relayHopLimit := hopLimit }
        | .no reason => { r with suppressed := suppressedCode reason }
      (tmOk, some { c with history := history, duty := duty }, some r)
  | _, _, _ => (tmEArg, ctx, out)

/-- Record a packet we originated, so it is suppressed if it comes back. -/
def tmNoteOriginated (ctx : Ptr TmCtx) (fromNode id : UInt32) : ℤ × Ptr TmCtx :=
  match ctx with
  | none => (tmEArg, none)
  | some c => (tmOk, some { c with history := (c.history.observe fromNode id).2 })

/-! ## Opening frames -/

/-- What opening a frame in place leaves behind. `payload` is what the payload pointer
names, of which the first `payloadLen` bytes are the answer. -/
structure Opened where
  code : ℤ
  frame : Ptr (List UInt8)
  payload : Ptr (List UInt8)
  payloadLen : Ptr ℕ

/-- The plaintext of a frame that was opened. -/
def Opened.plaintext (o : Opened) : List UInt8 := (borrow o.payload).take (o.payloadLen.getD 0)

/-- Decrypt a frame in place and hand back the plaintext payload. -/
def tmFrameDecrypt (frame : Ptr (List UInt8)) (key : Ptr TmKey) (payloadOut : Ptr (List UInt8))
    (payloadLenOut : Ptr ℕ) : Opened :=
  match frame, key, payloadOut, payloadLenOut with
  | some buf, some key, some _, some _ =>
    match Frame.decodeInPlace buf key.bytes 0 with
    | (.ok (_, payload), buf) => ⟨tmOk, some buf, some payload, some payload.length⟩
    | (.error _, buf) => ⟨tmEShort, some buf, payloadOut, payloadLenOut⟩
  | _, _, _, _ => ⟨tmEArg, frame, payloadOut, payloadLenOut⟩

/-- `PKI_OVERHEAD`: the tag and the extra nonce. -/
def pkiOverhead : ℕ := 12

/-- Open a direct message in place. -/
def tmPkiDecrypt (frame : Ptr (List UInt8)) (key : Ptr TmPkiKey) (payload : Ptr (List UInt8))
    (payloadLen : Ptr ℕ) : Opened :=
  match frame, key, payload, payloadLen with
  | some f, some key, some _, some _ =>
    match Frame.peekHeader f with
    | .error _ => ⟨tmEShort, frame, payload, payloadLen⟩
    | .ok h =>
      let body := f.drop headerLen
      if body.length < pkiOverhead then ⟨tmEShort, frame, payload, payloadLen⟩
      else
        let sealedLen := body.length - 4
        let extra := pad 4 (body.drop sealedLen)
        let nonce := pkiNonce h.id extra h.fromNode
        let (answer, sealed) :=
          ccmDecryptInPlace key.bytes nonce.toList (body.take sealedLen) ccmTagLen
        let frame := some (f.take headerLen ++ sealed ++ body.drop sealedLen)
        match answer with
        | .ok n => ⟨tmOk, frame, some sealed, some n⟩
        | .error .unauthentic => ⟨tmEUnauthentic, frame, payload, payloadLen⟩
        | .error _ => ⟨tmEShort, frame, payload, payloadLen⟩
  | _, _, _, _ => ⟨tmEArg, frame, payload, payloadLen⟩

/-! ## Reading what arrived -/

/-- A decoded payload wrapper. -/
structure TmData where
  portnum : UInt32
  payload : Ptr (List UInt8)
  payloadLen : ℕ
  wantResponse : UInt8
  requestId : UInt32

/-- Read a decrypted payload as a `Data`. -/
def tmDataDecode (payload : Ptr (List UInt8)) (out : Ptr TmData) : ℤ × Ptr TmData :=
  match payload, out with
  | some bytes, some _ =>
    match Data.decode bytes with
    | .error _ => (tmEArg, out)
    | .ok d => (tmOk, some
        ⟨d.portnum, some d.payload, d.payload.length, d.wantResponse.toUInt8, d.requestId⟩)
  | _, _ => (tmEArg, out)

/-- Read a payload as a `User`. -/
def tmUserDecode (payload : Ptr (List UInt8)) (out : Ptr TmUser) : ℤ × Ptr TmUser :=
  match payload, out with
  | some bytes, some _ =>
    match User.decode bytes with
    | .error _ => (tmEArg, out)
    | .ok u => (tmOk, some
        ⟨some u.id, some u.longName, some u.shortName, some u.publicKey, some u.macaddr,
          u.hwModel, u.role⟩)
  | _, _ => (tmEArg, out)

/-- The cleartext header, decoded. -/
structure TmHeader where
  toNode : UInt32
  fromNode : UInt32
  id : UInt32
  hopLimit : UInt8
  hopStart : UInt8
  channelHash : UInt8
  nextHop : UInt8
  relayNode : UInt8
  wantAck : UInt8
  viaMqtt : UInt8
  deriving DecidableEq, Repr

/-- Decode the header of a received frame. -/
def tmHeaderPeek (frame : Ptr (List UInt8)) (out : Ptr TmHeader) : ℤ × Ptr TmHeader :=
  match frame, out with
  | some f, some _ =>
    match Frame.peekHeader f with
    | .error _ => (tmEShort, out)
    | .ok h => (tmOk, some
        ⟨h.toNode, h.fromNode, h.id, h.hopLimit, h.hopStart, h.channel, h.nextHop, h.relayNode,
          h.wantAck.toUInt8, h.viaMqtt.toUInt8⟩)
  | _, _ => (tmEArg, out)

/-! ## Acknowledgements -/

/-- Read a decrypted payload as an acknowledgement, if it is one. The status is optional. -/
def tmAcknowledges (payload : Ptr (List UInt8)) (outRequestId outStatus : Ptr UInt32) :
    ℤ × Ptr UInt32 × Ptr UInt32 :=
  match payload, outRequestId with
  | some bytes, some _ =>
    match classifyAck bytes with
    | some (requestId, status) => (1, some requestId, outStatus.map fun _ => status)
    | none => (0, outRequestId, outStatus)
  | _, _ => (tmEArg, outRequestId, outStatus)

/-- Whether a received frame is addressed to us and asks to be acknowledged. -/
def tmWantsAck (frame : Ptr (List UInt8)) (ourNodeNum : UInt32) : ℤ :=
  match frame with
  | none => tmEArg
  | some f => if wantsAcknowledgement f ourNodeNum then 1 else 0

end TetherMesh.CApi
