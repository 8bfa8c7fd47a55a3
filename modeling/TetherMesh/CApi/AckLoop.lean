import TetherMesh.CApi.OutboxCalls
import TetherMesh.CApi.RoundTrip
import TetherMesh.Protocol.OutboxRetired
import TetherMesh.Protocol.PacketId

/-!
# The acknowledgement loop

A frame that asks to be acknowledged waits in its sender's outbox. Its receiver
answers with the frame's identifier in the field of the request it replies to; the
sender opens the answer, recognises it, and retires the entry. An identifier of zero
gets lost on the way: the field is not written when it is zero, and a reply without
one refers to nothing.

## Main definitions

* `LoopCloses` — asked, opened, recognised and retired

## Main results

* `classifyAck_acknowledgement` — what the reply to a request is recognised as
* `acknowledgement_loop_closes_iff` — the loop closes unless the identifier is zero
* `acknowledgement_loop_open_at_zero` — a request with identifier zero
-/

namespace TetherMesh.CApi

open CS Math Protocol Protocol.Message

/-- The loop of one request, a frame in the outbox of `l` with header `request`, and its
reply: the receiver sees that it is asked, the sender opens the reply and recognises what
it answers, and the entry is retired for good. -/
structure LoopCloses (l : Ledger outboxSlots) (frame : List UInt8) (request : Header)
    (key : TmKey) (reply : List UInt8) : Prop where
  /-- The receiver sees that it is asked. -/
  asked : tmWantsAck (some frame) request.toNode = 1
  /-- The sender opens the reply. -/
  opened (payloadOut : List UInt8) (lenOut : ℕ) :
    (tmFrameDecrypt (some reply) (some key) (some payloadOut) (some lenOut)).code = tmOk
  /-- It recognises the reply, as an acceptance of this request. -/
  recognised (payloadOut : List UInt8) (lenOut : ℕ) (oldId : UInt32) (outStatus : Ptr UInt32) :
    tmAcknowledges
        (some (tmFrameDecrypt (some reply) (some key) (some payloadOut) (some lenOut)).plaintext)
        (some oldId) outStatus =
      (1, some request.id, outStatus.map fun _ => 0)
  /-- Acknowledging what was recognised finds the entry, of which nothing more is heard. -/
  retired : ∃ o', tmOutboxAcknowledge (some ⟨l.outbox⟩) request.id = (1, some ⟨o'⟩) ∧
    Ledger.Quiet request.id { l with outbox := o' }

/-! ## The reply -/

section Reply

variable {fromNode toNode id requestId : UInt32} {hopLimit channelHash : UInt8} {key : TmKey}
  {dst : List UInt8}

/-- A reply is short: its port number, its status, and its request if there is one. -/
theorem length_wrapped_acknowledgement (requestId : UInt32) :
    (wrapped (acknowledgement requestId)).length = if requestId = 0 then 6 else 11 := by
  by_cases h : requestId = 0
  all_goals simp [h, acknowledgement, ackPayload, PortNum.routingApp, wrapped, Data.fields, fieldIf,
    fieldSome, Protobuf.Field.encoding, Protobuf.Field.tag, Protobuf.Value.encoding,
    Protobuf.Value.wireType, Varint.encode_of_lt]

theorem length_wrapped_acknowledgement_le (requestId : UInt32) :
    (wrapped (acknowledgement requestId)).length ≤ 11 := by
  rw [length_wrapped_acknowledgement]
  split_ifs <;> decide

/-- The two bytes of the payload are an acceptance. -/
theorem decode_ackPayload : Routing.decode ackPayload = .ok { status := 0 } := by
  have hbytes : Protobuf.encodings ({ status := 0 } : Routing).fields = ackPayload := by
    simp [Routing.fields, ackPayload, Protobuf.Field.encoding, Protobuf.Field.tag,
      Protobuf.Value.encoding, Protobuf.Value.wireType, Varint.encode_of_lt]
  rw [← hbytes]
  exact decodeWith_of_foldl (Routing.numbers_ne_zero _) (Routing.foldl_fields _)
    (by rw [hbytes]; decide)

/-- **What a reply is recognised as**: an acceptance of its request, or nothing at all when
that is zero. -/
theorem classifyAck_acknowledgement (requestId : UInt32) :
    classifyAck (wrapped (acknowledgement requestId)) =
      if requestId = 0 then none else some (requestId, 0) := by
  have hlen : (wrapped (acknowledgement requestId)).length < Protobuf.usizeLimit :=
    Nat.lt_of_le_of_lt (length_wrapped_acknowledgement_le requestId) (by decide)
  rw [classifyAck, decode_wrapped hlen]
  dsimp only
  rw [acknowledges, acknowledgement]
  dsimp only
  rw [decode_ackPayload]
  by_cases h : requestId = 0
  · rw [if_pos h, if_pos (.inr h)]
    rfl
  · rw [if_neg h, if_neg (by simp [h])]
    rfl

/-- A buffer of 27 bytes is enough for any reply. -/
theorem tmAckEncode_pos (hroom : 27 ≤ dst.length) :
    0 < (tmAckEncode fromNode toNode id requestId hopLimit channelHash (some key)
      (some dst)).1 := by
  have hlen := length_wrapped_acknowledgement_le requestId
  refine encodeFrame_pos (by decide) (hlen.trans (by decide)) (hlen.trans (by decide)) ?_
    fun n hn => tryI32_of_lt hn
  exact (Nat.add_le_add_left hlen headerLen).trans hroom

/-- **The reply opens under the channel key** to the wrapper of the acknowledgement. -/
theorem tmFrameDecrypt_ack
    (hpos : 0 < (tmAckEncode fromNode toNode id requestId hopLimit channelHash (some key)
      (some dst)).1) (payloadOut : List UInt8) (lenOut : ℕ) :
    (tmFrameDecrypt
        (some (built (tmAckEncode fromNode toNode id requestId hopLimit channelHash (some key)
          (some dst))))
        (some key) (some payloadOut) (some lenOut)).code = tmOk ∧
      (tmFrameDecrypt
        (some (built (tmAckEncode fromNode toNode id requestId hopLimit channelHash (some key)
          (some dst))))
        (some key) (some payloadOut) (some lenOut)).plaintext =
          wrapped (acknowledgement requestId) := by
  have hbuilt : built (tmAckEncode fromNode toNode id requestId hopLimit channelHash (some key)
      (some dst)) = Frame.sealed (originHeader fromNode toNode id hopLimit channelHash false)
        (wrapped (acknowledgement requestId)) key.bytes 0 :=
    (built_encodeFrame (by decide) tmEArg_neg (fun n hn => tryI32_of_lt hn) hpos).2
  have hopen := tmFrameDecrypt_sent (sentAs_origin fromNode toNode id hopLimit channelHash false)
    (wrapped (acknowledgement requestId)) key payloadOut lenOut
  rw [hbuilt]
  exact ⟨congrArg Opened.code hopen, (congrArg Opened.plaintext hopen).trans List.take_length⟩

/-- What the sender makes of the reply. -/
theorem tmAcknowledges_ack
    (hpos : 0 < (tmAckEncode fromNode toNode id requestId hopLimit channelHash (some key)
      (some dst)).1) (payloadOut : List UInt8) (lenOut : ℕ) (oldId : UInt32)
    (outStatus : Ptr UInt32) :
    tmAcknowledges (some (tmFrameDecrypt
        (some (built (tmAckEncode fromNode toNode id requestId hopLimit channelHash (some key)
          (some dst))))
        (some key) (some payloadOut) (some lenOut)).plaintext) (some oldId) outStatus =
      if requestId = 0 then (0, some oldId, outStatus)
      else (1, some requestId, outStatus.map fun _ => 0) := by
  rw [(tmFrameDecrypt_ack hpos payloadOut lenOut).2, tmAcknowledges, classifyAck_acknowledgement]
  by_cases h : requestId = 0
  · rw [if_pos h, if_pos h]
  · rw [if_neg h, if_neg h]

end Reply

/-- The receiver of a frame sees what its header says. -/
theorem tmWantsAck_of_decode {frame : List UInt8} {h : Header} (hdec : Header.decode frame = some h)
    (hwants : h.wantAck = true) : tmWantsAck (some frame) h.toNode = 1 := by
  rw [tmWantsAck, wantsAcknowledgement, Frame.peekHeader, hdec]
  simp [hwants]

/-! ## The loop -/

section Loop

variable {policy : RetryPolicy} {events : List OutboxEvent} {l : Ledger outboxSlots}
  {i : Fin outboxSlots} {request : Header}

/-- An entry is found under the identifier in its header, and nothing more is heard of it. -/
theorem exists_retired (inv : Ledger.Inv policy events l) (hpending : l.Pending i)
    (hrequest : Header.decode (l.outbox.slot i).bytes = some request) :
    ∃ o', tmOutboxAcknowledge (some ⟨l.outbox⟩) request.id = (1, some ⟨o'⟩) ∧
      Ledger.Quiet request.id { l with outbox := o' } := by
  have hid : (l.outbox.slot i).id = request.id :=
    (inv.bears_iff hpending).mp ⟨request, hrequest, rfl⟩
  generalize hcall : l.outbox.acknowledge request.id = answer
  obtain ⟨hit, o'⟩ := answer
  have hhit : hit = true := (Outbox.acknowledge_hit hcall).mpr ⟨i, hpending, hid⟩
  refine ⟨o', ?_, Ledger.quiet_of_acknowledge inv hcall⟩
  rw [tmOutboxAcknowledge]
  dsimp only
  rw [hcall, hhit]
  rfl

/-- A loop that closes is not one of identifier zero. -/
theorem LoopCloses.id_ne_zero {frame dst : List UInt8} {replyId : UInt32}
    {hopLimit channelHash : UInt8} {key : TmKey}
    (hcloses : LoopCloses l frame request key
      (built (tmAckEncode request.toNode request.fromNode replyId request.id hopLimit channelHash
        (some key) (some dst))))
    (hbuilt : 0 < (tmAckEncode request.toNode request.fromNode replyId request.id hopLimit
      channelHash (some key) (some dst)).1) : request.id ≠ 0 := by
  intro hzero
  have hanswer := hcloses.recognised [] 0 0 none
  rw [tmAcknowledges_ack hbuilt, if_pos hzero] at hanswer
  have hcode : (0 : ℤ) = 1 := congrArg Prod.fst hanswer
  exact absurd hcode (by decide)

/-- **The acknowledgement loop closes** exactly when the identifier is not zero: for every
outbox that has come about by its calls, every frame in it that asks to be acknowledged,
and every reply to that. -/
theorem acknowledgement_loop_closes_iff
    (run : Run Ledger.Step (Ledger.start outboxSlots policy) events l) (hpending : l.Pending i)
    (hrequest : Header.decode (l.outbox.slot i).bytes = some request)
    (hwants : request.wantAck = true) {replyId : UInt32} {hopLimit channelHash : UInt8}
    {key : TmKey} {dst : List UInt8}
    (hbuilt : 0 < (tmAckEncode request.toNode request.fromNode replyId request.id hopLimit
      channelHash (some key) (some dst)).1) :
    LoopCloses l (l.outbox.slot i).bytes request key
        (built (tmAckEncode request.toNode request.fromNode replyId request.id hopLimit channelHash
          (some key) (some dst))) ↔
      request.id ≠ 0 := by
  refine ⟨fun hcloses => hcloses.id_ne_zero hbuilt, fun hne => ?_⟩
  refine ⟨tmWantsAck_of_decode hrequest hwants, fun payloadOut lenOut => ?_,
    fun payloadOut lenOut oldId outStatus => ?_,
    exists_retired (Ledger.inv_of_run run) hpending hrequest⟩
  · exact (tmFrameDecrypt_ack hbuilt payloadOut lenOut).1
  · rw [tmAcknowledges_ack hbuilt, if_neg hne]

/-- A fresh outbox takes the frame of a header alone, and it waits there. -/
theorem exists_waiting (h : Header) :
    ∃ (l : Ledger outboxSlots) (i : Fin outboxSlots),
      Run Ledger.Step (Ledger.start outboxSlots .measuredCeiling) [.tracked 0 h.encode.toList] l ∧
      l.Pending i ∧ (l.outbox.slot i).bytes = h.encode.toList := by
  have hlen : h.encode.toList.length = headerLen := Vector.length_toList
  have hfree : ((Ledger.start outboxSlots .measuredCeiling).outbox.slot 0).state = .free := by
    simp [Ledger.start, Slot.empty]
  obtain ⟨l, i, hstep, hpend, hbytes⟩ :=
    Ledger.exists_track hlen.symm.le (hlen.trans_le (by decide)) ⟨0, hfree⟩
  exact ⟨l, i, .single hstep, hpend, hbytes⟩

/-- The loop of a request with identifier seven. -/
theorem acknowledgement_loop_closes_seven :
    ∃ l : Ledger outboxSlots,
      LoopCloses l (originHeader 1 2 7 3 8 true).encode.toList (originHeader 1 2 7 3 8 true)
        ⟨Vector.replicate 16 7⟩
        (built (tmAckEncode 2 1 9 7 3 8 (some ⟨Vector.replicate 16 7⟩)
          (some (List.replicate 27 0)))) := by
  obtain ⟨l, i, run, hpending, hbytes⟩ := exists_waiting (originHeader 1 2 7 3 8 true)
  have hroom : 27 ≤ (List.replicate 27 (0 : UInt8)).length := List.length_replicate.ge
  refine ⟨l, ?_⟩
  rw [← hbytes]
  exact (acknowledgement_loop_closes_iff run hpending (hbytes ▸ Header.decode_encode rfl rfl) rfl
    (tmAckEncode_pos hroom)).mpr (by decide)

/-- An identifier of zero can be issued, and its request waits in an outbox and is seen by
its receiver; the reply is not recognised, so the loop stays open. -/
theorem acknowledgement_loop_open_at_zero :
    let key : TmKey := ⟨Vector.replicate 16 7⟩
    let reply := tmAckEncode 2 1 9 0 3 8 (some key) (some (List.replicate 27 0))
    PacketIdSource.Issuable 0 ∧ 0 < reply.1 ∧
      tmWantsAck (some (originHeader 1 2 0 3 8 true).encode.toList) 2 = 1 ∧
      tmAcknowledges (some (tmFrameDecrypt (some (built reply)) (some key) (some [])
        (some 0)).plaintext) (some 0) none = (0, some 0, none) ∧
      ∃ (l : Ledger outboxSlots) (i : Fin outboxSlots),
        Run Ledger.Step (Ledger.start outboxSlots .measuredCeiling)
          [.tracked 0 (originHeader 1 2 0 3 8 true).encode.toList] l ∧
        l.Pending i ∧ (l.outbox.slot i).bytes = (originHeader 1 2 0 3 8 true).encode.toList ∧
        ¬ LoopCloses l (originHeader 1 2 0 3 8 true).encode.toList (originHeader 1 2 0 3 8 true)
          key (built reply) := by
  intro key reply
  have hroom : 27 ≤ (List.replicate 27 (0 : UInt8)).length := List.length_replicate.ge
  have hbuilt : 0 < (tmAckEncode 2 1 9 0 3 8 (some key) (some (List.replicate 27 0))).1 :=
    tmAckEncode_pos hroom
  obtain ⟨l, i, run, hpending, hbytes⟩ := exists_waiting (originHeader 1 2 0 3 8 true)
  refine ⟨PacketIdSource.issuable_iff.mpr (by decide), hbuilt,
    tmWantsAck_of_decode (Header.decode_encode rfl rfl) rfl,
    (tmAcknowledges_ack hbuilt [] 0 0 none).trans (if_pos rfl),
    l, i, run, hpending, hbytes, fun hcloses => ?_⟩
  exact hcloses.id_ne_zero hbuilt rfl

end Loop

end TetherMesh.CApi
