import TetherMesh.CApi.OutboxCalls

/-!
# How large a frame the C interface can build

The channel encoders hand their payload to `Frame.encode`, which carries the
ceiling of 233 bytes. The direct-message encoder frames by itself, and its scratch
buffer lets through bodies of up to 244 bytes.

## Main definitions

* `EncodeCall` — a call of one of the five encoders
* `FrameBounded` — refused, or a frame the outbox can store
* `EncodeCall.Oversized` — the calls that build a larger one

## Main results

* `length_appBytes` — how long a payload wrapper is
* `frameBounded_iff` — a call is bounded exactly when it is not one of those
* `frameBounded_fails` — 217 bytes of direct message make a frame of 250
-/

namespace TetherMesh.CApi

open Math Protocol Protocol.Message

/-! ## The length of a wrapper -/

/-- How many bytes the port number takes in a wrapper. -/
def portnumBytes (portnum : UInt32) : ℕ :=
  if portnum = 0 then 0
  else if portnum.toNat < 2 ^ 7 then 2
  else if portnum.toNat < 2 ^ 14 then 3
  else if portnum.toNat < 2 ^ 21 then 4
  else if portnum.toNat < 2 ^ 28 then 5
  else 6

section Length

variable {portnum : UInt32} {payload : List UInt8}

theorem portnumBytes_le (portnum : UInt32) : portnumBytes portnum ≤ 6 := by
  unfold portnumBytes
  split_ifs <;> omega

theorem portnumBytes_of_ne (h : portnum ≠ 0) :
    portnumBytes portnum = 1 + (Varint.encode portnum.toNat).length := by
  have hlt := portnum.toNat_lt
  unfold portnumBytes
  rw [if_neg h]
  split_ifs with h1 h2 h3 h4
  · rw [Varint.encode_of_lt h1, List.length_singleton]
  · rw [Varint.length_encode_eq 0 (by omega) (by omega)]
  · rw [Varint.length_encode_eq 1 (by omega) (by omega)]
  · rw [Varint.length_encode_eq 2 (by omega) (by omega)]
  · rw [Varint.length_encode_eq 3 (by omega) (by omega)]

/-- A wrapper has the field of the port number and the field of the payload, and of
those only what is not a default. -/
theorem appBytes_eq (portnum : UInt32) (payload : List UInt8) :
    appBytes portnum payload =
      Protobuf.encodings (fieldIf (portnum ≠ 0) 1 (.varint portnum.toUInt64)) ++
        Protobuf.encodings (fieldIf (payload ≠ []) 2 (.len payload)) := by
  simp [appBytes, wrapped, Data.fields, fieldIf, fieldSome]

/-- **The length of a wrapper.** -/
theorem length_appBytes (portnum : UInt32) (payload : List UInt8) :
    (appBytes portnum payload).length = portnumBytes portnum +
      if payload = [] then 0 else 1 + (Varint.encode payload.length).length + payload.length := by
  have htag (n : ℕ) (h : n < 128) : (Varint.encode n).length = 1 := by
    rw [Varint.encode_of_lt h, List.length_singleton]
  have hport : (Protobuf.encodings (fieldIf (portnum ≠ 0) 1 (.varint portnum.toUInt64))).length =
      portnumBytes portnum := by
    by_cases h : portnum = 0
    · rw [h]
      rfl
    · rw [portnumBytes_of_ne h, fieldIf, if_pos h, Protobuf.encodings_cons, Protobuf.encodings_nil,
        List.append_nil, Protobuf.Field.encoding, List.length_append]
      exact congrArg (· + _) (htag 8 (by decide))
  have hbody : (Protobuf.encodings (fieldIf (payload ≠ []) 2 (.len payload))).length =
      if payload = [] then 0 else 1 + (Varint.encode payload.length).length + payload.length := by
    by_cases h : payload = []
    · rw [if_pos h, fieldIf, if_neg (not_not.mpr h)]
      rfl
    · rw [if_neg h, fieldIf, if_pos h, Protobuf.encodings_cons, Protobuf.encodings_nil,
        List.append_nil, Protobuf.Field.encoding, List.length_append,
        show (⟨2, .len payload⟩ : Protobuf.Field).tag = 18 from rfl, htag 18 (by decide),
        Protobuf.Value.encoding, List.length_append, Nat.add_assoc]
  rw [appBytes_eq, List.length_append, hport, hbody]

/-- Around the ceiling the payload has a two-byte length prefix. -/
theorem length_appBytes_range (portnum : UInt32) (payload : List UInt8) :
    (221 < (appBytes portnum payload).length ∧ (appBytes portnum payload).length ≤ 232 ↔
      219 ≤ portnumBytes portnum + payload.length ∧ portnumBytes portnum + payload.length ≤ 229) ∧
    (219 ≤ portnumBytes portnum + payload.length → portnumBytes portnum + payload.length ≤ 229 →
      (appBytes portnum payload).length = portnumBytes portnum + payload.length + 3) := by
  have hport := portnumBytes_le portnum
  rw [length_appBytes]
  by_cases hempty : payload = []
  · rw [if_pos hempty, hempty, List.length_nil]
    omega
  rw [if_neg hempty]
  -- a length prefix of one byte is too short to get there, one of three too long
  rcases Nat.lt_or_ge payload.length 128 with hshort | hlong
  · rw [Varint.encode_of_lt hshort, List.length_singleton]
    omega
  rcases Nat.lt_or_ge payload.length (128 ^ 2) with htwo | hmany
  · rw [Varint.length_encode_eq 0 hlong htwo]
    omega
  · have := Varint.length_encode_pos payload.length
    omega

end Length

/-! ## The five encoders -/

/-- A call of an encoder, with its arguments. -/
inductive EncodeCall
  | text (fromNode toNode id : UInt32) (hopLimit channelHash wantAck : UInt8) (key : Ptr TmKey)
      (txt out : Ptr (List UInt8))
  | extension (fromNode toNode id : UInt32) (hopLimit channelHash wantAck : UInt8)
      (portnum : UInt32) (key : Ptr TmKey) (payload out : Ptr (List UInt8))
  | ack (fromNode toNode id requestId : UInt32) (hopLimit channelHash : UInt8) (key : Ptr TmKey)
      (out : Ptr (List UInt8))
  | nodeinfo (fromNode toNode id : UInt32) (hopLimit channelHash wantResponse : UInt8)
      (key : Ptr TmKey) (user : Ptr TmUser) (out : Ptr (List UInt8))
  | pki (fromNode toNode id : UInt32) (hopLimit wantAck : UInt8) (key : Ptr TmPkiKey)
      (extraNonce portnum : UInt32) (payload out : Ptr (List UInt8))

namespace EncodeCall

/-- What the call answers, and the output buffer it leaves. -/
def answer : EncodeCall → ℤ × Ptr (List UInt8)
  | text fromNode toNode id hopLimit channelHash wantAck key txt out =>
    tmTextEncode fromNode toNode id hopLimit channelHash wantAck key txt out
  | extension fromNode toNode id hopLimit channelHash wantAck portnum key payload out =>
    tmExtensionEncode fromNode toNode id hopLimit channelHash wantAck portnum key payload out
  | ack fromNode toNode id requestId hopLimit channelHash key out =>
    tmAckEncode fromNode toNode id requestId hopLimit channelHash key out
  | nodeinfo fromNode toNode id hopLimit channelHash wantResponse key user out =>
    tmNodeinfoEncode fromNode toNode id hopLimit channelHash wantResponse key user out
  | pki fromNode toNode id hopLimit wantAck key extraNonce portnum payload out =>
    tmPkiEncode fromNode toNode id hopLimit wantAck key extraNonce portnum payload out

/-- A direct message of a size the scratch buffer still takes but a frame does not, with
an output that has room for it. -/
def Oversized : EncodeCall → Prop
  | pki _ _ _ _ _ (some _) _ portnum (some payload) (some out) =>
    219 ≤ portnumBytes portnum + payload.length ∧ portnumBytes portnum + payload.length ≤ 229 ∧
      portnumBytes portnum + payload.length + 31 ≤ out.length
  | _ => False

end EncodeCall

/-- The call refused with a negative code, or it built a frame of at most `maxFrame`
bytes, which the outbox takes whenever it has a free slot. -/
def FrameBounded (answer : ℤ × Ptr (List UInt8)) : Prop :=
  answer.1 < 0 ∨ ∃ n : ℕ, 0 < n ∧ answer.1 = n ∧ n ≤ maxFrame ∧
    ∀ (o : TmOutbox) (nowUs : UInt64), (∃ i : Fin outboxSlots, (o.inner.slot i).state = .free) →
      (tmOutboxTrack (some o) (answer.2.map (·.take n)) nowUs).1 = tmOk

theorem frame_sizes : headerLen = 16 ∧ maxPayload = 233 ∧ maxFrame = 249 := ⟨rfl, rfl, rfl⟩

/-- A frame of an admissible length is bounded. -/
theorem frameBounded_of_length {frame rest : List UInt8} (hmin : headerLen ≤ frame.length)
    (hmax : frame.length ≤ maxFrame) :
    FrameBounded ((frame.length : ℤ), some (frame ++ rest)) := by
  have hpos : 0 < frame.length := Nat.lt_of_lt_of_le (Nat.succ_pos 15) hmin
  refine .inr ⟨frame.length, hpos, rfl, hmax, fun o nowUs hfree => ?_⟩
  have htrack := Outbox.track_ok hmin hmax hfree nowUs
  rw [Option.map_some, List.take_left, tmOutboxTrack]
  dsimp only
  rw [htrack]

/-- **The channel encoders are bounded**: the ceiling is in `Frame.encode`. -/
theorem frameBounded_encodeFrame {header : Header} {data : Data} {scratch : ℕ} {refused : ℤ}
    {answer : ℕ → ℤ} {key : TmKey} {dst : List UInt8} (hscratch : scratch < Protobuf.usizeLimit)
    (hrefused : refused < 0) (hanswer : ∀ n < 2 ^ 31, answer n = n) :
    FrameBounded ((encodeFrame header data scratch refused answer key dst).1,
      some (encodeFrame header data scratch refused answer key dst).2) := by
  have hsizes := frame_sizes
  by_cases h : (wrapped data).length ≤ scratch ∧ (wrapped data).length ≤ maxPayload ∧
      headerLen + (wrapped data).length ≤ dst.length
  · obtain ⟨hfits, hceiling, hroom⟩ := h
    rw [encodeFrame_ok hscratch hfits hceiling hroom, hanswer _ (by omega)]
    have hlen : (Frame.sealed header (wrapped data) key.bytes 0).length =
        headerLen + (wrapped data).length := Frame.length_sealed
    rw [← hlen] at hroom ⊢
    exact frameBounded_of_length (by omega) (by omega)
  · rcases encodeFrame_refused hscratch h with heq | heq
    · rw [heq]
      exact .inl hrefused
    · rw [heq]
      exact .inl tmEArg_neg

theorem tmTextEncode_bounded (fromNode toNode id : UInt32) (hopLimit channelHash wantAck : UInt8)
    (key : Ptr TmKey) (txt out : Ptr (List UInt8)) :
    FrameBounded (tmTextEncode fromNode toNode id hopLimit channelHash wantAck key txt out) := by
  unfold tmTextEncode
  split
  · exact frameBounded_encodeFrame scratch_lt tmEArg_neg fun n hn => asI32_of_lt hn
  · exact .inl tmEArg_neg

theorem tmExtensionEncode_bounded (fromNode toNode id : UInt32)
    (hopLimit channelHash wantAck : UInt8) (portnum : UInt32) (key : Ptr TmKey)
    (payload out : Ptr (List UInt8)) :
    FrameBounded (tmExtensionEncode fromNode toNode id hopLimit channelHash wantAck portnum key
      payload out) := by
  unfold tmExtensionEncode
  split
  · exact .inl tmEReservedPortnum_neg
  · split
    · exact frameBounded_encodeFrame scratch_lt tmEArg_neg fun n hn => asI32_of_lt hn
    · exact .inl tmEArg_neg

theorem tmAckEncode_bounded (fromNode toNode id requestId : UInt32) (hopLimit channelHash : UInt8)
    (key : Ptr TmKey) (out : Ptr (List UInt8)) :
    FrameBounded (tmAckEncode fromNode toNode id requestId hopLimit channelHash key out) := by
  unfold tmAckEncode
  split
  · exact frameBounded_encodeFrame (Nat.lt_trans (by decide) scratch_lt) tmEArg_neg
      fun n hn => tryI32_of_lt hn
  · exact .inl tmEArg_neg

theorem tmNodeinfoEncode_bounded (fromNode toNode id : UInt32)
    (hopLimit channelHash wantResponse : UInt8) (key : Ptr TmKey) (user : Ptr TmUser)
    (out : Ptr (List UInt8)) :
    FrameBounded
      (tmNodeinfoEncode fromNode toNode id hopLimit channelHash wantResponse key user out) := by
  unfold tmNodeinfoEncode
  split
  · split
    · exact .inl tmEShort_neg
    · split
      · exact .inl tmEShort_neg
      · exact frameBounded_encodeFrame scratch_lt tmEShort_neg fun n hn => tryI32_of_lt hn
  · exact .inl tmEArg_neg

/-- A frame beyond `maxFrame` is not bounded. -/
theorem not_frameBounded {n : ℕ} (h : maxFrame < n) (out : Ptr (List UInt8)) :
    ¬ FrameBounded ((n : ℤ), out) := by
  rintro (hneg | ⟨m, -, hm, hmax, -⟩)
  · exact absurd hneg (not_lt.mpr (Int.natCast_nonneg n))
  · have heq : n = m := Int.ofNat.inj hm
    omega

/-- **The direct-message encoder** is bounded but for the messages near the top of its
scratch buffer. -/
theorem tmPkiEncode_bounded_iff (fromNode toNode id : UInt32) (hopLimit wantAck : UInt8)
    (key : TmPkiKey) (extraNonce portnum : UInt32) (payload out : List UInt8) :
    FrameBounded (tmPkiEncode fromNode toNode id hopLimit wantAck (some key) extraNonce portnum
        (some payload) (some out)) ↔
      ¬ (219 ≤ portnumBytes portnum + payload.length ∧
        portnumBytes portnum + payload.length ≤ 229 ∧
        portnumBytes portnum + payload.length + 31 ≤ out.length) := by
  obtain ⟨hrange, hlen⟩ := length_appBytes_range portnum payload
  have htag : ccmTagLen = 8 := rfl
  have hsizes := frame_sizes
  by_cases h : (appBytes portnum payload).length + ccmTagLen ≤ 240 ∧
      (appBytes portnum payload).length + ccmTagLen + headerLen + 4 ≤ out.length
  · obtain ⟨hfits, hroom⟩ := h
    obtain ⟨sealed, hsealed⟩ := exists_pkiSealed key id extraNonce.toLeBytes fromNode
      (appBytes portnum payload)
    have hframe : (pkiFrame (originHeader fromNode toNode id hopLimit 0 (wantAck ≠ 0)) sealed
        extraNonce).length = (appBytes portnum payload).length + 28 := by
      rw [length_pkiFrame, length_of_ccmSealed hsealed]
      omega
    rw [tmPkiEncode_ok hfits hroom hsealed]
    -- 221 bytes of wrapper and 28 around them are the 249 of a frame
    rcases Nat.lt_or_ge 221 (appBytes portnum payload).length with hlarge | hsmall
    · obtain ⟨hlow, hhigh⟩ := hrange.mp ⟨hlarge, by omega⟩
      have heq := hlen hlow hhigh
      refine iff_of_false (not_frameBounded (by omega) _) (not_not.mpr ⟨hlow, hhigh, by omega⟩)
    · refine iff_of_true (frameBounded_of_length (by omega) (by omega)) fun ⟨hlow, hhigh, _⟩ => ?_
      have heq := hlen hlow hhigh
      omega
  · rw [tmPkiEncode_refused h]
    refine iff_of_true (.inl tmEShort_neg) fun ⟨hlow, hhigh, hcap⟩ => h ?_
    rw [hlen hlow hhigh]
    omega

/-- **Which calls build frames of at most `maxFrame` bytes**: all but the direct messages
whose wrapper takes between 222 and 232 bytes, given an output with room for them. -/
theorem frameBounded_iff (call : EncodeCall) : FrameBounded call.answer ↔ ¬ call.Oversized := by
  cases call with
  | text => exact iff_of_true (tmTextEncode_bounded ..) not_false
  | extension => exact iff_of_true (tmExtensionEncode_bounded ..) not_false
  | ack => exact iff_of_true (tmAckEncode_bounded ..) not_false
  | nodeinfo => exact iff_of_true (tmNodeinfoEncode_bounded ..) not_false
  | pki fromNode toNode id hopLimit wantAck key extraNonce portnum payload out =>
    match key, payload, out with
    | some key, some payload, some out => exact tmPkiEncode_bounded_iff ..
    | none, _, _ | some _, none, _ | some _, some _, none =>
      exact iff_of_true (.inl tmEArg_neg) not_false

/-- A direct message of 217 bytes with 250 bytes to build it in: the answer is 250, past
the 249 a frame may have. -/
theorem frameBounded_fails :
    let call := EncodeCall.pki 1 2 3 3 0 (some ⟨Vector.replicate 32 0⟩) 0 1
      (some (List.replicate 217 0)) (some (List.replicate 250 0))
    call.answer.1 = 250 ∧ maxFrame < 250 ∧ ¬ FrameBounded call.answer := by
  intro call
  have hpayload : (List.replicate 217 (0 : UInt8)).length = 217 := List.length_replicate
  have hout : (List.replicate 250 (0 : UInt8)).length = 250 := List.length_replicate
  have hbody : portnumBytes 1 + (List.replicate 217 (0 : UInt8)).length = 219 := by
    rw [hpayload]
    rfl
  have hlen := (length_appBytes_range 1 (List.replicate 217 (0 : UInt8))).2 hbody.ge
    (hbody.le.trans (by decide))
  rw [hbody] at hlen
  obtain ⟨sealed, hsealed⟩ := exists_pkiSealed ⟨Vector.replicate 32 0⟩ 3 (0 : UInt32).toLeBytes 1
    (appBytes 1 (List.replicate 217 0))
  have hfits : (appBytes 1 (List.replicate 217 0)).length + ccmTagLen ≤ 240 := by
    rw [hlen]
    decide
  have hroom : (appBytes 1 (List.replicate 217 0)).length + ccmTagLen + headerLen + 4 ≤
      (List.replicate 250 (0 : UInt8)).length := by
    rw [hlen, hout]
    decide
  refine ⟨?_, by decide, ?_⟩
  · have hanswer : call.answer.1 = ((pkiFrame (originHeader 1 2 3 3 0 (0 ≠ (0 : UInt8))) sealed
        0).length : ℤ) := congrArg Prod.fst (tmPkiEncode_ok hfits hroom hsealed)
    rw [hanswer, length_pkiFrame, length_of_ccmSealed hsealed, hlen]
    rfl
  · refine (tmPkiEncode_bounded_iff 1 2 3 3 0 _ 0 1 _ _).not.mpr (not_not.mpr ?_)
    rw [hbody, hout]
    decide

end TetherMesh.CApi
