import TetherMesh.CApi.FrameBound
import TetherMesh.CApi.Keys
import TetherMesh.CApi.RoundTrip

/-!
# The mark of a direct message

A direct message has a channel byte of zero and one addressee. Channel frames carry a hash
in that byte, and the hash of one channel in 256 is zero; and the encoder of direct
messages does not look at the address. So the mark separates the two kinds only up to
these two.

## Main definitions

* `tmIsPki` — read the mark
* `EncodeCall.toNode`, `EncodeCall.channelHash` — what a call puts into it

## Main results

* `tmIsPki_built` — what the mark of a built frame says
* `direct_told_apart`
-/

namespace TetherMesh.CApi

open Math Protocol

/-- Is this frame a direct message? -/
def tmIsPki (frame : Ptr (List UInt8)) : ℤ :=
  match frame with
  | none => tmEArg
  | some f =>
    match Frame.peekHeader f with
    | .error _ => tmEShort
    | .ok h => if h.channel = 0 ∧ !h.isBroadcast then 1 else 0

namespace EncodeCall

/-- Whom the call addresses. -/
def toNode : EncodeCall → UInt32
  | text _ toNode .. | extension _ toNode .. | ack _ toNode .. | nodeinfo _ toNode ..
  | pki _ toNode .. => toNode

/-- The hash a channel encoder is given. A direct message is on no channel. -/
def channelHash : EncodeCall → Option UInt8
  | text _ _ _ _ channelHash .. | extension _ _ _ _ channelHash .. | ack _ _ _ _ _ channelHash ..
  | nodeinfo _ _ _ _ channelHash .. => some channelHash
  | pki .. => none

end EncodeCall

/-! ## The header in front -/

/-- The frame answered starts with the header of an own frame, so addressed and marked. -/
def Headed (answer : ℤ × Ptr (List UInt8)) (toNode : UInt32) (channel : UInt8) : Prop :=
  ∃ fromNode id hopLimit wantAck body, built answer =
    (originHeader fromNode toNode id hopLimit channel wantAck).encode.toList ++ body

variable {fromNode toNode id : UInt32} {hopLimit channel : UInt8} {wantAck : Bool}

theorem tmIsPki_of_headed {answer : ℤ × Ptr (List UInt8)} (h : Headed answer toNode channel) :
    tmIsPki (some (built answer)) = if channel = 0 ∧ toNode ≠ broadcastAddr then 1 else 0 := by
  obtain ⟨fromNode, id, hopLimit, wantAck, body, hbuilt⟩ := h
  rw [tmIsPki, hbuilt, Frame.peekHeader_append, Header.ofBytes_encode]
  simp [originHeader, Header.isBroadcast]

theorem headed_encodeFrame {data : Message.Data} {scratch : ℕ} {refused : ℤ} {answer : ℕ → ℤ}
    {key : TmKey} {dst : List UInt8} (hscratch : scratch < Protobuf.usizeLimit)
    (hrefused : refused < 0) (hanswer : ∀ n < 2 ^ 31, answer n = n)
    (hpos : 0 < (encodeFrame (originHeader fromNode toNode id hopLimit channel wantAck) data
      scratch refused answer key dst).1) :
    Headed ((encodeFrame (originHeader fromNode toNode id hopLimit channel wantAck) data scratch
        refused answer key dst).1,
      some (encodeFrame (originHeader fromNode toNode id hopLimit channel wantAck) data scratch
        refused answer key dst).2) toNode channel :=
  ⟨fromNode, id, hopLimit, wantAck, _, (built_encodeFrame hscratch hrefused hanswer hpos).2⟩

theorem headed_direct {wantAck : UInt8} {key : TmPkiKey} {extraNonce portnum : UInt32}
    {payload dst : List UInt8}
    (hpos : 0 < (tmPkiEncode fromNode toNode id hopLimit wantAck (some key) extraNonce portnum
      (some payload) (some dst)).1) :
    Headed (tmPkiEncode fromNode toNode id hopLimit wantAck (some key) extraNonce portnum
      (some payload) (some dst)) toNode 0 := by
  by_cases h : (appBytes portnum payload).length + ccmTagLen ≤ 240 ∧
      (appBytes portnum payload).length + ccmTagLen + headerLen + 4 ≤ dst.length
  · obtain ⟨sealed, hsealed⟩ := exists_pkiSealed key id extraNonce.toLeBytes fromNode
      (appBytes portnum payload)
    refine ⟨fromNode, id, hopLimit, wantAck ≠ 0, sealed ++ extraNonce.toLeBytes.toList, ?_⟩
    rw [tmPkiEncode_ok h.1 h.2 hsealed, ← List.append_assoc]
    exact List.take_left
  · -- a refusal is negative, and builds nothing
    rw [tmPkiEncode_refused h] at hpos
    exact absurd hpos (not_lt.mpr tmEShort_neg.le)

section Encoders

variable {hopLimit channelHash wantAck : UInt8} {key : Ptr TmKey} {payload out : Ptr (List UInt8)}

theorem headed_text
    (hpos : 0 < (tmTextEncode fromNode toNode id hopLimit channelHash wantAck key payload out).1) :
    Headed (tmTextEncode fromNode toNode id hopLimit channelHash wantAck key payload out) toNode
      channelHash := by
  match key, payload, out with
  | some _, some _, some _ =>
    exact headed_encodeFrame scratch_lt tmEArg_neg (fun n hn => asI32_of_lt hn) hpos
  | none, _, _ | some _, none, _ | some _, some _, none =>
    exact absurd hpos (not_lt.mpr tmEArg_neg.le)

theorem headed_extension {portnum : UInt32}
    (hpos : 0 < (tmExtensionEncode fromNode toNode id hopLimit channelHash wantAck portnum key
      payload out).1) :
    Headed (tmExtensionEncode fromNode toNode id hopLimit channelHash wantAck portnum key payload
      out) toNode channelHash := by
  unfold tmExtensionEncode at hpos ⊢
  cases hprivate : portnumIsPrivateUse portnum with
  | false =>
    rw [hprivate] at hpos
    exact absurd hpos (not_lt.mpr tmEReservedPortnum_neg.le)
  | true =>
    rw [hprivate] at hpos
    match key, payload, out with
    | some _, some _, some _ =>
      exact headed_encodeFrame scratch_lt tmEArg_neg (fun n hn => asI32_of_lt hn) hpos
    | none, _, _ | some _, none, _ | some _, some _, none =>
      exact absurd hpos (not_lt.mpr tmEArg_neg.le)

theorem headed_ack {requestId : UInt32}
    (hpos : 0 < (tmAckEncode fromNode toNode id requestId hopLimit channelHash key out).1) :
    Headed (tmAckEncode fromNode toNode id requestId hopLimit channelHash key out) toNode
      channelHash := by
  match key, out with
  | some _, some _ =>
    exact headed_encodeFrame (Nat.lt_trans (by decide) scratch_lt) tmEArg_neg
      (fun n hn => tryI32_of_lt hn) hpos
  | none, _ | some _, none => exact absurd hpos (not_lt.mpr tmEArg_neg.le)

theorem headed_nodeinfo {wantResponse : UInt8} {user : Ptr TmUser}
    (hpos : 0 < (tmNodeinfoEncode fromNode toNode id hopLimit channelHash wantResponse key user
      out).1) :
    Headed (tmNodeinfoEncode fromNode toNode id hopLimit channelHash wantResponse key user out)
      toNode channelHash := by
  match key, user, out with
  | some _, some user, some _ =>
    -- the profile is written into a buffer of 160 bytes first
    rcases Nat.lt_or_ge 160 (Protobuf.encodings user.profile.fields).length with hlong | hfits
    · rw [tmNodeinfoEncode_refused hlong] at hpos
      exact absurd hpos (not_lt.mpr tmEShort_neg.le)
    · rw [tmNodeinfoEncode_ok hfits] at hpos ⊢
      exact headed_encodeFrame scratch_lt tmEShort_neg (fun n hn => tryI32_of_lt hn) hpos
  | none, _, _ | some _, none, _ | some _, some _, none =>
    exact absurd hpos (not_lt.mpr tmEArg_neg.le)

theorem headed_pki {key : Ptr TmPkiKey} {extraNonce portnum : UInt32}
    (hpos : 0 < (tmPkiEncode fromNode toNode id hopLimit wantAck key extraNonce portnum payload
      out).1) :
    Headed (tmPkiEncode fromNode toNode id hopLimit wantAck key extraNonce portnum payload out)
      toNode 0 := by
  match key, payload, out with
  | some _, some _, some _ => exact headed_direct hpos
  | none, _, _ | some _, none, _ | some _, some _, none =>
    exact absurd hpos (not_lt.mpr tmEArg_neg.le)

end Encoders

/-- Every call that builds a frame puts its address and its hash in front, a direct message
the zero. -/
theorem headed_answer (call : EncodeCall) (hpos : 0 < call.answer.1) :
    Headed call.answer call.toNode (call.channelHash.getD 0) := by
  cases call with
  | text => exact headed_text hpos
  | extension => exact headed_extension hpos
  | ack => exact headed_ack hpos
  | nodeinfo => exact headed_nodeinfo hpos
  | pki => exact headed_pki hpos

/-! ## What the mark says -/

/-- **The mark of a built frame** is that of its call. -/
theorem tmIsPki_built (call : EncodeCall) (hpos : 0 < call.answer.1) :
    tmIsPki (some (built call.answer)) =
      if call.channelHash.getD 0 = 0 ∧ call.toNode ≠ broadcastAddr then 1 else 0 :=
  tmIsPki_of_headed (headed_answer call hpos)

/-- **Direct messages and channel frames told apart**, up to the address of the one and the
hash of the other: a direct message is taken for one unless it is broadcast, and a channel
frame is taken for one exactly when name and key fold to the same byte and it is not
broadcast. -/
theorem direct_told_apart (call : EncodeCall) (hpos : 0 < call.answer.1) :
    (call.channelHash = none →
      tmIsPki (some (built call.answer)) = if call.toNode = broadcastAddr then 0 else 1) ∧
    ∀ (name : List UInt8) (key : TmKey),
      call.channelHash = some (tmChannelHash (some name) (some key)) →
      tmIsPki (some (built call.answer)) =
        if xorFold name = xorFold key.bytes.toList ∧ call.toNode ≠ broadcastAddr then 1 else 0 := by
  constructor
  · intro hdirect
    rw [tmIsPki_built call hpos, hdirect]
    by_cases hto : call.toNode = broadcastAddr
    · rw [if_pos hto, if_neg fun h => h.2 hto]
    · rw [if_neg hto, if_pos ⟨rfl, hto⟩]
  · intro name key hchannel
    have hzero : tmChannelHash (some name) (some key) = 0 ↔
        xorFold name = xorFold key.bytes.toList := UInt8.xor_eq_zero_iff
    rw [tmIsPki_built call hpos, hchannel, Option.getD_some]
    simp only [hzero]

/-- Two letters from node 1, as a text on a channel. -/
def hiText (toNode : UInt32) (channelHash : UInt8) : EncodeCall :=
  .text 1 toNode 3 3 channelHash 0 (some ⟨Vector.replicate 16 7⟩) (some [104, 105])
    (some (List.replicate 64 0))

/-- The same as a direct message. -/
def hiDirect (toNode : UInt32) : EncodeCall :=
  .pki 1 toNode 3 3 0 (some ⟨Vector.replicate 32 7⟩) 9 1 (some [104, 105])
    (some (List.replicate 64 0))

theorem length_hi : (appBytes 1 [104, 105]).length = 6 := by
  rw [length_appBytes, if_neg (List.cons_ne_nil _ _), Varint.encode_of_lt (by decide)]
  rfl

theorem hiText_pos (toNode : UInt32) (channelHash : UInt8) :
    0 < (hiText toNode channelHash).answer.1 := by
  refine tmTextEncode_pos ?_ ?_
  · rw [length_hi]
    decide
  · rw [length_hi, List.length_replicate]
    decide

theorem hiDirect_pos (toNode : UInt32) : 0 < (hiDirect toNode).answer.1 := by
  refine tmPkiEncode_pos ?_ ?_
  · rw [length_hi]
    decide
  · rw [length_hi, List.length_replicate]
    decide

/-- A text and a direct message to node 2. The channel's name and key fold to different
bytes. -/
theorem direct_told_apart_hi :
    tmIsPki (some (built (hiText 2 97).answer)) = 0 ∧
      tmIsPki (some (built (hiDirect 2).answer)) = 1 := by
  have hhash : tmChannelHash (some [97]) (some ⟨Vector.replicate 16 7⟩) = 97 := by decide
  obtain ⟨-, htext⟩ := direct_told_apart (hiText 2 97) (hiText_pos 2 97)
  obtain ⟨hdirect, -⟩ := direct_told_apart (hiDirect 2) (hiDirect_pos 2)
  refine ⟨(htext [97] ⟨Vector.replicate 16 7⟩ ?_).trans (if_neg ?_),
    (hdirect rfl).trans (if_neg (by decide))⟩
  · rw [hhash]
    rfl
  · exact fun h => absurd h.1 (by decide)

/-- **Mistaken for one another.** A direct message to everybody is not taken for one; and on
a channel whose name and key both fold to zero, a text to node 2 is. -/
theorem direct_mistaken :
    0 < (hiDirect broadcastAddr).answer.1 ∧
      tmIsPki (some (built (hiDirect broadcastAddr).answer)) = 0 ∧
    tmChannelHash (some [97, 97]) (some ⟨Vector.replicate 16 7⟩) = 0 ∧
      0 < (hiText 2 0).answer.1 ∧ tmIsPki (some (built (hiText 2 0).answer)) = 1 :=
  ⟨hiDirect_pos broadcastAddr,
    (tmIsPki_built _ (hiDirect_pos broadcastAddr)).trans (if_neg fun h => h.2 rfl), by decide,
    hiText_pos 2 0, (tmIsPki_built _ (hiText_pos 2 0)).trans (if_pos (by decide))⟩

end TetherMesh.CApi
