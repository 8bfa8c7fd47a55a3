import TetherMesh.Math.Bytes
import TetherMesh.Math.MachineInt
import Mathlib.Tactic.IntervalCases

/-!
# The sixteen-byte cleartext header

Every frame begins with sixteen bytes in the clear: destination, source and
packet identifier as little-endian words, a packed flags byte, the channel hash,
the next hop and the relaying node's low byte. Every bit pattern is a header, and
every header with three-bit hop counts is the decoding of its own bytes.

## Main definitions

* `Header`, `Header.decode`, `Header.flags`, `Header.encode`
* `Header.relayedBy` — the header a relay would emit

## Main results

* `Header.decode_eq_none_iff` — only too few bytes are refused
* `Header.encode_ofBytes` — encoding what was decoded restores the sixteen bytes
* `Header.ofBytes_encode` — decoding what was encoded restores the header, with the
  hop counts reduced to three bits
-/

namespace TetherMesh.Protocol

open Math

/-- `HEADER_LEN`. -/
abbrev headerLen : ℕ := 16

/-- `MAX_PAYLOAD`: the most a frame carries after its header. -/
abbrev maxPayload : ℕ := 233

/-- `MAX_FRAME`. -/
abbrev maxFrame : ℕ := headerLen + maxPayload

/-- `BROADCAST_ADDR`. -/
def broadcastAddr : UInt32 := 0xFFFFFFFF

/-- The unencrypted header. `toNode` and `fromNode` are the source's `to` and `from`. -/
structure Header where
  toNode : UInt32
  fromNode : UInt32
  id : UInt32
  hopLimit : UInt8
  wantAck : Bool
  viaMqtt : Bool
  hopStart : UInt8
  channel : UInt8
  nextHop : UInt8
  relayNode : UInt8
  deriving DecidableEq, Repr

namespace Header

/-- `HOP_LIMIT_MASK`. -/
def hopLimitMask : UInt8 := 0b00000111

/-- `WANT_ACK_BIT`. -/
def wantAckBit : UInt8 := 0b00001000

/-- `VIA_MQTT_BIT`. -/
def viaMqttBit : UInt8 := 0b00010000

/-- `HOP_START_MASK`. -/
def hopStartMask : UInt8 := 0b11100000

/-- The little-endian word at `i`. -/
def u32At (head : List UInt8) (i : ℕ) : Option UInt32 := do
  return UInt32.ofLeBytes #v[← head[i]?, ← head[i + 1]?, ← head[i + 2]?, ← head[i + 3]?]

/-- Decode a header from the first sixteen bytes of a frame; `none` if there are fewer. -/
def decode (bytes : List UInt8) : Option Header := do
  let head ← if headerLen ≤ bytes.length then some (bytes.take headerLen) else none
  let flags ← head[12]?
  return {
    toNode := ← u32At head 0
    fromNode := ← u32At head 4
    id := ← u32At head 8
    hopLimit := flags &&& hopLimitMask
    wantAck := flags &&& wantAckBit != 0
    viaMqtt := flags &&& viaMqttBit != 0
    hopStart := (flags &&& hopStartMask) >>> 5
    channel := ← head[13]?
    nextHop := ← head[14]?
    relayNode := ← head[15]? }

/-- The packed flags byte. Oversized hop counts are masked to three bits. -/
def flags (h : Header) : UInt8 :=
  let f := h.hopLimit &&& hopLimitMask
  let f := if h.wantAck then f ||| wantAckBit else f
  let f := if h.viaMqtt then f ||| viaMqttBit else f
  f ||| ((h.hopStart <<< 5) &&& hopStartMask)

/-- The sixteen bytes that go on the air. -/
def encode (h : Header) : Vector UInt8 headerLen :=
  let dst := h.toNode.toLeBytes
  let src := h.fromNode.toLeBytes
  let id := h.id.toLeBytes
  #v[dst[0], dst[1], dst[2], dst[3], src[0], src[1], src[2], src[3],
    id[0], id[1], id[2], id[3], h.flags, h.channel, h.nextHop, h.relayNode]

/-- Whether the frame is addressed to every node. -/
def isBroadcast (h : Header) : Bool := h.toNode == broadcastAddr

/-- The header a relay would emit: one hop spent, and the relay's low byte. `none`
when no hops remain. -/
def relayedBy (h : Header) (ourNodeNum : UInt32) : Option Header := do
  let remaining ← h.hopLimit.checkedSub 1
  return { h with hopLimit := remaining, relayNode := ourNodeNum.toLeBytes[0] }

/-! ## The flags byte -/

/-- The flags byte of four separate fields. -/
def packFlags (hopLimit : UInt8) (wantAck viaMqtt : Bool) (hopStart : UInt8) : UInt8 :=
  flags ⟨0, 0, 0, hopLimit, wantAck, viaMqtt, hopStart, 0, 0, 0⟩

/-- A property of every byte, checked one by one. -/
theorem forall_byte {p : UInt8 → Prop} (h : ∀ i : Fin 256, p (UInt8.ofNat i)) (b : UInt8) :
    p b := by
  have hb := h ⟨b.toNat, b.toNat_lt⟩
  rwa [UInt8.ofNat_toNat] at hb

theorem packFlags_unpack (f : UInt8) :
    packFlags (f &&& hopLimitMask) (f &&& wantAckBit != 0) (f &&& viaMqttBit != 0)
      ((f &&& hopStartMask) >>> 5) = f := by
  revert f
  exact forall_byte (by decide +kernel)

/-- Only the low three bits of the hop counts reach the flags byte. -/
theorem packFlags_mask (hopLimit hopStart : UInt8) (wantAck viaMqtt : Bool) :
    packFlags hopLimit wantAck viaMqtt hopStart =
      packFlags (hopLimit &&& 7) wantAck viaMqtt (hopStart &&& 7) := by
  have hlow : ∀ b : UInt8, b &&& hopLimitMask = (b &&& 7) &&& hopLimitMask :=
    forall_byte (by decide +kernel)
  have hhigh : ∀ b : UInt8, (b <<< 5) &&& hopStartMask = ((b &&& 7) <<< 5) &&& hopStartMask :=
    forall_byte (by decide +kernel)
  simp only [packFlags, flags]
  rw [hlow, hhigh]

/-- Unpacking a flags byte of three-bit hop counts gives the fields back. -/
theorem unpack_packFlags_fin (hopLimit hopStart : Fin 8) (wantAck viaMqtt : Bool) :
    let f := packFlags (UInt8.ofNat hopLimit) wantAck viaMqtt (UInt8.ofNat hopStart)
    f &&& hopLimitMask = UInt8.ofNat hopLimit ∧ (f &&& wantAckBit != 0) = wantAck ∧
      (f &&& viaMqttBit != 0) = viaMqtt ∧ (f &&& hopStartMask) >>> 5 = UInt8.ofNat hopStart := by
  revert hopLimit hopStart wantAck viaMqtt
  decide +kernel

theorem unpack_packFlags (hopLimit hopStart : UInt8) (wantAck viaMqtt : Bool) :
    let f := packFlags hopLimit wantAck viaMqtt hopStart
    f &&& hopLimitMask = hopLimit &&& 7 ∧ (f &&& wantAckBit != 0) = wantAck ∧
      (f &&& viaMqttBit != 0) = viaMqtt ∧ (f &&& hopStartMask) >>> 5 = hopStart &&& 7 := by
  have hsmall : ∀ b : UInt8, ∃ i : Fin 8, b &&& 7 = UInt8.ofNat i := forall_byte (by decide +kernel)
  obtain ⟨i, hi⟩ := hsmall hopLimit
  obtain ⟨j, hj⟩ := hsmall hopStart
  rw [packFlags_mask, hi, hj]
  exact unpack_packFlags_fin i j wantAck viaMqtt

/-! ## Decoding and encoding -/

variable {bytes rest : List UInt8} {h : Header} {head : Vector UInt8 headerLen}

/-- The header sixteen bytes spell out. -/
def ofBytes (head : Vector UInt8 headerLen) : Header where
  toNode := UInt32.ofLeBytes #v[head[0], head[1], head[2], head[3]]
  fromNode := UInt32.ofLeBytes #v[head[4], head[5], head[6], head[7]]
  id := UInt32.ofLeBytes #v[head[8], head[9], head[10], head[11]]
  hopLimit := head[12] &&& hopLimitMask
  wantAck := head[12] &&& wantAckBit != 0
  viaMqtt := head[12] &&& viaMqttBit != 0
  hopStart := (head[12] &&& hopStartMask) >>> 5
  channel := head[13]
  nextHop := head[14]
  relayNode := head[15]

/-- A word that lies within the header is read. -/
theorem u32At_toList (head : Vector UInt8 headerLen) {i : ℕ} (hi : i + 3 < headerLen) :
    u32At head.toList i =
      some (UInt32.ofLeBytes #v[head[i], head[i + 1], head[i + 2], head[i + 3]]) := by
  have hread {j : ℕ} (hj : j < headerLen) := getElem?_toList head hj
  rw [u32At, hread (Nat.lt_of_add_right_lt hi), hread (by omega : i + 1 < headerLen),
    hread (by omega : i + 2 < headerLen), hread hi]
  rfl

/-- Decoding reads the first sixteen bytes and nothing else. -/
theorem decode_append (head : Vector UInt8 headerLen) (rest : List UInt8) :
    decode (head.toList ++ rest) = some (ofBytes head) := by
  have htake : (head.toList ++ rest).take headerLen = head.toList :=
    List.take_left' Vector.length_toList
  have hlen : headerLen ≤ (head.toList ++ rest).length := by
    rw [List.length_append, Vector.length_toList]
    exact Nat.le_add_right _ _
  have hread {j : ℕ} (hj : j < headerLen) := getElem?_toList head hj
  -- three words, the flags and three bytes, all within the sixteen
  rw [decode, if_pos hlen, htake]
  simp only [Option.bind_eq_bind, Option.bind_some,
    u32At_toList head (by decide : 0 + 3 < headerLen),
    u32At_toList head (by decide : 4 + 3 < headerLen),
    u32At_toList head (by decide : 8 + 3 < headerLen), hread (by decide : 12 < headerLen),
    hread (by decide : 13 < headerLen), hread (by decide : 14 < headerLen),
    hread (by decide : 15 < headerLen)]
  rfl

/-- Only fewer than sixteen bytes are refused. -/
theorem decode_eq_none_iff : decode bytes = none ↔ bytes.length < headerLen := by
  constructor
  · intro hnone
    by_contra hlen
    obtain ⟨head, rest, rfl⟩ := exists_eq_toList_append (not_lt.mp hlen)
    rw [decode_append] at hnone
    exact Option.some_ne_none _ hnone
  · intro hlen
    rw [decode, if_neg (not_le.mpr hlen)]
    rfl

/-- What has a header is as long as one. -/
theorem le_length_of_decode (hdec : decode bytes = some h) : headerLen ≤ bytes.length := by
  rw [← not_lt, ← decode_eq_none_iff, hdec]
  exact Option.some_ne_none h

/-- A decoded frame is the bytes of the decoded header and a body. -/
theorem decode_eq_some_iff :
    decode bytes = some h ↔ ∃ head rest, bytes = Vector.toList head ++ rest ∧ h = ofBytes head := by
  constructor
  · intro hdec
    by_cases hlen : bytes.length < headerLen
    · rw [decode_eq_none_iff.mpr hlen] at hdec
      exact absurd hdec.symm (Option.some_ne_none _)
    · obtain ⟨head, rest, rfl⟩ := exists_eq_toList_append (not_lt.mp hlen)
      rw [decode_append, Option.some_inj] at hdec
      exact ⟨head, rest, rfl, hdec.symm⟩
  · rintro ⟨head, rest, rfl, rfl⟩
    exact decode_append head rest

/-- **Encoding what was decoded restores the sixteen bytes.** -/
@[simp] theorem encode_ofBytes (head : Vector UInt8 headerLen) : (ofBytes head).encode = head := by
  have hflags : (ofBytes head).flags = head[12] := packFlags_unpack head[12]
  simp only [encode, hflags]
  simp only [ofBytes, UInt32.toLeBytes_ofLeBytes]
  -- byte by byte, what is left is a copy
  apply Vector.ext
  intro i hi
  interval_cases i <;> rfl

/-- **Decoding what was encoded restores the header**, hop counts reduced to three bits. -/
theorem ofBytes_encode (h : Header) :
    ofBytes h.encode = { h with hopLimit := h.hopLimit &&& 7, hopStart := h.hopStart &&& 7 } := by
  obtain ⟨hlimit, hack, hmqtt, hstart⟩ :=
    unpack_packFlags h.hopLimit h.hopStart h.wantAck h.viaMqtt
  have hword (x : UInt32) :
      UInt32.ofLeBytes #v[x.toLeBytes[0], x.toLeBytes[1], x.toLeBytes[2], x.toLeBytes[3]] = x :=
    UInt32.ofLeBytes_toLeBytes x
  have hflags : h.encode[12] = packFlags h.hopLimit h.wantAck h.viaMqtt h.hopStart := rfl
  -- words and plain bytes come back as they are, the rest is read off the flags byte
  rw [Header.mk.injEq]
  refine ⟨hword h.toNode, hword h.fromNode, hword h.id, ?_, ?_, ?_, ?_, rfl, rfl, rfl⟩
  · exact (congrArg (· &&& hopLimitMask) hflags).trans hlimit
  · exact (congrArg (· &&& wantAckBit != 0) hflags).trans hack
  · exact (congrArg (· &&& viaMqttBit != 0) hflags).trans hmqtt
  · exact (congrArg (fun f => (f &&& hopStartMask) >>> 5) hflags).trans hstart

/-- A header with hop counts of three bits is restored as it is. -/
theorem decode_encode {h : Header} (hlimit : h.hopLimit &&& 7 = h.hopLimit)
    (hstart : h.hopStart &&& 7 = h.hopStart) : decode h.encode.toList = some h := by
  have hdec := decode_append h.encode []
  rw [List.append_nil, ofBytes_encode, hlimit, hstart] at hdec
  exact hdec

/-- A new hop limit and relay node change bytes 12 and 15 and no others. -/
theorem encode_update (h : Header) (hopLimit relayNode : UInt8) :
    ({ h with hopLimit := hopLimit, relayNode := relayNode } : Header).encode =
      (h.encode.set 12 (packFlags hopLimit h.wantAck h.viaMqtt h.hopStart)).set 15 relayNode := by
  simp only [encode, packFlags, flags, Vector.set_mk, List.set_toArray, List.set_cons_succ,
    List.set_cons_zero]

/-- The hop limit reaches only the low three bits of the flags byte. -/
theorem packFlags_and_invariant (hopLimit hopLimit' hopStart : UInt8) (wantAck viaMqtt : Bool) :
    packFlags hopLimit wantAck viaMqtt hopStart &&& 0xF8 =
      packFlags hopLimit' wantAck viaMqtt hopStart &&& 0xF8 := by
  have hlow : ∀ b : UInt8, (b &&& hopLimitMask) &&& 0xF8 = 0 := forall_byte (by decide +kernel)
  have hbits (b c : UInt8) : (b ||| c) &&& 0xF8 = (b &&& 0xF8) ||| (c &&& 0xF8) := by
    apply UInt8.toBitVec_inj.mp
    ext i hi
    simp [Bool.and_or_distrib_right]
  -- the hop limit is masked away, and the other parts are the same on both sides
  cases wantAck <;> cases viaMqtt <;>
    simp only [packFlags, flags, Bool.false_eq_true, if_false, if_true, hbits, hlow]

end Header

end TetherMesh.Protocol
