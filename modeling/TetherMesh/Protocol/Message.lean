import TetherMesh.Protocol.Protobuf

/-!
# Message wrappers

The layer that gives field numbers a meaning: seven messages of fixed fields. A
decoder runs over the fields of its input and lets each set what it names; a
field it does not know, or a known number under another wire type, sets nothing.
An encoder writes the fields of its message in ascending order, without those
that hold their default.

## Main definitions

* `Data`, `User`, `Position`, `ChannelSettings`, `Routing`, `NodeInfo`, `MeshPacket`
* `encodeFields` — write fields in turn, up to the first that does not fit
* `decode` and `encode` of each message
-/

namespace TetherMesh.Protocol.Message

open Protobuf

/-- Narrow a wire varint to 32 bits. -/
def truncateU32 (value : UInt64) : UInt32 := value.toUInt32

/-! ## What an encoder writes -/

/-- A field written if `c` holds. -/
def fieldIf (c : Prop) [Decidable c] (number : UInt32) (value : Value) : List Field :=
  if c then [⟨number, value⟩] else []

/-- A field written if there is a value for it. -/
def fieldSome {α : Type} (o : Option α) (number : UInt32) (value : α → Value) : List Field :=
  o.elim [] fun x => [⟨number, value x⟩]

/-- Write fields into `buf` in turn. The answer is the length written. -/
def encodeFields (fs : List Field) (buf : List UInt8) : Except Error ℕ × List UInt8 :=
  match (fs.forM fun f => Writer.field f.number f.value) (Writer.new buf) with
  | .ok () w => (.ok w.len, w.buf)
  | .error e w => (.error e, w.buf)

/-! ## Application payloads -/

/-- The decrypted payload of a mesh packet. -/
structure Data where
  /-- What the payload means. -/
  portnum : UInt32 := 0
  /-- The payload itself. -/
  payload : List UInt8 := []
  /-- Whether the sender wants a reply. -/
  wantResponse : Bool := false
  /-- Destination node of a routed reply. -/
  dest : UInt32 := 0
  /-- Original source, when relayed on behalf of another node. -/
  source : UInt32 := 0
  /-- Identifier of the request this answers. -/
  requestId : UInt32 := 0
  /-- Identifier of the message this replies to. -/
  replyId : UInt32 := 0
  /-- Emoji reaction marker. -/
  emoji : UInt32 := 0
  /-- Present only when the sender set it. -/
  bitfield : Option UInt32 := none
  /-- Signature, when there is one. -/
  xeddsaSignature : List UInt8 := []
  deriving DecidableEq, Repr

namespace Data

/-- What a field sets. -/
def absorb (out : Data) (field : Field) : Data :=
  match field.number, field.value with
  | 1, .varint v => { out with portnum := truncateU32 v }
  | 2, .len b => { out with payload := b }
  | 3, .varint v => { out with wantResponse := v ≠ 0 }
  | 4, .fixed32 b => { out with dest := UInt32.ofLeBytes b }
  | 5, .fixed32 b => { out with source := UInt32.ofLeBytes b }
  | 6, .fixed32 b => { out with requestId := UInt32.ofLeBytes b }
  | 7, .fixed32 b => { out with replyId := UInt32.ofLeBytes b }
  | 8, .fixed32 b => { out with emoji := UInt32.ofLeBytes b }
  | 9, .varint v => { out with bitfield := some (truncateU32 v) }
  | 10, .len b => { out with xeddsaSignature := b }
  | _, _ => out

/-- Decode from protobuf bytes. -/
def decode (bytes : List UInt8) : Except Error Data :=
  Reader.decodeWith absorb {} (Reader.new bytes)

/-- The fields of a payload, in the order they are written. -/
def fields (m : Data) : List Field := List.flatten <|
  [fieldIf (m.portnum ≠ 0) 1 (.varint m.portnum.toUInt64),
    fieldIf (m.payload ≠ []) 2 (.len m.payload),
    fieldIf (m.wantResponse = true) 3 (.varint 1)] ++
  ([(4, m.dest), (5, m.source), (6, m.requestId), (7, m.replyId), (8, m.emoji)].map
    fun (number, value) => fieldIf (value ≠ 0) number (.fixed32 value.toLeBytes)) ++
  -- presence is explicit here, so zero is written too
  [fieldSome m.bitfield 9 fun bits => .varint bits.toUInt64,
    fieldIf (m.xeddsaSignature ≠ []) 10 (.len m.xeddsaSignature)]

/-- Encode into `buf`, answering the number of bytes written. -/
def encode (m : Data) (buf : List UInt8) : Except Error ℕ × List UInt8 :=
  encodeFields m.fields buf

end Data

/-- A node's identity record. -/
structure User where
  /-- Node identifier. -/
  id : List UInt8 := []
  /-- Full name. -/
  longName : List UInt8 := []
  /-- Short name. -/
  shortName : List UInt8 := []
  /-- MAC address, deprecated and still emitted. -/
  macaddr : List UInt8 := []
  /-- Hardware model. -/
  hwModel : UInt32 := 0
  /-- Whether the operator is licensed. -/
  isLicensed : Bool := false
  /-- Device role. -/
  role : UInt32 := 0
  /-- X25519 public key. -/
  publicKey : List UInt8 := []
  /-- Present only when the sender set it. -/
  isUnmessagable : Option Bool := none
  deriving DecidableEq, Repr

namespace User

/-- What a field sets. -/
def absorb (out : User) (field : Field) : User :=
  match field.number, field.value with
  | 1, .len b => { out with id := b }
  | 2, .len b => { out with longName := b }
  | 3, .len b => { out with shortName := b }
  | 4, .len b => { out with macaddr := b }
  | 5, .varint v => { out with hwModel := truncateU32 v }
  | 6, .varint v => { out with isLicensed := v ≠ 0 }
  | 7, .varint v => { out with role := truncateU32 v }
  | 8, .len b => { out with publicKey := b }
  | 9, .varint v => { out with isUnmessagable := some (v ≠ 0) }
  | _, _ => out

/-- Decode from protobuf bytes. -/
def decode (bytes : List UInt8) : Except Error User :=
  Reader.decodeWith absorb {} (Reader.new bytes)

/-- The fields of a record, in the order they are written. -/
def fields (m : User) : List Field := List.flatten <|
  ([(1, m.id), (2, m.longName), (3, m.shortName), (4, m.macaddr)].map
    fun (number, bytes) => fieldIf (bytes ≠ []) number (.len bytes)) ++
  [fieldIf (m.hwModel ≠ 0) 5 (.varint m.hwModel.toUInt64),
    fieldIf (m.isLicensed = true) 6 (.varint 1),
    fieldIf (m.role ≠ 0) 7 (.varint m.role.toUInt64),
    fieldIf (m.publicKey ≠ []) 8 (.len m.publicKey),
    fieldSome m.isUnmessagable 9 fun flag => .varint flag.toUInt64]

/-- Encode into `buf`, answering the number of bytes written. -/
def encode (m : User) (buf : List UInt8) : Except Error ℕ × List UInt8 :=
  encodeFields m.fields buf

end User

/-- A node's location. Coordinates are `sfixed32` and the time is `fixed32`. -/
structure Position where
  /-- Degrees times 1e7. -/
  latitudeI : Int32 := 0
  /-- Degrees times 1e7. -/
  longitudeI : Int32 := 0
  /-- Metres. A varint, unlike the coordinates. -/
  altitude : Int32 := 0
  /-- Seconds since the epoch. -/
  time : UInt32 := 0
  /-- How many bits of coordinate precision the sender kept. -/
  precisionBits : UInt32 := 0
  deriving DecidableEq, Repr

namespace Position

/-- What a field sets. -/
def absorb (out : Position) (field : Field) : Position :=
  match field.number, field.value with
  | 1, .fixed32 b => { out with latitudeI := (UInt32.ofLeBytes b).toInt32 }
  | 2, .fixed32 b => { out with longitudeI := (UInt32.ofLeBytes b).toInt32 }
  | 3, .varint v => { out with altitude := (truncateU32 v).toInt32 }
  | 4, .fixed32 b => { out with time := UInt32.ofLeBytes b }
  | 23, .varint v => { out with precisionBits := truncateU32 v }
  | _, _ => out

/-- Decode from protobuf bytes. -/
def decode (bytes : List UInt8) : Except Error Position :=
  Reader.decodeWith absorb {} (Reader.new bytes)

/-- The fields of a location, in the order they are written. A negative altitude goes
out as its 32-bit pattern. -/
def fields (m : Position) : List Field := List.flatten
  [fieldIf (m.latitudeI ≠ 0) 1 (.fixed32 m.latitudeI.toUInt32.toLeBytes),
    fieldIf (m.longitudeI ≠ 0) 2 (.fixed32 m.longitudeI.toUInt32.toLeBytes),
    fieldIf (m.altitude ≠ 0) 3 (.varint m.altitude.toUInt32.toUInt64),
    fieldIf (m.time ≠ 0) 4 (.fixed32 m.time.toLeBytes),
    fieldIf (m.precisionBits ≠ 0) 23 (.varint m.precisionBits.toUInt64)]

/-- Encode into `buf`, answering the number of bytes written. -/
def encode (m : Position) (buf : List UInt8) : Except Error ℕ × List UInt8 :=
  encodeFields m.fields buf

end Position

/-- One channel's settings. -/
structure ChannelSettings where
  /-- Pre-shared key, or a short index for one. -/
  psk : List UInt8 := []
  /-- Channel name. -/
  name : List UInt8 := []
  /-- Channel identifier. -/
  id : UInt32 := 0
  /-- Whether traffic is uplinked to MQTT. -/
  uplinkEnabled : Bool := false
  /-- Whether traffic is downlinked from MQTT. -/
  downlinkEnabled : Bool := false
  /-- Module settings, kept as raw bytes. -/
  moduleSettings : List UInt8 := []
  deriving DecidableEq, Repr

namespace ChannelSettings

/-- What a field sets. Field 1 was removed upstream. -/
def absorb (out : ChannelSettings) (field : Field) : ChannelSettings :=
  match field.number, field.value with
  | 2, .len b => { out with psk := b }
  | 3, .len b => { out with name := b }
  | 4, .fixed32 b => { out with id := UInt32.ofLeBytes b }
  | 5, .varint v => { out with uplinkEnabled := v ≠ 0 }
  | 6, .varint v => { out with downlinkEnabled := v ≠ 0 }
  | 7, .len b => { out with moduleSettings := b }
  | _, _ => out

/-- Decode from protobuf bytes. -/
def decode (bytes : List UInt8) : Except Error ChannelSettings :=
  Reader.decodeWith absorb {} (Reader.new bytes)

/-- The fields of a channel's settings, in the order they are written. -/
def fields (m : ChannelSettings) : List Field := List.flatten
  [fieldIf (m.psk ≠ []) 2 (.len m.psk),
    fieldIf (m.name ≠ []) 3 (.len m.name),
    fieldIf (m.id ≠ 0) 4 (.fixed32 m.id.toLeBytes),
    fieldIf (m.uplinkEnabled = true) 5 (.varint 1),
    fieldIf (m.downlinkEnabled = true) 6 (.varint 1),
    fieldIf (m.moduleSettings ≠ []) 7 (.len m.moduleSettings)]

/-- Encode into `buf`, answering the number of bytes written. -/
def encode (m : ChannelSettings) (buf : List UInt8) : Except Error ℕ × List UInt8 :=
  encodeFields m.fields buf

end ChannelSettings

/-! ## Control and transport messages -/

/-- The status a `Routing` message carries. -/
abbrev RoutingStatus := UInt32

/-- The payload of a routing frame. Field 3 alone is carried. -/
structure Routing where
  /-- Zero means accepted. -/
  status : RoutingStatus := 0
  deriving DecidableEq, Repr

namespace Routing

/-- A `Routing` reporting acceptance. -/
def accepted : Routing := { status := 0 }

/-- What a field sets. -/
def absorb (out : Routing) (field : Field) : Routing :=
  match field.number, field.value with
  | 3, .varint v => { out with status := truncateU32 v }
  | _, _ => out

/-- Decode from the payload of a routing frame. -/
def decode (bytes : List UInt8) : Except Error Routing :=
  Reader.decodeWith absorb {} (Reader.new bytes)

/-- The status is written even when it is zero. -/
def fields (m : Routing) : List Field := [⟨3, .varint m.status.toUInt64⟩]

/-- Encode into `buf`, answering the number of bytes written. -/
def encode (m : Routing) (buf : List UInt8) : Except Error ℕ × List UInt8 :=
  encodeFields m.fields buf

end Routing

/-- A node database entry. -/
structure NodeInfo where
  /-- The node number. -/
  num : UInt32 := 0
  /-- The identity record, undecoded. -/
  user : Option (List UInt8) := none
  /-- The location, undecoded. It may be present and empty. -/
  position : Option (List UInt8) := none
  /-- A flag whose meaning is not established. -/
  flag10 : Option Bool := none
  deriving DecidableEq, Repr

namespace NodeInfo

/-- What a field sets. -/
def absorb (out : NodeInfo) (field : Field) : NodeInfo :=
  match field.number, field.value with
  | 1, .varint v => { out with num := truncateU32 v }
  | 2, .len b => { out with user := some b }
  | 3, .len b => { out with position := some b }
  | 10, .varint v => { out with flag10 := some (v ≠ 0) }
  | _, _ => out

/-- Decode from protobuf bytes. -/
def decode (bytes : List UInt8) : Except Error NodeInfo :=
  Reader.decodeWith absorb {} (Reader.new bytes)

/-- The fields of an entry, in the order they are written. A submessage is written
whenever it is present, empty or not. -/
def fields (m : NodeInfo) : List Field := List.flatten
  [fieldIf (m.num ≠ 0) 1 (.varint m.num.toUInt64),
    fieldSome m.user 2 fun b => .len b,
    fieldSome m.position 3 fun b => .len b,
    fieldSome m.flag10 10 fun flag => .varint flag.toUInt64]

/-- Encode into `buf`, answering the number of bytes written. -/
def encode (m : NodeInfo) (buf : List UInt8) : Except Error ℕ × List UInt8 :=
  encodeFields m.fields buf

end NodeInfo

/-- A packet in its protobuf form. `fromNode` and `toNode` are the source's `from` and `to`. -/
structure MeshPacket where
  /-- Sending node, `fixed32`. -/
  fromNode : UInt32 := 0
  /-- Addressed node, `fixed32`. -/
  toNode : UInt32 := 0
  /-- The one-byte channel hash. -/
  channel : UInt32 := 0
  /-- Undecoded ciphertext. -/
  encrypted : List UInt8 := []
  /-- Packet identifier, `fixed32`. -/
  id : UInt32 := 0
  /-- Priority. -/
  priority : UInt32 := 0
  /-- The low byte of the sending node's number. -/
  relayNode : UInt32 := 0
  deriving DecidableEq, Repr

namespace MeshPacket

/-- What a field sets. -/
def absorb (out : MeshPacket) (field : Field) : MeshPacket :=
  match field.number, field.value with
  | 1, .fixed32 b => { out with fromNode := UInt32.ofLeBytes b }
  | 2, .fixed32 b => { out with toNode := UInt32.ofLeBytes b }
  | 3, .varint v => { out with channel := truncateU32 v }
  | 5, .len b => { out with encrypted := b }
  | 6, .fixed32 b => { out with id := UInt32.ofLeBytes b }
  | 11, .varint v => { out with priority := truncateU32 v }
  | 19, .varint v => { out with relayNode := truncateU32 v }
  | _, _ => out

/-- Decode from protobuf bytes. -/
def decode (bytes : List UInt8) : Except Error MeshPacket :=
  Reader.decodeWith absorb {} (Reader.new bytes)

/-- The fields of a packet, in the order they are written. -/
def fields (m : MeshPacket) : List Field := List.flatten
  [fieldIf (m.fromNode ≠ 0) 1 (.fixed32 m.fromNode.toLeBytes),
    fieldIf (m.toNode ≠ 0) 2 (.fixed32 m.toNode.toLeBytes),
    fieldIf (m.channel ≠ 0) 3 (.varint m.channel.toUInt64),
    fieldIf (m.encrypted ≠ []) 5 (.len m.encrypted),
    fieldIf (m.id ≠ 0) 6 (.fixed32 m.id.toLeBytes),
    fieldIf (m.priority ≠ 0) 11 (.varint m.priority.toUInt64),
    fieldIf (m.relayNode ≠ 0) 19 (.varint m.relayNode.toUInt64)]

/-- Encode into `buf`, answering the number of bytes written. -/
def encode (m : MeshPacket) (buf : List UInt8) : Except Error ℕ × List UInt8 :=
  encodeFields m.fields buf

end MeshPacket

end TetherMesh.Protocol.Message
