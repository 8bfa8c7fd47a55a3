import TetherMesh.Protocol.MessageSchema

/-!
# The columns of the seven messages

Each message is one table of columns, and everything a table gives holds of it.

## Main definitions

* `Data.schema` … `MeshPacket.schema` — the messages as tables

## Main results

* `messages_last_wins`
* `messages_restore_canonical`
-/

namespace TetherMesh.Protocol.Message

open CS Math Protobuf

@[simp] theorem fieldIf_eq (p : Prop) [Decidable p] (number : UInt32) (v : Value) :
    fieldIf p number v = ((valueIf p v).map (Protobuf.Field.mk number)).toList := by
  rw [fieldIf, valueIf]
  split <;> rfl

@[simp] theorem fieldSome_eq {α : Type} (o : Option α) (number : UInt32) (value : α → Value) :
    fieldSome o number value = ((o.map value).map (Protobuf.Field.mk number)).toList := by
  cases o <;> rfl

@[simp] theorem toInt32_eq_zero_iff (x : UInt32) : x.toInt32 = 0 ↔ x = 0 := by
  constructor
  · intro h
    rw [← UInt32.toUInt32_toInt32 x, h]
    rfl
  · rintro rfl
    rfl

namespace Data

/-- The fields that a payload knows. -/
def columns : List Column :=
  [⟨1, .uint32⟩, ⟨2, .bytes⟩, ⟨3, .flag⟩, ⟨4, .fixed32⟩, ⟨5, .fixed32⟩, ⟨6, .fixed32⟩,
    ⟨7, .fixed32⟩, ⟨8, .fixed32⟩, ⟨9, .optUint32⟩, ⟨10, .bytes⟩]

/-- What is written for each of them. -/
def emits (m : Data) : List (Option Value) :=
  [valueIf (m.portnum ≠ 0) (.varint m.portnum.toUInt64),
    valueIf (m.payload ≠ []) (.len m.payload),
    valueIf (m.wantResponse = true) (.varint 1),
    valueIf (m.dest ≠ 0) (.fixed32 m.dest.toLeBytes),
    valueIf (m.source ≠ 0) (.fixed32 m.source.toLeBytes),
    valueIf (m.requestId ≠ 0) (.fixed32 m.requestId.toLeBytes),
    valueIf (m.replyId ≠ 0) (.fixed32 m.replyId.toLeBytes),
    valueIf (m.emoji ≠ 0) (.fixed32 m.emoji.toLeBytes),
    m.bitfield.map fun bits => .varint bits.toUInt64,
    valueIf (m.xeddsaSignature ≠ []) (.len m.xeddsaSignature)]

theorem fields_eq (m : Data) : m.fields = Column.assemble columns m.emits := by
  simp [fields, columns, emits, Column.assemble]

theorem emits_absorb (m : Data) (f : Field) :
    (m.absorb f).emits = List.zipWith (Column.step · f) columns m.emits := by
  obtain ⟨number, value⟩ := f
  unfold absorb
  split
  -- the last branch is for the fields that no column reads
  case h_11 =>
    refine (Column.zipWith_step_of_not ?_ rfl).symm
    cases value <;> simp_all [columns, Column.Reads, Kind.wireType, Value.wireType]
  all_goals
    simp_all [emits, columns, Column.step, Column.Reads, Kind.wireType, Value.wireType, Kind.normal]

/-- The message as a table. -/
def schema : Schema Data where
  init := {}
  absorb := absorb
  fields := fields
  columns := columns
  emits := emits
  numbers_ne_zero := numbers_ne_zero
  sorted := by decide
  fields_eq := fields_eq
  emits_init := rfl
  emits_absorb := emits_absorb
  foldl_fields := foldl_fields

end Data

namespace User

/-- The fields that an identity record knows. -/
def columns : List Column :=
  [⟨1, .bytes⟩, ⟨2, .bytes⟩, ⟨3, .bytes⟩, ⟨4, .bytes⟩, ⟨5, .uint32⟩, ⟨6, .flag⟩, ⟨7, .uint32⟩,
    ⟨8, .bytes⟩, ⟨9, .optFlag⟩]

/-- What is written for each of them. -/
def emits (m : User) : List (Option Value) :=
  [valueIf (m.id ≠ []) (.len m.id),
    valueIf (m.longName ≠ []) (.len m.longName),
    valueIf (m.shortName ≠ []) (.len m.shortName),
    valueIf (m.macaddr ≠ []) (.len m.macaddr),
    valueIf (m.hwModel ≠ 0) (.varint m.hwModel.toUInt64),
    valueIf (m.isLicensed = true) (.varint 1),
    valueIf (m.role ≠ 0) (.varint m.role.toUInt64),
    valueIf (m.publicKey ≠ []) (.len m.publicKey),
    m.isUnmessagable.map fun flag => .varint flag.toUInt64]

theorem fields_eq (m : User) : m.fields = Column.assemble columns m.emits := by
  simp [fields, columns, emits, Column.assemble]

theorem emits_absorb (m : User) (f : Field) :
    (m.absorb f).emits = List.zipWith (Column.step · f) columns m.emits := by
  obtain ⟨number, value⟩ := f
  unfold absorb
  split
  case h_10 =>
    refine (Column.zipWith_step_of_not ?_ rfl).symm
    cases value <;> simp_all [columns, Column.Reads, Kind.wireType, Value.wireType]
  all_goals
    simp_all [emits, columns, Column.step, Column.Reads, Kind.wireType, Value.wireType, Kind.normal]

/-- The message as a table. -/
def schema : Schema User where
  init := {}
  absorb := absorb
  fields := fields
  columns := columns
  emits := emits
  numbers_ne_zero := numbers_ne_zero
  sorted := by decide
  fields_eq := fields_eq
  emits_init := rfl
  emits_absorb := emits_absorb
  foldl_fields := foldl_fields

end User

namespace Position

/-- The fields that a location knows. -/
def columns : List Column :=
  [⟨1, .fixed32⟩, ⟨2, .fixed32⟩, ⟨3, .uint32⟩, ⟨4, .fixed32⟩, ⟨23, .uint32⟩]

/-- What is written for each of them. -/
def emits (m : Position) : List (Option Value) :=
  [valueIf (m.latitudeI ≠ 0) (.fixed32 m.latitudeI.toUInt32.toLeBytes),
    valueIf (m.longitudeI ≠ 0) (.fixed32 m.longitudeI.toUInt32.toLeBytes),
    valueIf (m.altitude ≠ 0) (.varint m.altitude.toUInt32.toUInt64),
    valueIf (m.time ≠ 0) (.fixed32 m.time.toLeBytes),
    valueIf (m.precisionBits ≠ 0) (.varint m.precisionBits.toUInt64)]

theorem fields_eq (m : Position) : m.fields = Column.assemble columns m.emits := by
  simp [fields, columns, emits, Column.assemble]

theorem emits_absorb (m : Position) (f : Field) :
    (m.absorb f).emits = List.zipWith (Column.step · f) columns m.emits := by
  obtain ⟨number, value⟩ := f
  unfold absorb
  split
  case h_6 =>
    refine (Column.zipWith_step_of_not ?_ rfl).symm
    cases value <;> simp_all [columns, Column.Reads, Kind.wireType, Value.wireType]
  all_goals
    simp_all [emits, columns, Column.step, Column.Reads, Kind.wireType, Value.wireType, Kind.normal]

/-- The message as a table. -/
def schema : Schema Position where
  init := {}
  absorb := absorb
  fields := fields
  columns := columns
  emits := emits
  numbers_ne_zero := numbers_ne_zero
  sorted := by decide
  fields_eq := fields_eq
  emits_init := rfl
  emits_absorb := emits_absorb
  foldl_fields := foldl_fields

end Position

namespace ChannelSettings

/-- The fields that a channel's settings knows. -/
def columns : List Column :=
  [⟨2, .bytes⟩, ⟨3, .bytes⟩, ⟨4, .fixed32⟩, ⟨5, .flag⟩, ⟨6, .flag⟩, ⟨7, .bytes⟩]

/-- What is written for each of them. -/
def emits (m : ChannelSettings) : List (Option Value) :=
  [valueIf (m.psk ≠ []) (.len m.psk),
    valueIf (m.name ≠ []) (.len m.name),
    valueIf (m.id ≠ 0) (.fixed32 m.id.toLeBytes),
    valueIf (m.uplinkEnabled = true) (.varint 1),
    valueIf (m.downlinkEnabled = true) (.varint 1),
    valueIf (m.moduleSettings ≠ []) (.len m.moduleSettings)]

theorem fields_eq (m : ChannelSettings) : m.fields = Column.assemble columns m.emits := by
  simp [fields, columns, emits, Column.assemble]

theorem emits_absorb (m : ChannelSettings) (f : Field) :
    (m.absorb f).emits = List.zipWith (Column.step · f) columns m.emits := by
  obtain ⟨number, value⟩ := f
  unfold absorb
  split
  case h_7 =>
    refine (Column.zipWith_step_of_not ?_ rfl).symm
    cases value <;> simp_all [columns, Column.Reads, Kind.wireType, Value.wireType]
  all_goals
    simp_all [emits, columns, Column.step, Column.Reads, Kind.wireType, Value.wireType, Kind.normal]

/-- The message as a table. -/
def schema : Schema ChannelSettings where
  init := {}
  absorb := absorb
  fields := fields
  columns := columns
  emits := emits
  numbers_ne_zero := numbers_ne_zero
  sorted := by decide
  fields_eq := fields_eq
  emits_init := rfl
  emits_absorb := emits_absorb
  foldl_fields := foldl_fields

end ChannelSettings

namespace Routing

/-- The fields that a routing frame knows. -/
def columns : List Column :=
  [⟨3, .always⟩]

/-- What is written for each of them. -/
def emits (m : Routing) : List (Option Value) :=
  [some (.varint m.status.toUInt64)]

theorem fields_eq (m : Routing) : m.fields = Column.assemble columns m.emits := by
  simp [fields, columns, emits, Column.assemble]

theorem emits_absorb (m : Routing) (f : Field) :
    (m.absorb f).emits = List.zipWith (Column.step · f) columns m.emits := by
  obtain ⟨number, value⟩ := f
  unfold absorb
  split
  case h_2 =>
    refine (Column.zipWith_step_of_not ?_ rfl).symm
    cases value <;> simp_all [columns, Column.Reads, Kind.wireType, Value.wireType]
  all_goals
    simp_all [emits, columns, Column.step, Column.Reads, Kind.wireType, Value.wireType, Kind.normal]

/-- The message as a table. -/
def schema : Schema Routing where
  init := {}
  absorb := absorb
  fields := fields
  columns := columns
  emits := emits
  numbers_ne_zero := numbers_ne_zero
  sorted := by decide
  fields_eq := fields_eq
  emits_init := rfl
  emits_absorb := emits_absorb
  foldl_fields := foldl_fields

end Routing

namespace NodeInfo

/-- The fields that an entry knows. -/
def columns : List Column :=
  [⟨1, .uint32⟩, ⟨2, .optBytes⟩, ⟨3, .optBytes⟩, ⟨10, .optFlag⟩]

/-- What is written for each of them. -/
def emits (m : NodeInfo) : List (Option Value) :=
  [valueIf (m.num ≠ 0) (.varint m.num.toUInt64),
    m.user.map .len,
    m.position.map .len,
    m.flag10.map fun flag => .varint flag.toUInt64]

theorem fields_eq (m : NodeInfo) : m.fields = Column.assemble columns m.emits := by
  simp [fields, columns, emits, Column.assemble]

theorem emits_absorb (m : NodeInfo) (f : Field) :
    (m.absorb f).emits = List.zipWith (Column.step · f) columns m.emits := by
  obtain ⟨number, value⟩ := f
  unfold absorb
  split
  case h_5 =>
    refine (Column.zipWith_step_of_not ?_ rfl).symm
    cases value <;> simp_all [columns, Column.Reads, Kind.wireType, Value.wireType]
  all_goals
    simp_all [emits, columns, Column.step, Column.Reads, Kind.wireType, Value.wireType, Kind.normal]

/-- The message as a table. -/
def schema : Schema NodeInfo where
  init := {}
  absorb := absorb
  fields := fields
  columns := columns
  emits := emits
  numbers_ne_zero := numbers_ne_zero
  sorted := by decide
  fields_eq := fields_eq
  emits_init := rfl
  emits_absorb := emits_absorb
  foldl_fields := foldl_fields

end NodeInfo

namespace MeshPacket

/-- The fields that a packet knows. -/
def columns : List Column :=
  [⟨1, .fixed32⟩, ⟨2, .fixed32⟩, ⟨3, .uint32⟩, ⟨5, .bytes⟩, ⟨6, .fixed32⟩, ⟨11, .uint32⟩,
    ⟨19, .uint32⟩]

/-- What is written for each of them. -/
def emits (m : MeshPacket) : List (Option Value) :=
  [valueIf (m.fromNode ≠ 0) (.fixed32 m.fromNode.toLeBytes),
    valueIf (m.toNode ≠ 0) (.fixed32 m.toNode.toLeBytes),
    valueIf (m.channel ≠ 0) (.varint m.channel.toUInt64),
    valueIf (m.encrypted ≠ []) (.len m.encrypted),
    valueIf (m.id ≠ 0) (.fixed32 m.id.toLeBytes),
    valueIf (m.priority ≠ 0) (.varint m.priority.toUInt64),
    valueIf (m.relayNode ≠ 0) (.varint m.relayNode.toUInt64)]

theorem fields_eq (m : MeshPacket) : m.fields = Column.assemble columns m.emits := by
  simp [fields, columns, emits, Column.assemble]

theorem emits_absorb (m : MeshPacket) (f : Field) :
    (m.absorb f).emits = List.zipWith (Column.step · f) columns m.emits := by
  obtain ⟨number, value⟩ := f
  unfold absorb
  split
  case h_8 =>
    refine (Column.zipWith_step_of_not ?_ rfl).symm
    cases value <;> simp_all [columns, Column.Reads, Kind.wireType, Value.wireType]
  all_goals
    simp_all [emits, columns, Column.step, Column.Reads, Kind.wireType, Value.wireType, Kind.normal]

/-- The message as a table. -/
def schema : Schema MeshPacket where
  init := {}
  absorb := absorb
  fields := fields
  columns := columns
  emits := emits
  numbers_ne_zero := numbers_ne_zero
  sorted := by decide
  fields_eq := fields_eq
  emits_init := rfl
  emits_absorb := emits_absorb
  foldl_fields := foldl_fields

end MeshPacket

/-! ## The seven messages -/

/-- **Decoding is last-wins and blind to everything else.** Of a list of fields only the last
value of each known number under its expected wire type reaches the message. -/
theorem messages_last_wins :
    LastWins Data.columns Data.decode ∧ LastWins User.columns User.decode ∧
    LastWins Position.columns Position.decode ∧
    LastWins ChannelSettings.columns ChannelSettings.decode ∧
    LastWins Routing.columns Routing.decode ∧ LastWins NodeInfo.columns NodeInfo.decode ∧
    LastWins MeshPacket.columns MeshPacket.decode :=
  ⟨Data.schema.lastWins, User.schema.lastWins, Position.schema.lastWins,
    ChannelSettings.schema.lastWins, Routing.schema.lastWins, NodeInfo.schema.lastWins,
    MeshPacket.schema.lastWins⟩

/-- **Canonical bytes are restored, and no message grows.** Decoding canonical bytes and
encoding the result writes them again; whatever decodes, canonical or not, is encoded in a
buffer of its own length, but for `Routing`, whose field is written even when it is absent. -/
theorem messages_restore_canonical :
    (RestoresCanonical Data.columns Data.decode Data.encode ∧
      RestoresCanonical User.columns User.decode User.encode ∧
      RestoresCanonical Position.columns Position.decode Position.encode ∧
      RestoresCanonical ChannelSettings.columns ChannelSettings.decode ChannelSettings.encode ∧
      RestoresCanonical Routing.columns Routing.decode Routing.encode ∧
      RestoresCanonical NodeInfo.columns NodeInfo.decode NodeInfo.encode ∧
      RestoresCanonical MeshPacket.columns MeshPacket.decode MeshPacket.encode) ∧
    NeverGrows Data.decode Data.encode ∧ NeverGrows User.decode User.encode ∧
    NeverGrows Position.decode Position.encode ∧
    NeverGrows ChannelSettings.decode ChannelSettings.encode ∧
    NeverGrows NodeInfo.decode NodeInfo.encode ∧ NeverGrows MeshPacket.decode MeshPacket.encode :=
  ⟨⟨Data.schema.restoresCanonical, User.schema.restoresCanonical,
      Position.schema.restoresCanonical, ChannelSettings.schema.restoresCanonical,
      Routing.schema.restoresCanonical, NodeInfo.schema.restoresCanonical,
      MeshPacket.schema.restoresCanonical⟩,
    Data.schema.neverGrows rfl, User.schema.neverGrows rfl, Position.schema.neverGrows rfl,
    ChannelSettings.schema.neverGrows rfl, NodeInfo.schema.neverGrows rfl,
    MeshPacket.schema.neverGrows rfl⟩

end TetherMesh.Protocol.Message
