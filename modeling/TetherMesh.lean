import TetherMesh.Math.MachineInt
import TetherMesh.Math.Bytes
import TetherMesh.Math.CheckedBytes
import TetherMesh.Math.Chunks
import TetherMesh.Math.Varint
import TetherMesh.Math.Radix
import TetherMesh.Math.Ramp
import TetherMesh.Math.Recurrence
import TetherMesh.Math.Trails
import TetherMesh.Math.Prime25519
import TetherMesh.Math.MontgomeryCurve
import TetherMesh.Math.RijndaelField
import TetherMesh.Math.MontgomeryTwist
import TetherMesh.CS.LabelledRun
import TetherMesh.CS.RingMemory
import TetherMesh.CS.StreamCipher
import TetherMesh.CS.CounterCbcMac
import TetherMesh.CS.Sha2
import TetherMesh.CS.Rijndael
import TetherMesh.CS.Rfc7748
import TetherMesh.CS.Cursor
import TetherMesh.CS.Streaming
import TetherMesh.CS.FixedWindow
import TetherMesh.CS.SlotTable
import TetherMesh.CS.Drain
import TetherMesh.CS.Tiling
import TetherMesh.Protocol.Header
import TetherMesh.Protocol.Airtime
import TetherMesh.Protocol.DutyRuns
import TetherMesh.Protocol.TimeOnAir
import TetherMesh.Protocol.Routing
import TetherMesh.Protocol.Contention
import TetherMesh.Protocol.History
import TetherMesh.Protocol.HistoryRuns
import TetherMesh.Protocol.OutboxVisits
import TetherMesh.Protocol.PacketId
import TetherMesh.Protocol.PacketIdRuns
import TetherMesh.Protocol.PacketIdAccounts
import TetherMesh.Protocol.Frame
import TetherMesh.Protocol.FrameCodec
import TetherMesh.Protocol.Outbox
import TetherMesh.Protocol.OutboxRuns
import TetherMesh.Protocol.OutboxRetired
import TetherMesh.Protocol.OutboxDrain
import TetherMesh.Protocol.DutyDecisions
import TetherMesh.Protocol.Aes
import TetherMesh.Protocol.AesStandard
import TetherMesh.Protocol.AesAccesses
import TetherMesh.Protocol.Crypto
import TetherMesh.Protocol.Keystream
import TetherMesh.Protocol.CtrStandard
import TetherMesh.Protocol.Channel
import TetherMesh.Protocol.X25519
import TetherMesh.Protocol.KeyAgreement
import TetherMesh.Protocol.SmallOrder
import TetherMesh.Protocol.FieldReference
import TetherMesh.Protocol.X25519Standard
import TetherMesh.Protocol.Ccm
import TetherMesh.Protocol.CcmFormat
import TetherMesh.Protocol.CcmStandard
import TetherMesh.Protocol.CcmAccesses
import TetherMesh.Protocol.Sha256
import TetherMesh.Protocol.Sha256Standard
import TetherMesh.Protocol.Backend
import TetherMesh.Protocol.Presets
import TetherMesh.Protocol.Protobuf
import TetherMesh.Protocol.ProtobufRoundTrip
import TetherMesh.Protocol.VarintExact
import TetherMesh.Protocol.ProtobufFields
import TetherMesh.Protocol.ProtobufNormal
import TetherMesh.Protocol.WriterCalls
import TetherMesh.Protocol.Message
import TetherMesh.Protocol.MessageRoundTrip
import TetherMesh.Protocol.MessageSchema
import TetherMesh.Protocol.MessageColumns
import TetherMesh.Protocol.MessageMerge
import TetherMesh.Protocol.PositionReference
import TetherMesh.Protocol.ReaderRuns
import TetherMesh.Protocol.Acknowledgement
import TetherMesh.Groups.Envelope
import TetherMesh.Groups.Opening
import TetherMesh.Groups.TagInput
import TetherMesh.Groups.Roster
import TetherMesh.CApi.Abi
import TetherMesh.CApi.Keys
import TetherMesh.CApi.Receive
import TetherMesh.CApi.Observing
import TetherMesh.CApi.HeldBack
import TetherMesh.CApi.HeardRelayed
import TetherMesh.CApi.DutyBudget
import TetherMesh.CApi.ContextMemory
import TetherMesh.CApi.RetryCeiling
import TetherMesh.CApi.OutboxCalls
import TetherMesh.CApi.Transmit
import TetherMesh.CApi.FrameBound
import TetherMesh.CApi.Relaying
import TetherMesh.CApi.RoundTrip
import TetherMesh.CApi.PkiMarker
import TetherMesh.CApi.PkiAgree
import TetherMesh.CApi.AckLoop
import TetherMesh.CApi.Copies
import TetherMesh.CApi.Forgery
import TetherMesh.CApi.OutboxEntries
import TetherMesh.CApi.DirectMessages
import TetherMesh.Groups.Crossing
import TetherMesh.Network.Flooding
import TetherMesh.Network.FloodingRuns
import TetherMesh.Network.Ground
import TetherMesh.Network.Coverage
import TetherMesh.Network.Settling
import TetherMesh.Network.Stations
import TetherMesh.Network.Delivery
import TetherMesh.Network.Retiring
import TetherMesh.Network.Nonces
