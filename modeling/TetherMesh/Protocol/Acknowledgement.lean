import TetherMesh.Protocol.Frame
import TetherMesh.Protocol.Message

/-!
# Acknowledgements

What a reply to a packet that asked for one looks like, and how it is
recognised. Field 3 of its `Routing` payload is written explicitly even though
it is zero.

## Main definitions

* `acknowledgement` — the payload of a positive acknowledgement
* `acknowledges` — read a payload as an acknowledgement
* `wantsAcknowledgement` — whether a frame asks this node for one
-/

namespace TetherMesh.Protocol

open Message

/-- `PortNum`: identity records. -/
def PortNum.nodeinfoApp : UInt32 := 4

/-- `PortNum`: routing control. -/
def PortNum.routingApp : UInt32 := 5

/-- `ACK_PAYLOAD`: an accepted `Routing`, its zero status written out. -/
def ackPayload : List UInt8 := [0x18, 0x00]

/-- Build the payload of a positive acknowledgement of `requestId`. -/
def acknowledgement (requestId : UInt32) : Data :=
  { portnum := PortNum.routingApp, payload := ackPayload, requestId := requestId }

/-- What an incoming acknowledgement refers to, and what it says. -/
structure Acknowledgement where
  /-- The packet id being answered. -/
  requestId : UInt32
  /-- The status. -/
  status : RoutingStatus
  deriving DecidableEq, Repr

/-- Read an incoming message as an acknowledgement, if it is one. A body that does not
parse still matches, as accepted. -/
def acknowledges (data : Data) : Option Acknowledgement :=
  if data.portnum ≠ PortNum.routingApp ∨ data.requestId = 0 then none
  else
    let status := match Routing.decode data.payload with
      | .ok r => r.status
      | .error _ => Routing.accepted.status
    some ⟨data.requestId, status⟩

/-- Whether a received frame is addressed to us and asks to be acknowledged. -/
def wantsAcknowledgement (frame : List UInt8) (ourNodeNum : UInt32) : Bool :=
  match Frame.peekHeader frame with
  | .ok h => h.wantAck && h.toNode == ourNodeNum
  | .error _ => false

end TetherMesh.Protocol
