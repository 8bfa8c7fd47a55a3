import TetherMesh.CApi.Observing
import TetherMesh.CApi.Relaying
import TetherMesh.CS.LabelledRun

/-!
# A mesh of nodes that flood

Any number of nodes, each with a routing state of its own, and the copies in the
air. A copy stays in the air until it is lost, so it may reach any nodes, in any
order, any number of times. A node that is told to relay what it received may put
the patched copy on the air, once, at any later time, or drop it, as it should once
it has heard another node relay the packet.

Each copy carries along the frame it goes back to and the nodes that relayed it on
its way. Nothing in the mesh reads these.

## Main definitions

* `Copy`, `Offer`, `Mesh` — what is in the air, what may be relayed, the whole mesh
* `MeshEvent`, `Mesh.Step` — what can happen next
* `MeshEvent.Meets`, `MeshEvent.Tells` — a node receives or originates a packet, and
  is told to relay one
* `recordings` — the packets a node's history answered new, in order

## Main results

* `observe_spec` — what `tm_rx_observe` does to the history, and when it says relay
-/

namespace TetherMesh.Network

open CApi CS Protocol

/-- A frame in the air. -/
structure Copy (ι : Type*) where
  frame : List UInt8
  /-- The frame as it was originated. -/
  sent : List UInt8
  /-- The nodes that relayed it since, the latest last. -/
  path : List ι

/-- A copy that a node was told to relay, and the hop limit to relay it with. -/
structure Offer (ι : Type*) where
  node : ι
  copy : Copy ι
  relayHopLimit : UInt8

/-- The nodes' routing states, the copies in the air and the relays still to be made. -/
structure Mesh (ι : Type*) where
  ctx : ι → TmCtx
  air : List (Copy ι)
  offers : List (Offer ι)

/-- What happened. -/
inductive MeshEvent (ι : Type*)
  /-- A node sent a frame of its own and noted it; what its history made of that. -/
  | originated (node : ι) (frame : List UInt8) (key : PacketKey) (seen : Seen)
  /-- A node received a copy. -/
  | observed (node : ι) (rx : TmRx)
  /-- A node put a copy on the air that it had been told to relay. -/
  | relayed (offer : Offer ι)
  /-- A node dropped a copy that it was to relay. -/
  | cancelled (offer : Offer ι)
  | lost
  /-- A call that leaves the node's history as it is. -/
  | retuned (node : ι)

variable {ι : Type*}

/-- The packet a received frame is a copy of. -/
def packetOf (rx : TmRx) : PacketKey := (rx.fromNode, rx.id)

namespace MeshEvent

/-- The node originates the packet, or receives a copy of it. -/
def Meets (n : ι) (k : PacketKey) : MeshEvent ι → Prop
  | .originated m _ key _ => m = n ∧ key = k
  | .observed m rx => m = n ∧ packetOf rx = k
  | _ => False

/-- The node is told to relay the packet. -/
def Tells (n : ι) (k : PacketKey) : MeshEvent ι → Prop
  | .observed m rx => m = n ∧ packetOf rx = k ∧ rx.relay = 1
  | _ => False

variable [DecidableEq ι]

/-- The packet the node's history answered new, if there was one. -/
def recorded (n : ι) : MeshEvent ι → List PacketKey
  | .originated m _ key seen => if m = n ∧ seen = .new then [key] else []
  | .observed m rx => if m = n ∧ rx.duplicate = 0 then [packetOf rx] else []
  | _ => []

end MeshEvent

variable [DecidableEq ι]

/-- The packets a node's history answered new, in order. -/
def recordings (n : ι) (events : List (MeshEvent ι)) : List PacketKey :=
  events.flatMap (MeshEvent.recorded n)

theorem recordings_snoc (n : ι) (events : List (MeshEvent ι)) (e : MeshEvent ι) :
    recordings n (events ++ [e]) = recordings n events ++ e.recorded n := by
  rw [recordings, List.flatMap_append, List.flatMap_singleton, recordings]

/-- One step of the mesh, with any signal, airtime and clock. -/
inductive Mesh.Step : Mesh ι → MeshEvent ι → Mesh ι → Prop
  | originate {net : Mesh ι} {n : ι} {frame : List UInt8} {h : Header} {ctx' : TmCtx} :
      Header.decode frame = some h → h.hopLimit = h.hopStart →
      tmNoteOriginated (some (net.ctx n)) h.fromNode h.id = (tmOk, some ctx') →
      Step net
        (.originated n frame (h.fromNode, h.id) ((net.ctx n).history.observe h.fromNode h.id).1)
        { net with ctx := Function.update net.ctx n ctx', air := net.air ++ [⟨frame, frame, []⟩] }
  | observe {net : Mesh ι} {n : ι} {c : Copy ι} {snrQ4 : Int16} {airtimeUs : Micros}
      {nowUs : UInt64} {heardRelayed : UInt8} {old rx : TmRx} {ctx' : TmCtx} :
      c ∈ net.air →
      tmRxObserve (some (net.ctx n)) (some c.frame) snrQ4 airtimeUs nowUs heardRelayed (some old) =
        (tmOk, some ctx', some rx) →
      Step net (.observed n rx)
        { net with
          ctx := Function.update net.ctx n ctx'
          offers := if rx.relay = 1 then net.offers ++ [⟨n, c, rx.relayHopLimit⟩] else net.offers }
  | relay {net : Mesh ι} {before after : List (Offer ι)} {o : Offer ι} {frame' : List UInt8} :
      net.offers = before ++ o :: after →
      tmRelayPrepare (some o.copy.frame) o.relayHopLimit (net.ctx o.node).nodeNum =
        (tmOk, some frame') →
      Step net (.relayed o)
        { net with
          air := net.air ++ [⟨frame', o.copy.sent, o.copy.path ++ [o.node]⟩]
          offers := before ++ after }
  | cancel {net : Mesh ι} {before after : List (Offer ι)} {o : Offer ι} :
      net.offers = before ++ o :: after →
      Step net (.cancelled o) { net with offers := before ++ after }
  | lose {net : Mesh ι} {before after : List (Copy ι)} {c : Copy ι} :
      net.air = before ++ c :: after → Step net .lost { net with air := before ++ after }
  | retune {net : Mesh ι} {n : ι} {ctx' : TmCtx} : ctx'.history = (net.ctx n).history →
      Step net (.retuned n) { net with ctx := Function.update net.ctx n ctx' }

/-- Nothing is in the air, and no node has heard anything. -/
structure Mesh.Fresh (net : Mesh ι) : Prop where
  history_eq : ∀ n, (net.ctx n).history = PacketHistory.empty
  air_eq : net.air = []
  offers_eq : net.offers = []

/-- A context that was initialised has heard nothing. -/
theorem tmCtxInit_history {old ctx : TmCtx} {abi nodeNum : UInt32}
    (hcall : tmCtxInit (some old) abi nodeNum = (tmOk, some ctx)) :
    ctx.history = PacketHistory.empty := by
  rw [tmCtxInit] at hcall
  split at hcall
  · exact absurd (congrArg Prod.fst hcall) (by decide : tmEAbi ≠ tmOk)
  · split at hcall
    · exact absurd (congrArg Prod.fst hcall) (by decide : tmEArg ≠ tmOk)
    · obtain rfl := Option.some.inj (Prod.mk.inj hcall).2
      rfl

/-! ## What one call does -/

/-- **What observing a frame does.** The history is asked about the packet in its header;
only a packet it answers new is to be relayed, with one hop less. -/
theorem observe_spec {ctx ctx' : TmCtx} {frame : List UInt8} {snrQ4 : Int16} {airtimeUs : Micros}
    {nowUs : UInt64} {heardRelayed : UInt8} {old rx : TmRx}
    (hcall : tmRxObserve (some ctx) (some frame) snrQ4 airtimeUs nowUs heardRelayed (some old) =
      (tmOk, some ctx', some rx)) :
    ∃ (h : Header) (seen : Seen), Header.decode frame = some h ∧ packetOf rx = (h.fromNode, h.id) ∧
      ctx.history.observe h.fromNode h.id = (seen, ctx'.history) ∧
      (rx.duplicate = 0 ↔ seen = .new) ∧
      (rx.relay = 1 → seen = .new ∧ rx.relayHopLimit.toNat + 1 = h.hopLimit.toNat) := by
  obtain ⟨bytes, h, old', hframe, hold, hdec⟩ := exists_decoded hcall
  cases hframe
  cases hold
  rw [tmRxObserve_decoded hdec] at hcall
  cases hcall
  have hseen : ((ctx.history.observe h.fromNode h.id).1 == .duplicate).toUInt8 = 0 ↔
      (ctx.history.observe h.fromNode h.id).1 = .new := by
    cases (ctx.history.observe h.fromNode h.id).1 <;> decide
  generalize hdecide : shouldRelay (observedOf ctx h snrQ4 airtimeUs heardRelayed) ctx.role
    ctx.window ctx.duty nowUs = answer
  obtain ⟨decision, duty⟩ := answer
  cases decision with
  | no reason =>
    exact ⟨h, _, hdec, rfl, rfl, hseen, fun hrelay => absurd hrelay (by decide : (0 : UInt8) ≠ 1)⟩
  | after windowSlots hopLimit =>
    -- only a frame that was no duplicate is relayed
    obtain ⟨hnew, hhops⟩ := shouldRelay_eq_after hdecide
    exact ⟨h, _, hdec, rfl, rfl, hseen,
      fun _ => ⟨hseen.mp (congrArg Bool.toUInt8 hnew), hhops⟩⟩

end TetherMesh.Network
