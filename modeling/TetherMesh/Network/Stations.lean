import TetherMesh.CApi.Copies
import TetherMesh.CApi.DutyBudget
import TetherMesh.CApi.OutboxEntries
import TetherMesh.Protocol.PacketIdRuns

/-!
# Stations that send, answer and lose power

Any number of stations share a channel key. Each holds a durable word, from which its
identifiers are issued, and in memory a context, an outbox and the frames it has heard; all
of the memory is lost with the power. A frame in the air may be heard by any station, at any
time and any number of times, until it is lost. A station that heard a frame may relay it as it
was told to, send frames of its own, and retire what it is told was received.

The calls are those of the interface. A station builds each frame under an identifier that it
issued for it, and tracks only what it sends. When it makes its calls and with what, answers
among them, is up to its program and here left open.

## Main definitions

* `Station`, `Station.Step` — one station, and what it can do next
* `Net`, `NetEvent`, `Net.Step` — all of them and the frames in the air, and what can happen
* `Net.history` — what one station has done in a run

## Main results

* `exists_ready`, `exists_sent`, `exists_heard` — what a station can always do
-/

namespace TetherMesh.Network

open CApi CS Math Protocol

/-- A station: the identifiers it issues, and what it holds in memory. -/
structure Station where
  ids : IdNode
  ctx : TmCtx
  ob : TmOutbox
  /-- The frames it has received since it was switched on. -/
  received : List (List UInt8)
  /-- The frames it was told to relay, each with the hop limit to relay it with. -/
  offers : List (List UInt8 × UInt8)

/-- What a station did. -/
inductive StationEvent
  /-- It was switched on or lost power, or moved its durable mark. -/
  | identifiers (e : IdEvent)
  /-- It sent a frame of its own, with an identifier issued under the mark `stored`. -/
  | sent (stored : UInt32) (call : EncodeCall)
  /-- It received a frame. -/
  | heard (frame : List UInt8) (rx : TmRx)
  /-- It took what it received for an acknowledgement, on which its outbox dropped these. -/
  | retired (reply : List UInt8) (entries : List (List UInt8))
  | reaped
  /-- It asked for what was due, and got nothing to send. -/
  | asked
  | resent (frame : List UInt8)
  | relayed (frame : List UInt8)

namespace StationEvent

/-- The frames that go on the air. -/
def emitted : StationEvent → List (List UInt8)
  | sent _ call => [built call.answer]
  | resent frame | relayed frame => [frame]
  | _ => []

/-- What the event is to the source of identifiers. -/
def idEvents : StationEvent → List IdEvent
  | identifiers e => [e]
  | sent stored call => [.issued call.id stored]
  | _ => []

end StationEvent

namespace Station

/-- The station has power. -/
def Powered (s : Station) : Prop := s.ids.source.isSome

/-- One step of the station with node number `num`, on a channel with this key, under the
frames in the air. -/
inductive Step (num : UInt32) (key : TmKey) (air : List (List UInt8)) :
    Station → StationEvent → Station → Prop
  | boot {s : Station} {block intervalUs : UInt32} {maxAttempts : UInt8} {ids' : IdNode}
      {ctx' : TmCtx} {ob' : TmOutbox} :
      IdNode.Step s.ids (.booted block) ids' →
      tmCtxInit (some s.ctx) tmAbiVersion num = (tmOk, some ctx') →
      tmOutboxInit (some s.ob) tmAbiVersion maxAttempts intervalUs = (tmOk, some ob') →
      Step num key air s (.identifiers (.booted block)) ⟨ids', ctx', ob', [], []⟩
  | mark {s : Station} {e : IdEvent} {ids' : IdNode} :
      IdNode.Step s.ids e ids' → (∀ block, e ≠ .booted block) →
      Step num key air s (.identifiers e) { s with ids := ids' }
  | send {s : Station} {stored : UInt32} {call : EncodeCall} {ids' : IdNode} {ctx' : TmCtx}
      {ob' : TmOutbox} :
      IdNode.Step s.ids (.issued call.id stored) ids' →
      call.fromNode = num → call.Uses key → 0 < call.answer.1 →
      (ctx' = s.ctx ∨ tmNoteOriginated (some s.ctx) num call.id = (tmOk, some ctx')) →
      (ob' = s.ob ∨ ∃ nowUs,
        tmOutboxTrack (some s.ob) (some (built call.answer)) nowUs = (tmOk, some ob')) →
      Step num key air s (.sent stored call) { s with ids := ids', ctx := ctx', ob := ob' }
  | hear {s : Station} {frame : List UInt8} {snrQ4 : Int16} {airtimeUs : Micros} {nowUs : UInt64}
      {heardRelayed : UInt8} {old rx : TmRx} {ctx' : TmCtx} :
      s.Powered → frame ∈ air →
      tmRxObserve (some s.ctx) (some frame) snrQ4 airtimeUs nowUs heardRelayed (some old) =
        (tmOk, some ctx', some rx) →
      Step num key air s (.heard frame rx)
        { s with
          ctx := ctx'
          received := s.received ++ [frame]
          offers := if rx.relay = 1 then s.offers ++ [(frame, rx.relayHopLimit)] else s.offers }
  | retire {s : Station} {reply payloadOut : List UInt8} {lenOut : ℕ} {oldId requestId : UInt32}
      {outStatus status : Ptr UInt32} {ob' : TmOutbox} :
      s.Powered → reply ∈ s.received → tmIsPki (some reply) = 0 →
      tmAcknowledges
        (some (tmFrameDecrypt (some reply) (some key) (some payloadOut) (some lenOut)).plaintext)
        (some oldId) outStatus = (1, some requestId, status) →
      tmOutboxAcknowledge (some s.ob) requestId = (1, some ob') →
      Step num key air s (.retired reply (s.ob.freed ob')) { s with ob := ob' }
  | reap {s : Station} {nowUs : UInt64} {outFrom outId outFrom' outId' : Ptr UInt32} {code : ℤ}
      {ob' : TmOutbox} :
      s.Powered →
      tmOutboxReap (some s.ob) nowUs outFrom outId = (code, some ob', outFrom', outId') →
      Step num key air s .reaped { s with ob := ob' }
  /-- An attempt may be marked nevertheless, if the buffer is too short for the frame. -/
  | ask {s : Station} {nowUs : UInt64} {airtimeUs : Micros} {out : Ptr (List UInt8)}
      {outAttempt : Ptr UInt8} {answer : NextDue} {ctx' : TmCtx} {ob' : TmOutbox} :
      s.Powered → tmOutboxNextDue (some s.ob) (some s.ctx) nowUs airtimeUs out outAttempt = answer →
      answer.code ≤ 0 → answer.ctx = some ctx' → answer.ob = some ob' →
      Step num key air s .asked { s with ctx := ctx', ob := ob' }
  | resend {s : Station} {nowUs : UInt64} {airtimeUs : Micros} {out : Ptr (List UInt8)}
      {outAttempt : Ptr UInt8} {answer : NextDue} {ctx' : TmCtx} {ob' : TmOutbox} :
      s.Powered → tmOutboxNextDue (some s.ob) (some s.ctx) nowUs airtimeUs out outAttempt = answer →
      0 < answer.code → answer.ctx = some ctx' → answer.ob = some ob' →
      Step num key air s (.resent ((borrow answer.out).take answer.code.toNat))
        { s with ctx := ctx', ob := ob' }
  | relay {s : Station} {frame frame' : List UInt8} {relayHopLimit : UInt8} :
      s.Powered → (frame, relayHopLimit) ∈ s.offers →
      tmRelayPrepare (some frame) relayHopLimit num = (tmOk, some frame') →
      Step num key air s (.relayed frame') s

end Station

/-- The stations, and the frames in the air. -/
structure Net (ι : Type*) where
  station : ι → Station
  air : List (List UInt8)

/-- What happened. -/
inductive NetEvent (ι : Type*)
  /-- A station did something. -/
  | did (n : ι) (e : StationEvent)
  /-- A frame left the air. -/
  | lost

variable {ι : Type*} [DecidableEq ι]

/-- What the event was to one station, if it was its own. -/
def NetEvent.doneBy (n : ι) : NetEvent ι → Option StationEvent
  | did m e => if m = n then some e else none
  | lost => none

namespace Net

/-- A station moves, or a frame is lost. -/
inductive Step (num : ι → UInt32) (key : TmKey) : Net ι → NetEvent ι → Net ι → Prop
  | move {net : Net ι} {n : ι} {e : StationEvent} {s' : Station} :
      Station.Step (num n) key net.air (net.station n) e s' →
      Step num key net (.did n e)
        ⟨Function.update net.station n s', net.air ++ e.emitted⟩
  | lose {net : Net ι} {before after : List (List UInt8)} {frame : List UInt8} :
      net.air = before ++ frame :: after →
      Step num key net .lost { net with air := before ++ after }

/-- The stations have never run, and nothing is in the air. -/
structure Fresh (seed : ι → UInt32) (net : Net ι) : Prop where
  ids_eq : ∀ n, (net.station n).ids = IdNode.fresh (seed n)
  air_eq : net.air = []

/-- What one station did. -/
def history (n : ι) (events : List (NetEvent ι)) : List StationEvent :=
  events.filterMap (NetEvent.doneBy n)

theorem mem_history {n : ι} {events : List (NetEvent ι)} {e : StationEvent} :
    e ∈ history n events ↔ .did n e ∈ events := by
  rw [history, List.mem_filterMap]
  constructor
  · rintro ⟨event, hmem, hsome⟩
    cases event with
    | did m e' =>
      rw [NetEvent.doneBy] at hsome
      split_ifs at hsome with hm
      cases hsome
      exact hm ▸ hmem
    | lost => cases hsome
  · exact fun hmem => ⟨.did n e, hmem, if_pos rfl⟩

theorem history_snoc (n : ι) (events : List (NetEvent ι)) (event : NetEvent ι) :
    history n (events ++ [event]) = history n events ++ (event.doneBy n).toList := by
  rw [history, List.filterMap_append, history, List.filterMap_cons]
  cases event.doneBy n <;> rfl

theorem history_snoc_self (n : ι) (events : List (NetEvent ι)) (e : StationEvent) :
    history n (events ++ [.did n e]) = history n events ++ [e] := by
  rw [history_snoc, NetEvent.doneBy, if_pos rfl, Option.toList_some]

theorem history_snoc_of_ne {n m : ι} (hne : m ≠ n) (events : List (NetEvent ι))
    (e : StationEvent) : history n (events ++ [.did m e]) = history n events := by
  rw [history_snoc, NetEvent.doneBy, if_neg hne, Option.toList_none, List.append_nil]

theorem history_subset (n : ι) (events more : List (NetEvent ι)) :
    history n events ⊆ history n (events ++ more) := by
  rw [history, history, List.filterMap_append]
  exact List.subset_append_left _ _

variable {num : ι → UInt32} {key : TmKey} {net : Net ι} {n : ι} {e : StationEvent} {s' : Station}

/-- A step of one station leaves the others, and puts on the air what it emits. -/
theorem exists_step (hstep : Station.Step (num n) key net.air (net.station n) e s') :
    ∃ net', Step num key net (.did n e) net' ∧ net'.station n = s' ∧
      (∀ m, m ≠ n → net'.station m = net.station m) ∧ net'.air = net.air ++ e.emitted :=
  ⟨_, .move hstep, Function.update_self .., fun _ hm => Function.update_of_ne hm .., rfl⟩

/-- A station that emits nothing runs by itself. -/
theorem exists_run {done : List StationEvent}
    (run : Run (Station.Step (num n) key net.air) (net.station n) done s')
    (hsilent : ∀ e ∈ done, e.emitted = []) :
    ∃ net', Run (Step num key) net (done.map (NetEvent.did n)) net' ∧ net'.station n = s' ∧
      (∀ m, m ≠ n → net'.station m = net.station m) ∧ net'.air = net.air := by
  induction run with
  | nil => exact ⟨net, .nil, rfl, fun _ _ => rfl, rfl⟩
  | snoc _ hstep ih =>
    rw [List.forall_mem_append] at hsilent
    obtain ⟨net₁, hrun, hstation, hothers, hair⟩ := ih hsilent.1
    rw [← hstation, ← hair] at hstep
    obtain ⟨net₂, hstep₂, hstation₂, hothers₂, hair₂⟩ := exists_step hstep
    refine ⟨net₂, ?_, hstation₂, fun m hm => (hothers₂ m hm).trans (hothers m hm), ?_⟩
    · rw [List.map_append]
      exact .snoc hrun hstep₂
    · rw [hair₂, hsilent.2 _ (List.mem_singleton_self _), List.append_nil, hair]

end Net

variable {num : ι → UInt32} {key : TmKey} {net : Net ι} {frame : List UInt8} {n : ι} {s : Station}
  {id : UInt32}

/-! ## Getting ready -/

/-- The station has power, and the next identifier it issues is `id`. -/
def Station.Ready (s : Station) (id : UInt32) : Prop :=
  ∃ src, s.ids.source = some src ∧ src.next = id ∧ src.next < src.blockEnd

namespace Station.Ready

theorem powered (h : s.Ready id) : s.Powered := by
  obtain ⟨src, hsrc, -⟩ := h
  rw [Station.Powered, hsrc]
  rfl

end Station.Ready

/-- A source that was just resumed asks for a mark one block on. -/
theorem exists_persistFirst {src : PacketIdSource} (hend : src.blockEnd = src.next)
    (hblock : src.block = 1) (hlt : src.next.toNat + 1 < 2 ^ 32) :
    ∃ highWater, src.issue = (.persistFirst highWater, src) ∧
      highWater.toNat = src.next.toNat + 1 := by
  generalize hissue : src.issue = answer
  obtain ⟨r, src'⟩ := answer
  rcases PacketIdSource.issue_cases hissue with
    ⟨-, hready, -⟩ | ⟨highWater, rfl, rfl, -, hasked⟩ | ⟨-, -, -, hspent⟩
  · rw [hend] at hready
    exact absurd hready (lt_irrefl _)
  · rw [PacketIdSource.IsRequest, hblock, show (1 : UInt32).toNat = 1 from rfl] at hasked
    exact ⟨highWater, rfl, hasked.trans (by omega)⟩
  · omega

variable (num key) in
/-- **A station that has never run can be made ready** by itself: it is switched on, stores a
mark and confirms it. Its outbox is then empty. -/
theorem exists_ready (hids : (net.station n).ids = IdNode.fresh id) (hlt : id.toNat + 1 < 2 ^ 32) :
    ∃ done net', Run (Net.Step num key) net done net' ∧ (net'.station n).Ready id ∧
      (net'.station n).ob = ⟨.new .measuredCeiling⟩ ∧
      (∀ m, m ≠ n → net'.station m = net.station m) ∧ net'.air = net.air ∧
      ∀ e ∈ done, ∃ i, e = .did n (.identifiers i) := by
  set src := PacketIdSource.resume id 1
  obtain ⟨highWater, hissue, hvalue⟩ := exists_persistFirst (rfl : src.blockEnd = src.next) rfl hlt
  have hahead : src.next < (src.persisted highWater).blockEnd := by
    rw [UInt32.lt_iff_toNat_lt, PacketIdSource.persisted_blockEnd, hvalue]
    exact lt_max_of_lt_right (Nat.lt_succ_self _)
  have hinit : tmOutboxInit (some (net.station n).ob) tmAbiVersion 0 0 =
      (tmOk, some ⟨.new .measuredCeiling⟩) := rfl
  have hboot : Station.Step (num n) key net.air (net.station n) (.identifiers (.booted 1))
      ⟨⟨id, some src, none⟩, freshCtx (num n), ⟨.new .measuredCeiling⟩, [], []⟩ :=
    .boot (hids ▸ .boot 1 rfl) rfl hinit
  have hask : IdNode.Step ⟨id, some src, none⟩ (.asked highWater)
      ⟨id, some src, some highWater⟩ := .ask rfl hissue
  have hwrite : IdNode.Step ⟨id, some src, some highWater⟩ (.wrote highWater)
      ⟨highWater, some src, some highWater⟩ := .write rfl
  have hconfirm : IdNode.Step ⟨highWater, some src, some highWater⟩ (.confirmed highWater)
      ⟨highWater, some (src.persisted highWater), some highWater⟩ := .confirm rfl (UInt32.le_refl _)
  obtain ⟨net', hrun, hstation, hothers, hair⟩ := Net.exists_run
    (.cons hboot (.cons (.mark hask nofun) (.cons (.mark hwrite nofun)
      (.single (.mark hconfirm nofun))))) (by simp [StationEvent.emitted])
  refine ⟨_, net', hrun, ?_, ?_, hothers, hair, fun e he => ?_⟩
  · rw [hstation]
    refine ⟨_, rfl, PacketIdSource.persisted_next, ?_⟩
    rwa [PacketIdSource.persisted_next]
  · rw [hstation]
  · simp only [List.map_cons, List.map_nil, List.mem_cons, List.not_mem_nil, or_false] at he
    rcases he with rfl | rfl | rfl | rfl <;> exact ⟨_, rfl⟩

/-! ## Sending and hearing -/

/-- A station that is ready sends what it builds. -/
theorem exists_sent (hready : (net.station n).Ready id) {call : EncodeCall} (hid : call.id = id)
    (hown : call.fromNode = num n) (huses : call.Uses key) (hpos : 0 < call.answer.1)
    {ob' : TmOutbox}
    (hob : ob' = (net.station n).ob ∨ ∃ nowUs, tmOutboxTrack (some (net.station n).ob)
      (some (built call.answer)) nowUs = (tmOk, some ob')) :
    ∃ stored net', Net.Step num key net (.did n (.sent stored call)) net' ∧
      (net'.station n).Powered ∧ (net'.station n).ob = ob' ∧
      (∀ m, m ≠ n → net'.station m = net.station m) ∧
      net'.air = net.air ++ [built call.answer] := by
  obtain ⟨src, hsrc, rfl, hlt⟩ := hready
  have hissue := PacketIdSource.issue_of_lt hlt
  rw [← hid] at hissue
  obtain ⟨net', hstep, hstation, hothers, hair⟩ := Net.exists_step
    (.send (.ready hsrc hissue) hown huses hpos (.inr rfl) hob)
  refine ⟨_, net', hstep, ?_, ?_, hothers, hair⟩
  · rw [hstation]
    rfl
  · rw [hstation]

variable (num key) in
/-- A station that has power hears any frame that is in the air. -/
theorem exists_heard (hpower : (net.station n).Powered) (hair : frame ∈ net.air)
    (hlen : headerLen ≤ frame.length) :
    ∃ rx net', Net.Step num key net (.did n (.heard frame rx)) net' ∧
      (net'.station n).ids = (net.station n).ids ∧ (net'.station n).ob = (net.station n).ob ∧
      frame ∈ (net'.station n).received ∧ (∀ m, m ≠ n → net'.station m = net.station m) := by
  obtain ⟨head, body, rfl⟩ := exists_eq_toList_append hlen
  obtain ⟨ctx', rx, hcall⟩ : ∃ ctx' rx, tmRxObserve (some (net.station n).ctx)
      (some (head.toList ++ body)) 0 0 0 0 (some noReport) =
        (tmOk, some ctx', some rx) :=
    ⟨_, _, tmRxObserve_decoded (Header.decode_append head body)⟩
  have hhear : Station.Step (num n) key net.air (net.station n)
    (.heard (head.toList ++ body) rx) _ := .hear hpower hair hcall
  obtain ⟨net', hstep, hstation, hothers, -⟩ := Net.exists_step hhear
  refine ⟨rx, net', hstep, ?_, ?_, ?_, hothers⟩
  · rw [hstation]
  · rw [hstation]
  · rw [hstation]
    exact List.mem_append_right _ (List.mem_singleton_self _)

/-! ## Two stations -/

/-- Two stations that have never run, with seven as the first identifier of both. -/
def pair : Net Bool := ⟨fun _ => ⟨.fresh 7, freshCtx 0, ⟨.new .sendOnce⟩, [], []⟩, []⟩

/-- Their node numbers. -/
def pairNum (second : Bool) : UInt32 := if second then 2 else 1

theorem pairNum_injective : Function.Injective pairNum := by
  intro a b h
  cases a <;> cases b <;> simp_all [pairNum]

theorem pair_fresh : pair.Fresh fun _ => 7 := ⟨fun _ => rfl, rfl⟩

/-- Their channel key. -/
def pairKey : TmKey := ⟨Vector.replicate 16 7⟩

/-- Two letters from the first to the second, which is asked to acknowledge them. -/
def pairText : EncodeCall :=
  .text 1 2 7 3 8 1 (some pairKey) (some [104, 105]) (some (List.replicate 64 0))

theorem pairText_pos : 0 < pairText.answer.1 := by
  refine tmTextEncode_pos ?_ ?_
  · rw [length_hi]
    norm_num
  · rw [length_hi, List.length_replicate]
    norm_num

/-- The text waits at the first station with an attempt left, and the second is ready to answer
it. Nothing else was sent. -/
theorem exists_pair_waiting : ∃ events net, Run (Net.Step pairNum pairKey) pair events net ∧
    (net.station false).Powered ∧ (net.station false).ob.Retries (built pairText.answer) 7 ∧
    tmWantsAck (some (built pairText.answer)) (pairNum true) = 1 ∧ (net.station true).Ready 7 ∧
    net.air = [built pairText.answer] ∧ headerLen ≤ (built pairText.answer).length ∧
    (∃ stored, .did false (.sent stored pairText) ∈ events) ∧
    ∀ n stored call, .did n (.sent stored call) ∈ events → call = pairText := by
  obtain ⟨done₁, net₁, run₁, hready₁, hob₁, hothers₁, hair₁, hdone₁⟩ :=
    exists_ready pairNum pairKey (rfl : (pair.station false).ids = .fresh 7) (by simp)
  obtain ⟨done₂, net₂, run₂, hready₂, -, hothers₂, hair₂, hdone₂⟩ :=
    exists_ready pairNum pairKey
      ((congrArg Station.ids (hothers₁ true (by simp))).trans rfl : _ = IdNode.fresh 7) (by simp)
  have hsame : net₂.station false = net₁.station false := hothers₂ false (by simp)
  rw [← hsame] at hready₁ hob₁
  -- the text is sent and tracked
  have hcopy := EncodeCall.IsCopy.built pairText
  have huses : pairText.Uses pairKey := rfl
  obtain ⟨h, hdec, limit, relayNode, rfl⟩ := hcopy.exists_header pairText_pos huses
  have hlen : (built pairText.answer).length = headerLen + 6 := by
    rw [(EncodeCall.built_channel pairText_pos huses rfl).2, Frame.length_sealed]
    exact congrArg (headerLen + ·) length_hi
  have hfree : ((net₂.station false).ob.inner.slot 0).state = .free := by
    rw [hob₁, Outbox.slot_new]
    rfl
  have hseveral : 1 < (net₂.station false).ob.inner.policy.maxAttempts := by
    rw [hob₁]
    decide
  obtain ⟨ob', htrack, hretries⟩ :=
    exists_tracked_retries hdec (hlen.le.trans (by norm_num)) ⟨0, hfree⟩ hseveral 0
  obtain ⟨stored, net₃, hstep₃, hpower₃, hob₃, hothers₃, hair₃⟩ :=
    exists_sent hready₁ (rfl : pairText.id = 7) (rfl : _ = pairNum false) huses pairText_pos
      (.inr ⟨0, htrack⟩)
  refine ⟨_, net₃, .snoc (run₁.append run₂) hstep₃, hpower₃, ?_, ?_, ?_, ?_,
    hlen.ge.trans' (Nat.le_add_right _ _),
    ⟨stored, List.mem_append_right _ (List.mem_singleton_self _)⟩, fun n stored' call hmem => ?_⟩
  · rw [hob₃]
    exact hretries
  · exact (hcopy.tmWantsAck_iff pairText_pos huses _).mpr ⟨rfl, rfl⟩
  · rw [hothers₃ true (by simp)]
    exact hready₂
  · rw [hair₃, hair₂, hair₁]
    rfl
  · rcases List.mem_append.mp hmem with hbefore | hlast
    · rcases List.mem_append.mp hbefore with h₁ | h₂
      · obtain ⟨i, hi⟩ := hdone₁ _ h₁
        cases hi
      · obtain ⟨i, hi⟩ := hdone₂ _ h₂
        cases hi
    · cases List.mem_singleton.mp hlast
      rfl

end TetherMesh.Network
