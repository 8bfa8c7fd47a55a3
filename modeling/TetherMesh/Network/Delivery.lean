import TetherMesh.Network.Stations

/-!
# What the stations can rely on

Whatever order things happen in, and however often stations lose their memory, every frame in
the air is a copy of one that a station built, and whatever a station does about a frame goes
back to one it heard or sent. Identifiers outlive the memory, so no two frames of a station
have the same.

## Main definitions

* `Justified` — what an event of a station goes back to
* `Owes`, `AcksOwed` — an acknowledgement answers a request that was received, and all of them do
* `Station.Inv`, `Net.Inv` — one station, and all of them
* `Traced` — a frame is a copy of one that was sent

## Main results

* `Net.Inv.step` — the invariant survives every step
* `received_was_sent` — a received frame reads as it was sent
-/

namespace TetherMesh.Network

open CApi CS Math Protocol

/-! ## One station -/

/-- The frame was sent by the station whose events these are, under the identifier. -/
def SentAmong (done : List StationEvent) (frame : List UInt8) (id : UInt32) : Prop :=
  ∃ stored call, .sent stored call ∈ done ∧ frame = built call.answer ∧ call.id = id

/-- The frame was received by the station. -/
def HeardAmong (done : List StationEvent) (frame : List UInt8) : Prop :=
  ∃ rx, .heard frame rx ∈ done

/-- What an event of a station goes back to, among its earlier ones. -/
def Justified (num : UInt32) (key : TmKey) (done : List StationEvent) : StationEvent → Prop
  | .sent _ call => call.fromNode = num ∧ call.Uses key ∧ 0 < call.answer.1
  | .retired reply entries => HeardAmong done reply ∧ tmIsPki (some reply) = 0 ∧
    ∃ payloadOut lenOut oldId outStatus requestId status, tmAcknowledges
        (some (tmFrameDecrypt (some reply) (some key) (some payloadOut) (some lenOut)).plaintext)
        (some oldId) outStatus = (1, some requestId, status) ∧
      ∀ entry ∈ entries, SentAmong done entry requestId
  | .resent frame => ∃ id, SentAmong done frame id
  | .relayed frame => ∃ received relayHopLimit, HeardAmong done received ∧
    frame = borrow (tmRelayPrepare (some received) relayHopLimit num).2
  | .identifiers _ | .heard .. | .reaped | .asked => True

/-- If the call acknowledges a request, the station whose events these are has received one that
asks it to, from the node it answers. -/
def Owes (num : UInt32) (done : List StationEvent) (call : EncodeCall) : Prop :=
  ∀ requestId, call.requestId = some requestId → ∃ request, HeardAmong done request ∧ ∃ old h,
    tmWantsAck (some request) num = 1 ∧ tmHeaderPeek (some request) (some old) = (tmOk, some h) ∧
      h.fromNode = call.toNode ∧ h.id = requestId

section Mono

variable {done done' : List StationEvent} {frame : List UInt8} {id num : UInt32} {key : TmKey}
  {e : StationEvent}

theorem SentAmong.mono (hsub : done ⊆ done') (h : SentAmong done frame id) :
    SentAmong done' frame id := by
  obtain ⟨stored, call, hmem, hrest⟩ := h
  exact ⟨stored, call, hsub hmem, hrest⟩

theorem HeardAmong.mono (hsub : done ⊆ done') (h : HeardAmong done frame) :
    HeardAmong done' frame := by
  obtain ⟨rx, hmem⟩ := h
  exact ⟨rx, hsub hmem⟩

/-- What an event goes back to is there ever after. -/
theorem Justified.mono (hsub : done ⊆ done') (h : Justified num key done e) :
    Justified num key done' e := by
  cases e with
  | sent => exact h
  | retired reply entries =>
    obtain ⟨hheard, hchannel, payloadOut, lenOut, oldId, outStatus, requestId, status, hack,
      hentries⟩ := h
    exact ⟨hheard.mono hsub, hchannel, payloadOut, lenOut, oldId, outStatus, requestId, status,
      hack, fun entry hentry => (hentries entry hentry).mono hsub⟩
  | resent frame =>
    obtain ⟨id, hsent⟩ := h
    exact ⟨id, hsent.mono hsub⟩
  | relayed frame =>
    obtain ⟨received, relayHopLimit, hheard, hframe⟩ := h
    exact ⟨received, relayHopLimit, hheard.mono hsub, hframe⟩
  | identifiers | heard | reaped | asked => trivial

end Mono

namespace Station

variable {num : UInt32} {key : TmKey} {air : List (List UInt8)} {done : List StationEvent}
  {s s' : Station} {e : StationEvent}

/-- What a station has in memory goes back to what it has done. -/
structure Holds (done : List StationEvent) (s : Station) : Prop where
  /-- No duty cycle was charged. -/
  duty : Uncharged s.ctx.duty
  waits : ∀ frame id, s.ob.Waits frame id → SentAmong done frame id
  received : ∀ frame ∈ s.received, HeardAmong done frame
  offers : ∀ o ∈ s.offers, HeardAmong done o.1

theorem Holds.mono {done' : List StationEvent} (hsub : done ⊆ done') (h : s.Holds done) :
    s.Holds done' where
  duty := h.duty
  waits frame id hwaits := (h.waits frame id hwaits).mono hsub
  received frame hframe := (h.received frame hframe).mono hsub
  offers o ho := (h.offers o ho).mono hsub

/-- What holds of a station after it has done these things. -/
structure Inv (num : UInt32) (key : TmKey) (done : List StationEvent) (s : Station) : Prop where
  ids : IdNode.Inv (done.flatMap StationEvent.idEvents) s.ids
  memory : s.Powered → s.Holds done
  justified : ∀ e ∈ done, Justified num key done e

theorem inv_fresh {seed : UInt32} (h : s.ids = IdNode.fresh seed) : s.Inv num key [] where
  ids := h ▸ IdNode.inv_fresh seed
  memory hpower := by
    rw [Powered, h] at hpower
    exact absurd hpower (by simp [IdNode.fresh])
  justified e he := absurd he List.not_mem_nil

/-- A station issues identifiers only while it has power. -/
theorem powered_of_issued {ids' : IdNode} {id stored : UInt32}
    (hstep : IdNode.Step s.ids (.issued id stored) ids') : s.Powered := by
  cases hstep with
  | ready hsrc hissue =>
    rw [Powered, hsrc]
    rfl

/-- Marks move only while a station has power, if it has power afterwards. -/
theorem powered_of_mark {e : IdEvent} {ids' : IdNode} (hstep : IdNode.Step s.ids e ids')
    (hboot : ∀ block, e ≠ .booted block) (hpower : ids'.source.isSome) : s.Powered := by
  cases hstep with
  | boot block => exact absurd rfl (hboot block)
  | ready hsrc | ask hsrc | exhaust hsrc | confirm hsrc =>
    rw [Powered, hsrc]
    rfl
  | write => exact hpower
  | crash => exact absurd hpower (by simp)

namespace Inv

/-- **What a step does** goes back to what was done before. -/
theorem justified_step (inv : s.Inv num key done) (hstep : Step num key air s e s') :
    Justified num key done e := by
  cases hstep with
  | boot | mark | hear | reap | ask => trivial
  | send hids hown huses hpos hnote hob => exact ⟨hown, huses, hpos⟩
  | @retire reply payloadOut lenOut oldId requestId outStatus status ob' hpower hreceived hchannel
      hack hcall =>
    refine ⟨(inv.memory hpower).received reply hreceived, hchannel, payloadOut, lenOut, oldId,
      outStatus, requestId, status, hack, fun entry hentry => ?_⟩
    exact (inv.memory hpower).waits entry requestId (mem_freed_acknowledge hcall hentry)
  | resend hpower hcall hpos hctx hob =>
    obtain ⟨id, hwaits⟩ := built_nextDue hcall hpos
    exact ⟨id, (inv.memory hpower).waits _ id hwaits⟩
  | @relay frame frame' relayHopLimit hpower hoffer hcall =>
    refine ⟨frame, relayHopLimit, (inv.memory hpower).offers _ hoffer, ?_⟩
    rw [hcall]
    rfl

/-- What the memory holds after a step, if the station still has power. -/
theorem holds_step (inv : s.Inv num key done) (hstep : Step num key air s e s')
    (hpower' : s'.Powered) : s'.Holds (done ++ [e]) := by
  have hsub : done ⊆ done ++ [e] := List.subset_append_left done [e]
  have hlast : e ∈ done ++ [e] := List.mem_append_right _ (List.mem_singleton_self e)
  cases hstep with
  | boot hids hctx hob =>
    rw [tmCtxInit_eq] at hctx
    cases hctx
    exact ⟨⟨rfl, hourBudget⟩, fun frame id hwaits => absurd hwaits (waits_init hob),
      fun _ hframe => absurd hframe List.not_mem_nil, fun _ ho => absurd ho List.not_mem_nil⟩
  | mark hids hboot =>
    have hold := (inv.memory (powered_of_mark hids hboot hpower')).mono hsub
    exact ⟨hold.duty, hold.waits, hold.received, hold.offers⟩
  | @send stored call ids' ctx' ob' hids hown huses hpos hnote hob =>
    have hold := (inv.memory (powered_of_issued hids)).mono hsub
    refine ⟨?_, fun frame id hwaits => ?_, hold.received, hold.offers⟩
    · rcases hnote with rfl | hcall
      · exact hold.duty
      · cases hcall
        exact hold.duty
    rcases hob with rfl | ⟨nowUs, htrack⟩
    · exact hold.waits frame id hwaits
    · rcases waits_track htrack hwaits with hbefore | ⟨rfl, header, hdec, rfl⟩
      · exact hold.waits frame id hbefore
      · refine ⟨stored, call, hlast, rfl, ?_⟩
        -- the identifier in the header is the one the call was given
        obtain ⟨h, hdec', ⟨limit, relayNode, rfl⟩⟩ :=
          (EncodeCall.IsCopy.built call).exists_header hpos huses
        obtain rfl := Option.some.inj (hdec.symm.trans hdec')
        rfl
  | @hear frame snrQ4 airtimeUs nowUs heardRelayed old rx ctx' hpower hair hcall =>
    have hold := (inv.memory hpower).mono hsub
    refine ⟨?_, hold.waits, fun f hf => ?_, fun o ho => ?_⟩
    · obtain ⟨hsame | hasked, -⟩ := tmRxObserve_duty hcall
      · exact hsame ▸ hold.duty
      · exact hasked ▸ hold.duty.ask _ _
    · rcases List.mem_append.mp hf with hbefore | hnew
      · exact hold.received f hbefore
      · exact ⟨rx, List.mem_singleton.mp hnew ▸ hlast⟩
    · dsimp only at ho
      split_ifs at ho
      · rcases List.mem_append.mp ho with hbefore | hnew
        · exact hold.offers o hbefore
        · exact ⟨rx, List.mem_singleton.mp hnew ▸ hlast⟩
      · exact hold.offers o ho
  | retire hpower hreceived hchannel hack hcall =>
    have hold := (inv.memory hpower).mono hsub
    exact ⟨hold.duty, fun frame id hwaits => hold.waits frame id (waits_acknowledge hcall hwaits),
      hold.received, hold.offers⟩
  | reap hpower hcall =>
    have hold := (inv.memory hpower).mono hsub
    exact ⟨hold.duty, fun frame id hwaits => hold.waits frame id (waits_reap hcall hwaits),
      hold.received, hold.offers⟩
  | ask hpower hcall _ hctx hob | resend hpower hcall _ hctx hob =>
    have hold := (inv.memory hpower).mono hsub
    exact ⟨hold.duty.nextDue hcall hctx,
      fun frame id hwaits => hold.waits frame id (waits_nextDue hcall hob hwaits),
      hold.received, hold.offers⟩
  | relay hpower hoffer hcall => exact (inv.memory hpower).mono hsub

/-- **Step lemma** of one station. -/
theorem step (inv : s.Inv num key done) (hstep : Step num key air s e s') :
    s'.Inv num key (done ++ [e]) where
  ids := by
    rw [List.flatMap_append, List.flatMap_singleton]
    have hsame (hevents : e.idEvents = []) (hids : s'.ids = s.ids) :
        IdNode.Inv (done.flatMap StationEvent.idEvents ++ e.idEvents) s'.ids := by
      rw [hevents, List.append_nil, hids]
      exact inv.ids
    cases hstep with
    | boot hids hctx hob => exact inv.ids.step hids
    | mark hids hboot => exact inv.ids.step hids
    | send hids hown huses hpos hnote hob => exact inv.ids.step hids
    | hear | retire | reap | ask | resend | relay => exact hsame rfl rfl
  memory := inv.holds_step hstep
  justified e' he' := by
    have hsub : done ⊆ done ++ [e] := List.subset_append_left done [e]
    rcases List.mem_append.mp he' with hbefore | hnew
    · exact (inv.justified e' hbefore).mono hsub
    · rw [List.mem_singleton.mp hnew]
      exact (inv.justified_step hstep).mono hsub

/-- **Identifiers name one frame.** No two of a station's calls have the same. -/
theorem call_eq_of_id (inv : s.Inv num key done) {stored stored' : UInt32} {call call' : EncodeCall}
    (hsent : .sent stored call ∈ done) (hsent' : .sent stored' call' ∈ done)
    (hid : call.id = call'.id) : call = call' := by
  have hsorted := inv.ids.sorted
  rw [issuedIds, List.filterMap_flatMap, List.pairwise_flatMap] at hsorted
  -- of two events one is earlier, and its identifier the smaller
  have hnames : ∀ e ∈ done, ∀ e' ∈ done, ∀ x ∈ issuedIds e.idEvents,
      ∀ y ∈ issuedIds e'.idEvents, x = y → e = e' := by
    refine List.Pairwise.forall_of_forall_of_flip (fun e he x hx y hy heq => rfl)
      (hsorted.2.imp fun hlt x hx y hy heq => ?_) (hsorted.2.imp fun hlt x hx y hy heq => ?_)
    · exact absurd heq (UInt32.ne_of_lt (hlt x hx y hy))
    · exact absurd heq.symm (UInt32.ne_of_lt (hlt y hy x hx))
  cases hnames _ hsent _ hsent' call.id (List.mem_singleton_self _) call'.id
    (List.mem_singleton_self _) hid
  rfl

/-- A later call has the larger identifier. -/
theorem id_lt_of_snoc {stored stored' : UInt32} {call call' : EncodeCall}
    (inv : s.Inv num key (done ++ [.sent stored call])) (hsent : .sent stored' call' ∈ done) :
    call'.id < call.id := by
  have hsorted := inv.ids.sorted
  rw [issuedIds, List.filterMap_flatMap, List.pairwise_flatMap, List.pairwise_append] at hsorted
  exact hsorted.2.2.2 _ hsent _ (List.mem_singleton_self _) _ (List.mem_singleton_self _) _
    (List.mem_singleton_self _)

end Inv

end Station

/-! ## All stations -/

variable {ι : Type*} {num : ι → UInt32} {key : TmKey} {seed : ι → UInt32} {net net' : Net ι}
  {events past rest : List (NetEvent ι)} {frame : List UInt8} {n : ι} {e : StationEvent}

/-- The frame is a copy of one that a station sent. -/
def Traced (events : List (NetEvent ι)) (frame : List UInt8) : Prop :=
  ∃ m stored call, .did m (.sent stored call) ∈ events ∧ call.IsCopy frame

theorem Traced.snoc (h : Traced events frame) (e : NetEvent ι) :
    Traced (events ++ [e]) frame := by
  obtain ⟨m, stored, call, hmem, hcopy⟩ := h
  exact ⟨m, stored, call, List.mem_append_left _ hmem, hcopy⟩

variable [DecidableEq ι]

/-- Every acknowledgement was owed when it was sent. -/
def AcksOwed (num : ι → UInt32) (events : List (NetEvent ι)) : Prop :=
  ∀ past n stored call, (past ++ [.did n (.sent stored call)]) <+: events →
    Owes (num n) (Net.history n past) call

/-- One more event, which owes what it acknowledges if it is one. -/
theorem AcksOwed.snoc (h : AcksOwed num events) {event : NetEvent ι}
    (hlast : ∀ n stored call, event = .did n (.sent stored call) →
      Owes (num n) (Net.history n events) call) : AcksOwed num (events ++ [event]) := by
  intro past n stored call hfront
  rcases List.prefix_concat_iff.mp hfront with heq | hbefore
  · obtain ⟨rfl, hevent⟩ := List.append_inj' heq rfl
    exact hlast n stored call (List.singleton_inj.mp hevent).symm
  · exact h past n stored call hbefore

theorem AcksOwed.sent (h : AcksOwed num events) (stored : UInt32) {call : EncodeCall}
    (howes : Owes (num n) (Net.history n events) call) :
    AcksOwed num (events ++ [.did n (.sent stored call)]) := by
  refine h.snoc fun m stored' call' hevent => ?_
  cases hevent
  exact howes

/-- Events in which nothing is sent owe nothing. -/
theorem AcksOwed.append (h : AcksOwed num events) {more : List (NetEvent ι)}
    (hsilent : ∀ n stored call, .did n (.sent stored call) ∉ more) :
    AcksOwed num (events ++ more) := by
  induction more using List.reverseRecOn with
  | nil => rwa [List.append_nil]
  | append_singleton more event ih =>
    rw [← List.append_assoc]
    refine (ih fun n stored call hmem => hsilent n stored call (List.mem_append_left _ hmem)).snoc
      fun n stored call hevent => ?_
    exact absurd (List.mem_append_right more (hevent ▸ List.mem_singleton_self _))
      (hsilent n stored call)

namespace Net

/-- What holds of the stations and of the air after `events`. -/
structure Inv (num : ι → UInt32) (key : TmKey) (events : List (NetEvent ι)) (net : Net ι) :
    Prop where
  station : ∀ n, (net.station n).Inv (num n) key (history n events)
  air : ∀ frame ∈ net.air, Traced events frame
  heard : ∀ n frame rx, .did n (.heard frame rx) ∈ events → Traced events frame

theorem Fresh.inv (h : net.Fresh seed) : net.Inv num key [] where
  station n := Station.inv_fresh (h.ids_eq n)
  air _ hframe := absurd (h.air_eq ▸ hframe) List.not_mem_nil
  heard _ _ _ hmem := absurd hmem List.not_mem_nil

namespace Inv

/-- What a station sent was its own to send. -/
theorem justified (inv : net.Inv num key events) (hmem : .did n e ∈ events) :
    Justified (num n) key (history n events) e :=
  (inv.station n).justified e (mem_history.mpr hmem)

/-- A frame that a station received is traced. -/
theorem traced_of_heardAmong (inv : net.Inv num key events)
    (h : HeardAmong (history n events) frame) : Traced events frame := by
  obtain ⟨rx, hmem⟩ := h
  exact inv.heard n frame rx (mem_history.mp hmem)

/-- A frame that a station sent before is traced. -/
theorem traced_of_sentAmong {id : UInt32} (h : SentAmong (history n events) frame id) :
    Traced events frame := by
  obtain ⟨stored, call, hmem, rfl, -⟩ := h
  exact ⟨n, stored, call, mem_history.mp hmem, .built call⟩

/-- **What goes on the air** is a copy of what was sent. -/
theorem traced_of_emitted (inv : net.Inv num key events)
    (hjustified : Justified (num n) key (history n events) e) (hframe : frame ∈ e.emitted) :
    Traced (events ++ [.did n e]) frame := by
  cases e with
  | sent stored call =>
    obtain rfl := List.mem_singleton.mp hframe
    exact ⟨n, stored, call, List.mem_append_right _ (List.mem_singleton_self _), .built call⟩
  | resent frame =>
    obtain rfl := List.mem_singleton.mp hframe
    obtain ⟨id, hsent⟩ := hjustified
    exact (traced_of_sentAmong hsent).snoc _
  | relayed frame =>
    obtain rfl := List.mem_singleton.mp hframe
    obtain ⟨received, relayHopLimit, hheard, rfl⟩ := hjustified
    obtain ⟨m, stored, call, hmem, hcopy⟩ := inv.traced_of_heardAmong hheard
    exact ⟨m, stored, call, List.mem_append_left _ hmem, hcopy.relay relayHopLimit _⟩
  | identifiers | heard | retired | reaped | asked => exact absurd hframe List.not_mem_nil

/-- What is heard was in the air. -/
theorem traced_of_step (inv : net.Inv num key events) {s' : Station}
    {rx : TmRx} (hstep : Station.Step (num n) key net.air (net.station n) (.heard frame rx) s') :
    Traced events frame := by
  cases hstep with
  | hear hpower hair hcall => exact inv.air frame hair

/-- A station moves. -/
theorem move (inv : net.Inv num key events) {s' : Station}
    (hmove : Station.Step (num n) key net.air (net.station n) e s') :
    Net.Inv num key (events ++ [.did n e])
      ⟨Function.update net.station n s', net.air ++ e.emitted⟩ := by
  constructor
  case station =>
    intro m
    by_cases hm : m = n
    · subst hm
      dsimp only
      rw [Function.update_self, history_snoc_self]
      exact (inv.station m).step hmove
    · dsimp only
      rw [Function.update_of_ne hm, history_snoc_of_ne (Ne.symm hm)]
      exact inv.station m
  case air =>
    intro frame hframe
    rcases List.mem_append.mp hframe with hbefore | hnew
    · exact (inv.air frame hbefore).snoc _
    · exact inv.traced_of_emitted ((inv.station n).justified_step hmove) hnew
  case heard =>
    intro m frame rx hmem
    rcases List.mem_append.mp hmem with hbefore | hnew
    · exact (inv.heard m frame rx hbefore).snoc _
    · cases List.mem_singleton.mp hnew
      exact (inv.traced_of_step hmove).snoc _

/-- What is left after a frame was lost was there before. -/
theorem lose (inv : net.Inv num key events) {before after : List (List UInt8)}
    (hair : net.air = before ++ frame :: after) :
    Net.Inv num key (events ++ [.lost]) { net with air := before ++ after } where
  station m := by
    rw [history_snoc, NetEvent.doneBy, Option.toList_none, List.append_nil]
    exact inv.station m
  air f hf := by
    apply Traced.snoc
    apply inv.air
    rw [hair]
    exact List.Sublist.mem hf (List.Sublist.append_left (List.sublist_cons_self _ _) _)
  heard m f rx hmem := by
    rcases List.mem_append.mp hmem with hbefore | hnew
    · exact (inv.heard m f rx hbefore).snoc _
    · cases List.mem_singleton.mp hnew

/-- **Step lemma** of the net. -/
theorem step (inv : net.Inv num key events) {event : NetEvent ι}
    (hstep : Step num key net event net') : net'.Inv num key (events ++ [event]) := by
  cases hstep with
  | move hmove => exact inv.move hmove
  | lose hair => exact inv.lose hair

end Inv

/-- **Run lemma.** -/
theorem Inv.run (inv : net.Inv num key events) {more : List (NetEvent ι)}
    (hrun : Run (Step num key) net more net') : net'.Inv num key (events ++ more) := by
  induction hrun with
  | nil => rwa [List.append_nil]
  | snoc _ hstep ih =>
    rw [← List.append_assoc]
    exact ih.step hstep

/-- The invariant holds after every run. -/
theorem inv_of_run (hfresh : net.Fresh seed) (run : Run (Step num key) net events net') :
    net'.Inv num key events := hfresh.inv.run run

end Net

/-- The report on a frame repeats its header. -/
theorem rxReport_header (h : Header) (duplicate : Bool) (decision : Relay) :
    (rxReport h duplicate decision).fromNode = h.fromNode ∧
      (rxReport h duplicate decision).toNode = h.toNode ∧
      (rxReport h duplicate decision).id = h.id ∧
      (rxReport h duplicate decision).wantAck = h.wantAck.toUInt8 := by
  cases decision with
  | no | after => exact ⟨rfl, rfl, rfl, rfl⟩

/-- **A received frame reads as it was sent.** In every run, what a station receives is a copy of
a frame that was built before by the station it names as its sender, with its own number and an
identifier that it issued; the report says so, and names the node it was sent to; and it opens to
what the encoder was given. -/
theorem received_was_sent (hfresh : net.Fresh seed)
    (run : Run (Net.Step num key) net events net') {rx : TmRx}
    (hevents : events = past ++ .did n (.heard frame rx) :: rest) :
    ∃ m stored call, .did m (.sent stored call) ∈ past ∧ call.IsCopy frame ∧
      call.fromNode = num m ∧
      call.id ∈ issuedIds ((Net.history m past).flatMap StationEvent.idEvents) ∧
      rx.fromNode = num m ∧ rx.toNode = call.toNode ∧ rx.id = call.id ∧
      rx.wantAck = call.wantsAck.toUInt8 ∧ call.Reads key frame := by
  subst hevents
  obtain ⟨t, t', hpast, hstep, -⟩ := run.step_at
  have inv := Net.inv_of_run hfresh hpast
  cases hstep with | move hmove
  obtain ⟨m, stored, call, hsent, hcopy⟩ := inv.traced_of_step hmove
  obtain ⟨hown, huses, hpos⟩ := inv.justified hsent
  obtain ⟨h, hdec, limit, relayNode, rfl⟩ := hcopy.exists_header hpos huses
  have hissued : call.id ∈ issuedIds ((Net.history m past).flatMap StationEvent.idEvents) :=
    List.mem_filterMap.mpr ⟨.issued call.id stored,
      List.mem_flatMap_of_mem (Net.mem_history.mpr hsent) (List.mem_singleton_self _), rfl⟩
  refine ⟨m, stored, call, hsent, hcopy, hown, hissued, ?_⟩
  cases hmove with
  | hear hpower hair hcall =>
    rw [tmRxObserve_decoded hdec] at hcall
    cases hcall
    obtain ⟨hfrom, hto, hid, hwants⟩ := rxReport_header _ _ _
    exact ⟨hfrom.trans hown, hto, hid, hwants, hcopy.reads hpos huses⟩

/-- The second of two stations hears the text of the first, and reads it. -/
theorem received_was_sent_pair : ∃ events rx net,
    Run (Net.Step pairNum pairKey) pair
      (events ++ [.did true (.heard (built pairText.answer) rx)]) net ∧
      ∃ m stored call, .did m (.sent stored call) ∈ events ∧
        call.IsCopy (built pairText.answer) ∧ rx.fromNode = pairNum m ∧ rx.id = call.id ∧
        call.Reads pairKey (built pairText.answer) := by
  obtain ⟨events, net, run, -, -, hwants, hready, hair, hlen, -⟩ := exists_pair_waiting
  obtain ⟨rx, net', hstep, -⟩ := exists_heard pairNum pairKey hready.powered
    (hair ▸ List.mem_singleton_self _) hlen
  obtain ⟨m, stored, call, hsent, hcopy, -, -, hfrom, -, hid, -, hreads⟩ :=
    received_was_sent pair_fresh (run.snoc hstep) rfl
  exact ⟨events, rx, net', run.snoc hstep, m, stored, call, hsent, hcopy, hfrom, hid, hreads⟩

end TetherMesh.Network
