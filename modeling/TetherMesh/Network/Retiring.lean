import TetherMesh.Network.Delivery

/-!
# What an acknowledgement stands for

Identifiers outlive the memory of their station, so an acknowledgement that reaches its
addressee names one frame only. If acknowledgements are sent only for what was received, that
frame has been received by the node it was sent to. And a frame that waits with an attempt left
can always be retired, whatever was lost: it is sent again, and then its addressee may hear it,
answer, and be heard.

## Main results

* `Net.Inv.exists_resent` — what waits with an attempt left can be put on the air again
* `retired_was_received` — no acknowledgement is false
* `waiting_can_be_retired` — no frame waits in vain
-/

namespace TetherMesh.Network

open CApi CS Math Protocol

/-- What is due can be sent again. -/
theorem Station.exists_resend {num : UInt32} {key : TmKey} {air : List (List UInt8)} {s : Station}
    {nowUs : UInt64} {i : Fin outboxSlots} (hpower : s.Powered) (hduty : Uncharged s.ctx.duty)
    (hi : s.ob.inner.dueSlot nowUs = some i) (hpos : 0 < (s.ob.inner.slot i).bytes.length) :
    ∃ ctx', Station.Step num key air s (.resent (s.ob.inner.slot i).bytes)
      { s with ctx := ctx', ob := ⟨s.ob.inner.put i (s.ob.inner.attempted i nowUs)⟩ } := by
  have hpermit : (s.ctx.duty.wouldPermit nowUs 0).1 = true := hduty.permits (Nat.zero_le _)
  obtain ⟨answer, hcall, hcode, hbytes, hob, hctx⟩ := exists_handedOut hi hpermit
  have hanswer : 0 < answer.code := by
    rw [hcode]
    exact_mod_cast hpos
  rw [← hbytes]
  exact ⟨_, .resend hpower hcall hanswer hctx hob⟩

/-- What acknowledges a request that was received is owed. -/
theorem owes_of_heard {num : UInt32} {key : TmKey} {done : List StationEvent} {request : List UInt8}
    {call answer : EncodeCall} (hcopy : call.IsCopy request) (hpos : 0 < call.answer.1)
    (huses : call.Uses key) (hheard : HeardAmong done request)
    (hwants : tmWantsAck (some request) num = 1) (hto : answer.toNode = call.fromNode)
    (hanswer : answer.requestId = some call.id) : Owes num done answer := by
  intro requestId hrequest
  obtain rfl := Option.some.inj (hanswer.symm.trans hrequest)
  obtain ⟨h, hdec, limit, relayNode, rfl⟩ := hcopy.exists_header hpos huses
  let old : TmHeader := ⟨0, 0, 0, 0, 0, 0, 0, 0, 0, 0⟩
  obtain ⟨peeked, hpeek, hfrom, hid⟩ : ∃ peeked,
      tmHeaderPeek (some request) (some old) = (tmOk, some peeked) ∧
        peeked.fromNode = call.fromNode ∧ peeked.id = call.id := by
    rw [tmHeaderPeek, Frame.peekHeader, hdec]
    exact ⟨_, rfl, rfl, rfl⟩
  exact ⟨request, hheard, old, peeked, hwants, hpeek, hfrom.trans hto.symm, hid⟩

/-- A station that received the acknowledgement of what waits can retire it. -/
theorem Station.exists_retire {num : UInt32} {key : TmKey} {air : List (List UInt8)} {s : Station}
    {frame : List UInt8} {id : UInt32} {answer : EncodeCall} (hpower : s.Powered)
    (hwaits : s.ob.Waits frame id) (hid : id ≠ 0) {fromNode toNode replyId : UInt32}
    {hopLimit channelHash : UInt8} {dst : List UInt8}
    (hanswer : answer =
      .ack fromNode toNode replyId id hopLimit channelHash (some key) (some dst))
    (hpos : 0 < answer.answer.1) (hchannel : channelHash ≠ 0)
    (hreceived : built answer.answer ∈ s.received) : ∃ ob',
      Station.Step num key air s (.retired (built answer.answer) (s.ob.freed ob'))
        { s with ob := ob' } ∧
      frame ∈ s.ob.freed ob' ∧ ∀ other, ¬ ob'.Waits other id := by
  subst hanswer
  have hnot : tmIsPki (some (built (EncodeCall.ack fromNode toNode replyId id hopLimit channelHash
      (some key) (some dst)).answer)) = 0 := by
    rw [tmIsPki_built _ hpos]
    exact if_neg fun hdirect => hchannel hdirect.1
  have hack := tmAcknowledges_ack hpos [] 0 0 none
  rw [if_neg hid] at hack
  obtain ⟨ob', hretired, hfreed, hquiet⟩ := exists_retired_waits hwaits
  exact ⟨ob', .retire hpower hreceived hnot hack hretired, hfreed, hquiet⟩

variable {ι : Type*} [DecidableEq ι] {num : ι → UInt32} {key : TmKey} {seed : ι → UInt32}
  {net net' : Net ι} {events past rest : List (NetEvent ι)} {frame : List UInt8} {n m : ι}
  {id : UInt32}

namespace Net.Inv

/-- What a station sent before was built by a call of its own. -/
theorem exists_call (inv : net.Inv num key events)
    (hsent : SentAmong (history n events) frame id) : ∃ stored call,
      .did n (.sent stored call) ∈ events ∧ frame = built call.answer ∧ call.id = id ∧
        call.fromNode = num n ∧ call.Uses key ∧ 0 < call.answer.1 := by
  obtain ⟨stored, call, hmem, hframe, hid⟩ := hsent
  have hmem' := mem_history.mp hmem
  exact ⟨stored, call, hmem', hframe, hid, inv.justified hmem'⟩

/-! ## Sending again -/

/-- An entry that waits with an attempt left can be put on the air, as soon as it is due. -/
theorem exists_resent_of_due (inv : net.Inv num key events) (hpower : (net.station n).Powered)
    {i : Fin outboxSlots} {nowUs : UInt64}
    (hpend : ((net.station n).ob.inner.slot i).state = .pending)
    (hleft : ((net.station n).ob.inner.slot i).attempts <
      (net.station n).ob.inner.policy.maxAttempts)
    (hdue : ((net.station n).ob.inner.slot i).dueUs ≤ nowUs) :
    ∃ more net', Run (Net.Step num key) net more net' ∧
      (∀ e ∈ more, ∃ f, e = .did n (.resent f)) ∧
      ((net.station n).ob.inner.slot i).bytes ∈ net'.air ∧ (net'.station n).Powered ∧
      (net'.station n).ob.Waits ((net.station n).ob.inner.slot i).bytes
        ((net.station n).ob.inner.slot i).id ∧
      ∀ m, m ≠ n → net'.station m = net.station m := by
  -- other entries that are due may come first, but each of them uses an attempt up
  induction hcount : (net.station n).ob.attemptsLeft using Nat.strong_induction_on
    generalizing net events
  rename_i count ih
  obtain ⟨j, hj⟩ : ∃ j, (net.station n).ob.inner.dueSlot nowUs = some j := by
    refine Option.ne_none_iff_exists'.mp fun hnone => ?_
    exact List.find?_eq_none.mp hnone i (List.mem_finRange i) (decide_eq_true ⟨hpend, hleft, hdue⟩)
  have hold := (inv.station n).memory hpower
  obtain ⟨-, call, -, hframe, -, -, huses, hpos⟩ :=
    inv.exists_call (hold.waits _ _ ⟨j, (Outbox.dueSlot_spec hj).1, rfl, rfl⟩)
  obtain ⟨h, hdec, -⟩ := (EncodeCall.IsCopy.built call).exists_header hpos huses
  rw [← hframe] at hdec
  have hlen : 0 < ((net.station n).ob.inner.slot j).bytes.length :=
    (Header.le_length_of_decode hdec).trans_lt' (by norm_num)
  obtain ⟨ctx', hmove⟩ := Station.exists_resend hpower hold.duty hj hlen
  obtain ⟨net₁, hstep₁, hstation₁, hothers₁, hair₁⟩ := Net.exists_step hmove
  have hpower₁ : (net₁.station n).Powered := by
    rw [hstation₁]
    exact hpower
  by_cases hij : i = j
  · subst hij
    refine ⟨_, net₁, .single hstep₁, fun e he => ⟨_, List.mem_singleton.mp he⟩, ?_, hpower₁, ?_,
      hothers₁⟩
    · rw [hair₁]
      exact List.mem_append_right _ (List.mem_singleton_self _)
    · rw [hstation₁]
      refine ⟨i, ?_⟩
      dsimp only
      rw [Outbox.slot_put_self]
      exact ⟨hpend, rfl, rfl⟩
  · have hslot : (net₁.station n).ob.inner.slot i = (net.station n).ob.inner.slot i := by
      rw [hstation₁]
      exact Outbox.slot_put_of_ne _ _ hij
    have hpolicy : (net₁.station n).ob.inner.policy = (net.station n).ob.inner.policy := by
      rw [hstation₁]
      rfl
    have hless : (net₁.station n).ob.attemptsLeft < count := by
      rw [hstation₁, ← hcount]
      exact attemptsLeft_attempted_lt hj
    rw [← hslot] at hpend hleft hdue ⊢
    rw [← hpolicy] at hleft
    obtain ⟨more, net', hrun, hmore, hair, hpower', hwaits, hothers⟩ :=
      ih _ hless (inv.step hstep₁) hpower₁ hpend hleft hdue rfl
    exact ⟨_, net', .cons hstep₁ hrun, List.forall_mem_cons.mpr ⟨⟨_, rfl⟩, hmore⟩, hair, hpower',
      hwaits, fun m hm => (hothers m hm).trans (hothers₁ m hm)⟩

/-- **What waits with an attempt left** can be put on the air again. -/
theorem exists_resent (inv : net.Inv num key events) (hpower : (net.station n).Powered)
    (hretries : (net.station n).ob.Retries frame id) :
    ∃ more net', Run (Net.Step num key) net more net' ∧
      (∀ e ∈ more, ∃ f, e = .did n (.resent f)) ∧ frame ∈ net'.air ∧ (net'.station n).Powered ∧
      (net'.station n).ob.Waits frame id ∧ ∀ m, m ≠ n → net'.station m = net.station m := by
  obtain ⟨i, hpend, rfl, rfl, hleft⟩ := hretries
  exact inv.exists_resent_of_due hpower hpend hleft (UInt64.le_refl _)

/-! ## Being answered -/

/-- While a frame waits and a copy of it is in the air, its addressee may hear that, answer as it
owes, and be heard. -/
theorem exists_answered (inv : net.Inv num key events) (hne : m ≠ n)
    (hpower : (net.station n).Powered) (hwaits : (net.station n).ob.Waits frame id)
    (relays : List (UInt8 × UInt32)) (hair : relayChain frame relays ∈ net.air)
    (hid : id ≠ 0) (hwants : tmWantsAck (some frame) (num m) = 1) {replyId : UInt32}
    (hready : (net.station m).Ready replyId) :
    ∃ more last reply entries,
      Run (Net.Step num key) net (more ++ [.did n (.retired reply entries)]) last ∧
      (∀ h, Header.decode reply = some h → h.toNode = num n) ∧ frame ∈ entries ∧
      (∀ other, ¬ (last.station n).ob.Waits other id) ∧
      (AcksOwed num events →
        AcksOwed num (events ++ (more ++ [.did n (.retired reply entries)]))) := by
  obtain ⟨stored, call, -, rfl, hcall, hown, huses, hpos⟩ :=
    inv.exists_call (((inv.station n).memory hpower).waits frame id hwaits)
  have hcopy : call.IsCopy (relayChain (built call.answer) relays) := ⟨relays, rfl⟩
  obtain ⟨h, hdec, limit, relayNode, rfl⟩ := hcopy.exists_header hpos huses
  -- the addressee hears the copy
  obtain ⟨rx, net₁, hstep₁, hids₁, -, -, hothers₁⟩ :=
    exists_heard num key hready.powered hair (Header.le_length_of_decode hdec)
  have hready₁ : (net₁.station m).Ready replyId := by
    rw [Station.Ready, hids₁]
    exact hready
  -- it answers
  let answer : EncodeCall := .ack (num m) (num n) replyId id 3 1 (some key)
    (some (List.replicate 27 0))
  have hpos' : 0 < answer.answer.1 := tmAckEncode_pos List.length_replicate.ge
  obtain ⟨stored', net₂, hstep₂, -, -, hothers₂, hair₂⟩ :=
    exists_sent hready₁ (rfl : answer.id = replyId) rfl rfl hpos' (.inl rfl)
  have howes : Owes (num m)
      (history m (events ++ [.did m (.heard (relayChain (built call.answer) relays) rx)]))
      answer := by
    refine owes_of_heard hcopy hpos huses
      ⟨rx, mem_history.mpr (List.mem_append_right _ (List.mem_singleton_self _))⟩ ?_ hown.symm
      (congrArg some hcall.symm)
    rw [hcopy.tmWantsAck_iff hpos huses]
    exact ((EncodeCall.IsCopy.built call).tmWantsAck_iff hpos huses _).mp hwants
  -- the sender, which has not moved, hears the answer
  have hsame : net₂.station n = net.station n :=
    (hothers₂ n hne.symm).trans (hothers₁ n hne.symm)
  obtain ⟨h', hdec', limit', relayNode', rfl⟩ :=
    (EncodeCall.IsCopy.built answer).exists_header hpos' (rfl : answer.Uses key)
  obtain ⟨rx', net₃, hstep₃, hids₃, hob₃, hreceived₃, -⟩ :=
    exists_heard num key (hsame ▸ hpower) (hair₂ ▸ List.mem_append_right _
      (List.mem_singleton_self _)) (Header.le_length_of_decode hdec')
  -- and recognises it
  rw [← hsame, ← hob₃] at hwaits
  have hpower₃ : (net₃.station n).Powered := by
    rw [Station.Powered, hids₃, hsame]
    exact hpower
  obtain ⟨ob', hretire, hfreed, hquiet⟩ :=
    Station.exists_retire hpower₃ hwaits hid (rfl : answer = _) hpos' (by decide) hreceived₃
  obtain ⟨last, hstep₄, hstation₄, -⟩ := Net.exists_step hretire
  refine ⟨_, last, _, _, .snoc (.cons hstep₁ (.cons hstep₂ (.single hstep₃))) hstep₄,
    fun h hh => ?_, hfreed, ?_, fun hacks => ?_⟩
  · obtain rfl := Option.some.inj (hdec'.symm.trans hh)
    rfl
  · rw [hstation₄]
    exact hquiet
  · have hheard : AcksOwed num
        (events ++ [.did m (.heard (relayChain (built call.answer) relays) rx)]) :=
      hacks.append (by simp)
    have hsilent : ∀ k stored c, NetEvent.did k (.sent stored c) ∉
        [NetEvent.did n (.heard (built answer.answer) rx'),
          .did n (.retired (built answer.answer) ((net₃.station n).ob.freed ob'))] := by simp
    have hlast := (hheard.sent stored' howes).append hsilent
    rwa [List.append_assoc, List.append_assoc] at hlast

/-- **While a frame waits**, and a copy of it is in the air or an attempt is left, it can be
retired. -/
theorem exists_retired (inv : net.Inv num key events) (hne : m ≠ n)
    (hpower : (net.station n).Powered) (hwaits : (net.station n).ob.Waits frame id)
    (hleft : (∃ relays, relayChain frame relays ∈ net.air) ∨
      (net.station n).ob.Retries frame id)
    (hid : id ≠ 0) (hwants : tmWantsAck (some frame) (num m) = 1) {replyId : UInt32}
    (hready : (net.station m).Ready replyId) :
    ∃ more last reply entries,
      Run (Net.Step num key) net (more ++ [.did n (.retired reply entries)]) last ∧
      (∀ h, Header.decode reply = some h → h.toNode = num n) ∧ frame ∈ entries ∧
      (∀ other, ¬ (last.station n).ob.Waits other id) ∧
      (AcksOwed num events →
        AcksOwed num (events ++ (more ++ [.did n (.retired reply entries)]))) := by
  rcases hleft with ⟨relays, hair⟩ | hretries
  · exact inv.exists_answered hne hpower hwaits relays hair hid hwants hready
  · obtain ⟨more₁, net₁, run₁, hmore₁, hair₁, hpower₁, hwaits₁, hothers₁⟩ :=
      inv.exists_resent hpower hretries
    have hready₁ : (net₁.station m).Ready replyId := by
      rw [hothers₁ m hne]
      exact hready
    obtain ⟨more, last, reply, entries, run, hreply, hentries, hquiet, hacks⟩ :=
      (inv.run run₁).exists_answered hne hpower₁ hwaits₁ [] hair₁ hid hwants hready₁
    refine ⟨more₁ ++ more, last, reply, entries, ?_, hreply, hentries, hquiet, fun h => ?_⟩
    · rw [List.append_assoc]
      exact run₁.append run
    · rw [List.append_assoc, ← List.append_assoc]
      refine hacks (h.append fun k stored call hmem => ?_)
      obtain ⟨f, hf⟩ := hmore₁ _ hmem
      cases hf

end Net.Inv

/-- **No acknowledgement is false.** In every run of stations with different numbers, with any
losses of frames and of power, in which acknowledgements are sent only for requests that were
received: when a station takes what it received for an acknowledgement that is addressed to it,
each frame its outbox drops has been received, after some relays, by a station that it is
addressed to and asks to be acknowledged by. -/
theorem retired_was_received (hnum : Function.Injective num) (hfresh : net.Fresh seed)
    (run : Run (Net.Step num key) net events net') (hacks : AcksOwed num events)
    {reply : List UInt8} {entries : List (List UInt8)}
    (hevents : events = past ++ .did n (.retired reply entries) :: rest)
    (haddressed : ∀ h, Header.decode reply = some h → h.toNode = num n) :
    ∀ entry ∈ entries, ∃ m request rx relays, .did m (.heard request rx) ∈ past ∧
      request = relayChain entry relays ∧ tmWantsAck (some request) (num m) = 1 := by
  subst hevents
  obtain ⟨t, t', hpast, hstep, -⟩ := run.step_at
  have inv := Net.inv_of_run hfresh hpast
  cases hstep with | move hmove
  obtain ⟨hheard, hchannel, payloadOut, lenOut, oldId, outStatus, requestId, status, hack,
    hentries⟩ := (inv.station n).justified_step hmove
  intro entry hentry
  -- the reply is a copy of an acknowledgement that some station sent
  obtain ⟨m, stored, answer, hanswer, hcopy⟩ := inv.traced_of_heardAmong hheard
  obtain ⟨-, huses, hpos⟩ := inv.justified hanswer
  have hrequest := hcopy.acknowledges hpos huses hchannel hack
  obtain ⟨h, hdec, limit, relayNode, rfl⟩ := hcopy.exists_header hpos huses
  have hto : answer.toNode = num n := haddressed _ hdec
  -- and that station had received a request with this identifier from this one
  obtain ⟨before, after, rfl⟩ := List.append_of_mem hanswer
  obtain ⟨request, hreceived, old, peeked, hwants, hpeek, hfrom, hid⟩ :=
    hacks before m stored answer ⟨after ++ .did n (.retired reply entries) :: rest, by simp⟩
      requestId hrequest
  obtain ⟨rx, hreceived⟩ := hreceived.mono (Net.history_subset m before _)
  obtain ⟨k, stored', asked, hasked, hcopied⟩ := inv.traced_of_heardAmong ⟨rx, hreceived⟩
  obtain ⟨hown, huses', hpos'⟩ := inv.justified hasked
  obtain ⟨h', hdec', limit', relayNode', rfl⟩ := hcopied.exists_header hpos' huses'
  rw [tmHeaderPeek, Frame.peekHeader, hdec'] at hpeek
  cases hpeek
  have hfrom' : asked.fromNode = answer.toNode := hfrom
  have hid' : asked.id = requestId := hid
  -- identifiers being unique at their station, it is the frame that waited
  obtain rfl : k = n := hnum (hown.symm.trans (hfrom'.trans hto))
  obtain ⟨stored'', call, hsent, rfl, hcall⟩ := hentries entry hentry
  obtain rfl : asked = call :=
    (inv.station k).call_eq_of_id (Net.mem_history.mpr hasked) hsent (hid'.trans hcall.symm)
  obtain ⟨relays, rfl⟩ := hcopied
  exact ⟨m, _, rx, relays, Net.mem_history.mp hreceived, rfl, hwants⟩

/-- A text that asks for nothing is no acknowledgement. -/
theorem acksOwed_pair {events : List (NetEvent Bool)}
    (hevents : ∀ n stored call, .did n (.sent stored call) ∈ events → call = pairText) :
    AcksOwed pairNum events := by
  intro past n stored call hfront requestId hrequest
  obtain rfl := hevents n stored call
    (hfront.subset (List.mem_append_right _ (List.mem_singleton_self _)))
  cases hrequest

/-- The text of the first station is acknowledged by the second, which has received it. -/
theorem retired_was_received_pair : ∃ events net reply entries request relays,
    Run (Net.Step pairNum pairKey) pair (events ++ [.did false (.retired reply entries)]) net ∧
      built pairText.answer ∈ entries ∧ request = relayChain (built pairText.answer) relays ∧
      ∃ m rx, .did m (.heard request rx) ∈ events ∧ tmWantsAck (some request) (pairNum m) = 1 := by
  obtain ⟨events, net, run, hpower, hretries, hwants, hready, -, -, -, hsent⟩ := exists_pair_waiting
  obtain ⟨more, last, reply, entries, run', haddressed, hmem, -, hacks⟩ :=
    (Net.inv_of_run pair_fresh run).exists_retired (by simp) hpower hretries.waits (.inr hretries)
      (by simp) hwants hready
  have hrun := run.append run'
  have hacks' := hacks (acksOwed_pair hsent)
  rw [← List.append_assoc] at hrun hacks'
  obtain ⟨m, request, rx, relays, hheard, hrequest, hasked⟩ :=
    retired_was_received pairNum_injective pair_fresh hrun hacks' rfl haddressed _ hmem
  exact ⟨_, last, reply, entries, request, relays, hrun, hmem, hrequest, m, rx, hheard, hasked⟩

/-- **A waiting frame can be retired.** In every reachable state, whatever was lost, let a frame
wait in the outbox of a station that has power, under an identifier that is not zero, with an
attempt left or with a copy of it still in the air, and let another station with power, to which
the frame is addressed, have an identifier to issue. Then a run leads from there to the frame being
retired, upon which nothing waits under its identifier; if all acknowledgements were owed before,
they are in this run. -/
theorem waiting_can_be_retired (hfresh : net.Fresh seed)
    (run : Run (Net.Step num key) net events net') (hne : m ≠ n)
    (hpower : (net'.station n).Powered) (hwaits : (net'.station n).ob.Waits frame id)
    (hleft : (∃ relays, relayChain frame relays ∈ net'.air) ∨
      (net'.station n).ob.Retries frame id)
    (hid : id ≠ 0) (hwants : tmWantsAck (some frame) (num m) = 1) {replyId : UInt32}
    (hready : (net'.station m).Ready replyId) :
    ∃ more last reply entries,
      Run (Net.Step num key) net' (more ++ [.did n (.retired reply entries)]) last ∧
      (∀ h, Header.decode reply = some h → h.toNode = num n) ∧ frame ∈ entries ∧
      (∀ other, ¬ (last.station n).ob.Waits other id) ∧
      (AcksOwed num events →
        AcksOwed num (events ++ (more ++ [.did n (.retired reply entries)]))) :=
  (Net.inv_of_run hfresh run).exists_retired hne hpower hwaits hleft hid hwants hready

/-- The text of the first station is lost, and can be retired all the same. -/
theorem waiting_can_be_retired_pair : ∃ events net more last reply entries,
    Run (Net.Step pairNum pairKey) pair (events ++ [.lost]) net ∧ net.air = [] ∧
      (net.station false).ob.Waits (built pairText.answer) 7 ∧
      Run (Net.Step pairNum pairKey) net (more ++ [.did false (.retired reply entries)]) last ∧
      built pairText.answer ∈ entries := by
  obtain ⟨events, net, run, hpower, hretries, hwants, hready, hair, -⟩ := exists_pair_waiting
  have run' := run.snoc (.lose (hair.trans (List.nil_append _).symm))
  obtain ⟨more, last, reply, entries, run'', -, hmem, -⟩ :=
    waiting_can_be_retired pair_fresh run' (by simp) hpower hretries.waits (.inr hretries) (by simp)
      hwants hready
  exact ⟨events, _, more, last, reply, entries, run', rfl, hretries.waits, run'', hmem⟩

end TetherMesh.Network
