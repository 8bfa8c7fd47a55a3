import TetherMesh.CApi.HeldBack

/-!
# A queued frame that somebody else was heard relaying

`tm_rx_observe` takes a flag for a frame that the caller has queued and has since heard
somebody else send. A frame is queued only after it has been observed, and an observed
packet is a duplicate; duplicates are looked for first. So the flag has no effect on the
frames it is meant for, and decides only about packets the history has lost.

## Main definitions

* `ReportsOther` — the report says that another node relayed the frame

## Main results

* `reportsOther_iff` — that reason is given for new packets only
* `queued_frame_reported_duplicate`
-/

namespace TetherMesh.CApi

open CS Protocol

variable {c c₁ c₂ : TmCtx} {frame copy : List UInt8} {h : Header} {snrQ4 snrQ4' : Int16}
  {airtimeUs airtimeUs' : Micros} {nowUs nowUs' : UInt64} {heardRelayed heardRelayed' : UInt8}
  {out out' rx : TmRx}

/-- Observing `frame` reports that another node relayed it. -/
def ReportsOther (c : TmCtx) (frame : List UInt8) (snrQ4 : Int16) (airtimeUs : Micros)
    (nowUs : UInt64) (heardRelayed : UInt8) (out : TmRx) : Prop :=
  ∃ c' rx, tmRxObserve (some c) (some frame) snrQ4 airtimeUs nowUs heardRelayed (some out) =
    (tmOk, some c', some rx) ∧ rx.suppressed = suppressedCode .alreadyRelayedByAnother

/-- A frame to be relayed was new, and has been observed. -/
theorem observed_of_relay (hdec : Header.decode frame = some h)
    (hfirst : tmRxObserve (some c) (some frame) snrQ4 airtimeUs nowUs heardRelayed (some out) =
      (tmOk, some c₁, some rx))
    (hrelay : rx.relay = 1) :
    c.history.contains h.fromNode h.id = false ∧
      c₁.history = (c.history.observe h.fromNode h.id).2 ∧ c₁.role = c.role ∧
      rx.fromNode = h.fromNode ∧ rx.id = h.id := by
  rw [tmRxObserve_decoded hdec] at hfirst
  dsimp only at hfirst
  rw [← observedOf_duplicate c h snrQ4 airtimeUs heardRelayed]
  generalize observedOf c h snrQ4 airtimeUs heardRelayed = observed at hfirst ⊢
  cases hanswer : shouldRelay observed c.role c.window c.duty nowUs with
  | mk decision duty =>
    rw [hanswer] at hfirst
    cases decision with
    | no reason =>
      cases hfirst
      exact absurd hrelay (by decide : (0 : UInt8) ≠ 1)
    | after windowSlots hopLimit =>
      cases hfirst
      exact ⟨(shouldRelay_eq_after hanswer).1, rfl, rfl, rfl, rfl⟩

/-- **Another node's relay is reported for new packets only.** The node is one that defers to
others, has hops left to spend, and is told that somebody else was heard. -/
theorem reportsOther_iff (hdec : Header.decode frame = some h) (hrole : c.role = .client)
    (hhops : h.hopLimit ≠ 0) (hheard : heardRelayed ≠ 0) :
    ReportsOther c frame snrQ4 airtimeUs nowUs heardRelayed out ↔
      c.history.contains h.fromNode h.id = false := by
  rw [ReportsOther, tmRxObserve_decoded hdec]
  dsimp only
  have hdefer : ((observedOf c h snrQ4 airtimeUs heardRelayed).heardRelayed &&
      c.role.defersToOthers) = true := by
    rw [hrole, observedOf, decide_eq_true hheard]
    rfl
  rw [← observedOf_duplicate c h snrQ4 airtimeUs heardRelayed]
  rcases shouldRelay_cases (observedOf c h snrQ4 airtimeUs heardRelayed) c.role c.window c.duty
    nowUs with ⟨hseen, heq⟩ | ⟨-, hzero, -⟩ | ⟨hnew, -, -, heq⟩ | ⟨-, -, hnot, -⟩
  · -- a packet that is remembered is a duplicate before anything else is asked
    rw [heq, hseen]
    constructor
    · rintro ⟨c', rx, hcall, hreason⟩
      cases hcall
      exact absurd hreason (by decide : (1 : UInt8) ≠ 3)
    · intro hfalse
      cases hfalse
  · exact absurd hzero hhops
  · rw [heq, hnew]
    exact ⟨fun _ => rfl, fun _ => ⟨_, _, rfl, rfl⟩⟩
  · exact absurd (hnot.symm.trans hdefer) Bool.false_ne_true

/-- **The queued relay is never cancelled.** A frame was answered with a relay. Whatever calls
follow, when a relayed copy of it is heard while the packet is remembered, and the caller says
so, the report is that of a duplicate and never that another node relayed it. That reason is
given just when the packet has been lost, which takes as many calls as the history holds. -/
theorem queued_frame_reported_duplicate {calls : List CtxCall} (hrole : c.role = .client)
    (hfirst : tmRxObserve (some c) (some frame) snrQ4 airtimeUs nowUs heardRelayed (some out) =
      (tmOk, some c₁, some rx))
    (hrelay : rx.relay = 1) (run : Run CtxCall.Step c₁ calls c₂)
    (hcopy : Header.decode copy = some h) (hfrom : h.fromNode = rx.fromNode) (hid : h.id = rx.id)
    (hhops : h.hopLimit ≠ 0) (hheard : heardRelayed' ≠ 0) :
    (c₂.history.contains rx.fromNode rx.id = true →
      ¬ ReportsOther c₂ copy snrQ4' airtimeUs' nowUs' heardRelayed' out' ∧
      ∃ rx', tmRxObserve (some c₂) (some copy) snrQ4' airtimeUs' nowUs' heardRelayed' (some out') =
        (tmOk, some c₂, some rx') ∧ rx'.suppressed = suppressedCode .duplicate) ∧
    (c₂.history.contains rx.fromNode rx.id = false →
      ReportsOther c₂ copy snrQ4' airtimeUs' nowUs' heardRelayed' out') ∧
    ∀ recorded, c.history.Remembers recorded →
      c₂.history.contains rx.fromNode rx.id = false → historyLen ≤ calls.length := by
  obtain ⟨bytes, first, -, hbytes, -, hdec⟩ := exists_decoded hfirst
  cases hbytes
  obtain ⟨hnew, hobserved, hsame, hfrom₁, hid₁⟩ := observed_of_relay hdec hfirst hrelay
  have hreports : ReportsOther c₂ copy snrQ4' airtimeUs' nowUs' heardRelayed' out' ↔
      c₂.history.contains h.fromNode h.id = false :=
    reportsOther_iff hcopy ((CtxCall.run_role run).trans (hsame.trans hrole)) hhops hheard
  rw [← hfrom, ← hid]
  refine ⟨fun hseen => ⟨?_, _, tmRxObserve_duplicate hcopy hseen, rfl⟩, hreports.mpr, ?_⟩
  · rw [hreports, hseen]
    exact Bool.noConfusion
  · -- the first call recorded the packet, and each call after it records at most one more
    intro recorded hc hgone
    rw [hfrom, hid, hfrom₁, hid₁] at hgone
    have hrecorded := hc.observe_new hnew
    rw [← hobserved] at hrecorded
    exact le_length_of_forgotten hrecorded run hgone

/-- That broadcast as node 9 relays it: one hop less. -/
def relayedFrame : List UInt8 := [0xFF, 0xFF, 0xFF, 0xFF, 1, 0, 0, 0, 5, 0, 0, 0, 0x62, 8, 0, 9]

/-- On a new context the frame is to be relayed. -/
theorem tmRxObserve_broadcastFrame_relay :
    tmRxObserve (some (freshCtx 7)) (some broadcastFrame) 0 1000 0 0 (some noReport) =
      (tmOk, some broadcastCtx, some ⟨1, 0xFFFFFFFF, 5, 3, 0, 8, 0, 1, 98, 2, 0⟩) := rfl

/-- **A suppression that is not reported.** The frame is to be relayed; its copy, with the flag
that says so, is reported as a duplicate. -/
theorem queued_frame_reported_duplicate_relayed :
    ∃ rx rx', tmRxObserve (some (freshCtx 7)) (some broadcastFrame) 0 1000 0 0 (some noReport) =
        (tmOk, some broadcastCtx, some rx) ∧ rx.relay = 1 ∧
      broadcastCtx.history.contains rx.fromNode rx.id = true ∧
      tmRxObserve (some broadcastCtx) (some relayedFrame) 0 1000 1 1 (some noReport) =
        (tmOk, some broadcastCtx, some rx') ∧
      rx'.suppressed ≠ suppressedCode .alreadyRelayedByAnother :=
  ⟨_, _, tmRxObserve_broadcastFrame_relay, rfl, broadcastCtx_contains,
    tmRxObserve_duplicate (h := ⟨0xFFFFFFFF, 1, 5, 2, false, false, 3, 8, 0, 9⟩) rfl
      broadcastCtx_contains, by decide⟩

/-- The same copy with nothing in between. -/
theorem queued_frame_reported_duplicate_next :
    ¬ ReportsOther broadcastCtx relayedFrame 0 1000 1 1 noReport := by
  have hcopy : Header.decode relayedFrame =
    some ⟨0xFFFFFFFF, 1, 5, 2, false, false, 3, 8, 0, 9⟩ := rfl
  exact ((queued_frame_reported_duplicate rfl tmRxObserve_broadcastFrame_relay rfl .nil hcopy rfl
    rfl (by decide) (by decide)).1 broadcastCtx_contains).1

end TetherMesh.CApi
