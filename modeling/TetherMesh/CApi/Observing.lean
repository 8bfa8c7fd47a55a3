import TetherMesh.CApi.OutboxCalls
import TetherMesh.CS.LabelledRun

/-!
# A context from call to call

Four functions of the interface take a context. `tm_ctx_init` makes a new one; the
other three leave it with the same role, window and node number, record at most one
packet each in its history, and only move the window of its duty cycle.

## Main definitions

* `observedOf`, `rxReport` — what a relay decision is made from, and how it is reported
* `freshCtx` — a new context
* `CtxCall`, `CtxCall.Step` — a call that changes a context

## Main results

* `tmRxObserve_cases`, `tmRxObserve_decoded` — observing a frame that has a header or none
* `tmRxObserve_duty` — what observing does to the duty cycle
* `CtxCall.run_role`, `CtxCall.run_recorded` — a context keeps its role, and what a run of
  calls adds to a history
-/

namespace TetherMesh.CApi

open CS Protocol

/-- What the relay decision on a frame is made from. -/
def observedOf (c : TmCtx) (h : Header) (snrQ4 : Int16) (airtimeUs : Micros)
    (heardRelayed : UInt8) : Observed where
  hopLimit := h.hopLimit
  snrQuarterDb := snrQ4
  duplicate := (c.history.observe h.fromNode h.id).1 == .duplicate
  heardRelayed := heardRelayed ≠ 0
  airtimeUs := airtimeUs

/-- The report on a frame with header `h`. -/
def rxReport (h : Header) (duplicate : Bool) (decision : Relay) : TmRx :=
  let r : TmRx := ⟨h.fromNode, h.toNode, h.id, h.hopLimit, h.wantAck.toUInt8, h.channel,
    duplicate.toUInt8, 0, 0, 0, 0⟩
  match decision with
  | .after windowSlots hopLimit =>
    { r with relay := 1, relayWindowSlots := windowSlots, relayHopLimit := hopLimit }
  | .no reason => { r with suppressed := suppressedCode reason }

/-- The context that `tm_ctx_init` makes. -/
def freshCtx (nodeNum : UInt32) : TmCtx where
  history := PacketHistory.empty
  duty := ⟨1000, 3600000000, 0, 0⟩
  window := ContentionWindow.meshtasticShape
  nodeNum := nodeNum
  role := .client

/-- A place for a report. -/
def noReport : TmRx := ⟨0, 0, 0, 0, 0, 0, 0, 0, 0, 0, 0⟩

/-- A broadcast of node 1 with three hops left. -/
def broadcastFrame : List UInt8 := [0xFF, 0xFF, 0xFF, 0xFF, 1, 0, 0, 0, 5, 0, 0, 0, 0x63, 8, 0, 0]

/-- A new context after it has observed that frame. -/
def broadcastCtx : TmCtx := { freshCtx 7 with history := ((freshCtx 7).history.observe 1 5).2 }

theorem tmCtxInit_eq (old : TmCtx) (nodeNum : UInt32) :
    tmCtxInit (some old) tmAbiVersion nodeNum = (tmOk, some (freshCtx nodeNum)) := rfl

section Observe

variable {c : TmCtx} {bytes : List UInt8} {h : Header} {snrQ4 : Int16} {airtimeUs : Micros}
  {nowUs : UInt64} {heardRelayed : UInt8} {old : TmRx}

/-- **Observing a frame that has a header** records it and reports the decision. -/
theorem tmRxObserve_decoded (hdec : Header.decode bytes = some h) :
    tmRxObserve (some c) (some bytes) snrQ4 airtimeUs nowUs heardRelayed (some old) =
      let observed := observedOf c h snrQ4 airtimeUs heardRelayed
      let decision := shouldRelay observed c.role c.window c.duty nowUs
      (tmOk,
        some { c with history := (c.history.observe h.fromNode h.id).2, duty := decision.2 },
        some (rxReport h observed.duplicate decision.1)) := by
  rw [tmRxObserve]
  simp only [hdec]
  rfl

/-- A packet that the history contains changes nothing and is suppressed. -/
theorem tmRxObserve_duplicate (hdec : Header.decode bytes = some h)
    (hseen : c.history.contains h.fromNode h.id = true) :
    tmRxObserve (some c) (some bytes) snrQ4 airtimeUs nowUs heardRelayed (some old) =
      (tmOk, some c, some (rxReport h true (.no .duplicate))) := by
  have hobs : c.history.observe h.fromNode h.id = (.duplicate, c.history) := by
    rw [PacketHistory.observe, if_pos hseen]
  rw [tmRxObserve_decoded hdec, observedOf, hobs]
  rfl

/-- Without a frame, a header or a place for the report nothing is looked at. -/
theorem tmRxObserve_cases (c : TmCtx) (frame : Ptr (List UInt8)) (snrQ4 : Int16)
    (airtimeUs : Micros) (nowUs : UInt64) (heardRelayed : UInt8) (out : Ptr TmRx) :
    (∃ bytes h old, frame = some bytes ∧ out = some old ∧ Header.decode bytes = some h) ∨
      ∃ code < tmOk, tmRxObserve (some c) frame snrQ4 airtimeUs nowUs heardRelayed out =
        (code, some c, out) := by
  match frame, out with
  | none, _ | some _, none => exact .inr ⟨tmEArg, tmEArg_neg, rfl⟩
  | some bytes, some old =>
    cases hdec : Header.decode bytes with
    | none =>
      refine .inr ⟨tmEShort, tmEShort_neg, ?_⟩
      rw [tmRxObserve]
      simp only [hdec]
    | some h => exact .inl ⟨bytes, h, old, rfl, rfl, hdec⟩

/-- A report came from a frame that has a header. -/
theorem exists_decoded {frame : Ptr (List UInt8)} {out : Ptr TmRx} {c' : TmCtx} {rx : TmRx}
    (hcall : tmRxObserve (some c) frame snrQ4 airtimeUs nowUs heardRelayed out =
      (tmOk, some c', some rx)) :
    ∃ bytes h old, frame = some bytes ∧ out = some old ∧ Header.decode bytes = some h := by
  rcases tmRxObserve_cases c frame snrQ4 airtimeUs nowUs heardRelayed out with
    hdecoded | ⟨code, hneg, heq⟩
  · exact hdecoded
  · rw [heq] at hcall
    exact absurd (congrArg Prod.fst hcall) hneg.ne

/-- **What observing does to the duty cycle**: nothing, or it is asked; and a relay is
reported only with its permission. -/
theorem tmRxObserve_duty {frame : Ptr (List UInt8)} {out rx' : Ptr TmRx} {code : ℤ} {c' : TmCtx}
    (h : tmRxObserve (some c) frame snrQ4 airtimeUs nowUs heardRelayed out =
      (code, some c', rx')) :
    (c'.duty = c.duty ∨ c'.duty = (c.duty.wouldPermit nowUs airtimeUs).2) ∧
      (code = tmOk → ∀ rx, rx' = some rx → rx.relay = 1 →
        (c.duty.wouldPermit nowUs airtimeUs).1 = true) := by
  rcases tmRxObserve_cases c frame snrQ4 airtimeUs nowUs heardRelayed out with
    ⟨bytes, header, old, rfl, rfl, hdec⟩ | ⟨code, hneg, heq⟩
  · rw [tmRxObserve_decoded hdec] at h
    dsimp only at h
    have hrefused {reason : Suppressed} {duty' : DutyCycle}
        (heq : shouldRelay (observedOf c header snrQ4 airtimeUs heardRelayed) c.role c.window
          c.duty nowUs = (.no reason, duty'))
        (hduty : duty' = c.duty ∨ duty' = (c.duty.wouldPermit nowUs airtimeUs).2) :
        (c'.duty = c.duty ∨ c'.duty = (c.duty.wouldPermit nowUs airtimeUs).2) ∧
          (code = tmOk → ∀ rx, rx' = some rx → rx.relay = 1 →
            (c.duty.wouldPermit nowUs airtimeUs).1 = true) := by
      rw [heq] at h
      cases h
      refine ⟨hduty, fun _ rx hrx hrelay => ?_⟩
      cases hrx
      exact absurd hrelay (by decide : (0 : UInt8) ≠ 1)
    -- the duty cycle is asked last, and whatever refuses before it leaves it alone
    rcases shouldRelay_cases (observedOf c header snrQ4 airtimeUs heardRelayed) c.role c.window
      c.duty nowUs with
      ⟨-, heq⟩ | ⟨-, -, heq⟩ | ⟨-, -, -, heq⟩ | ⟨-, -, -, ⟨-, heq⟩ | ⟨hpermit, heq⟩⟩
    · exact hrefused heq (.inl rfl)
    · exact hrefused heq (.inl rfl)
    · exact hrefused heq (.inl rfl)
    · exact hrefused heq (.inr rfl)
    · rw [heq] at h
      cases h
      exact ⟨.inr rfl, fun _ _ _ _ => hpermit⟩
  · rw [heq] at h
    cases h
    exact ⟨.inl rfl, fun hok => absurd hok hneg.ne⟩

end Observe

/-! ## Calls that take a context -/

/-- A call on an existing context. -/
inductive CtxCall
  /-- `tm_rx_observe`. -/
  | rxObserve (frame : Ptr (List UInt8)) (snrQ4 : Int16) (airtimeUs : Micros) (nowUs : UInt64)
    (heardRelayed : UInt8) (out : Ptr TmRx)
  /-- `tm_note_originated`. -/
  | noteOriginated (fromNode id : UInt32)
  /-- `tm_outbox_next_due`. -/
  | outboxNextDue (ob : Ptr TmOutbox) (nowUs : UInt64) (airtimeUs : Micros)
    (out : Ptr (List UInt8)) (outAttempt : Ptr UInt8)

namespace CtxCall

/-- The context after a call. -/
def after (c : TmCtx) : CtxCall → Ptr TmCtx
  | rxObserve frame snrQ4 airtimeUs nowUs heardRelayed out =>
    (tmRxObserve (some c) frame snrQ4 airtimeUs nowUs heardRelayed out).2.1
  | noteOriginated fromNode id => (tmNoteOriginated (some c) fromNode id).2
  | outboxNextDue ob nowUs airtimeUs out outAttempt =>
    (tmOutboxNextDue ob (some c) nowUs airtimeUs out outAttempt).ctx

/-- One call. -/
def Step (c : TmCtx) (call : CtxCall) (c' : TmCtx) : Prop := call.after c = some c'

variable {c c' : TmCtx} {recorded : List PacketKey}

/-- Observing a packet adds at most one. -/
theorem observe_recorded (hc : c.history.Remembers recorded) (fromNode id : UInt32) :
    ∃ new : List PacketKey, new.length ≤ 1 ∧
      (c.history.observe fromNode id).2.Remembers (recorded ++ new) := by
  rcases hc.observe (Prod.mk.eta (p := c.history.observe fromNode id)).symm with
    ⟨-, hsame, -⟩ | ⟨-, hnew, -⟩
  · refine ⟨[], Nat.zero_le 1, ?_⟩
    rwa [hsame, List.append_nil]
  · exact ⟨[(fromNode, id)], Nat.le_refl 1, hnew⟩

/-- Asking the outbox only moves the window of the duty cycle. -/
theorem exists_duty_outboxNextDue {ob : Ptr TmOutbox} {nowUs : UInt64} {airtimeUs : Micros}
    {out : Ptr (List UInt8)} {outAttempt : Ptr UInt8}
    (hstep : Step c (outboxNextDue ob nowUs airtimeUs out outAttempt) c') :
    ∃ duty, c' = { c with duty } := by
  rw [Step, after] at hstep
  cases ob with
  | none =>
    cases hstep
    exact ⟨_, rfl⟩
  | some o =>
    have hcases := tmOutboxNextDue_cases
      (Eq.refl (tmOutboxNextDue (some o) (some c) nowUs airtimeUs out outAttempt))
    rw [hstep] at hcases
    rcases hcases with ⟨-, -, hsame | ⟨d, hd, hduty⟩⟩ | ⟨d, -, hd, -, -, -, hduty⟩
    · cases hsame
      exact ⟨_, rfl⟩
    · cases hd
      cases hduty
      exact ⟨_, rfl⟩
    · cases hd
      cases hduty
      exact ⟨_, rfl⟩

theorem step_role {call : CtxCall} (hstep : Step c call c') : c'.role = c.role := by
  cases call with
  | rxObserve frame snrQ4 airtimeUs nowUs heardRelayed out =>
    rw [Step, after] at hstep
    rcases tmRxObserve_cases c frame snrQ4 airtimeUs nowUs heardRelayed out with
      ⟨bytes, h, old, rfl, rfl, hdec⟩ | ⟨code, -, heq⟩
    · rw [tmRxObserve_decoded hdec] at hstep
      cases hstep
      rfl
    · rw [heq] at hstep
      cases hstep
      rfl
  | noteOriginated fromNode id =>
    cases hstep
    rfl
  | outboxNextDue ob nowUs airtimeUs out outAttempt =>
    obtain ⟨duty, rfl⟩ := exists_duty_outboxNextDue hstep
    rfl

/-- A context keeps its role. -/
theorem run_role {calls : List CtxCall} (run : Run Step c calls c') : c'.role = c.role := by
  induction run with
  | nil => rfl
  | snoc _ hstep ih => exact (step_role hstep).trans ih

theorem step_recorded {call : CtxCall} (hc : c.history.Remembers recorded)
    (hstep : Step c call c') :
    ∃ new : List PacketKey, new.length ≤ 1 ∧ c'.history.Remembers (recorded ++ new) := by
  have hsame (hhistory : c'.history = c.history) :
      ∃ new : List PacketKey, new.length ≤ 1 ∧ c'.history.Remembers (recorded ++ new) := by
    refine ⟨[], Nat.zero_le 1, ?_⟩
    rwa [hhistory, List.append_nil]
  cases call with
  | rxObserve frame snrQ4 airtimeUs nowUs heardRelayed out =>
    rw [Step, after] at hstep
    rcases tmRxObserve_cases c frame snrQ4 airtimeUs nowUs heardRelayed out with
      ⟨bytes, h, old, rfl, rfl, hdec⟩ | ⟨code, -, heq⟩
    · rw [tmRxObserve_decoded hdec] at hstep
      cases hstep
      exact observe_recorded hc h.fromNode h.id
    · rw [heq] at hstep
      cases hstep
      exact hsame rfl
  | noteOriginated fromNode id =>
    cases hstep
    exact observe_recorded hc fromNode id
  | outboxNextDue ob nowUs airtimeUs out outAttempt =>
    obtain ⟨duty, rfl⟩ := exists_duty_outboxNextDue hstep
    exact hsame rfl

/-- A run of calls records at most one packet each. -/
theorem run_recorded {calls : List CtxCall} (hc : c.history.Remembers recorded)
    (run : Run Step c calls c') :
    ∃ new : List PacketKey, new.length ≤ calls.length ∧
      c'.history.Remembers (recorded ++ new) := by
  induction run with
  | nil =>
    refine ⟨[], Nat.zero_le _, ?_⟩
    rwa [List.append_nil]
  | snoc _ hstep ih =>
    obtain ⟨new, hlen, hnew⟩ := ih
    obtain ⟨one, hone, hlast⟩ := step_recorded hnew hstep
    refine ⟨new ++ one, ?_, ?_⟩
    · rw [List.length_append, List.length_append, List.length_singleton]
      omega
    · rwa [← List.append_assoc]

end CtxCall

end TetherMesh.CApi
