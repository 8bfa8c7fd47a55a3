import TetherMesh.CApi.Observing
import TetherMesh.Protocol.DutyRuns

/-!
# The duty cycle of a context

A context carries a duty cycle, and the calls that tell a caller to transmit ask it first.
None of them charges it, by design: what was asked for may not be sent. So nothing is ever
used of its budget, and each call is measured against the whole of it.

## Main definitions

* `Node`, `NodeCall`, `NodeCall.Step` — a context and an outbox, and the calls on them
* `NodeCall.told` — the airtime a call tells its caller to spend

## Main results

* `duty_only_asked` — each transmission fits the budget by itself, after any run
* `duty_budget_outrun` — two of them together need not
-/

namespace TetherMesh.CApi

open CS Protocol

/-- A context and an outbox. -/
structure Node where
  ctx : TmCtx
  ob : TmOutbox

/-- A call on a node's context or its outbox. -/
inductive NodeCall
  /-- `tm_rx_observe`. -/
  | rxObserve (frame : Ptr (List UInt8)) (snrQ4 : Int16) (airtimeUs : Micros) (nowUs : UInt64)
    (heardRelayed : UInt8) (out : Ptr TmRx)
  /-- `tm_outbox_track`. -/
  | track (frame : Ptr (List UInt8)) (nowUs : UInt64)
  /-- `tm_outbox_acknowledge`. -/
  | acknowledge (requestId : UInt32)
  /-- `tm_outbox_reap`. -/
  | reap (nowUs : UInt64) (outFrom outId : Ptr UInt32)
  /-- `tm_outbox_next_due`. -/
  | nextDue (nowUs : UInt64) (airtimeUs : Micros) (out : Ptr (List UInt8)) (outAttempt : Ptr UInt8)

namespace NodeCall

/-- The airtime that the call tells its caller to spend: on a relay, or on a retry. -/
def told (n : Node) : NodeCall → Option Micros
  | rxObserve frame snrQ4 airtimeUs nowUs heardRelayed out =>
    -- the caller reads the report only when the call succeeded
    match tmRxObserve (some n.ctx) frame snrQ4 airtimeUs nowUs heardRelayed out with
    | (code, _, some rx) => if code = tmOk ∧ rx.relay = 1 then some airtimeUs else none
    | (_, _, none) => none
  | nextDue nowUs airtimeUs out outAttempt =>
    if 0 < (tmOutboxNextDue (some n.ob) (some n.ctx) nowUs airtimeUs out outAttempt).code then
      some airtimeUs
    else none
  | _ => none

/-- Context and outbox after the call. -/
def after (n : Node) : NodeCall → Ptr TmCtx × Ptr TmOutbox
  | rxObserve frame snrQ4 airtimeUs nowUs heardRelayed out =>
    ((tmRxObserve (some n.ctx) frame snrQ4 airtimeUs nowUs heardRelayed out).2.1, some n.ob)
  | track frame nowUs => (some n.ctx, (tmOutboxTrack (some n.ob) frame nowUs).2)
  | acknowledge requestId => (some n.ctx, (tmOutboxAcknowledge (some n.ob) requestId).2)
  | reap nowUs outFrom outId => (some n.ctx, (tmOutboxReap (some n.ob) nowUs outFrom outId).2.1)
  | nextDue nowUs airtimeUs out outAttempt =>
    let answer := tmOutboxNextDue (some n.ob) (some n.ctx) nowUs airtimeUs out outAttempt
    (answer.ctx, answer.ob)

/-- The clock value a call is made with. -/
def clock : NodeCall → Option UInt64
  | rxObserve _ _ _ nowUs .. | track _ nowUs | reap nowUs .. | nextDue nowUs .. => some nowUs
  | acknowledge _ => none

/-- One call, and what it told its caller to spend. -/
def Step (n : Node) (label : NodeCall × Option Micros) (n' : Node) : Prop :=
  label.1.told n = label.2 ∧ label.1.after n = (some n'.ctx, some n'.ob)

/-- Airtime in all that the calls told their caller to spend. -/
def spent (labels : List (NodeCall × Option Micros)) : ℕ :=
  (labels.map fun label => (label.2.map UInt32.toNat).getD 0).sum

end NodeCall

/-! ## Asking the duty cycle -/

/-- The budget a context starts with. -/
theorem hourBudget : DutyCycle.budgetUs ⟨1000, 3600000000, 0, 0⟩ = 3600000000 := by decide

/-- Nothing is used of a budget of one hour, all of which may be used. -/
def Uncharged (d : DutyCycle) : Prop := d.usedUs = 0 ∧ d.budgetUs = 3600000000

namespace Uncharged

variable {d : DutyCycle} {nowUs : UInt64} {airtimeUs : Micros}

/-- Asking charges nothing. -/
theorem ask (h : Uncharged d) (nowUs : UInt64) (airtimeUs : Micros) :
    Uncharged (d.wouldPermit nowUs airtimeUs).2 := by
  refine ⟨?_, (DutyCycle.roll_budgetUs d nowUs).trans h.2⟩
  rcases DutyCycle.roll_usedUs d nowUs with hzero | hsame
  · exact hzero
  · exact hsame.trans h.1

/-- What is permitted fits the whole budget. -/
theorem le_of_permit (h : Uncharged d) (hpermit : (d.wouldPermit nowUs airtimeUs).1 = true) :
    airtimeUs.toNat ≤ 3600000000 := by
  obtain ⟨hused, hbudget⟩ := h.ask nowUs airtimeUs
  have hfits := UInt64.le_iff_toNat_le.mp (of_decide_eq_true hpermit)
  have hair := airtimeUs.toNat_lt
  -- the question is about the rolled window, of which nothing is used either
  change (d.roll nowUs).usedUs = 0 at hused
  change (d.roll nowUs).budgetUs = 3600000000 at hbudget
  rw [hused, hbudget, UInt64.toNat_saturatingAdd, UInt32.toNat_toUInt64] at hfits
  change min (0 + airtimeUs.toNat) (2 ^ 64 - 1) ≤ 3600000000 at hfits
  omega

/-- What fits the whole budget is permitted. -/
theorem permits (h : Uncharged d) (hle : airtimeUs.toNat ≤ 3600000000) :
    (d.wouldPermit nowUs airtimeUs).1 = true := by
  obtain ⟨hused, hbudget⟩ := h.ask nowUs airtimeUs
  change (d.roll nowUs).usedUs = 0 at hused
  change (d.roll nowUs).budgetUs = 3600000000 at hbudget
  rw [DutyCycle.wouldPermit, decide_eq_true_eq, hused, hbudget, UInt64.le_iff_toNat_le,
    UInt64.toNat_saturatingAdd, UInt32.toNat_toUInt64]
  change min (0 + airtimeUs.toNat) (2 ^ 64 - 1) ≤ 3600000000
  omega

/-- Asking the outbox for what is due asks the duty cycle, or leaves it alone. -/
theorem nextDue {c c' : TmCtx} {ob : TmOutbox} {out : Ptr (List UInt8)} {outAttempt : Ptr UInt8}
    {answer : NextDue} (h : Uncharged c.duty)
    (hcall : tmOutboxNextDue (some ob) (some c) nowUs airtimeUs out outAttempt = answer)
    (hctx : answer.ctx = some c') : Uncharged c'.duty := by
  rcases tmOutboxNextDue_cases hcall with
    ⟨-, -, hsame | ⟨d, hd, hasked⟩⟩ | ⟨d, i, hd, -, -, -, hasked⟩
  · obtain rfl := Option.some.inj (hctx.symm.trans hsame)
    exact h
  · cases hd
    obtain rfl := Option.some.inj (hctx.symm.trans hasked)
    exact h.ask nowUs airtimeUs
  · cases hd
    obtain rfl := Option.some.inj (hctx.symm.trans hasked)
    exact h.ask nowUs airtimeUs

end Uncharged

namespace NodeCall

variable {n n' : Node} {label : NodeCall × Option Micros} {labels : List (NodeCall × Option Micros)}

/-- **Step lemma.** No call charges the duty cycle, and what it tells its caller to spend fits
the whole budget. -/
theorem uncharged_step (h : Uncharged n.ctx.duty) (hstep : Step n label n') :
    Uncharged n'.ctx.duty ∧ ∀ airtimeUs ∈ label.2, airtimeUs.toNat ≤ 3600000000 := by
  obtain ⟨call, asked⟩ := label
  obtain ⟨htold, hafter⟩ := hstep
  dsimp only at htold hafter
  subst htold
  cases call with
  | rxObserve frame snrQ4 airtimeUs nowUs heardRelayed out =>
    obtain ⟨hctx, -⟩ := Prod.mk.inj hafter
    rw [told]
    generalize hcall : tmRxObserve (some n.ctx) frame snrQ4 airtimeUs nowUs heardRelayed out =
      answer at hctx ⊢
    obtain ⟨code, ctx', rx'⟩ := answer
    obtain rfl : ctx' = some n'.ctx := hctx
    obtain ⟨hduty, hrelay⟩ := tmRxObserve_duty hcall
    -- the duty cycle was left alone or asked, and a relay was reported with its permission
    constructor
    · rcases hduty with hsame | hasked
      · rwa [hsame]
      · rw [hasked]
        exact h.ask nowUs airtimeUs
    · intro asked hasked
      cases rx' with
      | none => cases hasked
      | some rx =>
        dsimp only at hasked
        split_ifs at hasked with hboth
        · cases hasked
          exact h.le_of_permit (hrelay hboth.1 rx rfl hboth.2)
        · cases hasked
  | track | acknowledge | reap =>
    obtain ⟨hctx, -⟩ := Prod.mk.inj hafter
    rw [← Option.some.inj hctx]
    exact ⟨h, fun _ hmem => by cases hmem⟩
  | nextDue nowUs airtimeUs out outAttempt =>
    obtain ⟨hctx, -⟩ := Prod.mk.inj hafter
    refine ⟨h.nextDue rfl hctx, fun asked hasked => ?_⟩
    rw [told] at hasked
    split_ifs at hasked with hpos
    · cases hasked
      -- what is handed out was permitted
      rcases tmOutboxNextDue_cases rfl with ⟨hneg, -⟩ | ⟨c, i, hc, -, hpermit, -⟩
      · exact absurd hpos (not_lt.mpr hneg)
      · cases hc
        exact h.le_of_permit hpermit
    · cases hasked

theorem uncharged_run (h : Uncharged n.ctx.duty) (run : Run Step n labels n') :
    Uncharged n'.ctx.duty ∧
      ∀ label ∈ labels, ∀ airtimeUs ∈ label.2, airtimeUs.toNat ≤ 3600000000 := by
  induction run with
  | nil => exact ⟨h, fun _ hmem => absurd hmem List.not_mem_nil⟩
  | snoc _ hstep ih =>
    obtain ⟨hduty, hbefore⟩ := ih
    obtain ⟨hduty', hlast⟩ := uncharged_step hduty hstep
    refine ⟨hduty', fun label hmem => ?_⟩
    rcases List.mem_append.mp hmem with hmem | hmem
    · exact hbefore label hmem
    · obtain rfl := List.mem_singleton.mp hmem
      exact hlast

/-- Calls that each ask for no more than a bound ask for no more than the bound for each. -/
theorem spent_le {bound : ℕ}
    (h : ∀ label ∈ labels, ∀ airtimeUs ∈ label.2, airtimeUs.toNat ≤ bound) :
    spent labels ≤ labels.countP (·.2.isSome) * bound := by
  induction labels with
  | nil => exact Nat.zero_le _
  | cons label labels ih =>
    have hrest := ih fun l hl => h l (List.mem_cons_of_mem _ hl)
    obtain ⟨call, asked⟩ := label
    rw [spent] at hrest ⊢
    rw [List.map_cons, List.sum_cons, List.countP_cons]
    cases asked with
    | none => simpa using hrest
    | some airtimeUs =>
      have hhead : airtimeUs.toNat ≤ bound := h _ List.mem_cons_self airtimeUs rfl
      rw [Option.isSome_some, if_pos rfl, Nat.succ_mul]
      exact (Nat.add_le_add hhead hrest).trans_eq (Nat.add_comm _ _)

end NodeCall

/-- **The duty cycle of a context is only asked.** Over any run of calls on a new context and
an outbox, nothing is used of its budget; each call that tells its caller to transmit asks
for no more airtime than the whole budget, so any of them together ask for no more than
that times their number. -/
theorem duty_only_asked {old c : TmCtx} {abi nodeNum : UInt32} {ob : TmOutbox} {n : Node}
    {labels : List (NodeCall × Option Micros)}
    (hinit : tmCtxInit (some old) abi nodeNum = (tmOk, some c))
    (run : Run NodeCall.Step ⟨c, ob⟩ labels n) :
    n.ctx.duty.usedUs = 0 ∧ n.ctx.duty.budgetUs = c.duty.budgetUs ∧
      (∀ label ∈ labels, ∀ airtimeUs ∈ label.2, airtimeUs.toNat ≤ c.duty.budgetUs.toNat) ∧
      ∀ part, part.Sublist labels →
        NodeCall.spent part ≤ part.countP (·.2.isSome) * c.duty.budgetUs.toNat := by
  -- a context that was initialised is the fresh one
  have habi : abi = tmAbiVersion := by
    by_contra hne
    rw [tmCtxInit, if_pos hne] at hinit
    exact absurd (congrArg Prod.fst hinit) (by decide : tmEAbi ≠ tmOk)
  rw [habi, tmCtxInit_eq] at hinit
  cases hinit
  have hbudget : (freshCtx nodeNum).duty.budgetUs = 3600000000 := hourBudget
  have hfresh : Uncharged (freshCtx nodeNum).duty := ⟨rfl, hbudget⟩
  obtain ⟨⟨hused, hduty⟩, heach⟩ := NodeCall.uncharged_run hfresh run
  rw [hbudget]
  exact ⟨hused, hduty, heach,
    fun part hpart => NodeCall.spent_le fun label hmem => heach label (hpart.subset hmem)⟩

/-- A relay and a retry, each of an hour. -/
def hourCalls : List (NodeCall × Option Micros) :=
  [(.rxObserve (some broadcastFrame) 0 3600000000 0 0 (some noReport), some 3600000000),
    (.track (some broadcastFrame) 0, none),
    (.nextDue 7000000 3600000000 (some (List.replicate 16 0)) none, some 3600000000)]

/-- The outbox once the broadcast is tracked. -/
def hourOutbox : Outbox outboxSlots := ((Outbox.new .measuredCeiling).track broadcastFrame 0).2

set_option maxRecDepth 4000 in
theorem hourCalls_run : Run NodeCall.Step ⟨freshCtx 7, ⟨.new .measuredCeiling⟩⟩ hourCalls
    ⟨broadcastCtx, ⟨hourOutbox.put 0 (hourOutbox.attempted 0 7000000)⟩⟩ :=
  have relayed : NodeCall.Step ⟨freshCtx 7, ⟨.new .measuredCeiling⟩⟩ _
    ⟨broadcastCtx, ⟨.new .measuredCeiling⟩⟩ := ⟨rfl, rfl⟩
  have tracked : NodeCall.Step ⟨broadcastCtx, ⟨.new .measuredCeiling⟩⟩ _
    ⟨broadcastCtx, ⟨hourOutbox⟩⟩ := ⟨rfl, rfl⟩
  .cons relayed (.cons tracked (.single ⟨rfl, rfl⟩))

/-- **Two hours in one.** A relay at time zero and a retry seven seconds later are both told
to take the whole budget of the one window. -/
theorem duty_budget_outrun :
    tmCtxInit (some (freshCtx 0)) tmAbiVersion 7 = (tmOk, some (freshCtx 7)) ∧
    tmOutboxInit (some ⟨.new .sendOnce⟩) tmAbiVersion 0 0 =
      (tmOk, some ⟨.new .measuredCeiling⟩) ∧
    (∃ n, Run NodeCall.Step ⟨freshCtx 7, ⟨.new .measuredCeiling⟩⟩ hourCalls n ∧
      n.ctx.duty.windowStartedUs = (freshCtx 7).duty.windowStartedUs) ∧
    (hourCalls.filterMap fun label => label.1.clock) = [0, 0, 7000000] ∧
    (freshCtx 7).duty.budgetUs = 3600000000 ∧
    NodeCall.spent hourCalls = 7200000000 :=
  ⟨tmCtxInit_eq _ _, rfl, ⟨_, hourCalls_run, rfl⟩, rfl, hourBudget, rfl⟩

/-- Of the same calls nothing is charged, and they keep within the budget for each. -/
theorem duty_only_asked_hour :
    broadcastCtx.duty.usedUs = 0 ∧ NodeCall.spent hourCalls ≤ 2 * 3600000000 := by
  obtain ⟨hused, -, -, hspent⟩ := duty_only_asked (tmCtxInit_eq (freshCtx 0) 7) hourCalls_run
  exact ⟨hused, hspent hourCalls (List.Sublist.refl _)⟩

end TetherMesh.CApi
