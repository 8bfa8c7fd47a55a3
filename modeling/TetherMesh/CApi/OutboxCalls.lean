import TetherMesh.CApi.Receive

/-!
# The C interface: the outbox

## Main definitions

* `TmOutbox`, `tmOutboxInit` — retransmission state with four slots
* `tmOutboxTrack`, `tmOutboxAcknowledge`, `tmOutboxReap`, `tmOutboxNextDue`
* `OutboxCall` — a call that changes an outbox

## Main results

* `resolveRetryPolicy_ok` — an accepted policy keeps the ceiling
* `tmOutboxNextDue_cases` — everything that asking for the next frame can do
* `take_tmOutboxNextDue` — what is handed out is the frame that is due
-/

namespace TetherMesh.CApi

open Math Protocol

/-- `OUTBOX_SLOTS`. -/
abbrev outboxSlots : ℕ := 4

/-- Caller-owned retransmission state. -/
structure TmOutbox where
  inner : Outbox outboxSlots

/-- Initialise an outbox. -/
def tmOutboxInit (ob : Ptr TmOutbox) (abi : UInt32) (maxAttempts : UInt8) (intervalUs : UInt32) :
    ℤ × Ptr TmOutbox :=
  match ob with
  | none => (tmEArg, none)
  | some old =>
    if abi ≠ tmAbiVersion then (tmEAbi, some old)
    else match resolveRetryPolicy maxAttempts intervalUs with
      | .ok policy => (tmOk, some ⟨Outbox.new policy⟩)
      | .error code => (code, some old)

/-- Track a frame that has already been transmitted once. -/
def tmOutboxTrack (ob : Ptr TmOutbox) (frame : Ptr (List UInt8)) (nowUs : UInt64) :
    ℤ × Ptr TmOutbox :=
  match ob, frame with
  | some o, some f =>
    let (answer, inner) := o.inner.track f nowUs
    match answer with
    | .ok () => (tmOk, some ⟨inner⟩)
    | .error e => (mapDeliveryError e, some ⟨inner⟩)
  | _, _ => (tmEArg, ob)

/-- Retire the entry an acknowledgement refers to. -/
def tmOutboxAcknowledge (ob : Ptr TmOutbox) (requestId : UInt32) : ℤ × Ptr TmOutbox :=
  match ob with
  | none => (tmEArg, none)
  | some o =>
    let (hit, inner) := o.inner.acknowledge requestId
    (if hit then 1 else 0, some ⟨inner⟩)

/-- Drop one entry that has exhausted every attempt, reporting what it was. -/
def tmOutboxReap (ob : Ptr TmOutbox) (nowUs : UInt64) (outFrom outId : Ptr UInt32) :
    ℤ × Ptr TmOutbox × Ptr UInt32 × Ptr UInt32 :=
  match ob, outFrom, outId with
  | some o, some _, some _ =>
    let (dropped, inner) := o.inner.reap nowUs
    match dropped with
    | some (fromNode, id) => (1, some ⟨inner⟩, some fromNode, some id)
    | none => (0, some ⟨inner⟩, outFrom, outId)
  | _, _, _ => (tmEArg, ob, outFrom, outId)

/-- What `tmOutboxNextDue` leaves behind. -/
structure NextDue where
  code : ℤ
  ob : Ptr TmOutbox
  ctx : Ptr TmCtx
  out : Ptr (List UInt8)
  outAttempt : Ptr UInt8

/-- The next frame due for retransmission, copied into `out`. -/
def tmOutboxNextDue (ob : Ptr TmOutbox) (ctx : Ptr TmCtx) (nowUs : UInt64) (airtimeUs : Micros)
    (out : Ptr (List UInt8)) (outAttempt : Ptr UInt8) : NextDue :=
  match ob, ctx, out with
  | some o, some c, some dst =>
    let (due, inner, duty) := o.inner.nextDue nowUs airtimeUs c.duty
    let ob := some ⟨inner⟩
    let ctx := some { c with duty := duty }
    match due with
    | none => ⟨0, ob, ctx, out, outAttempt⟩
    | some due =>
      -- the attempt has been marked already
      if dst.length < due.frame.length then ⟨tmEShort, ob, ctx, out, outAttempt⟩
      else
        ⟨tryI32 tmEShort due.frame.length, ob, ctx, some (overwrite dst 0 due.frame),
          outAttempt.map fun _ => due.attempt⟩
  | _, _, _ => ⟨tmEArg, ob, ctx, out, outAttempt⟩

/-- A call on an existing outbox. -/
inductive OutboxCall
  /-- `tm_outbox_track`. -/
  | track (frame : Ptr (List UInt8)) (nowUs : UInt64)
  /-- `tm_outbox_acknowledge`. -/
  | acknowledge (requestId : UInt32)
  /-- `tm_outbox_reap`. -/
  | reap (nowUs : UInt64) (outFrom outId : Ptr UInt32)
  /-- `tm_outbox_next_due`. -/
  | nextDue (ctx : Ptr TmCtx) (nowUs : UInt64) (airtimeUs : Micros) (out : Ptr (List UInt8))
    (outAttempt : Ptr UInt8)

/-- What a call answers, and the outbox after it. -/
def OutboxCall.answer (o : TmOutbox) : OutboxCall → ℤ × Ptr TmOutbox
  | track frame nowUs => tmOutboxTrack (some o) frame nowUs
  | acknowledge requestId => tmOutboxAcknowledge (some o) requestId
  | reap nowUs outFrom outId =>
    let answer := tmOutboxReap (some o) nowUs outFrom outId
    (answer.1, answer.2.1)
  | nextDue ctx nowUs airtimeUs out outAttempt =>
    let answer := tmOutboxNextDue (some o) ctx nowUs airtimeUs out outAttempt
    (answer.code, answer.ob)

/-! ## What the calls can do -/

section Cases

variable {o : TmOutbox} {ctx : Ptr TmCtx} {nowUs : UInt64} {airtimeUs : Micros}
  {out : Ptr (List UInt8)} {outAttempt : Ptr UInt8}

/-- **An accepted policy keeps the ceiling**: at most three attempts, and at least the
measured interval between them if there are several. -/
theorem resolveRetryPolicy_ok {maxAttempts : UInt8} {intervalUs : UInt32} {policy : RetryPolicy}
    (h : resolveRetryPolicy maxAttempts intervalUs = .ok policy) :
    policy.maxAttempts.toNat ≤ 3 ∧
      (1 < policy.maxAttempts.toNat → 7000000 ≤ policy.intervalUs.toNat) := by
  unfold resolveRetryPolicy at h
  dsimp only at h
  split_ifs at h with hboth hzero haggressive
  · cases h
    exact ⟨Nat.le_refl 3, fun _ => Nat.le_refl 7000000⟩
  · cases h
    rw [UInt8.lt_iff_toNat_lt, UInt8.lt_iff_toNat_lt, UInt32.lt_iff_toNat_lt] at haggressive
    have hceiling : RetryPolicy.measuredCeiling.maxAttempts.toNat = 3 ∧
        RetryPolicy.measuredCeiling.intervalUs.toNat = 7000000 := ⟨rfl, rfl⟩
    have hone : (1 : UInt8).toNat = 1 := rfl
    dsimp only
    omega

theorem resolveRetryPolicy_error {maxAttempts : UInt8} {intervalUs : UInt32} {code : ℤ}
    (h : resolveRetryPolicy maxAttempts intervalUs = .error code) : code < 0 := by
  unfold resolveRetryPolicy at h
  dsimp only at h
  split_ifs at h
  · cases h
    decide
  · cases h
    decide

/-- A policy past the ceiling is refused as too aggressive. -/
theorem resolveRetryPolicy_past {maxAttempts : UInt8} {intervalUs : UInt32}
    (h : 3 < maxAttempts ∨ 1 < maxAttempts ∧ intervalUs < 7000000) :
    resolveRetryPolicy maxAttempts intervalUs = .error tmETooAggressive := by
  have hmany : 1 < maxAttempts := by
    rcases h with h | h
    · exact UInt8.lt_trans (by decide : (1 : UInt8) < 3) h
    · exact h.1
  have hpos : maxAttempts ≠ 0 := by
    rintro rfl
    exact absurd hmany (by decide)
  rw [resolveRetryPolicy, if_neg fun hboth => hpos hboth.1, if_neg hpos, if_pos]
  exact ⟨hmany, h.imp_right And.right⟩

/-- **Asking for the next frame** hands out nothing, or marks an attempt of the first entry
that is due, with the permission of the duty cycle. -/
theorem tmOutboxNextDue_cases {answer : NextDue}
    (h : tmOutboxNextDue (some o) ctx nowUs airtimeUs out outAttempt = answer) :
    (answer.code ≤ 0 ∧ answer.ob = some o ∧ (answer.ctx = ctx ∨ ∃ c, ctx = some c ∧
      answer.ctx = some { c with duty := (c.duty.wouldPermit nowUs airtimeUs).2 })) ∨
    ∃ c i, ctx = some c ∧ o.inner.dueSlot nowUs = some i ∧
      (c.duty.wouldPermit nowUs airtimeUs).1 = true ∧
      answer.ob = some ⟨o.inner.put i (o.inner.attempted i nowUs)⟩ ∧
      answer.ctx = some { c with duty := (c.duty.wouldPermit nowUs airtimeUs).2 } := by
  match ctx, out with
  | none, _ | some _, none =>
    cases h
    exact .inl ⟨tmEArg_neg.le, rfl, .inl rfl⟩
  | some c, some dst =>
    rw [tmOutboxNextDue] at h
    dsimp only at h
    generalize hcall : o.inner.nextDue nowUs airtimeUs c.duty = result at h
    obtain ⟨due, inner, duty⟩ := result
    rcases Outbox.nextDue_cases hcall with
      ⟨rfl, rfl, hduty⟩ | ⟨i, hi, hpermit, rfl, rfl, rfl⟩
    · cases h
      refine .inl ⟨le_refl 0, rfl, ?_⟩
      rcases hduty with rfl | rfl
      · exact .inl rfl
      · exact .inr ⟨c, rfl, rfl⟩
    · refine .inr ⟨c, i, rfl, hi, hpermit, ?_⟩
      dsimp only at h
      split_ifs at h
      · cases h
        exact ⟨rfl, rfl⟩
      · cases h
        exact ⟨rfl, rfl⟩

/-- No entry is longer than a frame may be. -/
theorem length_bytes_le (s : Slot) : s.bytes.length ≤ maxFrame := by
  rw [Slot.bytes, List.length_take, Vector.length_toList]
  exact Nat.min_le_right _ _

/-- A stored frame has an answer of its own length. -/
theorem tryI32_length_bytes (s : Slot) : tryI32 tmEShort s.bytes.length = s.bytes.length :=
  tryI32_of_lt (Nat.lt_of_le_of_lt (length_bytes_le s) (by norm_num [maxFrame]))

/-- **What is handed out** is the frame that is due, byte for byte. -/
theorem take_tmOutboxNextDue {answer : NextDue} {i : Fin outboxSlots}
    (h : tmOutboxNextDue (some o) ctx nowUs airtimeUs out outAttempt = answer)
    (hpos : 0 < answer.code) (hi : o.inner.dueSlot nowUs = some i) :
    (borrow answer.out).take answer.code.toNat = (o.inner.slot i).bytes := by
  match ctx, out with
  | none, _ | some _, none =>
    subst h
    exact absurd hpos (not_lt.mpr tmEArg_neg.le)
  | some c, some dst =>
    rw [tmOutboxNextDue] at h
    dsimp only at h
    generalize hasked : o.inner.nextDue nowUs airtimeUs c.duty = result at h
    obtain ⟨due, inner, duty⟩ := result
    rcases Outbox.nextDue_cases hasked with ⟨rfl, -, -⟩ | ⟨j, hj, -, -, rfl, -⟩
    · subst h
      exact absurd hpos (lt_irrefl 0)
    · obtain rfl := Option.some.inj (hj.symm.trans hi)
      dsimp only at h
      split_ifs at h with hshort
      · subst h
        exact absurd hpos (not_lt.mpr tmEShort_neg.le)
      · subst h
        -- the length of a stored frame is its own, so all of it is copied
        dsimp only [borrow, Option.getD_some]
        rw [tryI32_length_bytes, Int.toNat_natCast, overwrite_front (not_lt.mp hshort),
          List.take_left]

end Cases

end TetherMesh.CApi
