import TetherMesh.CApi.DutyBudget

/-!
# What a context is for

A context holds a ring of packet keys, a duty cycle, a contention window, a role and a node
number. To its caller it is a list of packets, of which the last four hundred are remembered. Every
report follows from that list, the frame and what the caller says of its reception. Not the clock,
not what was asked for before and not the number of the node have a part in it.

## Main definitions

* `Memory` — the packets that were recorded, oldest first
* `Memory.advice`, `CtxCall.reply`, `CtxCall.record` — what is answered by memory, and kept
* `CtxCall.converse` — the answers of a context to calls one after another

## Main results

* `Stands.step` — a call on a context is a call on the memory it stands for
* `context_is_memory`
-/

namespace TetherMesh.CApi

open CS Protocol

/-! ## Memory -/

/-- The packets that were recorded, oldest first. -/
abbrev Memory := List PacketKey

namespace Memory

/-- The packet is one of the last four hundred. -/
def Recalls (m : Memory) (fromNode id : UInt32) : Prop := (fromNode, id) ∈ m.rtake historyLen

instance (m : Memory) (fromNode id : UInt32) : Decidable (m.Recalls fromNode id) :=
  inferInstanceAs (Decidable (_ ∈ _))

/-- A packet that is not recalled is recorded. -/
def noted (m : Memory) (fromNode id : UInt32) : Memory :=
  if m.Recalls fromNode id then m else m ++ [(fromNode, id)]

/-- Whether to relay a frame with header `h`. -/
def advice (m : Memory) (h : Header) (snrQ4 : Int16) (airtimeUs : Micros)
    (heardRelayed : UInt8) : Relay :=
  if m.Recalls h.fromNode h.id then .no .duplicate
  else if h.hopLimit = 0 then .no .hopLimitExhausted
  else if heardRelayed ≠ 0 then .no .alreadyRelayedByAnother
  else if 3600000000 < airtimeUs.toNat then .no .dutyBudgetExhausted
  else .after (ContentionWindow.meshtasticShape.slotsForSnr snrQ4) (h.hopLimit - 1)

end Memory

/-- What a caller is answered. -/
inductive CtxAnswer
  | observed (code : ℤ) (out : Ptr TmRx)
  | noted (code : ℤ)
  | due (code : ℤ) (ob : Ptr TmOutbox) (out : Ptr (List UInt8)) (outAttempt : Ptr UInt8)

namespace CtxCall

/-- What the context answers. -/
def answer (c : TmCtx) : CtxCall → CtxAnswer
  | rxObserve frame snrQ4 airtimeUs nowUs heardRelayed out =>
    let answer := tmRxObserve (some c) frame snrQ4 airtimeUs nowUs heardRelayed out
    .observed answer.1 answer.2.2
  | noteOriginated fromNode id => .noted (tmNoteOriginated (some c) fromNode id).1
  | outboxNextDue ob nowUs airtimeUs out outAttempt =>
    let answer := tmOutboxNextDue ob (some c) nowUs airtimeUs out outAttempt
    .due answer.code answer.ob answer.out answer.outAttempt

/-- What is answered by memory. An outbox is answered as by a new context. -/
def reply (m : Memory) : CtxCall → CtxAnswer
  | rxObserve (some bytes) snrQ4 airtimeUs _ heardRelayed (some old) =>
    match Header.decode bytes with
    | none => .observed tmEShort (some old)
    | some h => .observed tmOk (some (rxReport h (m.Recalls h.fromNode h.id)
        (m.advice h snrQ4 airtimeUs heardRelayed)))
  | rxObserve _ _ _ _ _ out => .observed tmEArg out
  | noteOriginated _ _ => .noted tmOk
  | outboxNextDue ob nowUs airtimeUs out outAttempt =>
    let answer := tmOutboxNextDue ob (some (freshCtx 0)) nowUs airtimeUs out outAttempt
    .due answer.code answer.ob answer.out answer.outAttempt

/-- What is kept in memory. -/
def record (m : Memory) : CtxCall → Memory
  | rxObserve (some bytes) _ _ _ _ (some _) =>
    (Header.decode bytes).elim m fun h => m.noted h.fromNode h.id
  | noteOriginated fromNode id => m.noted fromNode id
  | _ => m

end CtxCall

/-! ## A context stands for a memory -/

/-- The context remembers the end of the list, and is otherwise as it was made. -/
structure Stands (c : TmCtx) (m : Memory) : Prop where
  remembers : c.history.Remembers m
  role_eq : c.role = .client
  window_eq : c.window = ContentionWindow.meshtasticShape
  uncharged : Uncharged c.duty

theorem stands_fresh (nodeNum : UInt32) : Stands (freshCtx nodeNum) [] :=
  ⟨PacketHistory.remembers_empty, rfl, rfl, rfl, hourBudget⟩

/-- A duty cycle that is not charged permits what fits all of its budget. -/
theorem Uncharged.wouldPermit_fst {d : DutyCycle} (h : Uncharged d) (nowUs : UInt64)
    (airtimeUs : Micros) :
    (d.wouldPermit nowUs airtimeUs).1 = decide (airtimeUs.toNat ≤ 3600000000) := by
  rw [Bool.eq_iff_iff, decide_eq_true_eq]
  exact ⟨h.le_of_permit, h.permits⟩

namespace Stands

variable {c : TmCtx} {m : Memory} {h : Header} {fromNode id : UInt32} {snrQ4 : Int16}
  {airtimeUs : Micros} {nowUs : UInt64} {heardRelayed : UInt8} {call : CtxCall}

theorem observe (hc : Stands c m) (fromNode id : UInt32) :
    ((c.history.observe fromNode id).1 == .duplicate) = decide (m.Recalls fromNode id) ∧
      (c.history.observe fromNode id).2.Remembers (m.noted fromNode id) := by
  rcases hc.remembers.observe (Prod.mk.eta (p := c.history.observe fromNode id)).symm with
    ⟨hdup, hsame, hmem⟩ | ⟨hnew, hpushed, hnot⟩
  · have hrecalls : m.Recalls fromNode id := hmem
    rw [hdup, hsame, Memory.noted, if_pos hrecalls]
    exact ⟨(decide_eq_true hrecalls).symm, hc.remembers⟩
  · have hrecalls : ¬ m.Recalls fromNode id := hnot
    rw [hnew, Memory.noted, if_neg hrecalls]
    exact ⟨(decide_eq_false hrecalls).symm, hpushed⟩

/-- **The decision is the advice of the memory**, at every time. -/
theorem shouldRelay_fst (hc : Stands c m) :
    (shouldRelay (observedOf c h snrQ4 airtimeUs heardRelayed) c.role c.window c.duty nowUs).1 =
      m.advice h snrQ4 airtimeUs heardRelayed := by
  have hdup : (observedOf c h snrQ4 airtimeUs heardRelayed).duplicate =
    decide (m.Recalls h.fromNode h.id) := (hc.observe h.fromNode h.id).1
  have hheard : ((observedOf c h snrQ4 airtimeUs heardRelayed).heardRelayed &&
      c.role.defersToOthers) = decide (heardRelayed ≠ 0) := by
    rw [hc.role_eq]
    exact Bool.and_true _
  have hpermit := hc.uncharged.wouldPermit_fst nowUs airtimeUs
  have hcases := shouldRelay_cases (observedOf c h snrQ4 airtimeUs heardRelayed) c.role c.window
    c.duty nowUs
  dsimp only at hcases
  rw [hdup, hheard, decide_eq_true_eq, decide_eq_true_eq, decide_eq_false_iff_not,
    decide_eq_false_iff_not, not_not] at hcases
  change _ ∨ _ ∧ h.hopLimit = 0 ∧ _ ∨ _ ∧ h.hopLimit ≠ 0 ∧ _ ∨ _ ∧ h.hopLimit ≠ 0 ∧ _ ∧
    ((c.duty.wouldPermit nowUs airtimeUs).1 = false ∧ _ ∨
      (c.duty.wouldPermit nowUs airtimeUs).1 = true ∧ _) at hcases
  rw [hpermit, decide_eq_true_eq, decide_eq_false_iff_not, not_le] at hcases
  rw [Memory.advice]
  rcases hcases with ⟨hseen, heq⟩ | ⟨hseen, hhops, heq⟩ | ⟨hseen, hhops, hother, heq⟩ |
    ⟨hseen, hhops, hother, ⟨hlong, heq⟩ | ⟨hfits, heq⟩⟩
  · rw [if_pos hseen, heq]
  · rw [if_neg hseen, if_pos hhops, heq]
  · rw [if_neg hseen, if_neg hhops, if_pos hother, heq]
  · rw [if_neg hseen, if_neg hhops, if_neg (not_not.mpr hother), if_pos hlong, heq]
  · rw [if_neg hseen, if_neg hhops, if_neg (not_not.mpr hother), if_neg (not_lt.mpr hfits), heq,
      hc.window_eq]
    rfl

/-- Observing a frame that has a header. -/
theorem rxObserve (hc : Stands c m) {bytes : List UInt8} (hdec : Header.decode bytes = some h)
    (snrQ4 : Int16) (airtimeUs : Micros) (nowUs : UInt64) (heardRelayed : UInt8) (old : TmRx) :
    ∃ c', tmRxObserve (some c) (some bytes) snrQ4 airtimeUs nowUs heardRelayed (some old) =
        (tmOk, some c', some (rxReport h (m.Recalls h.fromNode h.id)
          (m.advice h snrQ4 airtimeUs heardRelayed))) ∧
      Stands c' (m.noted h.fromNode h.id) := by
  obtain ⟨hdup, hnoted⟩ := hc.observe h.fromNode h.id
  have hcall : tmRxObserve (some c) (some bytes) snrQ4 airtimeUs nowUs heardRelayed (some old) =
      _ :=
    tmRxObserve_decoded hdec
  dsimp only at hcall
  have hduplicate : (observedOf c h snrQ4 airtimeUs heardRelayed).duplicate =
    decide (m.Recalls h.fromNode h.id) := hdup
  have hduty := (tmRxObserve_duty hcall).1
  rw [hc.shouldRelay_fst, hduplicate] at hcall
  generalize (shouldRelay (observedOf c h snrQ4 airtimeUs heardRelayed) c.role c.window c.duty
    nowUs).2 = duty at hcall hduty
  generalize (c.history.observe h.fromNode h.id).2 = history at hcall hduty hnoted
  refine ⟨_, hcall, hnoted, hc.role_eq, hc.window_eq, ?_⟩
  rcases hduty with hsame | hasked
  · rw [hsame]
    exact hc.uncharged
  · rw [hasked]
    exact hc.uncharged.ask nowUs airtimeUs

/-- An outbox asks a duty cycle for nothing but its permission. -/
theorem nextDue_congr {N : ℕ} (o : Outbox N) {d d' : DutyCycle}
    (h : (d.wouldPermit nowUs airtimeUs).1 = (d'.wouldPermit nowUs airtimeUs).1) :
    (o.nextDue nowUs airtimeUs d).1 = (o.nextDue nowUs airtimeUs d').1 ∧
      (o.nextDue nowUs airtimeUs d).2.1 = (o.nextDue nowUs airtimeUs d').2.1 := by
  rw [Outbox.nextDue, Outbox.nextDue]
  dsimp only
  cases o.dueSlot nowUs with
  | none => exact ⟨rfl, rfl⟩
  | some i =>
    dsimp only
    cases hd : d.wouldPermit nowUs airtimeUs with
    | mk permitted after =>
      cases hd' : d'.wouldPermit nowUs airtimeUs with
      | mk permitted' after' =>
        rw [hd, hd'] at h
        obtain rfl : permitted = permitted' := h
        cases permitted <;> exact ⟨rfl, rfl⟩

/-- Asking an outbox for the next frame leaves the memory. -/
theorem outboxNextDue (hc : Stands c m) (ob : Ptr TmOutbox) (nowUs : UInt64) (airtimeUs : Micros)
    (out : Ptr (List UInt8)) (outAttempt : Ptr UInt8) :
    ∃ c', (CtxCall.outboxNextDue ob nowUs airtimeUs out outAttempt).after c = some c' ∧
      Stands c' m := by
  have hasked : Stands { c with duty := (c.duty.wouldPermit nowUs airtimeUs).2 } m :=
    ⟨hc.remembers, hc.role_eq, hc.window_eq, hc.uncharged.ask nowUs airtimeUs⟩
  cases ob with
  | none => exact ⟨c, rfl, hc⟩
  | some o =>
    rcases tmOutboxNextDue_cases
      (Eq.refl (tmOutboxNextDue (some o) (some c) nowUs airtimeUs out outAttempt)) with
      ⟨-, -, hsame | ⟨d, hd, hduty⟩⟩ | ⟨d, -, hd, -, -, -, hduty⟩
    · exact ⟨c, hsame, hc⟩
    · cases hd
      exact ⟨_, hduty, hasked⟩
    · cases hd
      exact ⟨_, hduty, hasked⟩

/-- What an outbox answers does not depend on the context it asks. -/
theorem nextDue_answer {c' : TmCtx} {m' : Memory} (hc' : Stands c' m') (hc : Stands c m)
    (ob : Ptr TmOutbox) (nowUs : UInt64) (airtimeUs : Micros) (out : Ptr (List UInt8))
    (outAttempt : Ptr UInt8) :
    (CtxCall.outboxNextDue ob nowUs airtimeUs out outAttempt).answer c =
      (CtxCall.outboxNextDue ob nowUs airtimeUs out outAttempt).answer c' := by
  have hsame := (hc.uncharged.wouldPermit_fst nowUs airtimeUs).trans
    (hc'.uncharged.wouldPermit_fst nowUs airtimeUs).symm
  cases ob with
  | none => rfl
  | some o =>
    cases out with
    | none => rfl
    | some dst =>
      have hcongr := nextDue_congr o.inner hsame
      rw [CtxCall.answer, CtxCall.answer, tmOutboxNextDue, tmOutboxNextDue]
      generalize o.inner.nextDue nowUs airtimeUs c.duty = result at hcongr ⊢
      generalize o.inner.nextDue nowUs airtimeUs c'.duty = result' at hcongr ⊢
      obtain ⟨due, inner, duty⟩ := result
      obtain ⟨due', inner', duty'⟩ := result'
      obtain ⟨rfl, rfl⟩ : due = due' ∧ inner = inner' := hcongr
      cases due with
      | none => rfl
      | some sent =>
        dsimp only
        split <;> rfl

/-- **Step lemma.** The context answers what the memory answers, and stands for it afterwards. -/
theorem step (hc : Stands c m) (call : CtxCall) :
    call.answer c = call.reply m ∧ ∃ c', call.after c = some c' ∧ Stands c' (call.record m) := by
  cases call with
  | rxObserve frame snrQ4 airtimeUs nowUs heardRelayed out =>
    cases frame with
    | none => exact ⟨rfl, c, rfl, hc⟩
    | some bytes =>
      cases out with
      | none => exact ⟨rfl, c, rfl, hc⟩
      | some old =>
        rw [CtxCall.answer, CtxCall.reply, CtxCall.after, CtxCall.record]
        cases hdec : Header.decode bytes with
        | none =>
          have hcall : tmRxObserve (some c) (some bytes) snrQ4 airtimeUs nowUs heardRelayed
              (some old) = (tmEShort, some c, some old) := by
            rw [tmRxObserve]
            simp only [hdec]
          rw [hcall]
          exact ⟨rfl, c, rfl, hc⟩
        | some h =>
          obtain ⟨c', hcall, hc'⟩ := hc.rxObserve hdec snrQ4 airtimeUs nowUs heardRelayed old
          rw [hcall]
          dsimp only [Option.elim_some]
          exact ⟨rfl, c', rfl, hc'⟩
  | noteOriginated fromNode id =>
    exact ⟨rfl, _, rfl, (hc.observe fromNode id).2, hc.role_eq, hc.window_eq, hc.uncharged⟩
  | outboxNextDue ob nowUs airtimeUs out outAttempt =>
    obtain ⟨c', hafter, hc'⟩ := hc.outboxNextDue ob nowUs airtimeUs out outAttempt
    exact ⟨(stands_fresh 0).nextDue_answer hc .., c', hafter, hc'⟩

end Stands

end TetherMesh.CApi
