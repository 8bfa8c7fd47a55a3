import TetherMesh.Protocol.Airtime

/-!
# The rebroadcast decision

Managed flooding: a frame not seen before, with hops left, is relayed after a
backoff drawn from a contention window that grows with signal strength, unless
the node defers to another relay it has heard or its duty budget is used up.

## Main definitions

* `Role`, `ContentionWindow.slotsForSnr`
* `shouldRelay` — the decision; it checks the duty budget and does not charge it

## Main results

* `shouldRelay_cases` — everything the decision can be, in the order of its checks
* `shouldRelay_eq_after` — what a decision to relay says about the frame
-/

namespace TetherMesh.Protocol

/-- How a node participates in flooding. -/
inductive Role
  | client
  | router
  | repeater
  deriving DecidableEq, Repr

/-- Whether hearing another node relay the frame suppresses us. -/
def Role.defersToOthers : Role → Bool
  | .client => true
  | .router | .repeater => false

/-- The SNR-scaled contention window. -/
structure ContentionWindow where
  minSlots : UInt8
  maxSlots : UInt8
  snrFloorQuarterDb : Int16
  snrCeilQuarterDb : Int16
  deriving DecidableEq, Repr

namespace ContentionWindow

/-- `ContentionWindow::MESHTASTIC_SHAPE`. -/
def meshtasticShape : ContentionWindow where
  minSlots := 8
  maxSlots := 143
  snrFloorQuarterDb := -80
  snrCeilQuarterDb := 40

/-- Width of the contention window for a received frame, in slots. -/
def slotsForSnr (w : ContentionWindow) (snrQuarterDb : Int16) : UInt8 :=
  let lo := w.minSlots
  let hi := w.maxSlots
  if snrQuarterDb ≤ w.snrFloorQuarterDb then lo
  else if w.snrCeilQuarterDb ≤ snrQuarterDb then hi
  else
    let span := w.snrCeilQuarterDb.saturatingSub w.snrFloorQuarterDb
    -- an inverted or empty range: the widest window
    if span ≤ 0 ∨ hi < lo then hi
    else
      let offset := snrQuarterDb.saturatingSub w.snrFloorQuarterDb
      let slotSpan := (hi.saturatingSub lo).toUInt32
      let scaled := ((offset.tryToUInt32.getD 0).saturatingMul slotSpan).checkedDiv
        (span.tryToUInt32.getD 1)
      (lo.toUInt32.saturatingAdd (scaled.getD 0)).tryToUInt8.getD hi

end ContentionWindow

/-- Why a frame will not be relayed. -/
inductive Suppressed
  | hopLimitExhausted
  | duplicate
  | alreadyRelayedByAnother
  | dutyBudgetExhausted
  deriving DecidableEq, Repr

/-- The outcome of the rebroadcast decision. -/
inductive Relay
  /-- Relay with the decremented `hopLimit`, after a draw from `windowSlots`. -/
  | after (windowSlots hopLimit : UInt8)
  | no (why : Suppressed)
  deriving DecidableEq, Repr

/-- What the caller already knows about a received frame. -/
structure Observed where
  hopLimit : UInt8
  snrQuarterDb : Int16
  duplicate : Bool
  heardRelayed : Bool
  airtimeUs : Micros
  deriving DecidableEq, Repr

/-- Decide whether to rebroadcast. The duty budget is asked last, and only its
window can move. -/
def shouldRelay (observed : Observed) (role : Role) (window : ContentionWindow)
    (duty : DutyCycle) (nowUs : UInt64) : Relay × DutyCycle :=
  if observed.duplicate then (.no .duplicate, duty)
  else
    match observed.hopLimit.checkedSub 1 with
    | none => (.no .hopLimitExhausted, duty)
    | some hopLimit =>
      if observed.hopLimit = 0 then (.no .hopLimitExhausted, duty)
      else if observed.heardRelayed && role.defersToOthers then (.no .alreadyRelayedByAnother, duty)
      else
        match duty.wouldPermit nowUs observed.airtimeUs with
        | (false, duty) => (.no .dutyBudgetExhausted, duty)
        | (true, duty) => (.after (window.slotsForSnr observed.snrQuarterDb) hopLimit, duty)

variable {observed : Observed} {role : Role} {window : ContentionWindow} {duty duty' : DutyCycle}
  {nowUs : UInt64} {windowSlots hopLimit : UInt8}

/-- **Inversion of `shouldRelay`**, in the order of its checks. -/
theorem shouldRelay_cases (observed : Observed) (role : Role) (window : ContentionWindow)
    (duty : DutyCycle) (nowUs : UInt64) :
    let answer := shouldRelay observed role window duty nowUs
    let permit := duty.wouldPermit nowUs observed.airtimeUs
    (observed.duplicate = true ∧ answer = (.no .duplicate, duty)) ∨
    (observed.duplicate = false ∧ observed.hopLimit = 0 ∧
      answer = (.no .hopLimitExhausted, duty)) ∨
    (observed.duplicate = false ∧ observed.hopLimit ≠ 0 ∧
      (observed.heardRelayed && role.defersToOthers) = true ∧
      answer = (.no .alreadyRelayedByAnother, duty)) ∨
    (observed.duplicate = false ∧ observed.hopLimit ≠ 0 ∧
      (observed.heardRelayed && role.defersToOthers) = false ∧
      ((permit.1 = false ∧ answer = (.no .dutyBudgetExhausted, permit.2)) ∨
        (permit.1 = true ∧ answer =
          (.after (window.slotsForSnr observed.snrQuarterDb) (observed.hopLimit - 1),
            permit.2)))) := by
  dsimp only
  unfold shouldRelay
  cases hdup : observed.duplicate with
  | true => exact .inl ⟨rfl, rfl⟩
  | false =>
    by_cases hhops : observed.hopLimit = 0
    · rw [hhops]
      exact .inr (.inl ⟨rfl, rfl, rfl⟩)
    · have hsub : observed.hopLimit.checkedSub 1 = some (observed.hopLimit - 1) := by
        rw [UInt8.checkedSub, if_pos]
        rw [UInt8.le_iff_toNat_le]
        exact Nat.pos_of_ne_zero fun hzero => hhops (UInt8.toNat_inj.mp hzero)
      rw [hsub]
      dsimp only
      rw [if_neg Bool.false_ne_true, if_neg hhops]
      cases hdefer : observed.heardRelayed && role.defersToOthers with
      | true => exact .inr (.inr (.inl ⟨rfl, hhops, rfl, rfl⟩))
      | false =>
        refine .inr (.inr (.inr ⟨rfl, hhops, rfl, ?_⟩))
        rw [if_neg Bool.false_ne_true]
        cases hpermit : duty.wouldPermit nowUs observed.airtimeUs with
        | mk permitted duty' =>
          cases permitted with
          | false => exact .inl ⟨rfl, rfl⟩
          | true => exact .inr ⟨rfl, rfl⟩

/-- A frame to be relayed is new, and loses one hop. -/
theorem shouldRelay_eq_after
    (h : shouldRelay observed role window duty nowUs = (.after windowSlots hopLimit, duty')) :
    observed.duplicate = false ∧ hopLimit.toNat + 1 = observed.hopLimit.toNat := by
  rcases shouldRelay_cases observed role window duty nowUs with
    ⟨-, heq⟩ | ⟨-, -, heq⟩ | ⟨-, -, -, heq⟩ | ⟨hdup, hhops, -, ⟨-, heq⟩ | ⟨-, heq⟩⟩
  all_goals
    rw [h] at heq
    obtain ⟨hrelay, -⟩ := Prod.mk.inj heq
    cases hrelay
  refine ⟨hdup, ?_⟩
  have hpos : 0 < observed.hopLimit.toNat :=
    Nat.pos_of_ne_zero fun hzero => hhops (UInt8.toNat_inj.mp hzero)
  have hone : (1 : UInt8) ≤ observed.hopLimit := UInt8.le_iff_toNat_le.mpr hpos
  rw [UInt8.toNat_sub_of_le _ _ hone]
  exact Nat.sub_add_cancel hpos

end TetherMesh.Protocol
