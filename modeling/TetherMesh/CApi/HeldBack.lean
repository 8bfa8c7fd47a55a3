import TetherMesh.CApi.Observing

/-!
# A frame held back for want of duty budget

`tm_rx_observe` records a packet before it asks the duty budget. A frame that was held
back only because the budget was used up is therefore a duplicate from then on, and is
relayed when it is heard again exactly if its entry has left the history by then, which
takes as many other packets as the history holds.

## Main results

* `held_back_relayed_iff`
* `held_back_frame_lost` — the same frame a microsecond later, with all of the budget free
-/

namespace TetherMesh.CApi

open CS Protocol

variable {c c₁ c₂ : TmCtx} {frame : List UInt8} {h : Header}

/-- What a report says about the decision. -/
theorem rxReport_held {duplicate : Bool} {decision : Relay}
    (hreason : (rxReport h duplicate decision).suppressed =
      suppressedCode .dutyBudgetExhausted) : decision = .no .dutyBudgetExhausted := by
  cases decision with
  | after windowSlots hopLimit => exact absurd hreason (by decide : (0 : UInt8) ≠ 4)
  | no reason =>
    cases reason with
    | dutyBudgetExhausted => rfl
    | hopLimitExhausted => exact absurd hreason (by decide : (2 : UInt8) ≠ 4)
    | duplicate => exact absurd hreason (by decide : (1 : UInt8) ≠ 4)
    | alreadyRelayedByAnother => exact absurd hreason (by decide : (3 : UInt8) ≠ 4)

/-- A packet counts as a duplicate exactly when the history contains it. -/
theorem observedOf_duplicate (c : TmCtx) (h : Header) (snrQ4 : Int16) (airtimeUs : Micros)
    (heardRelayed : UInt8) :
    (observedOf c h snrQ4 airtimeUs heardRelayed).duplicate =
      c.history.contains h.fromNode h.id := by
  rw [observedOf, PacketHistory.observe]
  by_cases hseen : c.history.contains h.fromNode h.id = true
  · rw [if_pos hseen, hseen]
    rfl
  · rw [if_neg hseen, Bool.eq_false_of_not_eq_true hseen]
    rfl

/-- A frame that is held back for want of budget was new and had a hop left, and it has been
observed. -/
theorem observed_of_held (hdec : Header.decode frame = some h)
    {snrQ4 : Int16} {airtimeUs : Micros} {nowUs : UInt64} {heardRelayed : UInt8} {out rx : TmRx}
    (hfirst : tmRxObserve (some c) (some frame) snrQ4 airtimeUs nowUs heardRelayed (some out) =
      (tmOk, some c₁, some rx))
    (hreason : rx.suppressed = suppressedCode .dutyBudgetExhausted) :
    h.hopLimit ≠ 0 ∧ c.history.contains h.fromNode h.id = false ∧
      c₁.history = (c.history.observe h.fromNode h.id).2 ∧
      rx.fromNode = h.fromNode ∧ rx.id = h.id ∧ rx.hopLimit = h.hopLimit := by
  rw [tmRxObserve_decoded hdec] at hfirst
  dsimp only at hfirst
  set observed := observedOf c h snrQ4 airtimeUs heardRelayed with hobserved
  have hcases := shouldRelay_cases observed c.role c.window c.duty nowUs
  generalize shouldRelay observed c.role c.window c.duty nowUs = answer at hfirst hcases
  cases hfirst
  have hdecision := rxReport_held hreason
  rw [hdecision]
  obtain ⟨decision, duty⟩ := answer
  cases hdecision
  -- the three refusals before the budget is looked at give other reasons
  rcases hcases with ⟨-, heq⟩ | ⟨-, -, heq⟩ | ⟨-, -, -, heq⟩ | ⟨hnew, hhops, -⟩
  · cases heq
  · cases heq
  · cases heq
  · rw [hobserved, observedOf_duplicate] at hnew
    exact ⟨hhops, hnew, rfl, rfl, rfl, rfl⟩

/-- A packet is lost only after as many calls as the history holds. -/
theorem le_length_of_forgotten {recorded : List PacketKey} {fromNode id : UInt32}
    {calls : List CtxCall} (hc : c₁.history.Remembers (recorded ++ [(fromNode, id)]))
    (run : Run CtxCall.Step c₁ calls c₂) (hgone : c₂.history.contains fromNode id = false) :
    historyLen ≤ calls.length := by
  obtain ⟨new, hlen, hlater⟩ := CtxCall.run_recorded hc run
  -- the entry is pushed out only by as many newer ones as the history holds
  have hnot : (fromNode, id) ∉ (recorded ++ (fromNode, id) :: new).rtake historyLen := by
    rw [List.append_assoc, List.singleton_append] at hlater
    rw [← hlater.contains_iff, hgone]
    exact Bool.false_ne_true
  exact (le_length_of_notMem_rtake hnot).trans hlen

/-- **When a frame that was held back is relayed later.** Whatever the context, the frame is
relayed with one hop less when it is heard again and the budget permits it exactly if the
history does not contain it then. In a history that remembers what it was given, that takes
at least as many calls as it has entries. -/
theorem held_back_relayed_iff {snrQ4 snrQ4' : Int16} {airtimeUs airtimeUs' : Micros}
    {nowUs nowUs' : UInt64} {heardRelayed : UInt8} {out out' rx : TmRx} {calls : List CtxCall}
    (hfirst : tmRxObserve (some c) (some frame) snrQ4 airtimeUs nowUs heardRelayed (some out) =
      (tmOk, some c₁, some rx))
    (hheld : rx.relay = 0 ∧ rx.suppressed = suppressedCode .dutyBudgetExhausted)
    (run : Run CtxCall.Step c₁ calls c₂)
    (hpermit : (c₂.duty.wouldPermit nowUs' airtimeUs').1 = true) :
    ((∃ c₃ rx', tmRxObserve (some c₂) (some frame) snrQ4' airtimeUs' nowUs' 0 (some out') =
        (tmOk, some c₃, some rx') ∧ rx'.relay = 1 ∧ rx'.relayHopLimit = rx.hopLimit - 1) ↔
      c₂.history.contains rx.fromNode rx.id = false) ∧
    ∀ recorded, c.history.Remembers recorded →
      c₂.history.contains rx.fromNode rx.id = false → historyLen ≤ calls.length := by
  obtain ⟨bytes, h, -, hbytes, -, hdec⟩ := exists_decoded hfirst
  cases hbytes
  obtain ⟨hhops, hnew, hobserved, hfrom, hid, hlimit⟩ := observed_of_held hdec hfirst hheld.2
  rw [hfrom, hid, hlimit]
  constructor
  · rw [tmRxObserve_decoded hdec]
    dsimp only
    -- hops are left, nobody was heard relaying and the budget permits: the history decides
    have hdup := observedOf_duplicate c₂ h snrQ4' airtimeUs' 0
    set observed := observedOf c₂ h snrQ4' airtimeUs' 0
    rw [← hdup]
    rcases shouldRelay_cases observed c₂.role c₂.window c₂.duty nowUs' with
      ⟨hseen, heq⟩ | ⟨-, hzero, -⟩ | ⟨-, -, hdefer, -⟩ | ⟨hnew, -, -, ⟨hrefuse, -⟩ | ⟨-, heq⟩⟩
    · rw [heq, hseen]
      constructor
      · rintro ⟨c₃, rx', hcall, hrelay, -⟩
        cases hcall
        exact absurd hrelay (by decide : (0 : UInt8) ≠ 1)
      · intro hfalse
        cases hfalse
    · exact absurd hzero hhops
    · cases hdefer
    · exact absurd (hrefuse.symm.trans hpermit) Bool.false_ne_true
    · rw [heq, hnew]
      exact ⟨fun _ => rfl, fun _ => ⟨_, _, rfl, rfl, rfl⟩⟩
  · intro recorded hc hgone
    have hrecorded := hc.observe_new hnew
    rw [← hobserved] at hrecorded
    exact le_length_of_forgotten hrecorded run hgone

/-- On a new context, a frame whose airtime does not fit the budget of the window. -/
theorem tmRxObserve_broadcastFrame_held :
    tmRxObserve (some (freshCtx 7)) (some broadcastFrame) 0 4000000000 0 0 (some noReport) =
      (tmOk, some broadcastCtx, some ⟨1, 0xFFFFFFFF, 5, 3, 0, 8, 0, 0, 0, 0, 4⟩) := rfl

theorem broadcastCtx_contains : broadcastCtx.history.contains 1 5 = true := by
  have hnew : (freshCtx 7).history.contains 1 5 = false := rfl
  have hheld : broadcastCtx.history.Remembers ([] ++ [(1, 5)]) :=
    PacketHistory.remembers_empty.observe_new hnew
  exact hheld.contains_iff.mpr (by decide)

/-- **The frame is lost.** A microsecond later, with an airtime that fits and nobody else
heard relaying it, the frame that was held back is refused as a duplicate. -/
theorem held_back_frame_lost :
    ∃ c₁ rx rx',
      tmRxObserve (some (freshCtx 7)) (some broadcastFrame) 0 4000000000 0 0 (some noReport) =
        (tmOk, some c₁, some rx) ∧ rx.relay = 0 ∧
      rx.suppressed = suppressedCode .dutyBudgetExhausted ∧
      (c₁.duty.wouldPermit 1 1000).1 = true ∧
      tmRxObserve (some c₁) (some broadcastFrame) 0 1000 1 0 (some noReport) =
        (tmOk, some c₁, some rx') ∧ rx'.relay = 0 ∧ rx'.suppressed = suppressedCode .duplicate :=
  ⟨_, _, _, tmRxObserve_broadcastFrame_held, rfl, rfl, rfl,
    tmRxObserve_duplicate (h := ⟨0xFFFFFFFF, 1, 5, 3, false, false, 3, 8, 0, 0⟩) rfl
      broadcastCtx_contains, rfl, rfl⟩

/-- The same frame once more: its entry is the newest in the history. -/
theorem held_back_relayed_iff_newest :
    ¬ ∃ c₃ rx', tmRxObserve (some broadcastCtx) (some broadcastFrame) 0 1000 1 0 (some noReport) =
      (tmOk, some c₃, some rx') ∧ rx'.relay = 1 ∧ rx'.relayHopLimit = 3 - 1 := by
  have hpermit : (broadcastCtx.duty.wouldPermit 1 1000).1 = true := rfl
  intro hrelayed
  have hgone : broadcastCtx.history.contains 1 5 = false :=
    (held_back_relayed_iff tmRxObserve_broadcastFrame_held ⟨rfl, rfl⟩ .nil hpermit).1.mp hrelayed
  rw [broadcastCtx_contains] at hgone
  cases hgone

end TetherMesh.CApi
