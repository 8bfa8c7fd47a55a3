import Mathlib.Data.List.Chain
import TetherMesh.Protocol.OutboxDrain
import TetherMesh.Protocol.OutboxRuns

/-!
# An outbox that is visited

An outbox does nothing by itself: its owner comes back from time to time, and calls until there is
nothing to reap and nothing to hand out. Between two visits frames are tracked and acknowledged,
and calls may be made as well. If the visits are an interval apart, each of them hands a waiting
frame out once more, or finds that it has no attempt left. So no frame waits longer than it has
attempts: after as many visits it was acknowledged, or it was handed out as often as the policy
says and given up.

## Main definitions

* `Ledger.StepAt` — one call, made at a clock value
* `Ledger.Settled` — at a clock value nothing is left to reap or to hand out
* `Ledger.Visit` — calls up to a clock value, after which the outbox is settled
* `Finished` — the stories of a frame that has left

## Main results

* `Ledger.StepAt.slot_cases` — what a call does to an entry that waits
* `Ledger.Visit.progress` — a visit brings every entry further that was due
* `Ledger.exists_visit`, `Ledger.visited_until_finished`
-/

namespace TetherMesh.Protocol

open CS

/-- The event tells that ticket `k` left the outbox. -/
def OutboxEvent.Leaves (k : ℕ) : OutboxEvent → Prop
  | acknowledged _ _ retired => k ∈ retired
  | reaped ticket _ _ => ticket = k
  | _ => False

/-- The frame was acknowledged, or handed out as often as there are attempts after the first and
then reported as given up. -/
def Finished (policy : RetryPolicy) (frame : List UInt8) (facts : List Fact) : Prop :=
  ∃ header, Header.decode frame = some header ∧
    ((∃ m ≤ policy.maxAttempts.toNat - 1, facts = sent frame m ++ [.acknowledged header.id]) ∨
      facts = sent frame (policy.maxAttempts.toNat - 1) ++ [.reaped header.fromNode header.id])

namespace Ledger

variable {N : ℕ}

/-- One call, made at `nowUs`, with any duty budget. An acknowledgement has no clock. -/
inductive StepAt (nowUs : UInt64) : Ledger N → OutboxEvent → Ledger N → Prop
  | track {l : Ledger N} {frame : List UInt8} {o' : Outbox N} {i : Fin N} :
      l.outbox.track frame nowUs = (.ok (), o') → l.outbox.freeSlot = some i →
      StepAt nowUs l (.tracked l.accepted frame)
        ⟨o', Function.update l.ticket i l.accepted, l.accepted + 1⟩
  | refuse {l : Ledger N} {frame : List UInt8} {o' : Outbox N} {why : Outbox.Error} :
      l.outbox.track frame nowUs = (.error why, o') →
      StepAt nowUs l (.refused why) { l with outbox := o' }
  | acknowledge {l : Ledger N} {requestId : UInt32} {o' : Outbox N} {hit : Bool} :
      l.outbox.acknowledge requestId = (hit, o') →
      StepAt nowUs l (.acknowledged requestId hit (l.retired o')) { l with outbox := o' }
  | reap {l : Ledger N} {o' : Outbox N} {fromNode id : UInt32} {i : Fin N} :
      l.outbox.reap nowUs = (some (fromNode, id), o') → l.outbox.reapSlot nowUs = some i →
      StepAt nowUs l (.reaped (l.ticket i) fromNode id) { l with outbox := o' }
  | reapNone {l : Ledger N} {o' : Outbox N} :
      l.outbox.reap nowUs = (none, o') → StepAt nowUs l .nothingToReap { l with outbox := o' }
  | nextDue {l : Ledger N} {airtimeUs : Micros} {duty duty' : DutyCycle} {o' : Outbox N} {due : Due}
      {i : Fin N} :
      l.outbox.nextDue nowUs airtimeUs duty = (some due, o', duty') →
      l.outbox.dueSlot nowUs = some i →
      StepAt nowUs l (.handedOut (l.ticket i) due.frame due.attempt) { l with outbox := o' }
  | nextDueNone {l : Ledger N} {airtimeUs : Micros} {duty duty' : DutyCycle} {o' : Outbox N} :
      l.outbox.nextDue nowUs airtimeUs duty = (none, o', duty') →
      StepAt nowUs l .nothingDue { l with outbox := o' }

/-- One call, made no later than `untilUs`. -/
def StepBy (untilUs : UInt64) (l : Ledger N) (e : OutboxEvent) (l' : Ledger N) : Prop :=
  ∃ nowUs ≤ untilUs, StepAt nowUs l e l'

/-- At `nowUs` there is nothing to reap, and nothing to hand out though it is permitted. -/
def Settled (nowUs : UInt64) (l : Ledger N) : Prop :=
  (l.outbox.reap nowUs).1 = none ∧ ∃ airtimeUs duty,
    (duty.wouldPermit nowUs airtimeUs).1 = true ∧
      (l.outbox.nextDue nowUs airtimeUs duty).1 = none

/-- The calls made up to a clock value, after which the outbox is settled. -/
def Visit (l : Ledger N) (visit : UInt64 × List OutboxEvent) (l' : Ledger N) : Prop :=
  Run (StepBy visit.1) l visit.2 l' ∧ Settled visit.1 l'

/-- What is done in a run of visits. -/
def eventsOf (visits : List (UInt64 × List OutboxEvent)) : List OutboxEvent :=
  visits.flatMap (·.2)

variable {policy : RetryPolicy} {events more : List OutboxEvent} {l l' : Ledger N}
  {e : OutboxEvent} {i : Fin N} {nowUs untilUs : UInt64}

/-! ## One call -/

theorem StepAt.step (h : StepAt nowUs l e l') : Step l e l' := by
  cases h with
  | track hcall hfree => exact .track hcall hfree
  | refuse hcall => exact .refuse hcall
  | acknowledge hcall => exact .acknowledge hcall
  | reap hcall hi => exact .reap hcall hi
  | reapNone hcall => exact .reapNone hcall
  | nextDue hcall hi => exact .nextDue hcall hi
  | nextDueNone hcall => exact .nextDueNone hcall

/-- **What a call does to an entry that waits**: it leaves, it is untouched, or it was due with an
attempt left and has used it. -/
theorem StepAt.slot_cases (h : StepAt nowUs l e l') (hpend : l.Pending i) :
    e.Leaves (l.ticket i) ∧ ¬ l'.Pending i ∨ l'.Pending i ∧ l'.ticket i = l.ticket i ∧
      (l'.outbox.slot i = l.outbox.slot i ∨
        (l.outbox.slot i).attempts < l.outbox.policy.maxAttempts ∧
          (l.outbox.slot i).dueUs ≤ nowUs ∧ l'.outbox.slot i = l.outbox.attempted i nowUs) := by
  have hput {j : Fin N} (s : Slot) (hij : i ≠ j) :
      (l.outbox.put j s).slot i = l.outbox.slot i := Outbox.slot_put_of_ne _ _ hij
  cases h with
  | @track _ _ j hcall hfree =>
    obtain ⟨header, hlen, -, rfl⟩ := Outbox.track_accepted hcall hfree
    have hij : i ≠ j := by
      rintro rfl
      exact SlotState.noConfusion (hpend.symm.trans (Outbox.freeSlot_state hfree))
    refine .inr ⟨?_, Function.update_of_ne hij .., .inl (hput _ hij)⟩
    rw [Pending, hput _ hij]
    exact hpend
  | refuse hcall =>
    obtain rfl := Outbox.track_error hcall
    exact .inr ⟨hpend, rfl, .inl rfl⟩
  | @acknowledge requestId o' _ hcall =>
    by_cases hid : (l.outbox.slot i).id = requestId
    · have hfreed := Outbox.acknowledge_freed hcall hpend hid
      refine .inl ⟨List.mem_map_of_mem (List.mem_filter.mpr ⟨List.mem_finRange i, ?_⟩), ?_⟩
      · rw [hfreed]
        exact decide_eq_true ⟨hpend, rfl⟩
      · rw [Pending, hfreed]
        exact SlotState.noConfusion
    · have hkept := Outbox.acknowledge_kept hcall fun hmatch => hid hmatch.2
      refine .inr ⟨?_, rfl, .inl hkept⟩
      rw [Pending, hkept]
      exact hpend
  | @reap _ _ _ j hcall hj =>
    obtain ⟨-, rfl⟩ := Outbox.reap_some hcall hj
    by_cases hij : i = j
    · subst hij
      refine .inl ⟨rfl, ?_⟩
      rw [Pending, Outbox.slot_put_self]
      exact SlotState.noConfusion
    · refine .inr ⟨?_, rfl, .inl (hput _ hij)⟩
      rw [Pending, hput _ hij]
      exact hpend
  | reapNone hcall =>
    obtain rfl := Outbox.reap_none hcall
    exact .inr ⟨hpend, rfl, .inl rfl⟩
  | @nextDue _ _ _ _ _ j hcall hj =>
    obtain ⟨-, rfl⟩ := Outbox.nextDue_some hcall hj
    by_cases hij : i = j
    · subst hij
      obtain ⟨-, hleft, hdue⟩ := Outbox.dueSlot_spec hj
      have hslot := Outbox.slot_put_self l.outbox i (l.outbox.attempted i nowUs)
      refine .inr ⟨?_, rfl, .inr ⟨hleft, hdue, hslot⟩⟩
      rw [Pending, hslot]
      exact hpend
    · refine .inr ⟨?_, rfl, .inl (hput _ hij)⟩
      rw [Pending, hput _ hij]
      exact hpend
  | nextDueNone hcall =>
    obtain rfl := Outbox.nextDue_none hcall
    exact .inr ⟨hpend, rfl, .inl rfl⟩

/-- **What comes to wait** was waiting before, but for a frame that is tracked. -/
theorem StepAt.pending_cases (h : StepAt nowUs l e l') :
    (l'.accepted = l.accepted ∧ ∀ i, l'.Pending i → l.Pending i) ∨
      ∃ i, l'.Pending i ∧ l'.ticket i = l.accepted ∧ l'.accepted = l.accepted + 1 ∧
        (l'.outbox.slot i).dueUs = l.outbox.nextDueUs nowUs ∧
        ∀ j ≠ i, l'.Pending j → l.Pending j := by
  cases h with
  | @track _ _ i hcall hfree =>
    obtain ⟨header, hlen, -, rfl⟩ := Outbox.track_accepted hcall hfree
    have hslot := Outbox.slot_put_self l.outbox i
      ((l.outbox.slot i).load header _ hlen (l.outbox.nextDueUs nowUs))
    refine .inr ⟨i, ?_, Function.update_self .., rfl, ?_, fun j hji hpend => ?_⟩
    · rw [Pending, hslot]
      rfl
    · rw [hslot]
      rfl
    · rwa [Pending, Outbox.slot_put_of_ne _ _ hji] at hpend
  | refuse hcall =>
    obtain rfl := Outbox.track_error hcall
    exact .inl ⟨rfl, fun _ hpend => hpend⟩
  | acknowledge hcall =>
    exact .inl ⟨rfl, fun i hpend => ((Outbox.acknowledge_pending_iff hcall i).mp hpend).1⟩
  | reap hcall hj =>
    obtain ⟨-, rfl⟩ := Outbox.reap_some hcall hj
    refine .inl ⟨rfl, fun i hpend => ?_⟩
    rcases Outbox.put_pending_iff.mp hpend with ⟨rfl, -⟩ | ⟨-, hbefore⟩
    · exact (Outbox.reapSlot_spec hj).1
    · exact hbefore
  | reapNone hcall =>
    obtain rfl := Outbox.reap_none hcall
    exact .inl ⟨rfl, fun _ hpend => hpend⟩
  | nextDue hcall hj =>
    obtain ⟨-, rfl⟩ := Outbox.nextDue_some hcall hj
    refine .inl ⟨rfl, fun i hpend => ?_⟩
    rcases Outbox.put_pending_iff.mp hpend with ⟨rfl, -⟩ | ⟨-, hbefore⟩
    · exact (Outbox.dueSlot_spec hj).1
    · exact hbefore
  | nextDueNone hcall =>
    obtain rfl := Outbox.nextDue_none hcall
    exact .inl ⟨rfl, fun _ hpend => hpend⟩

/-! ## One visit -/

theorem StepBy.step (h : StepBy untilUs l e l') : Step l e l' := by
  obtain ⟨_, -, hstep⟩ := h
  exact hstep.step

theorem Inv.run (inv : Inv policy events l) (run : Run (StepBy untilUs) l more l') :
    Inv policy (events ++ more) l' := by
  induction run with
  | nil => rwa [List.append_nil]
  | snoc _ hstep ih =>
    rw [← List.append_assoc]
    exact ih.step hstep.step

/-- Where nothing is handed out though it is permitted, nothing is due. -/
theorem dueSlot_eq_none {o : Outbox N} {airtimeUs : Micros} {duty : DutyCycle}
    (hpermit : (duty.wouldPermit nowUs airtimeUs).1 = true)
    (hnone : (o.nextDue nowUs airtimeUs duty).1 = none) : o.dueSlot nowUs = none := by
  cases hscan : o.dueSlot nowUs with
  | none => rfl
  | some j =>
    have hask : duty.wouldPermit nowUs airtimeUs = (true, duty.roll nowUs) := Prod.ext hpermit rfl
    rw [Outbox.nextDue] at hnone
    dsimp only at hnone
    rw [hscan] at hnone
    dsimp only at hnone
    rw [hask] at hnone
    cases hnone

/-- Where nothing is reaped, nothing is to be given up. -/
theorem reapSlot_eq_none {o : Outbox N} (hnone : (o.reap nowUs).1 = none) :
    o.reapSlot nowUs = none := by
  cases hscan : o.reapSlot nowUs with
  | none => rfl
  | some j =>
    rw [Outbox.reap, hscan] at hnone
    cases hnone

/-- Where an outbox is settled, what waits is not due. -/
theorem Settled.lt_dueUs (h : Settled nowUs l) (hpend : l.Pending i) :
    nowUs < (l.outbox.slot i).dueUs := by
  obtain ⟨hreap, airtimeUs, duty, hpermit, hnext⟩ := h
  rw [← UInt64.not_le]
  intro hdue
  by_cases hleft : (l.outbox.slot i).attempts < l.outbox.policy.maxAttempts
  · exact List.find?_eq_none.mp (dueSlot_eq_none hpermit hnext) i (List.mem_finRange i)
      (decide_eq_true ⟨hpend, hleft, hdue⟩)
  · exact List.find?_eq_none.mp (reapSlot_eq_none hreap) i (List.mem_finRange i)
      (decide_eq_true ⟨hpend, UInt8.not_lt.mp hleft, hdue⟩)

/-- How far an entry has come since it was `s`: it has left, it is untouched, or it has used an
attempt and is due an interval after that. -/
inductive Further (policy : RetryPolicy) (untilUs : UInt64) (s s' : Slot) : Prop
  | untouched : s' = s → Further policy untilUs s s'
  | attempted : s.attempts < s'.attempts → s'.attempts ≤ policy.maxAttempts →
      s'.dueUs.toNat ≤ untilUs.toNat + policy.intervalUs.toNat → Further policy untilUs s s'

/-- An attempt counts, and puts the deadline an interval off. -/
theorem Further.attempt {s : Slot} (h : Further policy untilUs s (l.outbox.slot i))
    (hpolicy : l.outbox.policy = policy) (hnow : nowUs ≤ untilUs)
    (hleft : (l.outbox.slot i).attempts < l.outbox.policy.maxAttempts) :
    Further policy untilUs s (l.outbox.attempted i nowUs) := by
  have hmax := policy.maxAttempts.toNat_lt
  have hone : (1 : UInt8).toNat = 1 := rfl
  rw [hpolicy, UInt8.lt_iff_toNat_lt] at hleft
  have hnext : (l.outbox.attempted i nowUs).attempts.toNat =
      (l.outbox.slot i).attempts.toNat + 1 := by
    rw [Outbox.attempted, UInt8.toNat_saturatingAdd, hone]
    omega
  have hbefore : s.attempts.toNat ≤ (l.outbox.slot i).attempts.toNat := by
    cases h with
    | untouched hsame => rw [hsame]
    | attempted hlt => exact (UInt8.lt_iff_toNat_lt.mp hlt).le
  refine .attempted ?_ ?_ ?_
  · rw [UInt8.lt_iff_toNat_lt]
    omega
  · rw [UInt8.le_iff_toNat_le]
    omega
  · rw [Outbox.attempted, Outbox.nextDueUs, hpolicy, UInt64.toNat_saturatingAdd,
      UInt32.toNat_toUInt64]
    have hle := UInt64.le_iff_toNat_le.mp hnow
    omega

/-- **Run lemma.** An entry that waits leaves, or comes further. -/
theorem further_of_run (inv : Inv policy events l) (run : Run (StepBy untilUs) l more l')
    (hpend : l.Pending i) :
    (∃ e ∈ more, e.Leaves (l.ticket i)) ∨ l'.Pending i ∧ l'.ticket i = l.ticket i ∧
      Further policy untilUs (l.outbox.slot i) (l'.outbox.slot i) := by
  induction run with
  | nil => exact .inr ⟨hpend, rfl, .untouched rfl⟩
  | @snoc more l₁ l₂ e run hstep ih =>
    rcases ih with ⟨e', he', hleaves⟩ | ⟨hpend₁, hticket, hfurther⟩
    · exact .inl ⟨e', List.mem_append_left _ he', hleaves⟩
    · obtain ⟨nowUs, hnow, hstep⟩ := hstep
      rcases hstep.slot_cases hpend₁ with ⟨hleaves, -⟩ | ⟨hpend₂, hticket₂, hslot⟩
      · exact .inl ⟨e, List.mem_append_right _ (List.mem_singleton_self e), hticket ▸ hleaves⟩
      · refine .inr ⟨hpend₂, hticket₂.trans hticket, ?_⟩
        rcases hslot with hsame | ⟨hleft, -, hslot⟩
        · rwa [hsame]
        · rw [hslot]
          exact hfurther.attempt (inv.run run).policy_eq hnow hleft

/-- **A visit** brings an entry that was due further, if it does not make it leave. -/
theorem Visit.progress (inv : Inv policy events l) (hvisit : Visit l (untilUs, more) l')
    (hpend : l.Pending i) (hdue : (l.outbox.slot i).dueUs ≤ untilUs) :
    (∃ e ∈ more, e.Leaves (l.ticket i)) ∨ l'.Pending i ∧ l'.ticket i = l.ticket i ∧
      (l.outbox.slot i).attempts < (l'.outbox.slot i).attempts ∧
      (l'.outbox.slot i).attempts ≤ policy.maxAttempts ∧
      (l'.outbox.slot i).dueUs.toNat ≤ untilUs.toNat + policy.intervalUs.toNat := by
  obtain ⟨run, hsettled⟩ := hvisit
  rcases further_of_run inv run hpend with hleft | ⟨hpend', hticket, hfurther⟩
  · exact .inl hleft
  · refine .inr ⟨hpend', hticket, ?_⟩
    cases hfurther with
    | untouched hsame =>
      -- what is settled would not leave it due
      have hlt := hsettled.lt_dueUs hpend'
      rw [hsame] at hlt
      exact absurd hlt (UInt64.not_lt.mpr hdue)
    | attempted hlt hle hdue' => exact ⟨hlt, hle, hdue'⟩

/-! ## Making a visit -/

theorem isSpent_retried {s : Slot} (hnow : nowUs.toNat < 2 ^ 64 - 1)
    (hinterval : 0 < policy.intervalUs) :
    (s.retried policy nowUs).isSpent policy nowUs = false := by
  refine decide_eq_false fun h => ?_
  have hdue := UInt64.le_iff_toNat_le.mp h.2.2
  have hpos := UInt32.lt_iff_toNat_lt.mp hinterval
  rw [UInt32.toNat_zero] at hpos
  change (nowUs.saturatingAdd policy.intervalUs.toUInt64).toNat ≤ nowUs.toNat at hdue
  rw [UInt64.toNat_saturatingAdd, UInt32.toNat_toUInt64] at hdue
  omega

/-- Calls of `reap` that report are steps. -/
theorem exists_run_of_reaps {reports : List (UInt32 × UInt32)} {o' : Outbox N}
    (run : Run (fun o report o' => Outbox.reap o nowUs = (some report, o')) l.outbox reports o') :
    ∃ more, Run (StepBy nowUs) l more { l with outbox := o' } := by
  induction run with
  | nil => exact ⟨[], .nil⟩
  | @snoc reports o o' report _ hcall ih =>
    obtain ⟨more, hrun⟩ := ih
    rcases Outbox.reap_cases hcall with ⟨hnone, -⟩ | ⟨i, hi, -, -⟩
    · cases hnone
    · have hstep : StepAt nowUs { l with outbox := o } _ { l with outbox := o' } :=
        .reap hcall hi
      exact ⟨_, .snoc hrun ⟨nowUs, UInt64.le_refl _, hstep⟩⟩

/-- So are calls of `nextDue` that hand out. -/
theorem exists_run_of_dues {airtimeUs : Micros} {duty : DutyCycle} {dues : List Due}
    {s' : Outbox N × DutyCycle}
    (run : Run (fun s due s' => Outbox.nextDue (Prod.fst s) nowUs airtimeUs s.2 = (some due, s'))
      (l.outbox, duty) dues s') :
    ∃ more, Run (StepBy nowUs) l more { l with outbox := s'.1 } := by
  induction run with
  | nil => exact ⟨[], .nil⟩
  | @snoc dues s s' due _ hcall ih =>
    obtain ⟨more, hrun⟩ := ih
    obtain ⟨o, duty⟩ := s
    obtain ⟨o', duty'⟩ := s'
    rcases Outbox.nextDue_cases hcall with ⟨hnone, -⟩ | ⟨i, hi, -⟩
    · cases hnone
    · have hstep : StepAt nowUs { l with outbox := o } _ { l with outbox := o' } :=
        .nextDue hcall hi
      exact ⟨_, .snoc hrun ⟨nowUs, UInt64.le_refl _, hstep⟩⟩

/-- **A visit can be made** at any time that leaves room for a deadline, by reaping until nothing
is reaped and handing out until nothing is due. -/
theorem exists_visit (l : Ledger N) (hnow : nowUs.toNat < 2 ^ 64 - 1)
    (hinterval : 0 < l.outbox.policy.intervalUs) {airtimeUs : Micros} {duty : DutyCycle}
    (hpermit : (duty.wouldPermit nowUs airtimeUs).1 = true) :
    ∃ more l', Visit l (nowUs, more) l' := by
  obtain ⟨o₁, hreaped, hpolicy₁, hslots₁⟩ := l.outbox.drainReap_eq nowUs
  obtain ⟨o₁', hreaps, hnone₁⟩ := exists_run_of_drain hreaped
  obtain rfl := Outbox.reap_none hnone₁
  obtain ⟨more₁, hrun₁⟩ := exists_run_of_reaps hreaps
  obtain ⟨o₂, duty₂, hdrained, hpolicy₂, hslots₂⟩ :=
    o₁.drainDue_eq hnow (hpolicy₁ ▸ hinterval) hpermit
  obtain ⟨⟨o₂', duty₂'⟩, hdues, hnone₂⟩ := exists_run_of_drain hdrained
  obtain rfl := Outbox.nextDue_none hnone₂
  obtain ⟨more₂, hrun₂⟩ := exists_run_of_dues (l := { l with outbox := o₁ }) hdues
  -- what was reaped is free, and what was handed out is not due before an interval has passed
  have hspent (i : Fin N) : (o₂.slot i).isSpent o₁.policy nowUs = false := by
    rw [hslots₂ i]
    split_ifs with hdue
    · exact isSpent_retried hnow (hpolicy₁ ▸ hinterval)
    · rw [hslots₁ i, hpolicy₁]
      split_ifs with hspent
      · exact Slot.isSpent_freed
      · exact Bool.eq_false_iff.mpr hspent
  have hdue (i : Fin N) : (o₂.slot i).isDue o₁.policy nowUs = false := by
    rw [hslots₂ i]
    split_ifs with hdue
    · exact Slot.isDue_retried hnow (hpolicy₁ ▸ hinterval)
    · exact Bool.eq_false_iff.mpr hdue
  refine ⟨more₁ ++ more₂, { l with outbox := o₂ }, hrun₁.append hrun₂, ?_, airtimeUs, duty, hpermit,
    ?_⟩
  · obtain ⟨_, hcall, -⟩ :=
      (Outbox.scans_reap o₁.policy nowUs).none_eq hpolicy₂ fun i _ => hspent i
    exact congrArg Prod.fst hcall
  · obtain ⟨_, hcall, -⟩ := (Outbox.scans_nextDue hnow (hpolicy₁ ▸ hinterval) airtimeUs).none_eq
      (s := (o₂, duty)) ⟨hpolicy₂, hpermit⟩ fun i _ => hdue i
    exact congrArg Prod.fst hcall

/-! ## Runs of visits -/

variable {visits early late : List (UInt64 × List OutboxEvent)} {k startUs : ℕ} {frame : List UInt8}

/-- The clock values of the visits. -/
def clocks (visits : List (UInt64 × List OutboxEvent)) : List ℕ := visits.map (·.1.toNat)

/-- Clock values an interval apart. -/
def Spaced (policy : RetryPolicy) (times : List ℕ) : Prop :=
  times.IsChain fun t t' => t + policy.intervalUs.toNat ≤ t'

theorem eventsOf_append (visits visits' : List (UInt64 × List OutboxEvent)) :
    eventsOf (visits ++ visits') = eventsOf visits ++ eventsOf visits' := List.flatMap_append

theorem eventsOf_concat (visits : List (UInt64 × List OutboxEvent))
    (visit : UInt64 × List OutboxEvent) :
    eventsOf (visits ++ [visit]) = eventsOf visits ++ visit.2 := by
  rw [eventsOf_append, eventsOf, eventsOf, List.flatMap_singleton]

theorem clocks_concat (visits : List (UInt64 × List OutboxEvent))
    (visit : UInt64 × List OutboxEvent) :
    clocks (visits ++ [visit]) = clocks visits ++ [visit.1.toNat] := List.map_append

theorem Inv.of_visits (inv : Inv policy events l) (run : Run Visit l visits l') :
    Inv policy (events ++ eventsOf visits) l' := by
  induction run with
  | nil => rwa [eventsOf, List.flatMap_nil, List.append_nil]
  | snoc _ hvisit ih =>
    rw [eventsOf_concat, ← List.append_assoc]
    exact ih.run hvisit.1

/-- **Every visit takes an attempt** from an entry that waits, as long as it waits. -/
theorem attempts_of_visits (inv : Inv policy events l) (run : Run Visit l visits l')
    (hspaced : Spaced policy (startUs :: clocks visits)) (hpend : l.Pending i)
    (hdue : (l.outbox.slot i).dueUs.toNat ≤ startUs + policy.intervalUs.toNat) :
    (∃ e ∈ eventsOf visits, e.Leaves (l.ticket i)) ∨ l'.Pending i ∧ l'.ticket i = l.ticket i ∧
      (l.outbox.slot i).attempts.toNat + visits.length ≤ (l'.outbox.slot i).attempts.toNat ∧
      (visits ≠ [] → (l'.outbox.slot i).attempts ≤ policy.maxAttempts) ∧
      ∀ t ∈ (startUs :: clocks visits).getLast?,
        (l'.outbox.slot i).dueUs.toNat ≤ t + policy.intervalUs.toNat := by
  induction run with
  | nil =>
    refine .inr ⟨hpend, rfl, le_rfl, fun hne => absurd rfl hne, fun t ht => ?_⟩
    obtain rfl := Option.some.inj ht
    exact hdue
  | @snoc visits l₁ l₂ visit run hvisit ih =>
    obtain ⟨untilUs, more⟩ := visit
    rw [clocks_concat, ← List.cons_append] at hspaced ⊢
    obtain ⟨hspaced₁, -, hgap⟩ := List.isChain_append.mp hspaced
    rw [eventsOf_concat]
    rcases ih hspaced₁ with ⟨e, he, hleaves⟩ | ⟨hpend₁, hticket, hused, -, hdue₁⟩
    · exact .inl ⟨e, List.mem_append_left _ he, hleaves⟩
    · -- the last visit before this one was an interval ago
      have hdue₂ : (l₁.outbox.slot i).dueUs ≤ untilUs := by
        rw [UInt64.le_iff_toNat_le]
        have hlast := List.getLast?_eq_some_getLast (List.cons_ne_nil startUs (clocks visits))
        exact (hdue₁ _ hlast).trans (hgap _ hlast untilUs.toNat rfl)
      rcases hvisit.progress (inv.of_visits run) hpend₁ hdue₂ with
        ⟨e, he, hleaves⟩ | ⟨hpend₂, hticket₂, hlt, hle, hdue₃⟩
      · exact .inl ⟨e, List.mem_append_right _ he, hticket ▸ hleaves⟩
      · have hmore := UInt8.lt_iff_toNat_lt.mp hlt
        refine .inr ⟨hpend₂, hticket₂.trans hticket, ?_, fun _ => hle, fun t ht => ?_⟩
        · rw [List.length_append, List.length_singleton]
          omega
        · rw [List.getLast?_concat] at ht
          obtain rfl := Option.some.inj ht
          exact hdue₃

/-- What waits is due within an interval, and every ticket waits or has left. -/
structure Held (policy : RetryPolicy) (untilUs : ℕ) (events : List OutboxEvent) (l : Ledger N) :
    Prop where
  due : ∀ i, l.Pending i → (l.outbox.slot i).dueUs.toNat ≤ untilUs + policy.intervalUs.toNat
  held : ∀ k < l.accepted, (∃ i, l.Pending i ∧ l.ticket i = k) ∨ ∃ e ∈ events, e.Leaves k

theorem Held.mono {untilUs untilUs' : ℕ} (h : Held policy untilUs events l)
    (hle : untilUs ≤ untilUs') : Held policy untilUs' events l :=
  ⟨fun i hi => (h.due i hi).trans (Nat.add_le_add_right hle _), h.held⟩

/-- **Step lemma.** A ticket that waited waits or has left, and a new one waits. -/
theorem Held.step (inv : Inv policy events l) (h : Held policy untilUs.toNat events l)
    (hstep : StepBy untilUs l e l') : Held policy untilUs.toNat (events ++ [e]) l' := by
  obtain ⟨nowUs, hnow, hstep⟩ := hstep
  have hnext : (l.outbox.nextDueUs nowUs).toNat ≤
      untilUs.toNat + policy.intervalUs.toNat := by
    have hle := UInt64.le_iff_toNat_le.mp hnow
    rw [Outbox.nextDueUs, inv.policy_eq, UInt64.toNat_saturatingAdd, UInt32.toNat_toUInt64]
    omega
  have hdue {i : Fin N} (hpend : l.Pending i) (hpend' : l'.Pending i) :
      (l'.outbox.slot i).dueUs.toNat ≤ untilUs.toNat + policy.intervalUs.toNat := by
    rcases hstep.slot_cases hpend with ⟨-, hgone⟩ | ⟨-, -, hsame | ⟨-, -, hslot⟩⟩
    · exact absurd hpend' hgone
    · rw [hsame]
      exact h.due i hpend
    · rw [hslot]
      exact hnext
  have hold (k : ℕ) (hk : k < l.accepted) :
      (∃ i, l'.Pending i ∧ l'.ticket i = k) ∨ ∃ e' ∈ events ++ [e], e'.Leaves k := by
    rcases h.held k hk with ⟨i, hpend, rfl⟩ | ⟨e', he', hleaves⟩
    · rcases hstep.slot_cases hpend with ⟨hleaves, -⟩ | ⟨hpend', hticket, -⟩
      · exact .inr ⟨e, List.mem_append_right _ (List.mem_singleton_self e), hleaves⟩
      · exact .inl ⟨i, hpend', hticket⟩
    · exact .inr ⟨e', List.mem_append_left _ he', hleaves⟩
  rcases hstep.pending_cases with ⟨hcount, hbefore⟩ | ⟨i, hpend, hticket, hcount, hnew, hbefore⟩
  · exact ⟨fun i hpend' => hdue (hbefore i hpend') hpend', fun k hk => hold k (hcount ▸ hk)⟩
  · refine ⟨fun j hpend' => ?_, fun k hk => ?_⟩
    · by_cases hji : j = i
      · rw [hji, hnew]
        exact hnext
      · exact hdue (hbefore j hji hpend') hpend'
    · rw [hcount] at hk
      rcases Nat.lt_succ_iff_lt_or_eq.mp hk with hlt | rfl
      · exact hold k hlt
      · exact .inl ⟨i, hpend, hticket⟩

theorem Held.run (inv : Inv policy events l) (h : Held policy untilUs.toNat events l)
    (run : Run (StepBy untilUs) l more l') : Held policy untilUs.toNat (events ++ more) l' := by
  induction run with
  | nil => rwa [List.append_nil]
  | snoc run hstep ih =>
    rw [← List.append_assoc]
    exact ih.step (inv.run run) hstep

/-- **Run lemma.** So it is after the last of the visits. -/
theorem held_of_visits (inv : Inv policy events l) (h : Held policy startUs events l)
    (run : Run Visit l visits l') (hsorted : (startUs :: clocks visits).IsChain (· ≤ ·)) :
    ∀ t ∈ (startUs :: clocks visits).getLast?, Held policy t (events ++ eventsOf visits) l' := by
  induction run with
  | nil =>
    intro t ht
    obtain rfl := Option.some.inj ht
    rwa [eventsOf, List.flatMap_nil, List.append_nil]
  | @snoc visits l₁ l₂ visit run hvisit ih =>
    rw [clocks_concat, ← List.cons_append] at hsorted ⊢
    obtain ⟨hsorted₁, -, hle⟩ := List.isChain_append.mp hsorted
    have hlast := List.getLast?_eq_some_getLast (List.cons_ne_nil startUs (clocks visits))
    intro t ht
    rw [List.getLast?_concat] at ht
    obtain rfl := Option.some.inj ht
    rw [eventsOf_concat, ← List.append_assoc]
    exact ((ih hsorted₁ _ hlast).mono (hle _ hlast _ rfl)).run (inv.of_visits run) hvisit.1

theorem held_start (N : ℕ) (policy : RetryPolicy) : Held policy 0 [] (start N policy) where
  due i hpend := by
    rw [Pending, start, Outbox.slot_new] at hpend
    cases hpend
  held k hk := absurd hk (Nat.not_lt_zero k)

/-! ## The story of a frame that has left -/

/-- Before it leaves, a frame is tracked and handed out. -/
theorem mem_sent {fact : Fact} {m : ℕ} (h : fact ∈ sent frame m) :
    fact = .tracked frame ∨ ∃ attempt, fact = .handedOut frame attempt := by
  rw [sent, List.mem_cons, List.mem_map] at h
  rcases h with rfl | ⟨j, -, rfl⟩
  · exact .inl rfl
  · exact .inr ⟨_, rfl⟩

/-- What says that a ticket left is part of its story. -/
theorem exists_fact_of_leaves (he : e ∈ events) (hleaves : e.Leaves k) :
    ∃ fact ∈ story k events, (∃ id, fact = .acknowledged id) ∨ ∃ fromNode id,
      fact = .reaped fromNode id := by
  cases e with
  | acknowledged requestId hit retired =>
    refine ⟨.acknowledged requestId, List.mem_flatMap.mpr ⟨_, he, ?_⟩, .inl ⟨_, rfl⟩⟩
    have hretired : k ∈ retired := hleaves
    rw [factsOf, if_pos hretired]
    exact List.mem_singleton_self _
  | reaped ticket fromNode id =>
    refine ⟨.reaped fromNode id, List.mem_flatMap.mpr ⟨_, he, ?_⟩, .inr ⟨_, _, rfl⟩⟩
    have hticket : ticket = k := hleaves
    rw [factsOf, if_pos hticket]
    exact List.mem_singleton_self _
  | tracked | refused | nothingToReap | handedOut | nothingDue => exact hleaves.elim

theorem mem_story_of_tracked (h : .tracked k frame ∈ events) :
    Fact.tracked frame ∈ story k events := by
  refine List.mem_flatMap.mpr ⟨_, h, ?_⟩
  rw [factsOf, if_pos rfl]
  exact List.mem_singleton_self _

/-- Only tickets that were given out are told of. -/
theorem Inv.lt_accepted (inv : Inv policy events l) (h : .tracked k frame ∈ events) :
    k < l.accepted := by
  have hfact := mem_story_of_tracked h
  by_contra hnot
  rw [inv.silent k (not_lt.mp hnot)] at hfact
  exact List.not_mem_nil hfact

/-- **A life that has ended** is one of a frame that finished. -/
theorem Inv.finished (inv : Inv policy events l) (htracked : .tracked k frame ∈ events)
    (he : e ∈ events) (hleaves : e.Leaves k) : Finished policy frame (story k events) := by
  have hfact := mem_story_of_tracked htracked
  obtain ⟨frame', header, m, ending, hdec, hm, hending, hstory⟩ :=
    inv.life k (inv.lt_accepted htracked)
  obtain rfl : frame = frame' := by
    rw [hstory, List.mem_append] at hfact
    rcases hfact with hsent | hend
    · rcases mem_sent hsent with heq | ⟨_, heq⟩
      · exact Fact.tracked.inj heq
      · cases heq
    · cases hending with
      | pending => cases hend
      | acknowledged | reaped => cases List.mem_singleton.mp hend
  refine ⟨header, hdec, ?_⟩
  cases hending with
  | pending =>
    -- the story would not tell that it left
    obtain ⟨fact, hmem, hleft⟩ := exists_fact_of_leaves he hleaves
    rw [hstory, List.append_nil] at hmem
    rcases mem_sent hmem with rfl | ⟨_, rfl⟩
    · rcases hleft with ⟨_, heq⟩ | ⟨_, _, heq⟩ <;> cases heq
    · rcases hleft with ⟨_, heq⟩ | ⟨_, _, heq⟩ <;> cases heq
  | acknowledged => exact .inl ⟨m, hm, hstory⟩
  | reaped hspent =>
    obtain rfl : m = policy.maxAttempts.toNat - 1 := by omega
    exact .inr hstory

/-! ## No frame waits for ever -/

/-- **Nothing is lost, and nothing waits for ever.** In every run of visits that are an interval
apart, with any calls at any clock values up to each visit, a frame that was tracked before as many
visits as there are attempts has left by the last of them. It was acknowledged, after it had been
handed out so many times at most; or it was handed out once for every attempt after the first, in
order and byte for byte, and was then reported as given up with its own sender and identifier. -/
theorem visited_until_finished (run : Run Visit (start N policy) (early ++ late) l)
    (hspaced : Spaced policy (clocks (early ++ late)))
    (hmany : max 1 policy.maxAttempts.toNat ≤ late.length)
    (htracked : .tracked k frame ∈ eventsOf early) :
    Finished policy frame (story k (eventsOf (early ++ late))) := by
  have inv := (inv_start N policy).of_visits run
  obtain ⟨l₁, hearly, hlate⟩ := run.split
  have inv₁ := (inv_start N policy).of_visits hearly
  rw [List.nil_append] at inv inv₁
  have htracked' : .tracked k frame ∈ eventsOf (early ++ late) := by
    rw [eventsOf_append]
    exact List.mem_append_left _ htracked
  have hk : k < l₁.accepted := inv₁.lt_accepted htracked
  -- there was an early visit, and what waits after the last of them is due by the first late one
  rcases List.eq_nil_or_concat early with rfl | ⟨visits, visit, rfl⟩
  · cases htracked
  rw [List.concat_eq_append] at *
  rw [clocks, List.map_append, ← clocks, ← clocks] at hspaced
  have hsorted : (0 :: clocks (visits ++ [visit])).IsChain (· ≤ ·) :=
    List.isChain_cons.mpr ⟨fun _ _ => Nat.zero_le _,
      hspaced.left_of_append.imp fun _ _ hgap => (Nat.le_add_right _ _).trans hgap⟩
  rw [clocks_concat, List.append_assoc] at hspaced
  have hheld := held_of_visits (inv_start N policy) (held_start N policy) hearly hsorted
    visit.1.toNat (by rw [clocks_concat, ← List.cons_append, List.getLast?_concat]; rfl)
  rw [List.nil_append] at hheld
  rcases hheld.held k hk with ⟨i, hpend, rfl⟩ | ⟨e, he, hleaves⟩
  · rcases attempts_of_visits inv₁ hlate hspaced.right_of_append hpend (hheld.due i hpend) with
      ⟨e, he, hleaves⟩ | ⟨-, -, hused, hle, -⟩
    · refine inv.finished htracked' ?_ hleaves
      rw [eventsOf_append]
      exact List.mem_append_right _ he
    · -- it would have more attempts than there are
      obtain ⟨_, m, -, -, -, hattempts, -⟩ := inv₁.slot i hpend
      have hne : late ≠ [] := by
        rintro rfl
        simp at hmany
      have hmax := UInt8.le_iff_toNat_le.mp (hle hne)
      omega
  · refine inv.finished htracked' ?_ hleaves
    rw [eventsOf_append]
    exact List.mem_append_left _ he

/-- Empty bytes that make a header, tracked in the first of three visits. -/
theorem visited_until_finished_zeros : ∃ first second third l,
    Run Visit (start 1 ⟨2, 10⟩)
      [(0, .tracked 0 (List.replicate 16 0) :: first), (10, second), (20, third)] l ∧
    Finished ⟨2, 10⟩ (List.replicate 16 0)
      (story 0 (.tracked 0 (List.replicate 16 0) :: first ++ second ++ third)) := by
  let duty : DutyCycle := ⟨0, 0, 0, 0⟩
  have hpermit (nowUs : UInt64) : (duty.wouldPermit nowUs 0).1 = true := rfl
  have hpolicy {l : Ledger 1} {events : List OutboxEvent} (inv : Inv ⟨2, 10⟩ events l) :
      0 < l.outbox.policy.intervalUs := by
    rw [inv.policy_eq]
    simp
  have hok : ((start 1 ⟨2, 10⟩).outbox.track (List.replicate 16 0) 0).1 = .ok () :=
    Outbox.track_ok (by simp) (by simp) ⟨0, by rw [start, Outbox.slot_new]; rfl⟩ 0
  obtain ⟨l, hstep⟩ : ∃ l, StepAt 0 (start 1 ⟨2, 10⟩) (.tracked 0 (List.replicate 16 0)) l := by
    have hcall := Prod.eta ((start 1 ⟨2, 10⟩).outbox.track (List.replicate 16 0) 0)
    rw [hok] at hcall
    rcases Outbox.track_cases hcall.symm with ⟨_, hr, -⟩ | ⟨i, -, -, -, -, hi, -⟩
    · cases hr
    · exact ⟨_, .track hcall.symm hi⟩
  have inv := (inv_start 1 ⟨2, 10⟩).step hstep.step
  obtain ⟨first, l₁, run₁, hsettled₁⟩ := exists_visit l (by simp) (hpolicy inv) (hpermit 0)
  have hfirst : Visit (start 1 ⟨2, 10⟩) (0, .tracked 0 (List.replicate 16 0) :: first) l₁ :=
    ⟨.cons ⟨0, UInt64.le_refl 0, hstep⟩ run₁, hsettled₁⟩
  have inv₁ := (inv_start 1 ⟨2, 10⟩).run hfirst.1
  obtain ⟨second, l₂, hsecond⟩ := exists_visit l₁ (by simp) (hpolicy inv₁) (hpermit 10)
  have inv₂ := inv₁.run hsecond.1
  obtain ⟨third, l₃, hthird⟩ := exists_visit l₂ (by simp) (hpolicy inv₂) (hpermit 20)
  have run : Run Visit (start 1 ⟨2, 10⟩)
      ([(0, .tracked 0 (List.replicate 16 0) :: first)] ++ [(10, second), (20, third)]) l₃ :=
    .cons hfirst (.cons hsecond (.single hthird))
  refine ⟨first, second, third, l₃, run, ?_⟩
  have hfinished := visited_until_finished run
    (.cons_cons (by simp) (.cons_cons (by simp) (.singleton _))) (by simp)
    (List.mem_flatMap_of_mem (List.mem_singleton_self _) List.mem_cons_self)
  simpa [eventsOf] using hfinished

end Ledger

end TetherMesh.Protocol
