import TetherMesh.Protocol.DutyRuns
import TetherMesh.Protocol.Outbox
import TetherMesh.Protocol.Routing

/-!
# Asking the duty cycle

Whoever decides about a frame asks the duty cycle and charges it later, or never. Asking takes
no airtime, but it rolls the window like a charge, and a window starts where it was rolled to:
by asking after a window has elapsed the next one starts at the question. Nothing of this shows
in the next charge. It shows in those after it, whose window then starts sooner than it would
have, unless the question and the next charge come at one time, or a whole window apart.

## Main definitions

* `Decision` — a call that asks: `wouldPermit`, `shouldRelay`, `Outbox.nextDue`
* `DutyEvent`, `chargeResults` — a run of questions and charges, and what the charges answer
* `Unseen` — no question moves a window that a charge after the next one could notice

## Main results

* `Decision.apply_cases` — a decision rolls the window, if anything
* `chargeResults_eq_of_unseen` — asking leaves what the charges answer
-/

namespace TetherMesh.Protocol

open CS

/-- A call that decides and does not charge. -/
inductive Decision
  | wouldPermit (nowUs : UInt64) (airtimeUs : Micros)
  | shouldRelay (observed : Observed) (role : Role) (window : ContentionWindow) (nowUs : UInt64)
  | nextDue {N : ℕ} (outbox : Outbox N) (nowUs : UInt64) (airtimeUs : Micros)

namespace Decision

/-- The clock value a decision is made with. -/
def nowUs : Decision → UInt64
  | wouldPermit nowUs _ | shouldRelay _ _ _ nowUs | nextDue _ nowUs _ => nowUs

/-- The duty cycle after it. -/
def apply (d : DutyCycle) : Decision → DutyCycle
  | wouldPermit nowUs airtimeUs => (d.wouldPermit nowUs airtimeUs).2
  | shouldRelay observed role window nowUs =>
    (Protocol.shouldRelay observed role window d nowUs).2
  | nextDue outbox nowUs airtimeUs => (outbox.nextDue nowUs airtimeUs d).2.2

/-- **A decision** rolls the window, if it does anything to the duty cycle. -/
theorem apply_cases (d : DutyCycle) (q : Decision) :
    q.apply d = d ∨ q.apply d = d.roll q.nowUs := by
  cases q with
  | wouldPermit nowUs airtimeUs => exact .inr rfl
  | shouldRelay observed role window nowUs =>
    rw [apply]
    rcases shouldRelay_cases observed role window d nowUs with
      ⟨-, heq⟩ | ⟨-, -, heq⟩ | ⟨-, -, -, heq⟩ | ⟨-, -, -, ⟨-, heq⟩ | ⟨-, heq⟩⟩
    · exact .inl (congrArg Prod.snd heq)
    · exact .inl (congrArg Prod.snd heq)
    · exact .inl (congrArg Prod.snd heq)
    · exact .inr (congrArg Prod.snd heq)
    · exact .inr (congrArg Prod.snd heq)
  | nextDue outbox nowUs airtimeUs =>
    cases h : outbox.nextDue nowUs airtimeUs d with
    | mk r rest =>
      rw [apply, h]
      rcases Outbox.nextDue_cases h with ⟨-, -, hkept | hrolled⟩ | ⟨_, -, -, hrolled, -⟩
      · exact .inl hkept
      · exact .inr hrolled
      · exact .inr hrolled

end Decision

/-- A question or a charge. -/
inductive DutyEvent
  | decide (q : Decision)
  | charge (nowUs : UInt64) (airtimeUs : Micros)

namespace DutyEvent

/-- The clock value of a call. -/
def nowUs : DutyEvent → UInt64
  | decide q => q.nowUs
  | charge nowUs _ => nowUs

/-- Whether a call charges. -/
def isCharge : DutyEvent → Bool
  | decide _ => false
  | charge _ _ => true

end DutyEvent

namespace DutyCycle

/-- What the charges of a run answer. -/
def chargeResults (d : DutyCycle) : List DutyEvent → List Bool
  | [] => []
  | .decide q :: events => chargeResults (q.apply d) events
  | .charge nowUs airtimeUs :: events =>
    (d.charge nowUs airtimeUs).1 :: chargeResults (d.charge nowUs airtimeUs).2 events

/-- The charges of a run. -/
def charges (events : List DutyEvent) : List DutyEvent := events.filter DutyEvent.isCharge

/-- Every question of the run leaves the duty cycle as it is, or is followed by at most one
charge, or comes at the time of the next charge or a whole window before it. -/
def Unseen (d : DutyCycle) : List DutyEvent → Prop
  | [] => True
  | .decide q :: events =>
    (q.apply d = d ∨
      match charges events with
      | next :: _ :: _ => q.nowUs = next.nowUs ∨
          d.windowUs.toNat ≤ next.nowUs.toNat - q.nowUs.toNat
      | _ => True) ∧ Unseen (q.apply d) events
  | .charge nowUs airtimeUs :: events => Unseen (d.charge nowUs airtimeUs).2 events

variable {d d' : DutyCycle} {nowUs : UInt64} {airtimeUs : Micros}

/-! ## What a charge sees -/

/-- A charge answers for what is used in the window it rolls to. -/
theorem charge_fst (d : DutyCycle) (nowUs : UInt64) (airtimeUs : Micros) :
    (d.charge nowUs airtimeUs).1 =
      decide ((d.roll nowUs).usedUs.saturatingAdd airtimeUs.toUInt64 ≤ d.budgetUs) := by
  rw [charge, wouldPermit, roll_budgetUs]
  cases decide ((d.roll nowUs).usedUs.saturatingAdd airtimeUs.toUInt64 ≤ d.budgetUs) <;> rfl

/-- And is the same from two duty cycles that roll to the same. -/
theorem charge_eq_of_roll_eq (h : d.roll nowUs = d'.roll nowUs) :
    d.charge nowUs airtimeUs = d'.charge nowUs airtimeUs := by
  rw [charge, charge, wouldPermit, wouldPermit, h]

/-- It keeps the limit and the width of the window, as every decision does. -/
theorem charge_settings (d : DutyCycle) (nowUs : UInt64) (airtimeUs : Micros) :
    (d.charge nowUs airtimeUs).2.limitPermille = d.limitPermille ∧
      (d.charge nowUs airtimeUs).2.windowUs = d.windowUs := by
  have hstep : CallStep d (.charge nowUs airtimeUs, (d.charge nowUs airtimeUs).1)
      (d.charge nowUs airtimeUs).2 := rfl
  rcases callStep_cases hstep with ⟨_, -, -, -, hafter⟩ | ⟨-, hafter⟩
  · rw [hafter]
    exact ⟨roll_limitPermille .., roll_windowUs ..⟩
  · rw [hafter]
    exact ⟨roll_limitPermille .., roll_windowUs ..⟩

/-- What the charges that are left cannot tell apart: the next one finds as much used in both,
and one after it the same window too. -/
structure Alike (d d' : DutyCycle) (left : List DutyEvent) : Prop where
  limitPermille_eq : d.limitPermille = d'.limitPermille
  windowUs_eq : d.windowUs = d'.windowUs
  used_eq : ∀ next rest, left = next :: rest →
    (d.roll next.nowUs).usedUs = (d'.roll next.nowUs).usedUs
  roll_eq : ∀ next after rest, left = next :: after :: rest →
    d.roll next.nowUs = d'.roll next.nowUs

namespace Alike

theorem refl (d : DutyCycle) (left : List DutyEvent) : Alike d d left :=
  ⟨rfl, rfl, fun _ _ _ => rfl, fun _ _ _ _ => rfl⟩

/-- **A question** that no charge but the next could notice keeps two duty cycles alike. -/
theorem decide {q : Decision} {events : List DutyEvent} (h : Alike d d' (charges events))
    (hunseen : Unseen d (.decide q :: events)) (hle : ∀ e ∈ charges events, q.nowUs ≤ e.nowUs) :
    Alike (q.apply d) d' (charges events) := by
  rcases q.apply_cases d with hkept | hrolled
  · rwa [hkept]
  · refine ⟨?_, ?_, fun next rest hleft => ?_, fun next after rest hleft => ?_⟩
    · rw [hrolled, roll_limitPermille, h.limitPermille_eq]
    · rw [hrolled, roll_windowUs, h.windowUs_eq]
    · have hnext := hle next (hleft ▸ List.mem_cons_self)
      rw [hrolled, usedUs_roll_roll d hnext]
      exact h.used_eq next rest hleft
    · have hnext := hle next (hleft ▸ List.mem_cons_self)
      have hquiet := hunseen.1
      rw [hleft, hrolled] at hquiet
      rw [hrolled, roll_roll hnext hquiet]
      exact h.roll_eq next after rest hleft

/-- **A charge** answers the same, and leaves them alike. -/
theorem charge {events : List DutyEvent}
    (h : Alike d d' (.charge nowUs airtimeUs :: charges events)) :
    (d.charge nowUs airtimeUs).1 = (d'.charge nowUs airtimeUs).1 ∧
      Alike (d.charge nowUs airtimeUs).2 (d'.charge nowUs airtimeUs).2 (charges events) := by
  have hbudget : d.budgetUs = d'.budgetUs := by
    rw [budgetUs, budgetUs, h.limitPermille_eq, h.windowUs_eq]
  have hused : (d.roll nowUs).usedUs = (d'.roll nowUs).usedUs := h.used_eq _ _ rfl
  refine ⟨by rw [charge_fst, charge_fst, hused, hbudget], ?_⟩
  cases hleft : charges events with
  | nil =>
    obtain ⟨hlimit, hwindow⟩ := d.charge_settings nowUs airtimeUs
    obtain ⟨hlimit', hwindow'⟩ := d'.charge_settings nowUs airtimeUs
    exact ⟨by rw [hlimit, hlimit', h.limitPermille_eq], by rw [hwindow, hwindow', h.windowUs_eq],
      fun _ _ hnil => (List.cons_ne_nil _ _ hnil.symm).elim,
      fun _ _ _ hnil => (List.cons_ne_nil _ _ hnil.symm).elim⟩
  | cons after rest =>
    -- another charge is to come, so the windows are the same already
    rw [hleft] at h
    have hroll : d.roll nowUs = d'.roll nowUs := h.roll_eq _ _ _ rfl
    rw [charge_eq_of_roll_eq hroll]
    exact refl _ _

end Alike

/-! ## Runs -/

theorem chargeResults_eq_of_alike {events : List DutyEvent} (h : Alike d d' (charges events))
    (hunseen : Unseen d events) (hmono : events.Pairwise fun e e' => e.nowUs ≤ e'.nowUs) :
    chargeResults d events = chargeResults d' (charges events) := by
  induction events generalizing d d' with
  | nil => rfl
  | cons e events ih =>
    obtain ⟨hle, hrest⟩ := List.pairwise_cons.mp hmono
    cases e with
    | decide q =>
      replace h : Alike d d' (charges events) := h
      have halike := h.decide hunseen fun e he => hle e (List.mem_of_mem_filter he)
      exact ih halike hunseen.2 hrest
    | charge nowUs airtimeUs =>
      obtain ⟨hanswer, halike⟩ := h.charge
      exact congrArg₂ List.cons hanswer (ih halike hunseen hrest)

/-- **Asking leaves what the charges answer.** In a run at times that never go backwards, the
charges answer what they answer without the questions, if no question moves a window that a
charge after the next one could notice. -/
theorem chargeResults_eq_of_unseen {events : List DutyEvent} (hunseen : Unseen d events)
    (hmono : events.Pairwise fun e e' => e.nowUs ≤ e'.nowUs) :
    chargeResults d events = chargeResults d (charges events) :=
  chargeResults_eq_of_alike (.refl d _) hunseen hmono

/-- A question in the middle of a window, and one at the time of the charge that starts the
next. -/
theorem chargeResults_eq_of_unseen_sample :
    chargeResults ⟨100, 1000, 0, 0⟩ [.charge 0 100, .decide (.wouldPermit 500 100),
        .decide (.wouldPermit 1500 100), .charge 1500 100, .charge 2100 100] =
      chargeResults ⟨100, 1000, 0, 0⟩ [.charge 0 100, .charge 1500 100, .charge 2100 100] :=
  chargeResults_eq_of_unseen (d := ⟨100, 1000, 0, 0⟩) ⟨.inl rfl, .inr (.inl rfl), trivial⟩
    (by decide)

/-- A question between a window and the next charge. The window that starts with the question
has elapsed at the last charge, and the one that starts with the charge before it has not. -/
theorem not_chargeResults_eq : ¬ ∀ (d : DutyCycle) (events : List DutyEvent),
    new 100 1 0 = some d → (events.Pairwise fun e e' => e.nowUs ≤ e'.nowUs) →
      chargeResults d events = chargeResults d (charges events) := by
  intro h
  have hequal := h ⟨100, 1000, 0, 0⟩ [.charge 0 100, .decide (.wouldPermit 1000 100),
    .charge 1500 100, .charge 2100 100] rfl (by decide)
  exact absurd hequal (by decide)

end DutyCycle

end TetherMesh.Protocol
