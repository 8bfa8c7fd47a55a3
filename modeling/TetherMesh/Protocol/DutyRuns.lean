import TetherMesh.CS.FixedWindow
import TetherMesh.Protocol.Airtime

/-!
# The duty-cycle budget over a whole run

`DutyCycle` is a fixed-window budget whose windows are `windowUs` wide. None of its
saturating operations saturates, except where the clock is behind the start of the
window, which counts as no time elapsed.

## Main definitions

* `DutyCall` — a call of `wouldPermit` or `charge`
* `DutyCall.taking` — when a call was made and what it took

## Main results

* `DutyCycle.Configured.toNat_budgetUs` — the budget is the exact product
* `DutyCycle.roll_roll` — when an earlier roll does not show in a later one
* `DutyCycle.refines_fixedWindow` — one call is one event of a fixed window
* `DutyCycle.run_never_overrun`
-/

namespace TetherMesh.Protocol

open CS

/-- A call on a duty cycle. -/
inductive DutyCall
  /-- Ask whether airtime fits. -/
  | wouldPermit (nowUs : UInt64) (airtimeUs : Micros)
  /-- Charge airtime. -/
  | charge (nowUs : UInt64) (airtimeUs : Micros)
  deriving DecidableEq, Repr

namespace DutyCall

/-- Make the call. -/
def apply (d : DutyCycle) : DutyCall → Bool × DutyCycle
  | wouldPermit nowUs airtimeUs => d.wouldPermit nowUs airtimeUs
  | charge nowUs airtimeUs => d.charge nowUs airtimeUs

/-- The clock value a call is made with. -/
def nowUs : DutyCall → UInt64
  | wouldPermit nowUs _ | charge nowUs _ => nowUs

/-- When a call was made, and the airtime it added if it was an accepted charge. -/
def taking : DutyCall × Bool → Taking
  | (charge nowUs airtimeUs, true) => ⟨nowUs.toNat, airtimeUs.toNat⟩
  | (c, _) => ⟨c.nowUs.toNat, 0⟩

theorem taking_time (label : DutyCall × Bool) : (taking label).time = label.1.nowUs.toNat := by
  obtain ⟨c, answer⟩ := label
  cases c <;> cases answer <;> rfl

end DutyCall

namespace DutyCycle

/-- The state `d'` and the answer after one call. -/
def CallStep (d : DutyCycle) (label : DutyCall × Bool) (d' : DutyCycle) : Prop :=
  label.1.apply d = (label.2, d')

variable {d d' : DutyCycle} {limitPermille : UInt16} {windowMs : UInt32}
  {startUs nowUs laterUs : UInt64} {airtimeUs : Micros} {answer : Bool}

/-! ## What `new` sets up -/

/-- The limit and the window are those `new` accepted. -/
structure Configured (limitPermille : UInt16) (windowMs : UInt32) (d : DutyCycle) : Prop where
  /-- The limit is kept. -/
  limit_eq : d.limitPermille = limitPermille
  /-- It is not above the whole. -/
  limit_le : limitPermille.toNat ≤ 1000
  /-- The window is kept. -/
  toNat_windowUs : d.windowUs.toNat = windowMs.toNat * 1000
  /-- It is not empty. -/
  windowMs_pos : 0 < windowMs.toNat

theorem configured_new (h : new limitPermille windowMs nowUs = some d) :
    Configured limitPermille windowMs d ∧ d.usedUs = 0 ∧ d.windowStartedUs = nowUs := by
  have hms := windowMs.toNat_lt
  rw [new] at h
  split_ifs at h with hbad
  rw [not_or] at hbad
  -- a millisecond count of 32 bits is a microsecond count of 42, so the product is there
  have hmul : windowMs.toUInt64.checkedMul 1000 = some (windowMs.toUInt64 * 1000) := by
    rw [UInt64.checkedMul, if_pos]
    rw [UInt32.toNat_toUInt64]
    change windowMs.toNat * 1000 < 2 ^ 64
    omega
  simp only [hmul, Option.bind_eq_bind, Option.bind_some, Option.pure_def, Option.some.injEq] at h
  cases h
  refine ⟨⟨rfl, ?_, ?_, ?_⟩, rfl, rfl⟩
  · exact UInt16.le_iff_toNat_le.mp (UInt16.not_lt.mp hbad.2)
  · rw [UInt64.toNat_mul, UInt32.toNat_toUInt64]
    exact Nat.mod_eq_of_lt (by change windowMs.toNat * 1000 < 2 ^ 64; omega)
  · exact Nat.pos_of_ne_zero fun hzero => hbad.1 (UInt32.toNat_inj.mp hzero)

namespace Configured

/-- **The budget is exact**: no multiplication saturates. -/
theorem toNat_budgetUs (h : Configured limitPermille windowMs d) :
    d.budgetUs.toNat = windowMs.toNat * limitPermille.toNat := by
  have hms := windowMs.toNat_lt
  have hlimit := h.limit_le
  -- the saturating product is the exact one, and the division undoes the thousand
  have hle : windowMs.toNat * 1000 * limitPermille.toNat ≤ windowMs.toNat * 1000 * 1000 :=
    Nat.mul_le_mul_left _ hlimit
  have hprod : (d.windowUs.saturatingMul d.limitPermille.toUInt64).toNat =
      windowMs.toNat * 1000 * limitPermille.toNat := by
    rw [UInt64.saturatingMul, h.toNat_windowUs, h.limit_eq, UInt16.toNat_toUInt64,
      UInt64.toNat_ofNat', Nat.min_eq_left (by omega), Nat.mod_eq_of_lt (by omega)]
  have hdiv : d.budgetUs = d.windowUs.saturatingMul d.limitPermille.toUInt64 / 1000 := rfl
  rw [hdiv, UInt64.toNat_div, hprod, Nat.mul_right_comm]
  exact Nat.mul_div_cancel _ (by decide)

/-- A window is not empty. -/
theorem windowUs_pos (h : Configured limitPermille windowMs d) : 0 < d.windowUs.toNat := by
  have hpos := h.windowMs_pos
  rw [h.toNat_windowUs]
  omega

/-- The budget of a window is far below what a word holds. -/
theorem toNat_budgetUs_lt (h : Configured limitPermille windowMs d) :
    d.budgetUs.toNat < 2 ^ 63 := by
  have hms := windowMs.toNat_lt
  rw [h.toNat_budgetUs]
  exact Nat.lt_of_le_of_lt (Nat.mul_le_mul hms.le h.limit_le) (by decide)

end Configured

/-! ## One call -/

/-- The window of a duty cycle, as an abstract one. -/
def window (d : DutyCycle) : FixedWindow := ⟨d.windowStartedUs.toNat, d.usedUs.toNat⟩

theorem window_roll (d : DutyCycle) (nowUs : UInt64) :
    (d.roll nowUs).window = d.window.roll d.windowUs.toNat nowUs.toNat := by
  -- a clock that went backwards counts as no time at all, here as there
  have helapsed : (nowUs.saturatingSub d.windowStartedUs).toNat =
      nowUs.toNat - d.window.start := by
    have hnow := nowUs.toNat_lt
    rw [UInt64.saturatingSub, UInt64.toNat_ofNat', Nat.mod_eq_of_lt (by omega)]
    rfl
  rw [roll, FixedWindow.roll]
  by_cases h : d.windowUs.toNat ≤ nowUs.toNat - d.window.start
  · rw [if_pos (by rwa [UInt64.le_iff_toNat_le, helapsed]), if_pos h]
    rfl
  · rw [if_neg (by rwa [UInt64.le_iff_toNat_le, helapsed]), if_neg h]

@[simp] theorem roll_limitPermille (d : DutyCycle) (nowUs : UInt64) :
    (d.roll nowUs).limitPermille = d.limitPermille := by
  unfold roll
  dsimp only
  split_ifs <;> rfl

@[simp] theorem roll_windowUs (d : DutyCycle) (nowUs : UInt64) :
    (d.roll nowUs).windowUs = d.windowUs := by
  unfold roll
  dsimp only
  split_ifs <;> rfl

@[simp] theorem roll_budgetUs (d : DutyCycle) (nowUs : UInt64) :
    (d.roll nowUs).budgetUs = d.budgetUs := by
  rw [budgetUs, budgetUs, roll_windowUs, roll_limitPermille]

/-- Rolling forgets what was used, or keeps it. -/
theorem roll_usedUs (d : DutyCycle) (nowUs : UInt64) :
    (d.roll nowUs).usedUs = 0 ∨ (d.roll nowUs).usedUs = d.usedUs := by
  unfold roll
  dsimp only
  split_ifs
  · exact .inl rfl
  · exact .inr rfl

theorem eq_of_window_eq (hlimit : d.limitPermille = d'.limitPermille)
    (hwidth : d.windowUs = d'.windowUs) (h : d.window = d'.window) : d = d' := by
  cases d
  cases d'
  obtain ⟨hstart, hused⟩ := FixedWindow.mk.inj h
  cases hlimit
  cases hwidth
  rw [mk.injEq]
  exact ⟨rfl, rfl, UInt64.toNat_inj.mp hused, UInt64.toNat_inj.mp hstart⟩

theorem usedUs_roll_roll (d : DutyCycle) (hle : nowUs ≤ laterUs) :
    ((d.roll nowUs).roll laterUs).usedUs = (d.roll laterUs).usedUs := by
  have hused := FixedWindow.used_roll_roll d.windowUs.toNat d.window
    (UInt64.le_iff_toNat_le.mp hle)
  rw [← window_roll, ← d.roll_windowUs nowUs, ← window_roll, roll_windowUs, ← window_roll] at hused
  exact UInt64.toNat_inj.mp hused

theorem roll_roll (hle : nowUs ≤ laterUs) (h : d.roll nowUs = d ∨ nowUs = laterUs ∨
      d.windowUs.toNat ≤ laterUs.toNat - nowUs.toNat) :
    (d.roll nowUs).roll laterUs = d.roll laterUs := by
  refine eq_of_window_eq ?_ ?_ ?_
  · rw [roll_limitPermille, roll_limitPermille, roll_limitPermille]
  · rw [roll_windowUs, roll_windowUs, roll_windowUs]
  · rw [window_roll, roll_windowUs, window_roll, window_roll]
    refine FixedWindow.roll_roll (UInt64.le_iff_toNat_le.mp hle) ?_
    refine h.imp (fun hkept => ?_) (Or.imp_left (congrArg UInt64.toNat))
    rw [← window_roll, hkept]

/-- A second roll at one time does nothing. -/
theorem roll_self (d : DutyCycle) (nowUs : UInt64) : (d.roll nowUs).roll nowUs = d.roll nowUs :=
  roll_roll (UInt64.le_refl nowUs) (.inr (.inl rfl))

/-- **What one call does.** Every call rolls the window. An accepted charge fits and is
added; any other call leaves the window as it was rolled. -/
theorem callStep_cases {c : DutyCall} (h : CallStep d (c, answer) d') :
    (∃ airtimeUs, c = .charge c.nowUs airtimeUs ∧ answer = true ∧
      (d.roll c.nowUs).usedUs.saturatingAdd airtimeUs.toUInt64 ≤ d.budgetUs ∧
      d' = { d.roll c.nowUs with
        usedUs := (d.roll c.nowUs).usedUs.saturatingAdd airtimeUs.toUInt64 }) ∨
    ((DutyCall.taking (c, answer)).amount = 0 ∧ d' = d.roll c.nowUs) := by
  cases c with
  | wouldPermit nowUs airtimeUs =>
    cases h
    exact .inr ⟨rfl, rfl⟩
  | charge nowUs airtimeUs =>
    change d.charge nowUs airtimeUs = (answer, d') at h
    rw [charge, wouldPermit] at h
    by_cases hfits : (d.roll nowUs).usedUs.saturatingAdd airtimeUs.toUInt64 ≤
        (d.roll nowUs).budgetUs
    · simp only [decide_eq_true hfits, Prod.mk.injEq] at h
      obtain ⟨rfl, rfl⟩ := h
      rw [roll_budgetUs] at hfits
      exact .inl ⟨airtimeUs, rfl, rfl, hfits, rfl⟩
    · simp only [decide_eq_false hfits, Prod.mk.injEq] at h
      obtain ⟨rfl, rfl⟩ := h
      exact .inr ⟨rfl, rfl⟩

/-- A call keeps the limit and the width of the window. -/
theorem Configured.callStep {label : DutyCall × Bool} (h : Configured limitPermille windowMs d)
    (hstep : CallStep d label d') : Configured limitPermille windowMs d' := by
  have hrolled (nowUs : UInt64) : Configured limitPermille windowMs (d.roll nowUs) :=
    ⟨by rw [roll_limitPermille, h.limit_eq], h.limit_le, by rw [roll_windowUs, h.toNat_windowUs],
      h.windowMs_pos⟩
  rcases callStep_cases hstep with ⟨_, -, -, -, rfl⟩ | ⟨-, rfl⟩
  · exact ⟨(hrolled _).limit_eq, h.limit_le, (hrolled _).toNat_windowUs, h.windowMs_pos⟩
  · exact hrolled _

/-- A call that is no accepted charge adds nothing. -/
theorem usedUs_le_of_refused (h : d.charge nowUs airtimeUs = (false, d')) :
    d'.usedUs ≤ d.usedUs := by
  rcases callStep_cases (c := .charge nowUs airtimeUs) h with ⟨_, -, hanswer, -⟩ | ⟨-, rfl⟩
  · cases hanswer
  · rcases d.roll_usedUs nowUs with hzero | hsame
    · change (d.roll nowUs).usedUs ≤ _
      rw [hzero]
      exact UInt64.zero_le
    · exact UInt64.le_of_eq hsame

/-- **One call is one event of a fixed window** of the width and the budget of the duty
cycle. -/
theorem refines_fixedWindow {label : DutyCall × Bool} (h : Configured limitPermille windowMs d)
    (hused : d.window.used ≤ d.budgetUs.toNat) (hstep : CallStep d label d') :
    FixedWindow.Step d.windowUs.toNat d.budgetUs.toNat d.window (DutyCall.taking label)
      d'.window := by
  obtain ⟨c, answer⟩ := label
  have hroll := d.window_roll c.nowUs
  have hbudget := h.toNat_budgetUs_lt
  rcases callStep_cases hstep with ⟨airtimeUs, hc, rfl, hfits, rfl⟩ | ⟨hnone, rfl⟩
  · have htaking : DutyCall.taking (c, true) = ⟨c.nowUs.toNat, airtimeUs.toNat⟩ := by
      rw [hc]
      rfl
    rw [UInt64.le_iff_toNat_le, UInt64.toNat_saturatingAdd, UInt32.toNat_toUInt64] at hfits
    -- what fits the budget does not saturate
    have hsum : ((d.roll c.nowUs).usedUs.saturatingAdd airtimeUs.toUInt64).toNat =
        (d.roll c.nowUs).usedUs.toNat + airtimeUs.toNat := by
      rw [UInt64.toNat_saturatingAdd, UInt32.toNat_toUInt64]
      omega
    rw [htaking]
    refine ⟨?_, ?_, ?_⟩
    · rw [← hroll]
      rfl
    · rw [← hroll]
      exact hsum
    · change ((d.roll c.nowUs).usedUs.saturatingAdd airtimeUs.toUInt64).toNat ≤ _
      rw [UInt64.toNat_saturatingAdd, UInt32.toNat_toUInt64]
      exact hfits
  · refine ⟨?_, ?_, ?_⟩
    · rw [DutyCall.taking_time, ← hroll]
    · rw [DutyCall.taking_time, ← hroll, hnone, Nat.add_zero]
    · rcases d.roll_usedUs c.nowUs with hzero | hsame
      · change (d.roll c.nowUs).usedUs.toNat ≤ _
        rw [hzero]
        exact Nat.zero_le _
      · change (d.roll c.nowUs).usedUs.toNat ≤ _
        rw [hsame]
        exact hused

/-! ## Runs -/

/-- What a run of calls keeps, and the run of the abstract window behind it. -/
theorem run_refines {d₀ : DutyCycle} {labels : List (DutyCall × Bool)}
    (h : Configured limitPermille windowMs d₀) (hused : d₀.usedUs = 0)
    (run : Run CallStep d₀ labels d) :
    Configured limitPermille windowMs d ∧ d.windowUs = d₀.windowUs ∧ d.budgetUs = d₀.budgetUs ∧
      d.usedUs ≤ d.budgetUs ∧
      Run (FixedWindow.Step d₀.windowUs.toNat d₀.budgetUs.toNat) d₀.window
        (labels.map DutyCall.taking) d.window := by
  induction run with
  | nil => exact ⟨h, rfl, rfl, hused ▸ UInt64.zero_le, .nil⟩
  | @snoc labels d d' label _ hstep ih =>
    obtain ⟨hconf, hwindow, hbudget, hle, hrun⟩ := ih
    have hconf' := hconf.callStep hstep
    have hevent := refines_fixedWindow hconf (UInt64.le_iff_toNat_le.mp hle) hstep
    rw [hwindow, hbudget] at hevent
    -- budget and window are functions of the two arguments of `new`
    have hbudget' : d'.budgetUs = d₀.budgetUs := by
      apply UInt64.toNat_inj.mp
      rw [hconf'.toNat_budgetUs, h.toNat_budgetUs]
    have hwindow' : d'.windowUs = d₀.windowUs := by
      apply UInt64.toNat_inj.mp
      rw [hconf'.toNat_windowUs, h.toNat_windowUs]
    refine ⟨hconf', hwindow', hbudget', ?_, ?_⟩
    · rw [hbudget', UInt64.le_iff_toNat_le]
      exact hevent.fits
    · rw [List.map_append]
      exact .snoc hrun hevent

/-- A charge of some airtime that is accepted adds to what was used. -/
theorem usedUs_lt_of_charge {d₀ : DutyCycle} {labels : List (DutyCall × Bool)}
    (hnew : new limitPermille windowMs startUs = some d₀) (run : Run CallStep d₀ labels d)
    (hpos : 0 < airtimeUs) (h : d.charge nowUs airtimeUs = (true, d')) :
    (d.roll nowUs).usedUs < d'.usedUs := by
  obtain ⟨hconf₀, hused, -⟩ := configured_new hnew
  have hbudget := (run_refines hconf₀ hused run).1.toNat_budgetUs_lt
  rw [UInt32.lt_iff_toNat_lt, UInt32.toNat_zero] at hpos
  have hcases := callStep_cases (c := .charge nowUs airtimeUs) h
  rcases hcases with ⟨airtimeUs', hcall, -, hfits, rfl⟩ | ⟨hnone, -⟩
  · cases hcall
    rw [UInt64.le_iff_toNat_le, UInt64.toNat_saturatingAdd, UInt32.toNat_toUInt64] at hfits
    rw [UInt64.lt_iff_toNat_lt, UInt64.toNat_saturatingAdd, UInt32.toNat_toUInt64]
    change (d.roll nowUs).usedUs.toNat < min ((d.roll nowUs).usedUs.toNat + _) _
    change min ((d.roll nowUs).usedUs.toNat + _) _ ≤ _ at hfits
    omega
  · change airtimeUs.toNat = 0 at hnone
    omega

/-- **The duty budget is never overrun.** After every run of calls on an accepted duty
cycle the airtime used is within the budget, the budget is the exact product of window and
limit, and a refused charge adds nothing. If the clock never goes backwards, the accepted
charges of any closed interval as long as the window take at most twice the budget. -/
theorem run_never_overrun {d₀ : DutyCycle} {labels : List (DutyCall × Bool)}
    (hnew : new limitPermille windowMs nowUs = some d₀) (run : Run CallStep d₀ labels d) :
    d.usedUs ≤ d.budgetUs ∧
      d.budgetUs.toNat = windowMs.toNat * limitPermille.toNat ∧
      (∀ nowUs airtimeUs d', d.charge nowUs airtimeUs = (false, d') → d'.usedUs ≤ d.usedUs) ∧
      ((labels.Pairwise fun l l' => l.1.nowUs ≤ l'.1.nowUs) →
        ∀ t, takenWithin (labels.map DutyCall.taking) t (t + d.windowUs.toNat) ≤
          2 * d.budgetUs.toNat) := by
  obtain ⟨hconf₀, hused, -⟩ := configured_new hnew
  obtain ⟨hconf, hwindow, hbudget, hle, hrun⟩ := run_refines hconf₀ hused run
  refine ⟨hle, hconf.toNat_budgetUs, fun _ _ _ => usedUs_le_of_refused, fun hmono t => ?_⟩
  rw [hwindow, hbudget]
  refine FixedWindow.takenWithin_le hconf₀.windowUs_pos (congrArg UInt64.toNat hused) hrun ?_ t
  rw [List.pairwise_map]
  refine hmono.imp fun {l l'} hlt => ?_
  rw [DutyCall.taking_time, DutyCall.taking_time]
  exact UInt64.le_iff_toNat_le.mp hlt

/-- One hundredth of a second: a frame, one that does not fit any more, and one that fills
the budget. -/
theorem run_never_overrun_second :
    (10000 : UInt64) ≤ budgetUs ⟨10, 1000000, 10000, 0⟩ ∧
      takenWithin [⟨0, 6000⟩, ⟨0, 0⟩, ⟨5, 4000⟩] 0 1000000 ≤ 2 * 10000 := by
  have run : Run CallStep ⟨10, 1000000, 0, 0⟩
      [(.charge 0 6000, true), (.charge 0 6000, false), (.charge 5 4000, true)]
      ⟨10, 1000000, 10000, 0⟩ :=
    .cons rfl (.cons rfl (.single rfl))
  have hnew : new 10 1000 0 = some ⟨10, 1000000, 0, 0⟩ := rfl
  obtain ⟨hused, -, -, hwithin⟩ := run_never_overrun hnew run
  exact ⟨hused, hwithin (by decide) 0⟩

end DutyCycle

end TetherMesh.Protocol
