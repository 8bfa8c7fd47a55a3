import Mathlib.Algebra.Order.BigOperators.Group.List
import Mathlib.Algebra.Order.Ring.Nat
import TetherMesh.CS.LabelledRun

/-!
# Budgets over a fixed window

A fixed-window budget forgets what was taken when an event notices that the window
has elapsed, and starts the next window at that event. The windows therefore drift
with the events, and an interval as long as a window can meet two of them but never
three: two windows lie at least one whole window apart when a third lies between.

## Main definitions

* `FixedWindow`, `FixedWindow.roll`, `FixedWindow.Step`
* `takenWithin` — what the events of an interval took

## Main results

* `FixedWindow.roll_roll` — when an earlier roll does not show in a later one
* `FixedWindow.used_le` — one window never holds more than the budget
* `FixedWindow.takenWithin_le` — an interval as long as a window never meets more than
  twice the budget
-/

namespace TetherMesh.CS

/-- The current window: when it started and what it has used. -/
structure FixedWindow where
  /-- Start of the window. -/
  start : ℕ
  /-- Amount taken in it. -/
  used : ℕ
  deriving DecidableEq, Repr

/-- An event at a time, and the amount it took, which may be none. -/
structure Taking where
  /-- Time of the event. -/
  time : ℕ
  /-- Amount taken. -/
  amount : ℕ
  deriving DecidableEq, Repr

/-- What the events of a closed interval took. -/
def takenWithin (events : List Taking) (first last : ℕ) : ℕ :=
  ((events.filter fun e => first ≤ e.time ∧ e.time ≤ last).map Taking.amount).sum

section TakenWithin

variable {events : List Taking} {first last : ℕ}

theorem takenWithin_append (xs ys : List Taking) (first last : ℕ) :
    takenWithin (xs ++ ys) first last = takenWithin xs first last + takenWithin ys first last := by
  rw [takenWithin, List.filter_append, List.map_append, List.sum_append, takenWithin, takenWithin]

theorem takenWithin_le_sum (events : List Taking) (first last : ℕ) :
    takenWithin events first last ≤ (events.map Taking.amount).sum := by
  induction events with
  | nil => exact Nat.le_refl 0
  | cons e events ih =>
    rw [takenWithin, List.filter_cons, List.map_cons, List.sum_cons]
    rw [takenWithin] at ih
    split_ifs
    · rw [List.map_cons, List.sum_cons]
      omega
    · omega

theorem takenWithin_eq_zero (h : ∀ e ∈ events, e.time < first) :
    takenWithin events first last = 0 := by
  have hnone : events.filter (fun e => first ≤ e.time ∧ e.time ≤ last) = [] := by
    refine List.filter_eq_nil_iff.mpr fun e he hin => ?_
    have hlt := h e he
    have hle := (of_decide_eq_true hin).1
    omega
  rw [takenWithin, hnone, List.map_nil, List.sum_nil]

/-- An event outside the interval takes nothing within it. -/
theorem takenWithin_singleton_of_not {e : Taking} (h : ¬ (first ≤ e.time ∧ e.time ≤ last)) :
    takenWithin [e] first last = 0 := by
  rw [takenWithin, List.filter_cons_of_neg (by simpa using h), List.filter_nil, List.map_nil,
    List.sum_nil]

end TakenWithin

namespace FixedWindow

variable {width budget : ℕ}

/-- Start the next window at `now` if the current one has elapsed. -/
def roll (width : ℕ) (s : FixedWindow) (now : ℕ) : FixedWindow :=
  if width ≤ now - s.start then ⟨now, 0⟩ else s

section Roll

variable {now later : ℕ}

/-- Having rolled before does not show in what a later roll leaves used. -/
theorem used_roll_roll (width : ℕ) (s : FixedWindow) (hle : now ≤ later) :
    ((s.roll width now).roll width later).used = (s.roll width later).used := by
  by_cases helapsed : width ≤ now - s.start
  · have hlater : width ≤ later - s.start := helapsed.trans (Nat.sub_le_sub_right hle _)
    have hrolled : s.roll width now = ⟨now, 0⟩ := if_pos helapsed
    rw [hrolled, roll, roll, if_pos hlater]
    split_ifs <;> rfl
  · have hkept : s.roll width now = s := if_neg helapsed
    rw [hkept]

/-- Nor in the window, if the earlier roll did nothing, was at the same time, or is a whole
window ago. -/
theorem roll_roll {width : ℕ} {s : FixedWindow} (hle : now ≤ later)
    (h : s.roll width now = s ∨ now = later ∨ width ≤ later - now) :
    (s.roll width now).roll width later = s.roll width later := by
  by_cases helapsed : width ≤ now - s.start
  · have hlater : width ≤ later - s.start := helapsed.trans (Nat.sub_le_sub_right hle _)
    have hrolled : s.roll width now = ⟨now, 0⟩ := if_pos helapsed
    have hlast : s.roll width later = ⟨later, 0⟩ := if_pos hlater
    rw [hrolled] at h ⊢
    rw [hlast]
    rcases h with hsame | rfl | hwhole
    · rw [hsame, hlast]
    · rw [roll]
      split_ifs <;> rfl
    · exact if_pos hwhole
  · have hkept : s.roll width now = s := if_neg helapsed
    rw [hkept]

end Roll

/-- An event rolls the window and takes an amount that fits. -/
structure Step (width budget : ℕ) (s : FixedWindow) (e : Taking) (s' : FixedWindow) : Prop where
  /-- The window is the one that holds the time of the event. -/
  start_eq : s'.start = (s.roll width e.time).start
  /-- The amount is added. -/
  used_eq : s'.used = (s.roll width e.time).used + e.amount
  /-- It fits. -/
  fits : s'.used ≤ budget

variable {s s' : FixedWindow} {events : List Taking}

/-- **One window.** What it holds fits the budget. -/
theorem used_le (hstart : s.used ≤ budget) (run : Run (Step width budget) s events s') :
    s'.used ≤ budget := by
  cases run with
  | nil => exact hstart
  | snoc _ hstep => exact hstep.fits

/-- The events up to `now`, by window: all windows before the last two, the last but one,
and the current one. -/
structure Windows (width budget : ℕ) (events : List Taking) (s : FixedWindow) (now : ℕ) : Prop where
  /-- No interval as long as a window meets both an old window and the current one. -/
  split : ∃ old prev cur, events = old ++ prev ++ cur ∧
    (∀ e ∈ old, e.time + width < s.start) ∧ (∀ e ∈ prev, e.time < s.start) ∧
    (∀ e ∈ cur, e.time < s.start + width) ∧
    -- until the window first rolls, its start may lie ahead of the events
    (old = [] ∨ s.start ≤ now) ∧
    (prev.map Taking.amount).sum ≤ budget ∧ (cur.map Taking.amount).sum = s.used
  /-- The current window fits. -/
  used_le : s.used ≤ budget
  /-- No interval as long as a window met more than twice the budget. -/
  within_le : ∀ t, takenWithin events t (t + width) ≤ 2 * budget

namespace Windows

variable {now now' : ℕ}

theorem start (hstart : s.used = 0) (now : ℕ) : Windows width budget [] s now where
  split := ⟨[], [], [], rfl, by simp, by simp, by simp, .inl rfl, Nat.zero_le _, hstart.symm⟩
  used_le := hstart ▸ Nat.zero_le budget
  within_le _ := Nat.zero_le _

theorem mono (h : Windows width budget events s now) (hle : now ≤ now') :
    Windows width budget events s now' where
  split := by
    obtain ⟨old, prev, cur, heq, hold, hprev, hcur, hstart, hsum, hused⟩ := h.split
    exact ⟨old, prev, cur, heq, hold, hprev, hcur, hstart.imp_right fun h => h.trans hle, hsum,
      hused⟩
  used_le := h.used_le
  within_le := h.within_le

/-- Rolling makes the current window the last but one. -/
theorem roll (hwidth : 0 < width) (h : Windows width budget events s now) :
    Windows width budget events (s.roll width now) now ∧
      now < (s.roll width now).start + width := by
  rw [FixedWindow.roll]
  split_ifs with helapsed
  · obtain ⟨old, prev, cur, heq, hold, hprev, hcur, -, -, hused⟩ := h.split
    have hnow : s.start + width ≤ now := by omega
    refine ⟨⟨⟨old ++ prev, cur, [], ?_, ?_, ?_, ?_, .inr (Nat.le_refl now), ?_, rfl⟩,
      Nat.zero_le budget, h.within_le⟩, Nat.lt_add_of_pos_right hwidth⟩
    · rw [heq, List.append_nil]
    · intro e he
      change e.time + width < now
      rcases List.mem_append.mp he with he | he
      · exact (hold e he).trans_le ((Nat.le_add_right _ _).trans hnow)
      · have := hprev e he
        omega
    · exact fun e he => (hcur e he).trans_le hnow
    · exact fun e he => absurd he List.not_mem_nil
    · rw [hused]
      exact h.used_le
  · refine ⟨h, ?_⟩
    omega

/-- An event that fits joins the current window. -/
theorem take (h : Windows width budget events s now) (hnow : now < s.start + width) {amount : ℕ}
    (hfits : s.used + amount ≤ budget) :
    Windows width budget (events ++ [⟨now, amount⟩]) ⟨s.start, s.used + amount⟩ now := by
  obtain ⟨old, prev, cur, heq, hold, hprev, hcur, hstart, hsum, hused⟩ := h.split
  refine ⟨⟨old, prev, cur ++ [⟨now, amount⟩], ?_, hold, hprev, ?_, hstart, hsum, ?_⟩, hfits, ?_⟩
  · rw [heq, List.append_assoc]
  · intro e he
    rcases List.mem_append.mp he with he | he
    · exact hcur e he
    · rw [List.mem_singleton.mp he]
      exact hnow
  · rw [List.map_append, List.sum_append, hused]
    rfl
  · intro t
    rw [takenWithin_append]
    by_cases hin : t ≤ now ∧ now ≤ t + width
    · -- the interval ends in the current window, so the old ones lie before it
      have hbefore : takenWithin old t (t + width) = 0 := by
        rcases hstart with rfl | hstart
        · rfl
        · refine takenWithin_eq_zero fun e he => ?_
          have := hold e he
          omega
      have hprevLe := takenWithin_le_sum prev t (t + width)
      have hcurLe := takenWithin_le_sum cur t (t + width)
      have hlast : takenWithin [⟨now, amount⟩] t (t + width) ≤ amount :=
        takenWithin_le_sum [⟨now, amount⟩] t (t + width)
      rw [heq, takenWithin_append, takenWithin_append, hbefore]
      omega
    · have hlast : takenWithin [⟨now, amount⟩] t (t + width) = 0 :=
        takenWithin_singleton_of_not hin
      rw [hlast, Nat.add_zero]
      exact h.within_le t

end Windows

theorem windows_of_run (hwidth : 0 < width) (hstart : s.used = 0)
    (run : Run (Step width budget) s events s')
    (hmono : events.Pairwise fun e e' => e.time ≤ e'.time) {now : ℕ}
    (hnow : ∀ e ∈ events, e.time ≤ now) : Windows width budget events s' now := by
  induction run generalizing now with
  | nil => exact .start hstart now
  | @snoc events t u e _ hstep ih =>
    obtain ⟨hpast, -, hle⟩ := List.pairwise_append.mp hmono
    have hbefore := ih hpast fun e' he' => hle e' he' e (List.mem_singleton_self e)
    obtain ⟨hrolled, hlt⟩ := hbefore.roll hwidth
    have hfits := hstep.fits
    rw [hstep.used_eq] at hfits
    have htaken := hrolled.take hlt hfits
    rw [← hstep.used_eq, ← hstep.start_eq] at htaken
    exact htaken.mono (hnow e (List.mem_append_right _ (List.mem_singleton_self e)))

/-- **Two windows.** What an interval as long as a window meets is at most twice the
budget, if time does not go backwards. -/
theorem takenWithin_le (hwidth : 0 < width) (hstart : s.used = 0)
    (run : Run (Step width budget) s events s')
    (hmono : events.Pairwise fun e e' => e.time ≤ e'.time) (t : ℕ) :
    takenWithin events t (t + width) ≤ 2 * budget := by
  have hlast : ∀ e ∈ events, e.time ≤ (events.map Taking.time).sum := fun e he =>
    List.single_le_sum (fun _ _ => Nat.zero_le _) _ (List.mem_map_of_mem he)
  exact (windows_of_run hwidth hstart run hmono hlast).within_le t

end FixedWindow

end TetherMesh.CS
