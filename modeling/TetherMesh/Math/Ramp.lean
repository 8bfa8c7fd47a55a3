import Mathlib.Order.Monotone.Basic
import Mathlib.Algebra.Order.Group.Nat

/-!
# Ramps

A quantity that grows along a straight line between two levels, in whole numbers rounded
down, and stays level outside.

## Main definitions

* `ramp lo hi width x` — `lo` at zero, `hi` from `width` on

## Main results

* `monotone_ramp`, `le_ramp`, `ramp_le` — it never falls and keeps to its levels
* `ramp_eq_hi` — the upper level is reached, without a rounding error
-/

namespace TetherMesh.Math

/-- The straight line from `lo` at zero to `hi` at `width`, level from there on. -/
def ramp (lo hi width x : ℕ) : ℕ := lo + min x width * (hi - lo) / width

variable {lo hi width x : ℕ}

@[simp] theorem ramp_zero : ramp lo hi width 0 = lo := by
  rw [ramp, Nat.zero_min, Nat.zero_mul, Nat.zero_div, Nat.add_zero]

theorem ramp_eq_hi (hlevels : lo ≤ hi) (hwidth : 0 < width) (hx : width ≤ x) :
    ramp lo hi width x = hi := by
  rw [ramp, Nat.min_eq_right hx, Nat.mul_div_cancel_left _ hwidth, Nat.add_sub_cancel' hlevels]

theorem le_ramp : lo ≤ ramp lo hi width x := Nat.le_add_right _ _

theorem ramp_le (hlevels : lo ≤ hi) : ramp lo hi width x ≤ hi := by
  have hshare : min x width * (hi - lo) / width ≤ hi - lo :=
    Nat.div_le_of_le_mul (Nat.mul_le_mul_right _ (Nat.min_le_right x width))
  exact (Nat.add_le_add_left hshare lo).trans_eq (Nat.add_sub_cancel' hlevels)

/-- Rounding down keeps the order. -/
theorem monotone_ramp (lo hi width : ℕ) : Monotone (ramp lo hi width) := by
  intro x y hxy
  have hmin : min x width ≤ min y width := min_le_min_right width hxy
  exact Nat.add_le_add_left (Nat.div_le_div_right (Nat.mul_le_mul_right _ hmin)) lo

end TetherMesh.Math
