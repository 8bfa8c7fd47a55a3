import Mathlib.Data.List.Basic
import Mathlib.Order.Basic

/-!
# Spans that tile a range

Whatever reads forward through a range in pieces leaves a list of spans, each beginning where
the one before it ended.

## Main definitions

* `Tiles lo spans hi` — the spans follow each other from `lo` to `hi`
* `slice xs span` — the part of a list that a span covers

## Main results

* `Tiles.mul_length_le` — how many spans of some width there can be
* `Tiles.flatten_slices` — the parts of a list make up the whole of the range
-/

namespace TetherMesh.CS

/-- The spans follow each other from `lo` to `hi`, without a gap and without an overlap. -/
def Tiles : ℕ → List (ℕ × ℕ) → ℕ → Prop
  | lo, [], hi => lo = hi
  | lo, span :: spans, hi => span.1 = lo ∧ span.1 ≤ span.2 ∧ Tiles span.2 spans hi

/-- The part of a list that a span covers. -/
def slice {α : Type*} (xs : List α) (span : ℕ × ℕ) : List α :=
  (xs.drop span.1).take (span.2 - span.1)

namespace Tiles

variable {lo mid hi width : ℕ} {spans : List (ℕ × ℕ)}

theorem nil (lo : ℕ) : Tiles lo [] lo := rfl

/-- One span more at the end. -/
theorem snoc (h : Tiles lo spans mid) (hle : mid ≤ hi) : Tiles lo (spans ++ [(mid, hi)]) hi := by
  induction spans generalizing lo with
  | nil => exact ⟨h.symm, hle, rfl⟩
  | cons span spans ih => exact ⟨h.1, h.2.1, ih h.2.2⟩

theorem le (h : Tiles lo spans hi) : lo ≤ hi := by
  induction spans generalizing lo with
  | nil => exact Nat.le_of_eq h
  | cons span spans ih =>
    obtain ⟨rfl, hle, hrest⟩ := h
    exact Nat.le_trans hle (ih hrest)

/-- Spans of some width take up their number of it. -/
theorem mul_length_le (h : Tiles lo spans hi) (hwide : ∀ span ∈ spans, span.1 + width ≤ span.2) :
    lo + width * spans.length ≤ hi := by
  induction spans generalizing lo with
  | nil => exact Nat.le_of_eq h
  | cons span spans ih =>
    obtain ⟨rfl, -, hrest⟩ := h
    obtain ⟨hspan, hwide⟩ := List.forall_mem_cons.mp hwide
    have htail := ih hrest hwide
    rw [List.length_cons, Nat.mul_succ]
    omega

/-- What the spans cover of a list, one after the other, is what the range covers. -/
theorem flatten_slices {α : Type*} (h : Tiles lo spans hi) (xs : List α) :
    (spans.map (slice xs)).flatten = slice xs (lo, hi) := by
  induction spans generalizing lo with
  | nil =>
    obtain rfl : lo = hi := h
    rw [List.map_nil, List.flatten_nil, slice, Nat.sub_self, List.take_zero]
  | cons span spans ih =>
    obtain ⟨rfl, hle, hrest⟩ := h
    have hsplit : hi - span.1 = (span.2 - span.1) + (hi - span.2) := by
      have := hrest.le
      omega
    rw [List.map_cons, List.flatten_cons, ih hrest, slice, slice, slice, hsplit, List.take_add,
      List.drop_drop, Nat.add_sub_cancel' hle]

end Tiles

end TetherMesh.CS
