import Mathlib.Data.List.Nodup
import TetherMesh.CS.LabelledRun

/-!
# Draining a table by repeated scans

A call scans a table for the first slot that qualifies, reports it and changes it, or reports
that there is none. The next call scans from the start again. If the change disqualifies the
slot, calling until nothing is reported ends, and reports each slot that qualified at first
once, in the order of the table.

## Main definitions

* `drain` — call until nothing is reported, at most so many times
* `Scans` — what one call does

## Main results

* `exists_run_of_drain` — the calls that reported something are a run
* `Scans.drain_eq`
-/

namespace TetherMesh.CS

variable {σ ι β α : Type*}

/-- Call until nothing is reported. `none` if that takes more calls than are given. -/
def drain (call : σ → Option α × σ) : ℕ → σ → Option (List α × σ)
  | 0, _ => none
  | calls + 1, s =>
    match call s with
    | (none, s) => some ([], s)
    | (some report, s) =>
      (drain call calls s).map fun (reports, s) => (report :: reports, s)

/-- The calls that reported something, and the one that did not. -/
theorem exists_run_of_drain {call : σ → Option α × σ} {calls : ℕ} {s s' : σ} {reports : List α}
    (h : drain call calls s = some (reports, s')) :
    ∃ t, Run (fun s report s' => call s = (some report, s')) s reports t ∧ call t = (none, s') := by
  induction calls generalizing s reports with
  | zero => cases h
  | succ calls ih =>
    rw [drain] at h
    cases hcall : call s with
    | mk answer s₁ =>
      rw [hcall] at h
      cases answer with
      | none =>
        cases h
        exact ⟨s, .nil, hcall⟩
      | some report =>
        obtain ⟨⟨rest, s₂⟩, hrest, heq⟩ := Option.map_eq_some_iff.mp h
        cases heq
        obtain ⟨t, run, hlast⟩ := ih hrest
        exact ⟨t, .cons hcall run, hlast⟩

/-- One call, on states where `inv` holds: the first of the slots `is` that `qualifies` is
reported and changed, and no other. -/
structure Scans (call : σ → Option α × σ) (inv : σ → Prop) (slot : σ → ι → β) (is : List ι)
    (qualifies : β → Bool) (report : β → α) (change : β → β) : Prop where
  none_eq : ∀ {s}, inv s → (∀ i ∈ is, qualifies (slot s i) = false) → ∃ s',
    call s = (none, s') ∧ inv s' ∧ slot s' = slot s
  some_eq : ∀ {s i}, inv s → is.find? (fun i => qualifies (slot s i)) = some i → ∃ s',
    call s = (some (report (slot s i)), s') ∧ inv s' ∧ slot s' i = change (slot s i) ∧
      ∀ j ≠ i, slot s' j = slot s j
  disqualifies : ∀ {b}, qualifies b = true → qualifies (change b) = false

namespace Scans

variable {call : σ → Option α × σ} {inv : σ → Prop} {slot : σ → ι → β} {is : List ι}
  {qualifies : β → Bool} {report : β → α} {change : β → β} {s s' : σ} {i : ι}

/-- The slot that was changed is the only one that does not qualify any more. -/
theorem filter_tail (hnodup : is.Nodup) {rest : List ι}
    (hfirst : is.filter (fun j => qualifies (slot s j)) = i :: rest)
    (hgone : qualifies (slot s' i) = false) (hkept : ∀ j ≠ i, slot s' j = slot s j) :
    is.filter (fun j => qualifies (slot s' j)) = rest := by
  classical
  have hsplit : is.filter (fun j => qualifies (slot s' j)) =
      (is.filter fun j => qualifies (slot s j)).filter fun j => j ≠ i := by
    rw [List.filter_filter]
    refine List.filter_congr fun j _ => ?_
    by_cases hji : j = i
    · subst hji
      simp [hgone]
    · simp [hkept j hji, hji]
  have hnotMem : i ∉ rest := by
    have hrest := hnodup.filter fun j => qualifies (slot s j)
    rw [hfirst] at hrest
    exact (List.nodup_cons.mp hrest).1
  rw [hsplit, hfirst, List.filter_cons_of_neg (by simp), List.filter_eq_self]
  intro j hj
  exact decide_eq_true fun hji => hnotMem (hji ▸ hj)

/-- **Draining** reports every slot that qualifies, once and in order, and changes these. -/
theorem drain_eq (h : Scans call inv slot is qualifies report change) (hnodup : is.Nodup)
    (hinv : inv s) {calls : ℕ}
    (hcalls : (is.filter fun i => qualifies (slot s i)).length < calls) :
    ∃ s', drain call calls s =
        some ((is.filter fun i => qualifies (slot s i)).map fun i => report (slot s i), s') ∧
      inv s' ∧ ∀ i ∈ is, slot s' i =
        if qualifies (slot s i) then change (slot s i) else slot s i := by
  induction calls generalizing s with
  | zero => exact absurd hcalls (Nat.not_lt_zero _)
  | succ calls ih =>
    cases hfirst : is.filter fun i => qualifies (slot s i) with
    | nil =>
      have hnone : ∀ i ∈ is, qualifies (slot s i) = false := fun i hi =>
        Bool.eq_false_iff.mpr (List.filter_eq_nil_iff.mp hfirst i hi)
      obtain ⟨s', hcall, hinv', hslot⟩ := h.none_eq hinv hnone
      refine ⟨s', by rw [drain, hcall]; rfl, hinv', fun i hi => ?_⟩
      rw [hslot, hnone i hi]
      rfl
    | cons i rest =>
      have hfind : is.find? (fun i => qualifies (slot s i)) = some i := by
        rw [← List.head?_filter, hfirst, List.head?_cons]
      have hqualifies : qualifies (slot s i) = true :=
        List.find?_some (p := fun i => qualifies (slot s i)) hfind
      obtain ⟨s₁, hcall, hinv₁, hchanged, hkept⟩ := h.some_eq hinv hfind
      have hgone : qualifies (slot s₁ i) = false := by
        rw [hchanged]
        exact h.disqualifies hqualifies
      have hrest := filter_tail hnodup hfirst hgone hkept
      obtain ⟨s', hdrain, hinv', hslots⟩ := ih hinv₁ (by
        rw [hfirst] at hcalls
        rw [hrest]
        exact Nat.lt_of_succ_lt_succ hcalls)
      refine ⟨s', ?_, hinv', fun j hj => ?_⟩
      · -- the slots that are left report what they would have reported at first
        have hreports : rest.map (fun j => report (slot s₁ j)) =
            rest.map fun j => report (slot s j) := by
          refine List.map_congr_left fun j hj => ?_
          have hji : j ≠ i := by
            rintro rfl
            have hstill := (List.mem_filter.mp (hrest ▸ hj)).2
            rw [hgone] at hstill
            cases hstill
          rw [hkept j hji]
        rw [drain, hcall]
        dsimp only
        rw [hdrain, hrest, hreports]
        rfl
      · rw [hslots j hj]
        by_cases hji : j = i
        · rw [hji, hgone, hqualifies]
          exact hchanged
        · rw [hkept j hji]

end Scans

end TetherMesh.CS
