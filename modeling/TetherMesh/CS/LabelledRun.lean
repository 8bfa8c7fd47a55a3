import Mathlib.Logic.Relation

/-!
# Labelled runs and their invariants

A labelled run is a finite path of a step relation together with the list of
labels it was taken under, oldest first. Runs grow at their end, so an invariant
that speaks of everything that has happened so far is proved by one induction
whose only obligation is the last step.

## Main definitions

* `Run step s labels t` — `t` is reached from `s` under `labels`

## Main results

* `Run.invariant` — a property of labels and state that holds at the start and
  survives every step holds at the end of every run
* `Run.split` — a run under `xs ++ ys` passes through an intermediate state
-/

namespace TetherMesh.CS

/-- `Run step s labels t`: the steps taken from `s` under `labels`, oldest label
first, end in `t`. -/
inductive Run {σ α : Type*} (step : σ → α → σ → Prop) (s : σ) : List α → σ → Prop
  | nil : Run step s [] s
  | snoc {labels : List α} {t u : σ} {a : α} :
      Run step s labels t → step t a u → Run step s (labels ++ [a]) u

namespace Run

variable {σ α : Type*} {step : σ → α → σ → Prop} {s t u : σ} {xs ys : List α}

/-- **Invariant rule.** What holds of the empty run and survives one more step
holds of every run. The step may use the run that led to it. -/
theorem invariant {I : List α → σ → Prop} (start : I [] s)
    (next : ∀ {labels : List α} {t u : σ} {a : α},
      Run step s labels t → I labels t → step t a u → I (labels ++ [a]) u)
    (run : Run step s xs t) : I xs t := by
  induction run with
  | nil => exact start
  | snoc run hstep ih => exact next run ih hstep

theorem single {a : α} (h : step s a t) : Run step s [a] t :=
  List.nil_append [a] ▸ .snoc .nil h

theorem append (first : Run step s xs t) (second : Run step t ys u) :
    Run step s (xs ++ ys) u := by
  induction second with
  | nil => rwa [List.append_nil]
  | snoc _ hstep ih =>
    rw [← List.append_assoc]
    exact .snoc ih hstep

theorem cons {a : α} (h : step s a t) (run : Run step t ys u) : Run step s (a :: ys) u :=
  (single h).append run

/-- A run under a concatenation passes through the state between the two parts. -/
theorem split (run : Run step s (xs ++ ys) u) :
    ∃ t, Run step s xs t ∧ Run step t ys u := by
  generalize hlabels : xs ++ ys = labels at run
  induction run generalizing ys with
  | nil =>
    obtain ⟨rfl, rfl⟩ := List.append_eq_nil_iff.mp hlabels
    exact ⟨s, .nil, .nil⟩
  | snoc run hstep ih =>
    rename_i as t u a
    rcases List.eq_nil_or_concat ys with rfl | ⟨ys', b, rfl⟩
    · rw [List.append_nil] at hlabels
      subst hlabels
      exact ⟨u, .snoc run hstep, .nil⟩
    · rw [List.concat_eq_append, ← List.append_assoc] at hlabels
      obtain ⟨hinit, hlast⟩ := List.append_inj' hlabels rfl
      obtain rfl := List.singleton_inj.mp hlast
      obtain ⟨m, hfirst, hsecond⟩ := ih hinit
      refine ⟨m, hfirst, ?_⟩
      rw [List.concat_eq_append]
      exact .snoc hsecond hstep

/-- Each label of a run was the label of one of its steps. -/
theorem step_at {a : α} (run : Run step s (xs ++ a :: ys) u) :
    ∃ t t', Run step s xs t ∧ step t a t' ∧ Run step t' ys u := by
  rw [List.append_cons] at run
  obtain ⟨t', hfirst, hsecond⟩ := run.split
  generalize hlabels : xs ++ [a] = labels at hfirst
  cases hfirst with
  | nil => simp at hlabels
  | snoc hrun hstep =>
    obtain ⟨rfl, hlast⟩ := List.append_inj' hlabels rfl
    obtain rfl := List.singleton_inj.mp hlast
    exact ⟨_, t', hrun, hstep, hsecond⟩

end Run

end TetherMesh.CS
