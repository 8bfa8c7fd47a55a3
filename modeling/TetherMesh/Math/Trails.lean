import Mathlib.Combinatorics.SimpleGraph.Connectivity.Connected

/-!
# Spreading along paths

Something spreads over a graph from one node. A node that has it either hands it to all of its
neighbours, or ends a path that has grown to a limit. If no path from the start is longer than
the limit, nothing is left out.

## Main definitions

* `Trail G S a n len` — a path from `a` to `n` of `len` edges within `S`

## Main results

* `mem_of_reachable`
-/

namespace TetherMesh.Math

variable {ι : Type*} {G : SimpleGraph ι} {S S' : ι → Prop} {a m n : ι} {len limit : ℕ}

/-- A path of `len` edges, all of whose nodes are in `S`. -/
def Trail (G : SimpleGraph ι) (S : ι → Prop) (a n : ι) (len : ℕ) : Prop :=
  ∃ p : G.Walk a n, p.IsPath ∧ p.length = len ∧ ∀ v ∈ p.support, S v

namespace Trail

theorem nil (h : S a) : Trail G S a a 0 := by
  refine ⟨.nil, .nil, rfl, fun v hv => ?_⟩
  rw [SimpleGraph.Walk.support_nil, List.mem_singleton] at hv
  rwa [hv]

theorem mono (h : Trail G S a n len) (hsub : ∀ v, S v → S' v) : Trail G S' a n len := by
  obtain ⟨p, hpath, hlen, hmem⟩ := h
  exact ⟨p, hpath, hlen, fun v hv => hsub v (hmem v hv)⟩

theorem end_mem (h : Trail G S a n len) : S n := by
  obtain ⟨p, -, -, hmem⟩ := h
  exact hmem n p.end_mem_support

/-- A neighbour outside of `S` is one more step. -/
theorem concat (h : Trail G S a n len) (hadj : G.Adj n m) (hout : ¬ S m)
    (hsub : ∀ v, S v → S' v) (hin : S' m) : Trail G S' a m (len + 1) := by
  obtain ⟨p, hpath, rfl, hmem⟩ := h
  refine ⟨p.concat hadj, hpath.concat (fun hm => hout (hmem m hm)) hadj, p.length_concat hadj,
    fun v hv => ?_⟩
  rw [SimpleGraph.Walk.support_concat, List.mem_append, List.mem_singleton] at hv
  rcases hv with hv | rfl
  · exact hsub v (hmem v hv)
  · exact hin

end Trail

/-- **What stops only at the ends of the longest paths stops nowhere.** -/
theorem mem_of_reachable (hstart : S a)
    (hlimit : ∀ n (p : G.Walk a n), p.IsPath → p.length ≤ limit)
    (hnext : ∀ n, S n → (∀ m, G.Adj n m → S m) ∨ Trail G S a n limit) (h : G.Reachable a n) :
    S n := by
  have hclosed : ∀ n m, S n → G.Adj n m → S m := by
    intro n m hn hadj
    rcases hnext n hn with hall | htrail
    · exact hall m hadj
    · -- otherwise the path could be made longer
      by_contra hout
      have hlonger : Trail G (fun _ => True) a m (limit + 1) :=
        htrail.concat hadj hout (fun _ _ => trivial) trivial
      obtain ⟨p, hpath, hlen, -⟩ := hlonger
      have hle := hlimit m p hpath
      omega
  have hspread {u w : ι} (p : G.Walk u w) : S u → S w := by
    induction p with
    | nil => exact id
    | cons hadj _ ih => exact fun hu => ih (hclosed _ _ hu hadj)
  obtain ⟨p⟩ := h
  exact hspread p hstart

end TetherMesh.Math
