import Mathlib.Data.List.GetD

/-!
# Sequences defined by a recurrence

A list that grows at its end, each entry computed from those before it.

## Main definitions

* `grow`

## Main results

* `getD_grow_add` — an entry stays when more are added
* `getD_grow_of_lt`, `getD_grow` — the entries one by one
-/

namespace TetherMesh.Math

variable {α : Type*} (next : List α → α) (init : List α)

/-- The entries given and the next `n`. -/
def grow : ℕ → List α
  | 0 => init
  | n + 1 =>
    let xs := grow n
    xs ++ [next xs]

variable {next init} {i : ℕ} (d : α)

@[simp] theorem length_grow (n : ℕ) : (grow next init n).length = init.length + n := by
  induction n with
  | zero => rfl
  | succ n ih => rw [grow, List.length_append, ih, List.length_singleton, Nat.add_assoc]

/-- An entry stays when more are added. -/
theorem getD_grow_add (n k : ℕ) (hi : i < init.length + n) :
    (grow next init (n + k)).getD i d = (grow next init n).getD i d := by
  induction k with
  | zero => rfl
  | succ k ih =>
    rw [← ih, ← Nat.add_assoc, grow, List.getD_append]
    rw [length_grow]
    omega

/-- The entries given. -/
theorem getD_grow_of_lt (n : ℕ) (hi : i < init.length) :
    (grow next init n).getD i d = init.getD i d := by
  have hgiven : (grow next init (0 + n)).getD i d = init.getD i d := getD_grow_add d 0 n hi
  rwa [Nat.zero_add] at hgiven

/-- The others, each computed when all before it were there. -/
theorem getD_grow {n : ℕ} (hle : init.length ≤ i) (hi : i < init.length + n) :
    (grow next init n).getD i d = next (grow next init (i - init.length)) := by
  obtain ⟨m, rfl⟩ := Nat.exists_eq_add_of_le hle
  obtain ⟨k, rfl⟩ := Nat.exists_eq_add_of_lt (Nat.lt_of_add_lt_add_left hi)
  rw [Nat.add_right_comm m k 1, getD_grow_add d (m + 1) k (by omega), Nat.add_sub_cancel_left, grow,
    List.getD_append_right _ _ _ _ (Nat.le_of_eq (length_grow m)), length_grow, Nat.sub_self]
  rfl

end TetherMesh.Math
