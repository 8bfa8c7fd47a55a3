import TetherMesh.Math.Bytes

/-!
# Accesses that report a miss

The total accessors answer every index, so that code written with them cannot say whether
an index was ever out of range. These answer `none` there. Code written with them that
answers `some` for certain has no access out of range, and computes what the total code
does.

## Main definitions

* `sub?`, `byteAt?`, `setAt?`, `setByte?`, `setList?`, `updateBytes?`

## Main results

* `foldlM_eq_some_of`, `foldlM_eq_some` — a loop whose steps never miss
-/

namespace TetherMesh.Math

universe u

variable {α β : Type u} {n i : ℕ}

/-- The difference, unless it is negative. -/
def sub? (a b : ℕ) : Option ℕ := if b ≤ a then some (a - b) else none

/-- Byte `i`, if there is one. -/
def byteAt? (a : Vector UInt8 n) (i : ℕ) : Option UInt8 := a[i]?

/-- Replace entry `i`, which must be there. -/
def setAt? (a : Vector α n) (i : ℕ) (v : α) : Option (Vector α n) :=
  if i < n then some (a.setIfInBounds i v) else none

/-- Replace byte `i`, which must be there. -/
def setByte? (a : Vector UInt8 n) (i : ℕ) (v : UInt8) : Option (Vector UInt8 n) := setAt? a i v

theorem some_bind (a : α) (f : α → Option β) : (some a >>= f) = f a := rfl

theorem sub?_of_le {a b : ℕ} (h : b ≤ a) : sub? a b = some (a - b) := if_pos h

theorem byteAt?_of_lt (a : Vector UInt8 n) (hi : i < n) : byteAt? a i = some (byteAt a i) := by
  rw [byteAt?, byteAt_of_lt a hi, Vector.getElem?_eq_getElem hi]

theorem setAt?_of_lt (a : Vector α n) (v : α) (hi : i < n) :
    setAt? a i v = some (a.setIfInBounds i v) := if_pos hi

theorem setByte?_of_lt (a : Vector UInt8 n) (v : UInt8) (hi : i < n) :
    setByte? a i v = some (setByte a i v) := if_pos hi

/-- **A loop whose steps never miss**, as long as what they need of the state is kept. -/
theorem foldlM_eq_some_of {P : β → Prop} {f : β → α → Option β} {g : β → α → β} {xs : List α}
    (h : ∀ x ∈ xs, ∀ b, P b → f b x = some (g b x) ∧ P (g b x)) {b : β} (hb : P b) :
    xs.foldlM f b = some (xs.foldl g b) ∧ P (xs.foldl g b) := by
  induction xs generalizing b with
  | nil => exact ⟨rfl, hb⟩
  | cons x xs ih =>
    obtain ⟨hstep, hnext⟩ := h x List.mem_cons_self b hb
    rw [List.foldlM_cons, hstep, some_bind, List.foldl_cons]
    exact ih (fun y hy => h y (List.mem_cons_of_mem x hy)) hnext

theorem foldlM_eq_some {f : β → α → Option β} {g : β → α → β} {xs : List α}
    (h : ∀ x ∈ xs, ∀ b, f b x = some (g b x)) (b : β) : xs.foldlM f b = some (xs.foldl g b) :=
  (foldlM_eq_some_of (P := fun _ => True) (fun x hx b _ => ⟨h x hx b, trivial⟩) trivial).1

/-- Rewrite `m` bytes in place one by one, all of which must be there. -/
def updateBytes? (start m : ℕ) (f : ℕ → UInt8 → UInt8) (a : Vector UInt8 n) :
    Option (Vector UInt8 n) :=
  (List.range m).foldlM
    (fun a i => do setByte? a (start + i) (f i (← byteAt? a (start + i)))) a

theorem updateBytes?_eq {start m : ℕ} (f : ℕ → UInt8 → UInt8) (a : Vector UInt8 n)
    (h : start + m ≤ n) : updateBytes? start m f a = some (updateBytes start m f a) := by
  refine foldlM_eq_some (fun i hi a => ?_) a
  have hlt := List.mem_range.mp hi
  rw [byteAt?_of_lt a (by omega), some_bind, setByte?_of_lt _ _ (by omega)]

/-- Replace entry `i` of a list, which must be there. -/
def setList? (xs : List α) (i : ℕ) (v : α) : Option (List α) :=
  if i < xs.length then some (xs.set i v) else none

/-- Entries written one by one are written over. -/
theorem foldl_set_eq_overwrite (f : ℕ → α) (buf : List α) (start m : ℕ) :
    (List.range m).foldl (fun buf i => buf.set (start + i) (f i)) buf =
      overwrite buf start ((List.range m).map f) := by
  have hmap (m k : ℕ) : ((List.range m).map f)[k]? = if k < m then some (f k) else none := by
    rw [List.getElem?_map]
    split_ifs with hk
    · rw [List.getElem?_range hk, Option.map_some]
    · rw [List.getElem?_eq_none (by rwa [List.length_range, ← Nat.not_lt]), Option.map_none]
  induction m with
  | zero =>
    apply List.ext_getElem
    · rw [length_overwrite]
      rfl
    · intro j hj hj'
      simp [overwrite]
  | succ m ih =>
    rw [List.range_succ, List.foldl_append, List.foldl_cons, List.foldl_nil, ih,
      ← List.range_succ]
    apply List.ext_getElem
    · rw [List.length_set, length_overwrite, length_overwrite]
    · intro j hj hj'
      simp only [List.getElem_set, overwrite, List.getElem_mapIdx, hmap]
      by_cases hlast : start + m = j
      · subst hlast
        rw [if_pos rfl, if_pos (Nat.le_add_right start m), Nat.add_sub_cancel_left,
          if_pos (Nat.lt_succ_self m), Option.getD_some]
      · have hsame : start ≤ j → (j - start < m ↔ j - start < m + 1) := by omega
        rw [if_neg hlast]
        by_cases hin : start ≤ j
        · rw [if_pos hin, if_pos hin, if_congr (hsame hin) rfl rfl]
        · rw [if_neg hin, if_neg hin]

end TetherMesh.Math
