import Mathlib.Data.List.DropRight
import Mathlib.Data.Vector.Basic

/-!
# A ring of slots as a memory of the most recent elements

A ring of `n` slots is filled at a cursor that wraps. Whatever was pushed, the
occupied slots hold exactly the last `n` elements of the sequence pushed so far:
element `i` sits in slot `i % n` until `n` newer ones have been pushed.

## Main definitions

* `RingHolds slots cursor len pushed` — the ring holds the tail of `pushed`
* `Spaced n xs` — no element of `xs` is one of the `n` before it

## Main results

* `RingHolds.push` — writing at the cursor and moving on appends to `pushed`
* `RingHolds.mem_iff` — the occupied slots are the last `n` elements
* `le_length_of_notMem_rtake` — what has left the memory has `n` successors
* `Spaced.nodup` — as many successive elements as the memory holds are distinct
-/

namespace TetherMesh.CS

variable {α : Type*} {n : ℕ}

/-- The ring holds the last `n` elements of `pushed`, element `i` in slot `i % n`. -/
structure RingHolds (slots : Vector α n) (cursor len : ℕ) (pushed : List α) : Prop where
  len_eq : len = min n pushed.length
  cursor_eq : cursor = if n = 0 then 0 else pushed.length % n
  slot_eq : ∀ i (hi : i < pushed.length), pushed.length ≤ i + n →
    slots[i % n]? = some pushed[i]

theorem ringHolds_nil (slots : Vector α n) : RingHolds slots 0 0 [] where
  len_eq := by simp
  cursor_eq := by simp
  slot_eq i hi := absurd hi (Nat.not_lt_zero i)

namespace RingHolds

variable {slots : Vector α n} {cursor len : ℕ} {pushed : List α} {x : α}

theorem len_le (h : RingHolds slots cursor len pushed) : len ≤ n := by
  rw [h.len_eq]
  exact min_le_left _ _

/-- Two of the last `n` positions share a slot only when they are equal. -/
theorem mod_ne_of_lt {i m : ℕ} (hi : i < m) (hm : m < i + n) : i % n ≠ m % n := by
  intro hmod
  have hdvd := Nat.sub_mod_eq_zero_of_mod_eq hmod.symm
  have := Nat.le_of_dvd (by omega) (Nat.dvd_of_mod_eq_zero hdvd)
  omega

/-- **Push.** Writing at the cursor, advancing it with wrap-around and letting the
length saturate appends one element. -/
theorem push (h : RingHolds slots cursor len pushed) (x : α) :
    RingHolds (slots.setIfInBounds cursor x) (if cursor + 1 < n then cursor + 1 else 0)
      (if len < n then len + 1 else len) (pushed ++ [x]) where
  len_eq := by
    rw [h.len_eq, List.length_append, List.length_singleton]
    split_ifs <;> omega
  cursor_eq := by
    rw [h.cursor_eq, List.length_append, List.length_singleton]
    by_cases hn : n = 0
    · simp [hn]
    · have hlt := Nat.mod_lt pushed.length (Nat.pos_of_ne_zero hn)
      rw [if_neg hn, if_neg hn]
      split_ifs with hwrap
      · rw [← Nat.mod_add_mod, Nat.mod_eq_of_lt hwrap]
      · have hlast : pushed.length % n + 1 = n := by omega
        rw [← Nat.mod_add_mod, hlast, Nat.mod_self]
  slot_eq i hi hrecent := by
    rw [List.length_append, List.length_singleton] at hi hrecent
    have hn : n ≠ 0 := by omega
    have hcursor : cursor = pushed.length % n := by rw [h.cursor_eq, if_neg hn]
    have hlt := Nat.mod_lt pushed.length (Nat.pos_of_ne_zero hn)
    rcases Nat.lt_succ_iff_lt_or_eq.mp hi with hold | rfl
    · -- an older element that is still due lies in another slot
      have hne : cursor ≠ i % n := hcursor ▸ (mod_ne_of_lt hold (by omega)).symm
      rw [Vector.getElem?_setIfInBounds_ne hne, h.slot_eq i hold (by omega),
        List.getElem_append_left hold]
    · rw [← hcursor, Vector.getElem?_setIfInBounds_self_of_lt (hcursor ▸ hlt)]
      simp

/-- **The occupied slots are the last `n` elements pushed.** -/
theorem mem_iff (h : RingHolds slots cursor len pushed) :
    x ∈ slots.toList.take len ↔ x ∈ pushed.rtake n := by
  rw [List.rtake, List.mem_take_iff_getElem, List.mem_drop_iff_getElem]
  constructor
  · rintro ⟨j, hj, rfl⟩
    have hlen := h.len_eq
    have hjn : j < n := by omega
    -- the newest position that lives in slot `j`
    set i := j + n * ((pushed.length - 1 - j) / n) with hi
    have hle := Nat.mul_div_le (pushed.length - 1 - j) n
    have hgt := Nat.lt_mul_div_succ (pushed.length - 1 - j) (Nat.zero_lt_of_lt hjn)
    rw [Nat.mul_succ] at hgt
    have hslot : i % n = j := by rw [hi, Nat.add_mul_mod_self_left, Nat.mod_eq_of_lt hjn]
    have hread := h.slot_eq i (by omega) (by omega)
    rw [hslot] at hread
    refine ⟨i - (pushed.length - n), by omega, ?_⟩
    have hback : pushed.length - n + (i - (pushed.length - n)) = i := by omega
    simp only [hback]
    rw [Vector.getElem?_eq_getElem hjn, Option.some_inj] at hread
    rw [← hread, Vector.getElem_toList]
  · rintro ⟨k, hk, rfl⟩
    have hlen := h.len_eq
    have hread := h.slot_eq (pushed.length - n + k) (by omega) (by omega)
    obtain ⟨hslot, hread⟩ := Vector.getElem?_eq_some_iff.mp hread
    refine ⟨(pushed.length - n + k) % n, ?_, ?_⟩
    · rw [Vector.length_toList]
      rcases Nat.lt_or_ge pushed.length n with hshort | hlong
      · rw [Nat.mod_eq_of_lt (by omega)]
        omega
      · omega
    · rw [Vector.getElem_toList, hread]

end RingHolds

/-- What the memory of the last `n` has lost is followed by at least `n` others. -/
theorem le_length_of_notMem_rtake {xs ys : List α} {x : α} (h : x ∉ (xs ++ x :: ys).rtake n) :
    n ≤ ys.length := by
  by_contra hlt
  apply h
  -- fewer than `n` successors do not push it out
  rw [List.rtake, List.drop_append]
  refine List.mem_append_right _ ?_
  rw [List.length_append, List.length_cons,
    show xs.length + (ys.length + 1) - n - xs.length = 0 by omega, List.drop_zero]
  exact List.mem_cons_self

/-- The end of a list is in a memory it fits. -/
theorem mem_rtake_of_mem {xs ys : List α} {x : α} (hx : x ∈ ys) (hlen : ys.length ≤ n) :
    x ∈ (xs ++ ys).rtake n := by
  rw [List.rtake, List.drop_append]
  refine List.mem_append_right _ ?_
  rwa [List.length_append, show xs.length + ys.length - n - xs.length = 0 by omega, List.drop_zero]

/-- No element is one of the `n` before it. -/
def Spaced (n : ℕ) (xs : List α) : Prop := ∀ ys x zs, xs = ys ++ x :: zs → x ∉ ys.rtake n

namespace Spaced

variable {xs ys : List α} {x : α}

theorem nil : Spaced n ([] : List α) := fun ys x zs h => by simp at h

/-- What the memory does not hold may be pushed. -/
theorem push (h : Spaced n xs) (hx : x ∉ xs.rtake n) : Spaced n (xs ++ [x]) := by
  intro ys y zs heq
  rcases List.eq_nil_or_concat zs with rfl | ⟨zs', z, rfl⟩
  · obtain ⟨rfl, hlast⟩ := List.append_inj' heq rfl
    obtain rfl := List.singleton_inj.mp hlast
    exact hx
  · rw [List.concat_eq_append, ← List.cons_append, ← List.append_assoc] at heq
    exact h ys y zs' (List.append_inj' heq rfl).1

theorem of_append (h : Spaced n (xs ++ ys)) : Spaced n xs := by
  intro as x bs heq
  refine h as x (bs ++ ys) ?_
  rw [heq, List.append_assoc, List.cons_append]

/-- **As many successive elements as the memory holds are distinct**, and one more. -/
theorem nodup (h : Spaced n (xs ++ ys)) (hlen : ys.length ≤ n + 1) : ys.Nodup := by
  induction ys using List.reverseRecOn with
  | nil => exact List.nodup_nil
  | append_singleton ys y ih =>
    rw [List.length_append, List.length_singleton] at hlen
    rw [← List.append_assoc] at h
    rw [← List.concat_eq_append, List.nodup_concat]
    refine ⟨fun hy => ?_, ih h.of_append (by omega)⟩
    -- a repetition would be one of the `n` elements before the last
    exact h (xs ++ ys) y [] rfl (mem_rtake_of_mem hy (by omega))

end Spaced

/-- The last occurrence of an element. -/
theorem exists_last_of_mem {xs : List α} {x : α} (h : x ∈ xs) :
    ∃ ys zs, xs = ys ++ x :: zs ∧ x ∉ zs := by
  obtain ⟨as, bs, heq, hx⟩ := List.eq_append_cons_of_mem (List.mem_reverse.mpr h)
  refine ⟨bs.reverse, as.reverse, ?_, fun hmem => hx (List.mem_reverse.mp hmem)⟩
  have hrev := congrArg List.reverse heq
  rwa [List.reverse_reverse, List.reverse_append, List.reverse_cons, List.append_assoc,
    List.singleton_append] at hrev

end TetherMesh.CS
