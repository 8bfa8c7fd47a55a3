import Mathlib.Data.Finmap
import Mathlib.Data.List.ReduceOption

/-!
# A finite map in a table of slots

A table keeps the entries of a finite map in slots, some of them free. Which slot an entry
is in does not matter, only that no key has two; so a table is taken up to permutation, and
every rule is one about its first slot.

## Main definitions

* `SlotTable.Holds` — the slots in use hold the entries of a map, each key once

## Main results

* `SlotTable.Holds.fill`, `SlotTable.Holds.replace`, `SlotTable.Holds.release` — a free slot
  taken, a value replaced, a slot freed
* `SlotTable.Holds.card_keys`, `SlotTable.Holds.none_mem_iff` — how many slots are in use,
  and when one is free
-/

namespace TetherMesh.CS.SlotTable

variable {κ β : Type*} {slots slots' front back : List (Option (κ × β))}
  {m : Finmap fun _ : κ => β} {a : κ} {b b' : β}

section Holds

variable [DecidableEq κ]

/-- The slots in use hold the entries of `m`, and no key is in two of them. -/
structure Holds (slots : List (Option (κ × β))) (m : Finmap fun _ : κ => β) : Prop where
  nodup : (slots.reduceOption.map Prod.fst).Nodup
  lookup_iff : ∀ a b, m.lookup a = some b ↔ some (a, b) ∈ slots

/-! ## Maps -/

theorem insert_erase_self : (m.erase a).insert a b = m.insert a b := by
  refine Finmap.ext_lookup fun x => ?_
  by_cases hx : x = a
  · rw [hx, Finmap.lookup_insert, Finmap.lookup_insert]
  · rw [Finmap.lookup_insert_of_ne _ hx, Finmap.lookup_insert_of_ne _ hx,
      Finmap.lookup_erase_ne hx]

theorem erase_of_notMem (ha : a ∉ m) : m.erase a = m := by
  refine Finmap.ext_lookup fun x => ?_
  by_cases hx : x = a
  · rw [hx, Finmap.lookup_erase, Finmap.lookup_eq_none.mpr ha]
  · rw [Finmap.lookup_erase_ne hx]

/-! ## The first slot -/

/-- The order of the slots does not matter. -/
theorem Holds.perm (h : Holds slots m) (hperm : slots.Perm slots') : Holds slots' m where
  nodup := ((hperm.filterMap id).map Prod.fst).nodup_iff.mp h.nodup
  lookup_iff a b := (h.lookup_iff a b).trans hperm.mem_iff

theorem holds_none_cons : Holds (none :: slots) m ↔ Holds slots m := by
  constructor
  · intro h
    exact ⟨h.nodup, fun a b => (h.lookup_iff a b).trans (by simp)⟩
  · intro h
    exact ⟨h.nodup, fun a b => (h.lookup_iff a b).trans (by simp)⟩

theorem Holds.mem_iff (h : Holds slots m) : a ∈ m ↔ ∃ b, some (a, b) ∈ slots := by
  simp only [Finmap.mem_iff, h.lookup_iff]

/-- One more slot, with a new key in it. -/
theorem Holds.cons (h : Holds slots m) (ha : a ∉ m) :
    Holds (some (a, b) :: slots) (m.insert a b) where
  nodup := by
    rw [List.reduceOption_cons_of_some, List.map_cons, List.nodup_cons]
    refine ⟨?_, h.nodup⟩
    intro hmem
    obtain ⟨⟨a', b'⟩, hentry, rfl⟩ := List.mem_map.mp hmem
    exact ha (h.mem_iff.mpr ⟨b', List.reduceOption_mem_iff.mp hentry⟩)
  lookup_iff a' b' := by
    rw [List.mem_cons, Option.some_inj, Prod.mk.injEq]
    by_cases heq : a' = a
    · subst heq
      -- the key is new, so no other slot has it
      have hnone : some (a', b') ∉ slots := fun hmem => ha (h.mem_iff.mpr ⟨b', hmem⟩)
      rw [Finmap.lookup_insert, Option.some_inj]
      exact ⟨fun hb => .inl ⟨rfl, hb.symm⟩, fun hor => (hor.resolve_right hnone).2.symm⟩
    · rw [Finmap.lookup_insert_of_ne _ heq, h.lookup_iff]
      exact ⟨.inr, fun hor => hor.resolve_left fun hand => heq hand.1⟩

/-- Without its first slot a table holds the map without that key. -/
theorem Holds.of_cons (h : Holds (some (a, b) :: slots) m) : Holds slots (m.erase a) where
  nodup := by
    have hnodup := h.nodup
    rw [List.reduceOption_cons_of_some, List.map_cons] at hnodup
    exact hnodup.of_cons
  lookup_iff a' b' := by
    by_cases heq : a' = a
    · subst heq
      rw [Finmap.lookup_erase]
      refine ⟨nofun, fun hmem => absurd ?_ (List.nodup_cons.mp h.nodup).1⟩
      exact List.mem_map.mpr ⟨(a', b'), List.reduceOption_mem_iff.mpr hmem, rfl⟩
    · rw [Finmap.lookup_erase_ne heq, h.lookup_iff, List.mem_cons, Option.some_inj, Prod.mk.injEq]
      exact ⟨fun hor => hor.resolve_left fun hand => heq hand.1, .inr⟩

/-! ## Any slot -/

theorem holds_replicate_none (n : ℕ) :
    Holds (List.replicate n none) (∅ : Finmap fun _ : κ => β) where
  nodup := by rw [List.reduceOption_replicate_none]; exact List.nodup_nil
  lookup_iff a b := by
    rw [Finmap.lookup_empty]
    exact ⟨nofun, fun hmem => nomatch List.eq_of_mem_replicate hmem⟩

/-- A free slot takes a new key. -/
theorem Holds.fill (h : Holds (front ++ none :: back) m) (ha : a ∉ m) :
    Holds (front ++ some (a, b) :: back) (m.insert a b) :=
  ((holds_none_cons.mp (h.perm List.perm_middle)).cons ha).perm List.perm_middle.symm

/-- A slot in use is freed. -/
theorem Holds.release (h : Holds (front ++ some (a, b) :: back) m) :
    Holds (front ++ none :: back) (m.erase a) :=
  (holds_none_cons.mpr (h.perm List.perm_middle).of_cons).perm List.perm_middle.symm

/-- The value in a slot is replaced. -/
theorem Holds.replace (h : Holds (front ++ some (a, b) :: back) m) :
    Holds (front ++ some (a, b') :: back) (m.insert a b') := by
  -- the slot is freed, and filled again
  have hfill := h.release.fill (b := b') Finmap.notMem_erase_self
  rwa [insert_erase_self] at hfill

/-! ## How many -/

theorem Holds.card_keys (h : Holds slots m) : m.keys.card = slots.reduceOption.length := by
  have hkeys : m.keys = (slots.reduceOption.map Prod.fst).toFinset := by
    ext a
    simp [Finmap.mem_keys, h.mem_iff, List.reduceOption_mem_iff]
  rw [hkeys, List.toFinset_card_of_nodup h.nodup, List.length_map]

/-- A slot is free just when there are fewer entries than slots. -/
theorem Holds.none_mem_iff (h : Holds slots m) : none ∈ slots ↔ m.keys.card < slots.length := by
  rw [h.card_keys, List.reduceOption_length_lt_iff]

end Holds

end TetherMesh.CS.SlotTable
