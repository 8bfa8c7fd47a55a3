import TetherMesh.CS.RingMemory

/-!
# Duplicate suppression

`PacketHistory N` remembers which packets a node has already handled, keyed on
`(from, id)`. It is a ring of `N` entries with a cursor; only the first `len`
entries are meaningful, so `(0, 0)` is an ordinary pair.

## Main definitions

* `PacketHistory` — entries, cursor and length
* `PacketHistory.contains`, `PacketHistory.observe`, `PacketHistory.clear`
* `PacketHistory.Remembers` — the history holds the tail of the recorded pairs

## Main results

* `PacketHistory.Remembers.contains_iff` — remembered means among the last `N`
* `PacketHistory.Remembers.observe` — a new pair is appended, a duplicate changes
  nothing
-/

namespace TetherMesh.Protocol

open CS

/-- A packet's key: the originating node and the packet identifier. -/
abbrev PacketKey := UInt32 × UInt32

/-- Whether a packet had been seen before. -/
inductive Seen
  /-- Not within the remembered window; now recorded. -/
  | new
  | duplicate
  deriving DecidableEq, Repr

/-- A bounded memory of recently seen packets, evicting by age of first sighting. -/
structure PacketHistory (N : ℕ) where
  entries : Vector PacketKey N
  cursor : ℕ
  len : ℕ
  deriving DecidableEq, Repr

namespace PacketHistory

variable {N : ℕ}

/-- An empty history. -/
def empty : PacketHistory N := ⟨Vector.replicate N (0, 0), 0, 0⟩

/-- Whether this packet is remembered, without recording it. -/
def contains (h : PacketHistory N) (fromNode id : UInt32) : Bool :=
  (h.entries.toList.take h.len).any (· == (fromNode, id))

/-- Record a packet, reporting whether it had been seen. A duplicate is not
recorded again. -/
def observe (h : PacketHistory N) (fromNode id : UInt32) : Seen × PacketHistory N :=
  if h.contains fromNode id then
    (.duplicate, h)
  else
    (.new,
      { entries := h.entries.setIfInBounds h.cursor (fromNode, id)
        cursor := if h.cursor + 1 < N then h.cursor + 1 else 0
        len := if h.len < N then h.len + 1 else h.len })

/-- Forget everything. The entries stay in the array, beyond `len`. -/
def clear (h : PacketHistory N) : PacketHistory N := { h with cursor := 0, len := 0 }

/-- `h` remembers the tail of `recorded`, the pairs answered `New` so far. -/
def Remembers (h : PacketHistory N) (recorded : List PacketKey) : Prop :=
  RingHolds h.entries h.cursor h.len recorded

theorem remembers_empty : (empty : PacketHistory N).Remembers [] := ringHolds_nil _

theorem remembers_clear (h : PacketHistory N) : h.clear.Remembers [] := ringHolds_nil _

namespace Remembers

variable {h h' : PacketHistory N} {recorded : List PacketKey} {fromNode id : UInt32} {seen : Seen}

/-- A pair is remembered exactly when it is one of the last `N` recorded. -/
theorem contains_iff (hr : h.Remembers recorded) :
    h.contains fromNode id = true ↔ (fromNode, id) ∈ recorded.rtake N := by
  rw [← hr.mem_iff, contains, List.any_eq_true]
  constructor
  · rintro ⟨entry, hmem, heq⟩
    exact eq_of_beq heq ▸ hmem
  · intro hmem
    exact ⟨_, hmem, beq_self_eq_true _⟩

/-- **Inversion of `observe`.** A remembered pair changes nothing; any other pair
is appended to what has been recorded. -/
theorem observe (hr : h.Remembers recorded) (hobs : h.observe fromNode id = (seen, h')) :
    (seen = .duplicate ∧ h' = h ∧ (fromNode, id) ∈ recorded.rtake N) ∨
      (seen = .new ∧ h'.Remembers (recorded ++ [(fromNode, id)]) ∧
        (fromNode, id) ∉ recorded.rtake N) := by
  rw [← hr.contains_iff]
  unfold PacketHistory.observe at hobs
  by_cases hseen : h.contains fromNode id = true
  · rw [if_pos hseen] at hobs
    obtain ⟨rfl, rfl⟩ := Prod.mk.inj hobs
    exact .inl ⟨rfl, rfl, hseen⟩
  · rw [if_neg hseen] at hobs
    obtain ⟨rfl, rfl⟩ := Prod.mk.inj hobs
    exact .inr ⟨rfl, hr.push _, hseen⟩

/-- A pair that was new is the last one recorded. -/
theorem observe_new (hr : h.Remembers recorded) (hnew : h.contains fromNode id = false) :
    (h.observe fromNode id).2.Remembers (recorded ++ [(fromNode, id)]) := by
  rcases hr.observe (Prod.mk.eta (p := h.observe fromNode id)).symm with
    ⟨-, -, hmem⟩ | ⟨-, hpushed, -⟩
  · rw [← hr.contains_iff, hnew] at hmem
    cases hmem
  · exact hpushed

end Remembers

end PacketHistory

end TetherMesh.Protocol
