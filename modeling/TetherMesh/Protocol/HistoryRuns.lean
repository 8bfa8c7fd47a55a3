import TetherMesh.CS.LabelledRun
import TetherMesh.Protocol.History

/-!
# The history is a memory of the last `N` new packets

Over any run of `observe` and `clear` the ring holds the last `N` of the packets that
were answered as new since it was cleared. Which packets those are decides every answer,
so packets can be renamed without changing one, and no packet is a special case.

## Main definitions

* `HistoryCall`, `PacketHistory.Step` — a call with its answer, and what it does
* `newSinceClear` — the packets answered as new since the last `clear`

## Main results

* `PacketHistory.Remembers.nodup_remembered` — the remembered packets are distinct
* `PacketHistory.run_rename` — a run under other names
* `PacketHistory.run_remembers_last`
-/

namespace TetherMesh.Protocol

open CS

/-- A call, with its answer. -/
inductive HistoryCall
  /-- `observe` and what it reported. -/
  | observe (fromNode id : UInt32) (seen : Seen)
  | clear
  deriving DecidableEq, Repr

namespace HistoryCall

/-- What a call adds to the packets answered as new. -/
def record (recorded : List PacketKey) : HistoryCall → List PacketKey
  | observe fromNode id .new => recorded ++ [(fromNode, id)]
  | observe _ _ .duplicate => recorded
  | clear => []

/-- The same call about another packet. -/
def rename (σ : PacketKey → PacketKey) : HistoryCall → HistoryCall
  | observe fromNode id seen => observe (σ (fromNode, id)).1 (σ (fromNode, id)).2 seen
  | clear => clear

end HistoryCall

/-- The packets answered as new since the last `clear`, in order. -/
def newSinceClear (calls : List HistoryCall) : List PacketKey := calls.foldl HistoryCall.record []

@[simp] theorem newSinceClear_snoc (calls : List HistoryCall) (call : HistoryCall) :
    newSinceClear (calls ++ [call]) = call.record (newSinceClear calls) := List.foldl_concat ..

namespace PacketHistory

variable {N : ℕ} {h h' g : PacketHistory N} {recorded : List PacketKey} {calls : List HistoryCall}
  {fromNode id : UInt32} {seen : Seen} {σ : PacketKey → PacketKey}

/-- One call. -/
inductive Step : PacketHistory N → HistoryCall → PacketHistory N → Prop
  /-- `observe`, answering `seen`. -/
  | observe {h h' : PacketHistory N} {fromNode id : UInt32} {seen : Seen}
    (hobs : h.observe fromNode id = (seen, h')) : Step h (.observe fromNode id seen) h'
  | clear {h : PacketHistory N} : Step h .clear h.clear

/-- What a history remembers of a run: its new packets, none of them one of the `N` before. -/
structure RunInv (h : PacketHistory N) (recorded : List PacketKey) : Prop where
  /-- The ring holds the tail of them. -/
  remembers : h.Remembers recorded
  /-- A packet is new only when it is not remembered. -/
  spaced : Spaced N recorded

theorem RunInv.step {call : HistoryCall} (inv : RunInv h recorded) (hstep : Step h call h') :
    RunInv h' (call.record recorded) := by
  cases hstep with
  | clear => exact ⟨remembers_clear h, Spaced.nil⟩
  | observe hobs =>
    rcases inv.remembers.observe hobs with ⟨rfl, rfl, -⟩ | ⟨rfl, hnew, hnot⟩
    · exact inv
    · exact ⟨hnew, inv.spaced.push hnot⟩

theorem runInv_of_run (run : Run Step (empty : PacketHistory N) calls h) :
    RunInv h (newSinceClear calls) := by
  induction run with
  | nil => exact ⟨remembers_empty, Spaced.nil⟩
  | snoc _ hstep ih =>
    rw [newSinceClear_snoc]
    exact ih.step hstep

/-! ## The occupied slots -/

/-- The entries that count. -/
def remembered (h : PacketHistory N) : List PacketKey := h.entries.toList.take h.len

theorem Remembers.length_remembered (hr : h.Remembers recorded) :
    h.remembered.length = min N recorded.length := by
  rw [remembered, List.length_take, Vector.length_toList, hr.len_eq]
  omega

/-- **The remembered packets are distinct**, as they are the last `N` of the new ones in
some order. -/
theorem RunInv.nodup_remembered (inv : RunInv h recorded) : h.remembered.Nodup := by
  have hlast : (recorded.rtake N).Nodup := by
    have hsplit : recorded.take (recorded.length - N) ++ recorded.rtake N = recorded :=
      List.take_append_drop _ _
    refine Spaced.nodup (n := N) (hsplit.symm ▸ inv.spaced) ?_
    rw [List.rtake, List.length_drop]
    omega
  have hlen : (recorded.rtake N).length = h.remembered.length := by
    rw [inv.remembers.length_remembered, List.rtake, List.length_drop]
    omega
  -- distinct packets, all in a list no longer than they are
  have hsub : recorded.rtake N ⊆ h.remembered := fun k hk => inv.remembers.mem_iff.mpr hk
  have hperm := (List.subperm_of_subset hlast hsub).perm_of_length_le hlen.ge
  exact hperm.nodup_iff.mp hlast

/-! ## Renaming packets -/

theorem observe_seen (h : PacketHistory N) (fromNode id : UInt32) :
    (h.observe fromNode id).1 = if h.contains fromNode id then .duplicate else .new := by
  rw [observe]
  split_ifs <;> rfl

/-- Whether a packet is remembered does not depend on what it is called. -/
theorem contains_rename (hσ : Function.Injective σ) (hr : h.Remembers recorded)
    (hg : g.Remembers (recorded.map σ)) (fromNode id : UInt32) :
    g.contains (σ (fromNode, id)).1 (σ (fromNode, id)).2 = h.contains fromNode id := by
  rw [Bool.eq_iff_iff, hg.contains_iff, hr.contains_iff, Prod.mk.eta, List.rtake, List.length_map,
    ← List.map_drop, List.mem_map_of_injective hσ, ← List.rtake]

/-- One call under another name has the same answer, and does the same under that name. -/
theorem step_rename {call : HistoryCall} (hσ : Function.Injective σ) (hr : h.Remembers recorded)
    (hg : g.Remembers (recorded.map σ)) (hstep : Step h call h') :
    ∃ g', Step g (call.rename σ) g' ∧ g'.Remembers ((call.record recorded).map σ) := by
  cases hstep with
  | clear => exact ⟨g.clear, .clear, remembers_clear g⟩
  | @observe _ fromNode id seen hobs =>
    have hseen : (g.observe (σ (fromNode, id)).1 (σ (fromNode, id)).2).1 = seen := by
      rw [observe_seen, contains_rename hσ hr hg, ← observe_seen, hobs]
    -- the same answer, so the same packets are recorded
    have hobs' : g.observe (σ (fromNode, id)).1 (σ (fromNode, id)).2 = (seen, _) :=
      Prod.ext hseen rfl
    refine ⟨_, .observe hobs', ?_⟩
    rcases hg.observe hobs' with ⟨rfl, hsame, -⟩ | ⟨rfl, hnew, -⟩
    · rw [hsame]
      exact hg
    · rw [HistoryCall.record, List.map_append, List.map_singleton]
      exact hnew

/-- **A run under other names** has the same answers. -/
theorem run_rename (hσ : Function.Injective σ) (run : Run Step (empty : PacketHistory N) calls h) :
    ∃ g : PacketHistory N, Run Step empty (calls.map (HistoryCall.rename σ)) g ∧
      g.Remembers ((newSinceClear calls).map σ) := by
  induction run with
  | nil => exact ⟨empty, .nil, remembers_empty⟩
  | snoc run hstep ih =>
    obtain ⟨g, hrun, hg⟩ := ih
    obtain ⟨g', hstep', hg'⟩ := step_rename hσ (runInv_of_run run).remembers hg hstep
    rw [List.map_append, List.map_singleton, newSinceClear_snoc]
    exact ⟨g', hrun.snoc hstep', hg'⟩

/-! ## What a run remembers -/

/-- **The history is exactly a memory of the last `N` new packets.** After any run of calls
it contains the last `N` packets that were answered as new since it was cleared, each once;
a packet is answered as a duplicate exactly when it is contained, and then nothing changes;
and a run about other packets that differ where these differ has the same answers. -/
theorem run_remembers_last (run : Run Step (empty : PacketHistory N) calls h) :
    (∀ fromNode id, h.contains fromNode id = true ↔
      (fromNode, id) ∈ (newSinceClear calls).rtake N) ∧
      (∀ fromNode id seen h', h.observe fromNode id = (seen, h') →
        (seen = .duplicate ↔ h.contains fromNode id = true) ∧ (seen = .duplicate → h' = h)) ∧
      h.remembered.Nodup ∧
      h.len = min N (newSinceClear calls).length ∧
      ∀ σ : PacketKey → PacketKey, Function.Injective σ →
        ∃ g : PacketHistory N, Run Step empty (calls.map (HistoryCall.rename σ)) g := by
  have inv := runInv_of_run run
  refine ⟨fun _ _ => inv.remembers.contains_iff, ?_, inv.nodup_remembered, inv.remembers.len_eq, ?_⟩
  · intro fromNode id seen h' hobs
    rw [inv.remembers.contains_iff]
    rcases inv.remembers.observe hobs with ⟨rfl, rfl, hmem⟩ | ⟨rfl, -, hnot⟩
    · exact ⟨⟨fun _ => hmem, fun _ => rfl⟩, fun _ => rfl⟩
    · refine ⟨⟨fun hdup => ?_, fun hmem => absurd hmem hnot⟩, fun hdup => ?_⟩
      · cases hdup
      · cases hdup
  · intro σ hσ
    obtain ⟨g, hrun, -⟩ := run_rename hσ run
    exact ⟨g, hrun⟩

/-- A history of one entry that has seen the packet `(0, 0)` twice and then another: the
first is forgotten. -/
theorem run_remembers_last_zero :
    ∃ h : PacketHistory 1, Run Step empty
        [.observe 0 0 .new, .observe 0 0 .duplicate, .observe 7 1 .new] h ∧
      ¬ h.contains 0 0 = true := by
  have run : Run Step (empty : PacketHistory 1)
      [.observe 0 0 .new, .observe 0 0 .duplicate, .observe 7 1 .new] ⟨#v[(7, 1)], 0, 1⟩ :=
    .cons (.observe rfl) (.cons (.observe rfl) (.single (.observe rfl)))
  refine ⟨_, run, ?_⟩
  rw [(run_remembers_last run).1 0 0]
  decide

end PacketHistory

end TetherMesh.Protocol
