import TetherMesh.Protocol.OutboxRuns

/-!
# After an acknowledgement

Once an identifier has been acknowledged no slot waits under it, and no call brings
it back but a `track` of a frame that bears it. Until then it is neither handed out
nor reported as given up.

## Main definitions

* `Bears` — the identifier is the one in the frame's header
* `Ledger.Lacks` — no slot waits under the identifier
* `Ledger.Quiet` — nothing is heard of the identifier until it is tracked again

## Main results

* `Ledger.Lacks.step` — every call but a `track` of the identifier keeps it away
* `Ledger.quiet_of_acknowledge` — an acknowledged identifier is quiet
-/

namespace TetherMesh.Protocol

open CS

/-- The header of the frame carries the identifier. -/
def Bears (frame : List UInt8) (id : UInt32) : Prop :=
  ∃ header, Header.decode frame = some header ∧ header.id = id

namespace OutboxEvent

/-- A frame with the identifier was accepted. -/
def Tracks (id : UInt32) : OutboxEvent → Prop
  | .tracked _ frame => Bears frame id
  | _ => False

/-- An entry with the identifier was handed out, or reported as given up. -/
def TellsOf (id : UInt32) : OutboxEvent → Prop
  | .handedOut _ frame _ => Bears frame id
  | .reaped _ _ reported => reported = id
  | _ => False

end OutboxEvent

namespace Ledger

variable {N : ℕ} {policy : RetryPolicy} {events more : List OutboxEvent} {l l' : Ledger N}
  {e : OutboxEvent} {id : UInt32} {o' : Outbox N} {hit : Bool}

/-- No slot waits under the identifier. -/
def Lacks (id : UInt32) (l : Ledger N) : Prop := ∀ i, l.Pending i → (l.outbox.slot i).id ≠ id

/-- Whatever calls follow, nothing is heard of the identifier until it is tracked again. -/
def Quiet (id : UInt32) (l : Ledger N) : Prop :=
  ∀ more l', Run Step l more l' → (∀ e ∈ more, ¬ e.Tracks id) → ∀ e ∈ more, ¬ e.TellsOf id

/-- The frame of a waiting slot bears the identifier of the slot, and no other. -/
theorem Inv.bears_iff (inv : Inv policy events l) {i : Fin N} (hpend : l.Pending i) :
    Bears (l.outbox.slot i).bytes id ↔ (l.outbox.slot i).id = id := by
  obtain ⟨header, m, hdec, -, hid, -⟩ := inv.slot i hpend
  rw [hid]
  constructor
  · rintro ⟨header', hdec', hbears⟩
    rw [hdec, Option.some_inj] at hdec'
    exact hdec' ▸ hbears
  · exact fun hheader => ⟨header, hdec, hheader⟩

/-- A frame of an admissible length is accepted while a slot is free, and waits there. -/
theorem exists_track {frame : List UInt8} (hmin : headerLen ≤ frame.length)
    (hmax : frame.length ≤ maxFrame) (hfree : ∃ i : Fin N, (l.outbox.slot i).state = .free) :
    ∃ l' i, Step l (.tracked l.accepted frame) l' ∧ l'.Pending i ∧
      (l'.outbox.slot i).bytes = frame := by
  have hok := Outbox.track_ok hmin hmax hfree 0
  have hcall := Prod.eta (l.outbox.track frame 0)
  rw [hok] at hcall
  rcases Outbox.track_cases hcall.symm with ⟨_, hr, -⟩ | ⟨i, header, hlen, -, -, hi, ho'⟩
  · cases hr
  refine ⟨_, i, .track hcall.symm hi, ?_⟩
  rw [Pending, ho', Outbox.slot_put_self]
  exact ⟨rfl, Slot.bytes_load _ header hlen _⟩

/-- Replacing one slot keeps the identifier away if it is not that of the new entry. -/
theorem Lacks.put (hlacks : Lacks id l) {i : Fin N} {s : Slot} {ticket : Fin N → ℕ} {accepted : ℕ}
    (hs : s.state = .pending → s.id ≠ id) :
    Lacks id ⟨l.outbox.put i s, ticket, accepted⟩ := by
  intro j hj
  dsimp only
  rcases Outbox.put_pending_iff.mp hj with ⟨rfl, hpend⟩ | ⟨hji, hpend⟩
  · rw [Outbox.slot_put_self]
    exact hs hpend
  · rw [Outbox.slot_put_of_ne _ _ hji]
    exact hlacks j hpend

/-- **Step lemma.** A call that does not track the identifier keeps it away, and does not
tell of it. -/
theorem Lacks.step (hlacks : Lacks id l) (inv : Inv policy events l) (hstep : Step l e l')
    (hnew : ¬ e.Tracks id) : Lacks id l' ∧ ¬ e.TellsOf id := by
  cases hstep with
  | track hcall hfree =>
    obtain ⟨header, hlen, hdec, rfl⟩ := Outbox.track_accepted hcall hfree
    exact ⟨hlacks.put fun _ hid => hnew ⟨header, hdec, hid⟩, not_false⟩
  | refuse hcall =>
    obtain rfl := Outbox.track_error hcall
    exact ⟨hlacks, not_false⟩
  | acknowledge hcall =>
    refine ⟨fun i hpend => ?_, not_false⟩
    -- what still waits has waited before, with the slot untouched
    obtain ⟨hbefore, hother⟩ := (Outbox.acknowledge_pending_iff hcall i).mp hpend
    rw [Outbox.acknowledge_kept hcall fun hmatch => hother hmatch.2]
    exact hlacks i hbefore
  | reap hcall hi =>
    obtain ⟨hr, rfl⟩ := Outbox.reap_some hcall hi
    obtain ⟨rfl, rfl⟩ := Prod.mk.inj hr
    have hpend := (Outbox.reapSlot_spec hi).1
    exact ⟨hlacks.put fun hfree => SlotState.noConfusion hfree, hlacks _ hpend⟩
  | reapNone hcall =>
    obtain rfl := Outbox.reap_none hcall
    exact ⟨hlacks, not_false⟩
  | nextDue hcall hi =>
    obtain ⟨rfl, rfl⟩ := Outbox.nextDue_some hcall hi
    have hpend := (Outbox.dueSlot_spec hi).1
    exact ⟨hlacks.put fun _ => hlacks _ hpend,
      fun htold => hlacks _ hpend ((inv.bears_iff hpend).mp htold)⟩
  | nextDueNone hcall =>
    obtain rfl := Outbox.nextDue_none hcall
    exact ⟨hlacks, not_false⟩

/-- **Run lemma.** An identifier that is away stays quiet. -/
theorem Lacks.quiet (hlacks : Lacks id l) (inv : Inv policy events l) : Quiet id l := by
  intro more l' run hnew
  suffices h : Inv policy (events ++ more) l' ∧ Lacks id l' ∧ ∀ e ∈ more, ¬ e.TellsOf id from h.2.2
  -- along the run, each slot keeps to its frame and none waits under the identifier
  induction run with
  | nil =>
    rw [List.append_nil]
    exact ⟨inv, hlacks, fun e he => absurd he List.not_mem_nil⟩
  | snoc _ hstep ih =>
    rw [List.forall_mem_append] at hnew
    obtain ⟨hinv, haway, htold⟩ := ih hnew.1
    obtain ⟨haway', hsilent⟩ := haway.step hinv hstep (hnew.2 _ (List.mem_singleton_self _))
    rw [← List.append_assoc, List.forall_mem_append, List.forall_mem_singleton]
    exact ⟨hinv.step hstep, haway', htold, hsilent⟩

/-- **An acknowledged identifier is quiet.** -/
theorem quiet_of_acknowledge (inv : Inv policy events l)
    (hcall : l.outbox.acknowledge id = (hit, o')) : Quiet id { l with outbox := o' } := by
  refine Lacks.quiet (fun i hpend => ?_) (inv.step (.acknowledge hcall))
  obtain ⟨-, hother⟩ := (Outbox.acknowledge_pending_iff hcall i).mp hpend
  rw [Outbox.acknowledge_kept hcall fun hmatch => hother hmatch.2]
  exact hother

end Ledger

end TetherMesh.Protocol
