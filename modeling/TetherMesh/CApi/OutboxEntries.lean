import Mathlib.Algebra.BigOperators.Fin
import Mathlib.Algebra.Order.BigOperators.Group.Finset
import TetherMesh.CApi.OutboxCalls

/-!
# What waits in an outbox

A property of the frames that wait in an outbox, each with the identifier it waits under,
survives every call if it holds of the frames that are tracked: an entry is stored as it was
handed over, handed out as it is stored, and otherwise only dropped.

## Main definitions

* `TmOutbox.Waits`, `TmOutbox.Retries` — a frame waits, under an identifier, with an attempt left
* `TmOutbox.freed` — the frames that a call no longer lets wait
* `TmOutbox.attemptsLeft` — how often the entries may still be handed out

## Main results

* `waits_init`, `waits_track`, `waits_acknowledge`, `waits_reap`, `waits_nextDue` — what waits
  after a call
* `mem_freed_acknowledge` — what an acknowledgement drops waited under its identifier
* `exists_retired_waits` — what waits can be acknowledged
* `built_nextDue` — what is handed out has waited
* `exists_handedOut` — what is due can be handed out
-/

namespace TetherMesh.CApi

open Math Protocol

namespace TmOutbox

/-- The frame waits in some slot, under this identifier. -/
def Waits (o : TmOutbox) (frame : List UInt8) (id : UInt32) : Prop :=
  ∃ i, (o.inner.slot i).state = .pending ∧ (o.inner.slot i).bytes = frame ∧
    (o.inner.slot i).id = id

/-- The frame waits in some slot, under this identifier, with an attempt left. -/
def Retries (o : TmOutbox) (frame : List UInt8) (id : UInt32) : Prop :=
  ∃ i, (o.inner.slot i).state = .pending ∧ (o.inner.slot i).bytes = frame ∧
    (o.inner.slot i).id = id ∧ (o.inner.slot i).attempts < o.inner.policy.maxAttempts

theorem Retries.waits {o : TmOutbox} {frame : List UInt8} {id : UInt32} (h : o.Retries frame id) :
    o.Waits frame id := by
  obtain ⟨i, hpend, hbytes, hid, -⟩ := h
  exact ⟨i, hpend, hbytes, hid⟩

/-- The frames that waited in `o` and whose slot is free in `o'`. -/
def freed (o o' : TmOutbox) : List (List UInt8) :=
  ((List.finRange outboxSlots).filter fun i =>
    (o.inner.slot i).state = .pending ∧ (o'.inner.slot i).state = .free).map
      fun i => (o.inner.slot i).bytes

/-- The attempts that are left, over all slots. -/
def attemptsLeft (o : TmOutbox) : ℕ :=
  ∑ i, (o.inner.policy.maxAttempts.toNat - (o.inner.slot i).attempts.toNat)

end TmOutbox

variable {o o' : TmOutbox} {frame : List UInt8} {id requestId : UInt32} {nowUs : UInt64}

/-- Nothing waits in a new outbox. -/
theorem waits_init {abi : UInt32} {maxAttempts : UInt8} {intervalUs : UInt32}
    (hcall : tmOutboxInit (some o) abi maxAttempts intervalUs = (tmOk, some o')) :
    ¬ o'.Waits frame id := by
  rw [tmOutboxInit] at hcall
  split at hcall
  · exact absurd (congrArg Prod.fst hcall) (by simp [tmEAbi, tmOk])
  · split at hcall
    · next policy _ =>
      obtain rfl := Option.some.inj (Prod.mk.inj hcall).2
      rintro ⟨i, hpend, -⟩
      rw [Outbox.slot_new] at hpend
      exact SlotState.noConfusion hpend
    · next code hrefused =>
      exact absurd (congrArg Prod.fst hcall) (resolveRetryPolicy_error hrefused).ne

/-- What waits once slot `i` holds `s`. -/
theorem waits_put {i : Fin outboxSlots} {s : Slot}
    (h : TmOutbox.Waits ⟨o.inner.put i s⟩ frame id) :
    o.Waits frame id ∨ s.state = .pending ∧ s.bytes = frame ∧ s.id = id := by
  obtain ⟨j, hpend, hbytes, hid⟩ := h
  dsimp only at hpend hbytes hid
  by_cases hji : j = i
  · subst hji
    rw [Outbox.slot_put_self] at hpend hbytes hid
    exact .inr ⟨hpend, hbytes, hid⟩
  · rw [Outbox.slot_put_of_ne _ _ hji] at hpend hbytes hid
    exact .inl ⟨j, hpend, hbytes, hid⟩

/-- Tracking lets one more frame wait, under the identifier in its header. -/
theorem waits_track {tracked : List UInt8} {code : ℤ}
    (hcall : tmOutboxTrack (some o) (some tracked) nowUs = (code, some o'))
    (h : o'.Waits frame id) :
    o.Waits frame id ∨ frame = tracked ∧ ∃ header, Header.decode tracked = some header ∧
      header.id = id := by
  rw [tmOutboxTrack] at hcall
  dsimp only at hcall
  generalize hanswer : o.inner.track tracked nowUs = answer at hcall
  obtain ⟨r, inner⟩ := answer
  obtain rfl : o' = ⟨inner⟩ := by
    cases r
    · exact (Option.some.inj (Prod.mk.inj hcall).2).symm
    · exact (Option.some.inj (Prod.mk.inj hcall).2).symm
  rcases Outbox.track_cases hanswer with ⟨_, -, rfl⟩ | ⟨i, header, hlen, -, hdec, -, rfl⟩
  · exact .inl h
  · rcases waits_put h with hold | ⟨-, hbytes, hid⟩
    · exact .inl hold
    · rw [Slot.bytes_load] at hbytes
      exact .inr ⟨hbytes.symm, header, hdec, hid⟩

/-- **A frame of an admissible length is tracked** while a slot is free. It waits there, with an
attempt left if the policy has several. -/
theorem exists_tracked_retries {header : Header} (hdec : Header.decode frame = some header)
    (hmax : frame.length ≤ maxFrame) (hfree : ∃ i, (o.inner.slot i).state = .free)
    (hseveral : 1 < o.inner.policy.maxAttempts) (nowUs : UInt64) :
    ∃ o', tmOutboxTrack (some o) (some frame) nowUs = (tmOk, some o') ∧
      o'.Retries frame header.id := by
  have hmin := Header.le_length_of_decode hdec
  generalize hanswer : o.inner.track frame nowUs = answer
  obtain ⟨r, inner⟩ := answer
  obtain rfl : r = .ok () :=
    (congrArg Prod.fst hanswer).symm.trans (Outbox.track_ok hmin hmax hfree nowUs)
  refine ⟨⟨inner⟩, ?_, ?_⟩
  · rw [tmOutboxTrack]
    dsimp only
    rw [hanswer]
  · rcases Outbox.track_cases hanswer with ⟨_, hr, -⟩ | ⟨i, header', hlen, -, hdec', -, rfl⟩
    · cases hr
    · obtain rfl := Option.some.inj (hdec.symm.trans hdec')
      refine ⟨i, ?_⟩
      dsimp only
      rw [Outbox.slot_put_self]
      exact ⟨rfl, Slot.bytes_load _ header hlen _, rfl, hseveral⟩

/-- The outbox after an acknowledgement. -/
theorem exists_acknowledge {code : ℤ}
    (hcall : tmOutboxAcknowledge (some o) requestId = (code, some o')) :
    ∃ hit, o.inner.acknowledge requestId = (hit, o'.inner) := by
  rw [tmOutboxAcknowledge] at hcall
  generalize o.inner.acknowledge requestId = answer at hcall ⊢
  obtain ⟨hit, inner⟩ := answer
  cases hcall
  exact ⟨hit, rfl⟩

/-- An acknowledgement only drops frames. -/
theorem waits_acknowledge {code : ℤ}
    (hcall : tmOutboxAcknowledge (some o) requestId = (code, some o'))
    (h : o'.Waits frame id) : o.Waits frame id := by
  obtain ⟨hit, hanswer⟩ := exists_acknowledge hcall
  obtain ⟨i, hpend, hbytes, hid⟩ := h
  obtain ⟨hbefore, hother⟩ := (Outbox.acknowledge_pending_iff hanswer i).mp hpend
  have hsame := Outbox.acknowledge_kept hanswer fun hmatch => hother hmatch.2
  rw [hsame] at hbytes hid
  exact ⟨i, hbefore, hbytes, hid⟩

/-- **What an acknowledgement drops** waited under its identifier. -/
theorem mem_freed_acknowledge {code : ℤ}
    (hcall : tmOutboxAcknowledge (some o) requestId = (code, some o'))
    (h : frame ∈ o.freed o') : o.Waits frame requestId := by
  obtain ⟨hit, hanswer⟩ := exists_acknowledge hcall
  obtain ⟨i, hi, rfl⟩ := List.mem_map.mp h
  obtain ⟨hpend, hfree⟩ := of_decide_eq_true (List.mem_filter.mp hi).2
  refine ⟨i, hpend, rfl, ?_⟩
  by_contra hother
  rw [Outbox.acknowledge_kept hanswer fun hmatch => hother hmatch.2, hpend] at hfree
  exact SlotState.noConfusion hfree

/-- **A frame that waits can be acknowledged**, and then nothing waits under its identifier. -/
theorem exists_retired_waits (h : o.Waits frame id) :
    ∃ o', tmOutboxAcknowledge (some o) id = (1, some o') ∧ frame ∈ o.freed o' ∧
      ∀ other, ¬ o'.Waits other id := by
  obtain ⟨i, hpend, rfl, hid⟩ := h
  generalize hcall : o.inner.acknowledge id = answer
  obtain ⟨hit, inner⟩ := answer
  have hhit : hit = true := (Outbox.acknowledge_hit hcall).mpr ⟨i, hpend, hid⟩
  refine ⟨⟨inner⟩, ?_, ?_, ?_⟩
  · rw [tmOutboxAcknowledge]
    dsimp only
    rw [hcall, hhit]
    rfl
  · refine List.mem_map.mpr ⟨i, List.mem_filter.mpr ⟨List.mem_finRange i, ?_⟩, rfl⟩
    rw [Outbox.acknowledge_freed hcall hpend hid]
    exact decide_eq_true ⟨hpend, rfl⟩
  · rintro other ⟨j, hwaits, -, hother⟩
    obtain ⟨-, hne⟩ := (Outbox.acknowledge_pending_iff hcall j).mp hwaits
    rw [Outbox.acknowledge_kept hcall fun hmatch => hne hmatch.2] at hother
    exact hne hother

/-- Reaping only drops a frame. -/
theorem waits_reap {outFrom outId outFrom' outId' : Ptr UInt32} {code : ℤ}
    (hcall : tmOutboxReap (some o) nowUs outFrom outId = (code, some o', outFrom', outId'))
    (h : o'.Waits frame id) : o.Waits frame id := by
  match outFrom, outId with
  | none, _ | some _, none =>
    cases hcall
    exact h
  | some _, some _ =>
    rw [tmOutboxReap] at hcall
    dsimp only at hcall
    generalize hanswer : o.inner.reap nowUs = answer at hcall
    obtain ⟨r, inner⟩ := answer
    obtain rfl : o' = ⟨inner⟩ := by
      cases r
      · exact (Option.some.inj (Prod.mk.inj (Prod.mk.inj hcall).2).1).symm
      · exact (Option.some.inj (Prod.mk.inj (Prod.mk.inj hcall).2).1).symm
    rcases Outbox.reap_cases hanswer with ⟨-, rfl⟩ | ⟨i, -, -, rfl⟩
    · exact h
    · rcases waits_put h with hold | ⟨hpend, -⟩
      · exact hold
      · exact SlotState.noConfusion hpend

section NextDue

variable {ctx : Ptr TmCtx} {airtimeUs : Micros} {out : Ptr (List UInt8)} {outAttempt : Ptr UInt8}
  {answer : NextDue}

/-- A retry leaves every frame waiting as it was. -/
theorem waits_nextDue
    (hcall : tmOutboxNextDue (some o) ctx nowUs airtimeUs out outAttempt = answer)
    (hob : answer.ob = some o') (h : o'.Waits frame id) : o.Waits frame id := by
  rcases tmOutboxNextDue_cases hcall with ⟨-, hsame, -⟩ | ⟨c, i, -, hi, -, hput, -⟩
  · obtain rfl := Option.some.inj (hsame.symm.trans hob)
    exact h
  · obtain rfl := Option.some.inj (hput.symm.trans hob)
    rcases waits_put h with hold | ⟨-, hbytes, hid⟩
    · exact hold
    · exact ⟨i, (Outbox.dueSlot_spec hi).1, hbytes, hid⟩

/-- **What is due is handed out**, into a buffer that has room for any frame, if the duty cycle
permits it. -/
theorem exists_handedOut {c : TmCtx} {i : Fin outboxSlots} (hi : o.inner.dueSlot nowUs = some i)
    (hpermit : (c.duty.wouldPermit nowUs airtimeUs).1 = true) :
    ∃ answer, tmOutboxNextDue (some o) (some c) nowUs airtimeUs
        (some (List.replicate maxFrame 0)) none = answer ∧
      answer.code = (o.inner.slot i).bytes.length ∧
      (borrow answer.out).take answer.code.toNat = (o.inner.slot i).bytes ∧
      answer.ob = some ⟨o.inner.put i (o.inner.attempted i nowUs)⟩ ∧
      answer.ctx = some { c with duty := (c.duty.wouldPermit nowUs airtimeUs).2 } := by
  have hroom : (o.inner.slot i).bytes.length ≤ (List.replicate maxFrame (0 : UInt8)).length := by
    rw [List.length_replicate]
    exact length_bytes_le _
  refine ⟨_, rfl, ?_⟩
  rw [tmOutboxNextDue]
  dsimp only
  rw [Outbox.nextDue_of_due hi hpermit]
  dsimp only
  rw [if_neg (not_lt.mpr hroom)]
  refine ⟨tryI32_length_bytes _, ?_, rfl, rfl⟩
  rw [tryI32_length_bytes, Int.toNat_natCast, borrow, Option.getD_some, overwrite_front hroom,
    List.take_left]

/-- **What is handed out** has waited. -/
theorem built_nextDue
    (hcall : tmOutboxNextDue (some o) ctx nowUs airtimeUs out outAttempt = answer)
    (hpos : 0 < answer.code) :
    ∃ id, o.Waits ((borrow answer.out).take answer.code.toNat) id := by
  rcases tmOutboxNextDue_cases hcall with ⟨hneg, -⟩ | ⟨-, i, -, hi, -⟩
  · exact absurd hpos (not_lt.mpr hneg)
  · exact ⟨_, i, (Outbox.dueSlot_spec hi).1, (take_tmOutboxNextDue hcall hpos hi).symm, rfl⟩

/-- **Handing out uses an attempt up.** -/
theorem attemptsLeft_attempted_lt {i : Fin outboxSlots} (hi : o.inner.dueSlot nowUs = some i) :
    TmOutbox.attemptsLeft ⟨o.inner.put i (o.inner.attempted i nowUs)⟩ < o.attemptsLeft := by
  have hleft := UInt8.lt_iff_toNat_lt.mp (Outbox.dueSlot_spec hi).2.1
  have hmore : (o.inner.slot i).attempts.toNat <
      ((o.inner.slot i).attempts.saturatingAdd 1).toNat := by
    have hbound := o.inner.policy.maxAttempts.toNat_lt
    rw [UInt8.toNat_saturatingAdd]
    change _ < min ((o.inner.slot i).attempts.toNat + 1) (2 ^ 8 - 1)
    omega
  refine Finset.sum_lt_sum (fun j _ => ?_) ⟨i, Finset.mem_univ i, ?_⟩
  · dsimp only
    by_cases hji : j = i
    · rw [hji, Outbox.slot_put_self]
      exact Nat.sub_le_sub_left hmore.le _
    · rw [Outbox.slot_put_of_ne _ _ hji]
      exact Nat.le_refl _
  · dsimp only
    rw [Outbox.slot_put_self]
    exact Nat.sub_lt_sub_left hleft hmore

end NextDue

end TetherMesh.CApi
