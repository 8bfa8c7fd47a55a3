import TetherMesh.CS.Drain
import TetherMesh.Protocol.DutyRuns
import TetherMesh.Protocol.Outbox

/-!
# Draining the outbox

`reap` and `nextDue` tell of one entry a call and are meant to be called until they tell of
none. Each starts again from the first slot, so what they tell of must not qualify again at the
same time: `reap` frees the slot, and `nextDue` puts its deadline past the clock, unless the
clock has nothing past it or the interval is empty.

## Main definitions

* `Outbox.drainReap`, `Outbox.drainDue` — the two loops

## Main results

* `Outbox.drainReap_eq`, `Outbox.drainDue_eq`, `Outbox.drained_once` — they end, and tell of
  each entry once
-/

namespace TetherMesh.Protocol

open CS

namespace Slot

/-- The slot waits without an attempt left, and its last interval has passed. -/
def isSpent (policy : RetryPolicy) (nowUs : UInt64) (s : Slot) : Bool :=
  s.state = .pending ∧ policy.maxAttempts ≤ s.attempts ∧ s.dueUs ≤ nowUs

/-- The slot waits with an attempt left, and is due. -/
def isDue (policy : RetryPolicy) (nowUs : UInt64) (s : Slot) : Bool :=
  s.state = .pending ∧ s.attempts < policy.maxAttempts ∧ s.dueUs ≤ nowUs

def freed (s : Slot) : Slot := { s with state := .free }

/-- The slot after one more attempt. -/
def retried (policy : RetryPolicy) (nowUs : UInt64) (s : Slot) : Slot :=
  { s with
    attempts := s.attempts.saturatingAdd 1
    dueUs := nowUs.saturatingAdd policy.intervalUs.toUInt64 }

variable {policy : RetryPolicy} {nowUs : UInt64} {s : Slot}

theorem isSpent_freed : s.freed.isSpent policy nowUs = false :=
  decide_eq_false fun h => SlotState.noConfusion h.1

/-- **The next deadline is past the clock**, if there is anything past it. -/
theorem isDue_retried (hnow : nowUs.toNat < 2 ^ 64 - 1) (hinterval : 0 < policy.intervalUs) :
    (s.retried policy nowUs).isDue policy nowUs = false := by
  refine decide_eq_false fun h => ?_
  have hdue := UInt64.le_iff_toNat_le.mp h.2.2
  have hpos := UInt32.lt_iff_toNat_lt.mp hinterval
  rw [UInt32.toNat_zero] at hpos
  change (nowUs.saturatingAdd policy.intervalUs.toUInt64).toNat ≤ nowUs.toNat at hdue
  rw [UInt64.toNat_saturatingAdd, UInt32.toNat_toUInt64] at hdue
  omega

end Slot

namespace Outbox

variable {N : ℕ} {o : Outbox N} {nowUs : UInt64} {airtimeUs : Micros} {duty : DutyCycle}

/-- `reap`, until it tells of nothing, in so many calls. -/
def drainReap (o : Outbox N) (nowUs : UInt64) (calls : ℕ) :
    Option (List (UInt32 × UInt32) × Outbox N) :=
  drain (fun o => o.reap nowUs) calls o

/-- `nextDue`, until it hands out nothing, in so many calls. -/
def drainDue (o : Outbox N) (nowUs : UInt64) (airtimeUs : Micros) (duty : DutyCycle)
    (calls : ℕ) : Option (List Due × Outbox N × DutyCycle) :=
  drain (fun s => s.1.nextDue nowUs airtimeUs s.2) calls (o, duty)

/-- The slots that satisfy a condition, in order. -/
def slotsWith (o : Outbox N) (p : Slot → Bool) : List (Fin N) :=
  (List.finRange N).filter fun i => p (o.slot i)

theorem length_slotsWith_lt (o : Outbox N) (p : Slot → Bool) : (o.slotsWith p).length < N + 1 := by
  have hle := List.length_filter_le (fun i => p (o.slot i)) (List.finRange N)
  rw [List.length_finRange] at hle
  exact Nat.lt_succ_of_le hle

theorem nodup_slotsWith (o : Outbox N) (p : Slot → Bool) : (o.slotsWith p).Nodup :=
  (List.nodup_finRange N).filter _

theorem mem_slotsWith {p : Slot → Bool} {i : Fin N} : i ∈ o.slotsWith p ↔ p (o.slot i) = true :=
  List.mem_filter.trans (and_iff_right (List.mem_finRange i))

/-- One call of `reap` scans for a spent slot and frees it. -/
theorem scans_reap (policy : RetryPolicy) (nowUs : UInt64) :
    Scans (fun o : Outbox N => o.reap nowUs) (fun o => o.policy = policy) slot (List.finRange N)
      (Slot.isSpent policy nowUs) (fun s => (s.fromNode, s.id)) Slot.freed where
  none_eq {o} hpolicy hnone := by
    have hscan : o.reapSlot nowUs = none := by
      rw [reapSlot, List.find?_eq_none]
      intro i hi
      rw [hpolicy]
      exact Bool.eq_false_iff.mp (hnone i hi)
    exact ⟨o, by rw [reap, hscan], hpolicy, rfl⟩
  some_eq {o i} hpolicy hfind := by
    have hscan : o.reapSlot nowUs = some i := by
      rw [reapSlot, hpolicy]
      exact hfind
    refine ⟨o.put i (o.slot i).freed, by rw [reap, hscan]; rfl, hpolicy, slot_put_self .., ?_⟩
    exact fun j hj => slot_put_of_ne _ _ hj
  disqualifies _ := Slot.isSpent_freed

/-- One call of `nextDue` scans for a slot that is due and takes an attempt, when the duty
cycle permits it: the window has rolled then, and does not roll again. -/
theorem scans_nextDue {policy : RetryPolicy} (hnow : nowUs.toNat < 2 ^ 64 - 1)
    (hinterval : 0 < policy.intervalUs) (airtimeUs : Micros) :
    Scans (fun s : Outbox N × DutyCycle => s.1.nextDue nowUs airtimeUs s.2)
      (fun s => s.1.policy = policy ∧ (s.2.wouldPermit nowUs airtimeUs).1 = true)
      (fun s => s.1.slot) (List.finRange N) (Slot.isDue policy nowUs)
      (fun s => ⟨s.bytes, s.attempts.saturatingAdd 1⟩) (Slot.retried policy nowUs) where
  none_eq {s} hinv hnone := by
    have hscan : s.1.dueSlot nowUs = none := by
      rw [dueSlot, List.find?_eq_none]
      intro i hi
      rw [hinv.1]
      exact Bool.eq_false_iff.mp (hnone i hi)
    exact ⟨s, by rw [nextDue, hscan], hinv, rfl⟩
  some_eq {s i} hinv hfind := by
    obtain ⟨o, duty⟩ := s
    obtain ⟨rfl, hpermit⟩ := hinv
    have hscan : o.dueSlot nowUs = some i := hfind
    have hagain : ((duty.roll nowUs).wouldPermit nowUs airtimeUs).1 = true := by
      rw [DutyCycle.wouldPermit, DutyCycle.roll_self]
      exact hpermit
    exact ⟨(o.put i ((o.slot i).retried o.policy nowUs), duty.roll nowUs),
      nextDue_of_due hscan hpermit, ⟨rfl, hagain⟩, slot_put_self ..,
      fun j hj => slot_put_of_ne _ _ hj⟩
  disqualifies _ := Slot.isDue_retried hnow hinterval

/-- **Reaping misses nothing and repeats nothing.** -/
theorem drainReap_eq (o : Outbox N) (nowUs : UInt64) :
    ∃ o', o.drainReap nowUs (N + 1) =
        some ((o.slotsWith (Slot.isSpent o.policy nowUs)).map fun i =>
          ((o.slot i).fromNode, (o.slot i).id), o') ∧
      o'.policy = o.policy ∧ ∀ i, o'.slot i =
        if (o.slot i).isSpent o.policy nowUs then (o.slot i).freed else o.slot i := by
  obtain ⟨o', hdrain, hpolicy, hslots⟩ := (scans_reap o.policy nowUs).drain_eq
    (List.nodup_finRange N) rfl (o.length_slotsWith_lt _)
  exact ⟨o', hdrain, hpolicy, fun i => hslots i (List.mem_finRange i)⟩

/-- **So does handing out**, with a clock and an interval that leave room for a deadline, and
a duty cycle that permits the airtime. -/
theorem drainDue_eq (o : Outbox N) (hnow : nowUs.toNat < 2 ^ 64 - 1)
    (hinterval : 0 < o.policy.intervalUs) (hpermit : (duty.wouldPermit nowUs airtimeUs).1 = true) :
    ∃ o' duty', o.drainDue nowUs airtimeUs duty (N + 1) =
        some ((o.slotsWith (Slot.isDue o.policy nowUs)).map fun i =>
          ⟨(o.slot i).bytes, (o.slot i).attempts.saturatingAdd 1⟩, o', duty') ∧
      o'.policy = o.policy ∧ ∀ i, o'.slot i =
        if (o.slot i).isDue o.policy nowUs then (o.slot i).retried o.policy nowUs
        else o.slot i := by
  obtain ⟨⟨o', duty'⟩, hdrain, hinv, hslots⟩ := (scans_nextDue hnow hinterval airtimeUs).drain_eq
    (s := (o, duty)) (List.nodup_finRange N) ⟨rfl, hpermit⟩ (o.length_slotsWith_lt _)
  exact ⟨o', duty', hdrain, hinv.1, fun i => hslots i (List.mem_finRange i)⟩

/-- **Draining misses nothing and repeats nothing.** At one time, and whatever the slots hold,
`reap` tells of no entry after at most one call a slot and one more, having told once of each
entry that is spent and changed no other. So does `nextDue` of each that is due, with a clock
and an interval that leave room for a deadline and a duty cycle that permits the airtime. -/
theorem drained_once (o : Outbox N) (nowUs : UInt64) :
    (∃ (is : List (Fin N)) (o' : Outbox N),
      is.Nodup ∧ (∀ i, i ∈ is ↔ (o.slot i).state = .pending ∧
        o.policy.maxAttempts ≤ (o.slot i).attempts ∧ (o.slot i).dueUs ≤ nowUs) ∧
      o.drainReap nowUs (N + 1) =
        some (is.map fun i => ((o.slot i).fromNode, (o.slot i).id), o') ∧
      o'.policy = o.policy ∧ (∀ i ∈ is, o'.slot i = (o.slot i).freed) ∧
      ∀ i, i ∉ is → o'.slot i = o.slot i) ∧
    (nowUs.toNat < 2 ^ 64 - 1 → 0 < o.policy.intervalUs →
      ∀ (airtimeUs : Micros) (duty : DutyCycle), (duty.wouldPermit nowUs airtimeUs).1 = true →
        ∃ (is : List (Fin N)) (o' : Outbox N) (duty' : DutyCycle),
          is.Nodup ∧ (∀ i, i ∈ is ↔ (o.slot i).state = .pending ∧
            (o.slot i).attempts < o.policy.maxAttempts ∧ (o.slot i).dueUs ≤ nowUs) ∧
          o.drainDue nowUs airtimeUs duty (N + 1) = some (is.map fun i =>
            ⟨(o.slot i).bytes, (o.slot i).attempts.saturatingAdd 1⟩, o', duty') ∧
          o'.policy = o.policy ∧ (∀ i ∈ is, o'.slot i = (o.slot i).retried o.policy nowUs) ∧
          ∀ i, i ∉ is → o'.slot i = o.slot i) := by
  refine ⟨?_, fun hnow hinterval airtimeUs duty hpermit => ?_⟩
  · obtain ⟨o', hdrain, hpolicy, hslots⟩ := o.drainReap_eq nowUs
    refine ⟨_, o', o.nodup_slotsWith _, fun i => mem_slotsWith.trans decide_eq_true_iff, hdrain,
      hpolicy, fun i hi => ?_, fun i hi => ?_⟩
    · rw [hslots i, if_pos (mem_slotsWith.mp hi)]
    · rw [hslots i, if_neg (mem_slotsWith.not.mp hi)]
  · obtain ⟨o', duty', hdrain, hpolicy, hslots⟩ := o.drainDue_eq hnow hinterval hpermit
    refine ⟨_, o', duty', o.nodup_slotsWith _, fun i => mem_slotsWith.trans decide_eq_true_iff,
      hdrain, hpolicy, fun i hi => ?_, fun i hi => ?_⟩
    · rw [hslots i, if_pos (mem_slotsWith.mp hi)]
    · rw [hslots i, if_neg (mem_slotsWith.not.mp hi)]

end Outbox

end TetherMesh.Protocol
