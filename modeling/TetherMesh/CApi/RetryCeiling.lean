import Mathlib.Data.List.Chain
import TetherMesh.CApi.Observing

/-!
# The retry ceiling

Three attempts seven seconds apart are what stock nodes were measured to make, and no
policy the interface accepts lets a caller make more, or make them closer together. The
clock is the caller's, and may jump as it likes: what bounds the attempts is the time at
which the next one is due, kept in the slot of the frame. What goes out is the frame that
was accepted.

## Main definitions

* `Sending` — an outbox, and what went out of each accepted frame, and when
* `Paced` — one frame going out an interval apart, and no more often than attempted

## Main results

* `Sending.exists_step` — no call is left out
* `Sending.Inv.step` — every frame stays paced
* `retries_never_beat_ceiling`
-/

namespace TetherMesh.CApi

open CS Protocol

/-- The call was a `track` that was accepted, or it handed out a frame. -/
def OutboxCall.Sends : OutboxCall → ℤ → Prop
  | .track .., code => code = tmOk
  | .nextDue .., code => 0 < code
  | _, _ => False

/-- The clock value a call is made with. -/
def OutboxCall.clock : OutboxCall → Option UInt64
  | .track _ nowUs | .reap nowUs .. | .nextDue _ nowUs .. => some nowUs
  | .acknowledge _ => none

/-- Bytes that went out, and the clock value they went out at. -/
structure Outgoing where
  atUs : ℕ
  frame : List UInt8
deriving DecidableEq

/-- An outbox, for each slot the ticket of the frame last stored there, and for each ticket
what went out: the frame of the `track` that accepted it, then the bytes that each hand-out
wrote. -/
structure Sending where
  ob : TmOutbox
  ticket : Fin outboxSlots → ℕ
  accepted : ℕ
  sent : ℕ → List Outgoing

namespace Sending

/-- An outbox that has accepted nothing. -/
def start (ob : TmOutbox) : Sending := ⟨ob, fun _ => 0, 0, fun _ => []⟩

/-- Slot `i` is in use. -/
def Pending (s : Sending) (i : Fin outboxSlots) : Prop := (s.ob.inner.slot i).state = .pending

/-- One call. -/
inductive Step : Sending → OutboxCall → Sending → Prop
  | tracked {s : Sending} {frame : List UInt8} {nowUs : UInt64} {ob : TmOutbox}
      {i : Fin outboxSlots} :
      (OutboxCall.track (some frame) nowUs).answer s.ob = (tmOk, some ob) →
      s.ob.inner.freeSlot = some i →
      Step s (.track (some frame) nowUs)
        ⟨ob, Function.update s.ticket i s.accepted, s.accepted + 1,
          Function.update s.sent s.accepted [⟨nowUs.toNat, frame⟩]⟩
  | handedOut {s : Sending} {ctx : Ptr TmCtx} {nowUs : UInt64} {airtimeUs : Micros}
      {out : Ptr (List UInt8)} {outAttempt : Ptr UInt8} {answer : NextDue} {ob : TmOutbox}
      {i : Fin outboxSlots} :
      tmOutboxNextDue (some s.ob) ctx nowUs airtimeUs out outAttempt = answer →
      0 < answer.code → answer.ob = some ob → s.ob.inner.dueSlot nowUs = some i →
      Step s (.nextDue ctx nowUs airtimeUs out outAttempt) { s with
        ob := ob
        sent := Function.update s.sent (s.ticket i) (s.sent (s.ticket i) ++
          [⟨nowUs.toNat, (borrow answer.out).take answer.code.toNat⟩]) }
  | quiet {s : Sending} {call : OutboxCall} {code : ℤ} {ob : TmOutbox} :
      call.answer s.ob = (code, some ob) → ¬ call.Sends code → Step s call { s with ob := ob }

end Sending

/-! ## The times of one frame -/

/-- One frame going out an interval apart, no more often than attempts were counted, and
next due an interval after the last time. -/
structure Paced (policy : RetryPolicy) (frame : List UInt8) (sent : List Outgoing)
    (attempts dueUs : ℕ) : Prop where
  /-- Every time was counted as an attempt. -/
  length_le : sent.length ≤ attempts
  /-- The policy allows the attempts counted. -/
  used : attempts ≤ max 1 policy.maxAttempts.toNat
  /-- It is the same frame every time. -/
  same : ∀ e ∈ sent, e.frame = frame
  /-- Consecutive times are an interval apart. -/
  apart : sent.IsChain fun e e' => e.atUs + policy.intervalUs.toNat ≤ e'.atUs
  /-- So will the next one be. -/
  due : ∀ e ∈ sent.getLast?, e.atUs + policy.intervalUs.toNat ≤ dueUs

namespace Paced

variable {policy : RetryPolicy} {frame : List UInt8} {sent : List Outgoing}
  {attempts dueUs nowUs : ℕ}

theorem nil (policy : RetryPolicy) (frame : List UInt8) : Paced policy frame [] 0 0 where
  length_le := Nat.le_refl 0
  used := Nat.zero_le _
  same e he := by cases he
  apart := List.isChain_nil
  due e he := by cases he

theorem single (policy : RetryPolicy) (frame : List UInt8) (nowUs : ℕ) :
    Paced policy frame [⟨nowUs, frame⟩] 1 (nowUs + policy.intervalUs.toNat) where
  length_le := Nat.le_refl 1
  used := Nat.le_max_left _ _
  same e he := by rw [List.mem_singleton.mp he]
  apart := List.isChain_singleton _
  due e he := by
    obtain rfl := Option.some.inj he
    exact Nat.le_refl _

/-- Once more, when it is due and while the policy has attempts left. -/
theorem snoc (h : Paced policy frame sent attempts dueUs)
    (hleft : attempts < policy.maxAttempts.toNat) (hdue : dueUs ≤ nowUs) :
    Paced policy frame (sent ++ [⟨nowUs, frame⟩]) (attempts + 1)
      (nowUs + policy.intervalUs.toNat) where
  length_le := by
    rw [List.length_append, List.length_singleton]
    exact Nat.succ_le_succ h.length_le
  used := (Nat.succ_le_of_lt hleft).trans (Nat.le_max_right _ _)
  same e he := by
    rcases List.mem_append.mp he with hold | hnew
    · exact h.same e hold
    · rw [List.mem_singleton.mp hnew]
  apart := by
    refine List.isChain_append.mpr ⟨h.apart, List.isChain_singleton _, ?_⟩
    intro e he e' he'
    obtain rfl := Option.some.inj he'
    exact (h.due e he).trans hdue
  due e he := by
    rw [List.getLast?_concat] at he
    obtain rfl := Option.some.inj he
    exact Nat.le_refl _

/-- An attempt may be counted, and the next one put off, without the frame going out. -/
theorem skip (h : Paced policy frame sent attempts dueUs)
    (hleft : attempts < policy.maxAttempts.toNat) (hdue : dueUs ≤ nowUs) :
    Paced policy frame sent (attempts + 1) nowUs where
  length_le := Nat.le_succ_of_le h.length_le
  used := (Nat.succ_le_of_lt hleft).trans (Nat.le_max_right _ _)
  same := h.same
  apart := h.apart
  due e he := (h.due e he).trans hdue

/-- Under an accepted policy, what is paced keeps the ceiling. -/
theorem ceiling (h : Paced policy frame sent attempts dueUs)
    (hpolicy : policy.maxAttempts.toNat ≤ 3 ∧
      (1 < policy.maxAttempts.toNat → 7000000 ≤ policy.intervalUs.toNat)) :
    sent.length ≤ 3 ∧
      sent.IsChain fun e e' => e.atUs + 7000000 ≤ e'.atUs ∧ e'.frame = e.frame := by
  have hlen := h.length_le.trans h.used
  refine ⟨by omega, ?_⟩
  -- only a policy of several attempts promises an interval
  by_cases hmany : 1 < policy.maxAttempts.toNat
  · have hinterval := hpolicy.2 hmany
    refine h.apart.imp_of_mem_imp fun e e' he he' hapart => ⟨?_, ?_⟩
    · omega
    · rw [h.same e he, h.same e' he']
  · -- a single time has nothing to be apart from
    match sent, hlen with
    | [], _ => exact List.isChain_nil
    | [e], _ => exact List.isChain_singleton e
    | _ :: _ :: _, hlen =>
      rw [List.length_cons, List.length_cons] at hlen
      omega

end Paced

/-! ## The invariant -/

section NextDueUs

variable {N : ℕ} {o : Outbox N} {nowUs : UInt64}

theorem toNat_nextDueUs (h : nowUs.toNat + o.policy.intervalUs.toNat < 2 ^ 64) :
    (o.nextDueUs nowUs).toNat = nowUs.toNat + o.policy.intervalUs.toNat := by
  rw [Outbox.nextDueUs, UInt64.toNat_saturatingAdd, UInt32.toNat_toUInt64]
  omega

/-- Also where it saturates, the next attempt is not due before now. -/
theorem le_nextDueUs (o : Outbox N) (nowUs : UInt64) :
    nowUs.toNat ≤ (o.nextDueUs nowUs).toNat := by
  have hnow := nowUs.toNat_lt
  rw [Outbox.nextDueUs, UInt64.toNat_saturatingAdd]
  omega

end NextDueUs

namespace Sending

variable {policy : RetryPolicy} {s s' : Sending} {call : OutboxCall} {code : ℤ} {ob : TmOutbox}
  {i : Fin outboxSlots} {nowUs : UInt64}

/-- The slot of a waiting frame holds it and counts its times, and no two wait under one
ticket. -/
structure Inv (policy : RetryPolicy) (s : Sending) : Prop where
  policy_eq : s.ob.inner.policy = policy
  slot : ∀ i, s.Pending i → Paced policy (s.ob.inner.slot i).bytes (s.sent (s.ticket i))
    (s.ob.inner.slot i).attempts.toNat (s.ob.inner.slot i).dueUs.toNat
  fresh : ∀ i, s.Pending i → s.ticket i < s.accepted
  distinct : ∀ i j, s.Pending i → s.Pending j → s.ticket i = s.ticket j → i = j
  paced : ∀ k, ∃ frame attempts dueUs, Paced policy frame (s.sent k) attempts dueUs

theorem inv_start (policy : RetryPolicy) : Inv policy (start ⟨.new policy⟩) where
  policy_eq := rfl
  slot i hi := by
    rw [Pending, start, Outbox.slot_new] at hi
    cases hi
  fresh i hi := by
    rw [Pending, start, Outbox.slot_new] at hi
    cases hi
  distinct i j hi := by
    rw [Pending, start, Outbox.slot_new] at hi
    cases hi
  paced k := ⟨[], 0, 0, .nil policy []⟩

/-- Calls that free slots, or do nothing. -/
theorem Inv.freed (inv : Inv policy s) (hpolicy : ob.inner.policy = policy)
    (hslot : ∀ i, (ob.inner.slot i).state = .pending → ob.inner.slot i = s.ob.inner.slot i) :
    Inv policy { s with ob := ob } where
  policy_eq := hpolicy
  slot i hi := by
    have hsame := hslot i hi
    rw [Pending] at hi
    dsimp only at hi ⊢
    rw [hsame] at hi ⊢
    exact inv.slot i hi
  fresh i hi := by
    rw [Pending, hslot i hi] at hi
    exact inv.fresh i hi
  distinct i j hi hj := by
    rw [Pending, hslot i hi] at hi
    rw [Pending, hslot j hj] at hj
    exact inv.distinct i j hi hj
  paced := inv.paced

/-- An attempt at a waiting frame, which goes out or does not. -/
theorem Inv.attempted (inv : Inv policy s) (hi : s.Pending i) {sent : List Outgoing}
    (hpaced : Paced policy (s.ob.inner.slot i).bytes sent
      (s.ob.inner.attempted i nowUs).attempts.toNat
      (s.ob.inner.attempted i nowUs).dueUs.toNat) :
    Inv policy { s with
      ob := ⟨s.ob.inner.put i (s.ob.inner.attempted i nowUs)⟩
      sent := Function.update s.sent (s.ticket i) sent } := by
  -- the same slots wait under the same tickets
  have hpending (j : Fin outboxSlots)
      (hj : ((s.ob.inner.put i (s.ob.inner.attempted i nowUs)).slot j).state = .pending) :
      s.Pending j := by
    rcases Outbox.put_pending_iff.mp hj with ⟨rfl, -⟩ | ⟨-, hj⟩
    · exact hi
    · exact hj
  refine ⟨inv.policy_eq, fun j hj => ?_, fun j hj => inv.fresh j (hpending j hj),
    fun j k hj hk => inv.distinct j k (hpending j hj) (hpending k hk), fun k => ?_⟩
  · dsimp only
    -- what went out under another ticket is as it was, and tickets tell slots apart
    by_cases hji : j = i
    · subst hji
      rw [Outbox.slot_put_self, Function.update_self]
      exact hpaced
    · have hticket : s.ticket j ≠ s.ticket i :=
        fun heq => hji (inv.distinct j i (hpending j hj) hi heq)
      rw [Outbox.slot_put_of_ne _ _ hji, Function.update_of_ne hticket]
      exact inv.slot j (hpending j hj)
  · dsimp only
    by_cases hk : k = s.ticket i
    · rw [hk, Function.update_self]
      exact ⟨_, _, _, hpaced⟩
    · rw [Function.update_of_ne hk]
      exact inv.paced k

/-- What is due has attempts left, and its time has come. -/
theorem Inv.of_due (inv : Inv policy s) (hi : s.ob.inner.dueSlot nowUs = some i) :
    s.Pending i ∧ (s.ob.inner.slot i).attempts.toNat < policy.maxAttempts.toNat ∧
      (s.ob.inner.slot i).dueUs.toNat ≤ nowUs.toNat ∧
      (s.ob.inner.attempted i nowUs).attempts.toNat = (s.ob.inner.slot i).attempts.toNat + 1 := by
  obtain ⟨hpend, hleft, hdue⟩ := Outbox.dueSlot_spec hi
  rw [inv.policy_eq, UInt8.lt_iff_toNat_lt] at hleft
  have hmax := policy.maxAttempts.toNat_lt
  refine ⟨hpend, hleft, UInt64.le_iff_toNat_le.mp hdue, ?_⟩
  -- below a `u8` ceiling the saturating increment is exact
  rw [Outbox.attempted, UInt8.toNat_saturatingAdd, show (1 : UInt8).toNat = 1 from rfl]
  omega

/-- A frame was accepted: its ticket is new, and this is the first time. -/
theorem Inv.track (inv : Inv policy s) {frame : List UInt8}
    (hclock : nowUs.toNat + policy.intervalUs.toNat < 2 ^ 64)
    (hfree : s.ob.inner.freeSlot = some i)
    (htrack : s.ob.inner.track frame nowUs = (.ok (), ob.inner)) :
    Inv policy ⟨ob, Function.update s.ticket i s.accepted, s.accepted + 1,
      Function.update s.sent s.accepted [⟨nowUs.toNat, frame⟩]⟩ := by
  obtain ⟨inner⟩ := ob
  obtain ⟨header, hlen, -, rfl⟩ := Outbox.track_accepted htrack hfree
  rw [← inv.policy_eq] at hclock
  -- the other slots wait as before, under older tickets
  have hpending (j : Fin outboxSlots) (hji : j ≠ i) (hj : ((s.ob.inner.put i
      ((s.ob.inner.slot i).load header frame hlen (s.ob.inner.nextDueUs nowUs))).slot j).state =
        .pending) : s.Pending j := by
    rwa [Outbox.slot_put_of_ne _ _ hji] at hj
  have hold (j : Fin outboxSlots) (hj : s.Pending j) : s.ticket j ≠ s.accepted :=
    Nat.ne_of_lt (inv.fresh j hj)
  refine ⟨inv.policy_eq, fun j hj => ?_, fun j hj => ?_, fun j k hj hk hjk => ?_, fun k => ?_⟩
  · dsimp only
    by_cases hji : j = i
    · subst hji
      rw [Outbox.slot_put_self, Function.update_self, Function.update_self, Slot.bytes_load]
      change Paced policy frame _ 1 (s.ob.inner.nextDueUs nowUs).toNat
      rw [toNat_nextDueUs hclock, inv.policy_eq]
      exact .single policy frame nowUs.toNat
    · have hj' := hpending j hji hj
      rw [Outbox.slot_put_of_ne _ _ hji, Function.update_of_ne hji,
        Function.update_of_ne (hold j hj')]
      exact inv.slot j hj'
  · dsimp only
    by_cases hji : j = i
    · rw [hji, Function.update_self]
      exact Nat.lt_succ_self _
    · rw [Function.update_of_ne hji]
      exact Nat.lt_succ_of_lt (inv.fresh j (hpending j hji hj))
  · dsimp only at hjk
    by_cases hji : j = i
    · by_cases hki : k = i
      · rw [hji, hki]
      · rw [hji, Function.update_self, Function.update_of_ne hki] at hjk
        exact absurd hjk.symm (hold k (hpending k hki hk))
    · by_cases hki : k = i
      · rw [hki, Function.update_self, Function.update_of_ne hji] at hjk
        exact absurd hjk (hold j (hpending j hji hj))
      · rw [Function.update_of_ne hji, Function.update_of_ne hki] at hjk
        exact inv.distinct j k (hpending j hji hj) (hpending k hki hk) hjk
  · dsimp only
    by_cases hk : k = s.accepted
    · rw [hk, Function.update_self]
      exact ⟨_, _, _, .single policy frame nowUs.toNat⟩
    · rw [Function.update_of_ne hk]
      exact inv.paced k

/-- A frame was handed out. -/
theorem Inv.handOut (inv : Inv policy s) (hclock : nowUs.toNat + policy.intervalUs.toNat < 2 ^ 64)
    (hi : s.ob.inner.dueSlot nowUs = some i) :
    Inv policy { s with
      ob := ⟨s.ob.inner.put i (s.ob.inner.attempted i nowUs)⟩
      sent := Function.update s.sent (s.ticket i) (s.sent (s.ticket i) ++
        [⟨nowUs.toNat, (s.ob.inner.slot i).bytes⟩]) } := by
  obtain ⟨hpend, hleft, hdue, hattempts⟩ := inv.of_due hi
  refine inv.attempted hpend ?_
  rw [← inv.policy_eq] at hclock
  rw [hattempts, Outbox.attempted, toNat_nextDueUs hclock, inv.policy_eq]
  exact (inv.slot i hpend).snoc hleft hdue

/-- An attempt was marked, but the buffer was too short for the frame. -/
theorem Inv.skip (inv : Inv policy s) (hi : s.ob.inner.dueSlot nowUs = some i) :
    Inv policy { s with ob := ⟨s.ob.inner.put i (s.ob.inner.attempted i nowUs)⟩ } := by
  obtain ⟨hpend, hleft, hdue, hattempts⟩ := inv.of_due hi
  have hpaced : Paced policy (s.ob.inner.slot i).bytes (s.sent (s.ticket i))
      (s.ob.inner.attempted i nowUs).attempts.toNat
      (s.ob.inner.attempted i nowUs).dueUs.toNat := by
    rw [hattempts]
    exact (inv.slot i hpend).skip hleft (hdue.trans (le_nextDueUs s.ob.inner nowUs))
  have hskip := inv.attempted hpend hpaced
  rwa [Function.update_eq_self] at hskip

/-- A call with which nothing goes out. -/
theorem Inv.quiet (inv : Inv policy s) (hcall : call.answer s.ob = (code, some ob))
    (hquiet : ¬ call.Sends code) : Inv policy { s with ob := ob } := by
  cases call with
  | track frame nowUs =>
    cases frame with
    | none =>
      cases hcall
      exact inv
    | some frame =>
      rw [OutboxCall.answer, tmOutboxTrack] at hcall
      generalize htrack : s.ob.inner.track frame nowUs = result at hcall
      obtain ⟨answer, inner⟩ := result
      cases answer with
      | ok =>
        cases hcall
        exact absurd rfl hquiet
      | error why =>
        cases hcall
        obtain rfl := Outbox.track_error htrack
        exact inv
  | acknowledge requestId =>
    cases hcall
    have hcall := (Prod.mk.eta (p := s.ob.inner.acknowledge requestId)).symm
    refine inv.freed ((Outbox.acknowledge_policy hcall).trans inv.policy_eq) fun i hi => ?_
    obtain ⟨-, hother⟩ := (Outbox.acknowledge_pending_iff hcall i).mp hi
    exact Outbox.acknowledge_kept hcall fun hmatch => hother hmatch.2
  | reap nowUs outFrom outId =>
    match outFrom, outId with
    | none, _ | some _, none =>
      cases hcall
      exact inv
    | some _, some _ =>
      rw [OutboxCall.answer, tmOutboxReap] at hcall
      dsimp only at hcall
      generalize hreap : s.ob.inner.reap nowUs = result at hcall
      obtain ⟨dropped, inner⟩ := result
      rcases Outbox.reap_cases hreap with ⟨rfl, rfl⟩ | ⟨i, -, rfl, rfl⟩
      · cases hcall
        exact inv
      · cases hcall
        refine inv.freed inv.policy_eq fun j hj => ?_
        rcases Outbox.put_pending_iff.mp hj with ⟨-, hfree⟩ | ⟨hji, -⟩
        · cases hfree
        · exact Outbox.slot_put_of_ne _ _ hji
  | nextDue ctx nowUs airtimeUs out outAttempt =>
    obtain ⟨rfl, hob⟩ := Prod.mk.inj hcall
    rcases tmOutboxNextDue_cases rfl with ⟨-, hsame, -⟩ | ⟨c, i, -, hi, -, hput, -⟩
    · rw [hsame] at hob
      cases hob
      exact inv
    · rw [hput] at hob
      cases hob
      exact inv.skip hi

/-- No error of the outbox is mapped to success. -/
theorem mapDeliveryError_ne (why : Outbox.Error) : mapDeliveryError why ≠ tmOk := by
  cases why <;> decide

/-- Every call is a step, from every state. -/
theorem exists_step (s : Sending) (call : OutboxCall) : ∃ s', Step s call s' := by
  cases call with
  | track frame nowUs =>
    cases frame with
    | none => exact ⟨_, .quiet rfl (by decide : ¬ tmEArg = tmOk)⟩
    | some frame =>
      have hanswer : (OutboxCall.track (some frame) nowUs).answer s.ob =
          tmOutboxTrack (some s.ob) (some frame) nowUs := rfl
      rw [tmOutboxTrack] at hanswer
      generalize htrack : s.ob.inner.track frame nowUs = result at hanswer
      obtain ⟨answer, inner⟩ := result
      rcases Outbox.track_cases htrack with ⟨why, rfl, -⟩ | ⟨i, -, -, rfl, -, hfree, -⟩
      · exact ⟨_, .quiet hanswer (mapDeliveryError_ne why)⟩
      · exact ⟨_, .tracked hanswer hfree⟩
  | acknowledge requestId => exact ⟨_, .quiet rfl not_false⟩
  | reap nowUs outFrom outId =>
    have hob : ∃ ob, (tmOutboxReap (some s.ob) nowUs outFrom outId).2.1 = some ob := by
      match outFrom, outId with
      | none, _ | some _, none => exact ⟨_, rfl⟩
      | some _, some _ =>
        rw [tmOutboxReap]
        dsimp only
        split
        · exact ⟨_, rfl⟩
        · exact ⟨_, rfl⟩
    obtain ⟨ob, hob⟩ := hob
    exact ⟨_, .quiet (Prod.ext rfl hob) not_false⟩
  | nextDue ctx nowUs airtimeUs out outAttempt =>
    rcases tmOutboxNextDue_cases rfl with ⟨hneg, hob, -⟩ | ⟨c, i, -, hi, -, hob, -⟩
    · exact ⟨_, .quiet (Prod.ext rfl hob) (not_lt.mpr hneg)⟩
    · by_cases hpos : 0 < (tmOutboxNextDue (some s.ob) ctx nowUs airtimeUs out outAttempt).code
      · exact ⟨_, .handedOut rfl hpos hob hi⟩
      · exact ⟨_, .quiet (Prod.ext rfl hob) hpos⟩

/-- **Step lemma.** Every call keeps every frame paced. -/
theorem Inv.step (inv : Inv policy s) (h : Step s call s')
    (hclock : ∀ nowUs ∈ call.clock, nowUs.toNat + policy.intervalUs.toNat < 2 ^ 64) :
    Inv policy s' := by
  cases h with
  | @tracked frame nowUs ob i hcall hfree =>
    rw [OutboxCall.answer, tmOutboxTrack] at hcall
    generalize htrack : s.ob.inner.track frame nowUs = result at hcall
    obtain ⟨answer, inner⟩ := result
    cases answer with
    | ok =>
      cases hcall
      exact inv.track (hclock nowUs rfl) hfree htrack
    | error why => exact absurd (congrArg Prod.fst hcall) (mapDeliveryError_ne why)
  | @handedOut ctx nowUs airtimeUs out outAttempt answer ob i hcall hpos hob hi =>
    rw [take_tmOutboxNextDue hcall hpos hi]
    rcases tmOutboxNextDue_cases hcall with ⟨hneg, -⟩ | ⟨c, i', -, hi', -, hput, -⟩
    · exact absurd hpos (not_lt.mpr hneg)
    · obtain rfl := Option.some.inj (hi.symm.trans hi')
      obtain rfl := Option.some.inj (hput.symm.trans hob)
      exact inv.handOut (hclock nowUs rfl) hi
  | quiet hcall hquiet => exact inv.quiet hcall hquiet

/-- Every frame stays paced over every run under a clock with room for an interval. -/
theorem inv_of_run {calls : List OutboxCall} (run : Run Step (start ⟨.new policy⟩) calls s)
    (hclock : ∀ call ∈ calls, ∀ nowUs ∈ call.clock,
      nowUs.toNat + policy.intervalUs.toNat < 2 ^ 64) : Inv policy s := by
  induction run with
  | nil => exact inv_start policy
  | snoc _ hstep ih =>
    refine (ih fun call hcall => hclock call (List.mem_append_left _ hcall)).step hstep ?_
    exact hclock _ (List.mem_append_right _ List.mem_cons_self)

end Sending

/-! ## The ceiling -/

section Init

variable {abi : UInt32} {maxAttempts : UInt8} {intervalUs : UInt32} {old ob : TmOutbox}

/-- An outbox that was initialised is new, under an accepted policy. -/
theorem tmOutboxInit_ok
    (h : tmOutboxInit (some old) abi maxAttempts intervalUs = (tmOk, some ob)) :
    ∃ policy, resolveRetryPolicy maxAttempts intervalUs = .ok policy ∧ ob = ⟨.new policy⟩ := by
  rw [tmOutboxInit] at h
  split_ifs at h with habi
  · exact absurd (congrArg Prod.fst h) (by decide : tmEAbi ≠ tmOk)
  · split at h
    · next policy hpolicy =>
      cases h
      exact ⟨policy, hpolicy, rfl⟩
    · next code hcode =>
      have hok : code = tmOk := congrArg Prod.fst h
      exact absurd (resolveRetryPolicy_error hcode) (by rw [hok]; decide)

/-- A policy past the ceiling is refused, and the outbox is left as it was. -/
theorem tmOutboxInit_refused (h : 3 < maxAttempts ∨ 1 < maxAttempts ∧ intervalUs < 7000000)
    (old : TmOutbox) (abi : UInt32) :
    ∃ code < 0, tmOutboxInit (some old) abi maxAttempts intervalUs = (code, some old) := by
  rw [tmOutboxInit]
  by_cases habi : abi ≠ tmAbiVersion
  · exact ⟨tmEAbi, by decide, if_pos habi⟩
  · rw [if_neg habi, resolveRetryPolicy_past h]
    exact ⟨tmETooAggressive, by decide, rfl⟩

end Init

/-- **No caller retries beyond the ceiling.** Whatever policy an outbox was initialised
with, and in whatever order and at whatever times it is called, as long as the clock leaves
room for an interval: of every accepted frame no more than three transmissions are asked
for, its own and two that are handed out, all of the same bytes, and any two consecutive ones
are at least seven seconds apart. A policy past the ceiling is refused, not clamped. -/
theorem retries_never_beat_ceiling (old : TmOutbox) (abi : UInt32) (maxAttempts : UInt8)
    (intervalUs : UInt32) :
    (∀ ob, tmOutboxInit (some old) abi maxAttempts intervalUs = (tmOk, some ob) →
      ∀ calls s, Run Sending.Step (.start ob) calls s →
        (∀ call ∈ calls, ∀ nowUs ∈ call.clock,
          nowUs.toNat + ob.inner.policy.intervalUs.toNat < 2 ^ 64) →
        ∀ ticket, (s.sent ticket).length ≤ 3 ∧ (s.sent ticket).IsChain fun e e' =>
          e.atUs + 7000000 ≤ e'.atUs ∧ e'.frame = e.frame) ∧
    (3 < maxAttempts ∨ 1 < maxAttempts ∧ intervalUs < 7000000 →
      ∃ code < 0, tmOutboxInit (some old) abi maxAttempts intervalUs = (code, some old)) := by
  refine ⟨fun ob hinit calls s run hclock ticket => ?_, fun h => tmOutboxInit_refused h old abi⟩
  obtain ⟨policy, hpolicy, rfl⟩ := tmOutboxInit_ok hinit
  obtain ⟨frame, attempts, dueUs, hpaced⟩ := (Sending.inv_of_run run hclock).paced ticket
  exact hpaced.ceiling (resolveRetryPolicy_ok hpolicy)

/-- A header of sixteen bytes from node 1, with identifier 7. -/
def pacedFrame : List UInt8 := [0, 0, 0, 0, 1, 0, 0, 0, 7, 0, 0, 0, 0, 0, 0, 0]

/-- It is tracked at zero and asked for at seven and fifteen seconds. -/
def pacedCalls : List OutboxCall :=
  [.track (some pacedFrame) 0,
    .nextDue (some (freshCtx 1)) 7000000 1000 (some (List.replicate 16 0)) none,
    .nextDue (some (freshCtx 1)) 15000000 1000 (some (List.replicate 16 0)) none]

set_option maxRecDepth 4000 in
/-- The result for the measured policy: a frame that goes out three times, within the ceiling.
Four attempts are refused. -/
theorem retries_never_beat_ceiling_twice :
    (∃ s, Run Sending.Step (.start ⟨.new .measuredCeiling⟩) pacedCalls s ∧
      s.sent 0 = [⟨0, pacedFrame⟩, ⟨7000000, pacedFrame⟩, ⟨15000000, pacedFrame⟩] ∧
      (s.sent 0).length ≤ 3 ∧ (s.sent 0).IsChain fun e e' =>
        e.atUs + 7000000 ≤ e'.atUs ∧ e'.frame = e.frame) ∧
    ∃ code < 0, tmOutboxInit (some ⟨.new .sendOnce⟩) tmAbiVersion 4 7000000 =
      (code, some ⟨.new .sendOnce⟩) := by
  have hinit : tmOutboxInit (some ⟨.new .sendOnce⟩) tmAbiVersion 0 0 =
      (tmOk, some ⟨.new .measuredCeiling⟩) := rfl
  obtain ⟨hpaced, -⟩ := retries_never_beat_ceiling ⟨.new .sendOnce⟩ tmAbiVersion 0 0
  obtain ⟨-, hrefused⟩ := retries_never_beat_ceiling ⟨.new .sendOnce⟩ tmAbiVersion 4 7000000
  refine ⟨?_, hrefused (.inl (by decide))⟩
  have run : ∃ s, Run Sending.Step (.start ⟨.new .measuredCeiling⟩) pacedCalls s ∧
      s.sent 0 = [⟨0, pacedFrame⟩, ⟨7000000, pacedFrame⟩, ⟨15000000, pacedFrame⟩] :=
    ⟨_, .cons (@Sending.Step.tracked _ _ _ _ 0 rfl rfl) <|
      .cons (@Sending.Step.handedOut _ _ _ _ _ _ _ _ 0 rfl (by decide) rfl rfl) <|
      .cons (@Sending.Step.handedOut _ _ _ _ _ _ _ _ 0 rfl (by decide) rfl rfl) .nil, rfl⟩
  obtain ⟨s, run, hsent⟩ := run
  refine ⟨s, run, hsent, hpaced _ hinit _ s run ?_ 0⟩
  intro call hcall nowUs hnow
  simp only [pacedCalls, List.mem_cons, List.not_mem_nil, or_false] at hcall
  rcases hcall with rfl | rfl | rfl
  all_goals
    cases hnow
    decide

end TetherMesh.CApi
