import TetherMesh.CS.LabelledRun
import TetherMesh.Protocol.Outbox

/-!
# The life of a tracked frame

Every accepted call of `track` is given a ticket, and the run of an outbox is
recorded as the list of what its calls answered. What the run says about one
ticket is that ticket's story. Under any order of calls, any clock and any duty
budget, a story is: tracked, handed out as attempts 2, 3, … byte for byte, and at
most once left, by acknowledgement or by being reaped.

## Main definitions

* `OutboxEvent`, `Ledger`, `Ledger.Step` — calls, their answers, and the tickets
* `story` — what a run says about one ticket
* `IsLife` — the stories a frame may have under a retry policy
* `Ledger.Inv` — every pending slot holds the frame of its ticket

## Main results

* `Ledger.Inv.step` — the invariant survives every call
* `Ledger.run_outbox_safe` — every story is a life, the count of pending entries
  balances, and a refused or empty call changes nothing
-/

namespace TetherMesh.Protocol

open CS

/-- One call of the outbox and its answer. -/
inductive OutboxEvent
  /-- `track` accepted the frame. -/
  | tracked (ticket : ℕ) (frame : List UInt8)
  /-- `track` refused its frame. -/
  | refused (why : Outbox.Error)
  /-- `acknowledge` answered `hit`; the tickets of the entries it freed. -/
  | acknowledged (requestId : UInt32) (hit : Bool) (retired : List ℕ)
  /-- `reap` reported `(from, id)`; the ticket of the entry it freed. -/
  | reaped (ticket : ℕ) (fromNode id : UInt32)
  | nothingToReap
  /-- `next_due` handed out a frame. -/
  | handedOut (ticket : ℕ) (frame : List UInt8) (attempt : UInt8)
  | nothingDue
  deriving DecidableEq, Repr

/-- What an event says about one ticket. -/
inductive Fact
  | tracked (frame : List UInt8)
  | handedOut (frame : List UInt8) (attempt : UInt8)
  | acknowledged (requestId : UInt32)
  | reaped (fromNode id : UInt32)
  deriving DecidableEq, Repr

/-- What one event says about ticket `k`. -/
def factsOf (k : ℕ) : OutboxEvent → List Fact
  | .tracked ticket frame => if ticket = k then [.tracked frame] else []
  | .acknowledged requestId _ retired => if k ∈ retired then [.acknowledged requestId] else []
  | .reaped ticket fromNode id => if ticket = k then [.reaped fromNode id] else []
  | .handedOut ticket frame attempt => if ticket = k then [.handedOut frame attempt] else []
  | .refused _ | .nothingToReap | .nothingDue => []

/-- What a run says about ticket `k`, in order. -/
def story (k : ℕ) (events : List OutboxEvent) : List Fact := events.flatMap (factsOf k)

theorem story_snoc (k : ℕ) (events : List OutboxEvent) (e : OutboxEvent) :
    story k (events ++ [e]) = story k events ++ factsOf k e := by
  rw [story, List.flatMap_append, List.flatMap_singleton, story]

/-- An event that says nothing about a ticket leaves its story. -/
theorem story_snoc_of_silent {k : ℕ} {events : List OutboxEvent} {e : OutboxEvent}
    (h : factsOf k e = []) : story k (events ++ [e]) = story k events := by
  rw [story_snoc, h, List.append_nil]

/-- Tracked, and handed out `m` times as attempts 2, 3, …, `m + 1`. -/
def sent (frame : List UInt8) (m : ℕ) : List Fact :=
  .tracked frame :: (List.range m).map fun j => .handedOut frame (UInt8.ofNat (j + 2))

theorem sent_succ (frame : List UInt8) (m : ℕ) :
    sent frame (m + 1) = sent frame m ++ [.handedOut frame (UInt8.ofNat (m + 2))] := by
  rw [sent, List.range_succ, List.map_append, List.map_singleton, sent, List.cons_append]

/-- How a frame sent again `m` times may end: not yet, by an acknowledgement naming
its identifier, or reaped with its own `(from, id)` once every attempt is used. -/
inductive Ending (policy : RetryPolicy) (header : Header) (m : ℕ) : List Fact → Prop
  | pending : Ending policy header m []
  | acknowledged : Ending policy header m [.acknowledged header.id]
  | reaped : policy.maxAttempts.toNat ≤ m + 1 →
      Ending policy header m [.reaped header.fromNode header.id]

/-- The stories a tracked frame may have. -/
def IsLife (policy : RetryPolicy) (frame : List UInt8) (facts : List Fact) : Prop :=
  ∃ (header : Header) (m : ℕ) (ending : List Fact), Header.decode frame = some header ∧
    m ≤ policy.maxAttempts.toNat - 1 ∧ Ending policy header m ending ∧
    facts = sent frame m ++ ending

/-- An outbox with, for each slot, the ticket of the frame last stored there. -/
structure Ledger (N : ℕ) where
  outbox : Outbox N
  ticket : Fin N → ℕ
  accepted : ℕ

namespace Ledger

variable {N : ℕ}

/-- An empty outbox, no ticket given out. -/
def start (N : ℕ) (policy : RetryPolicy) : Ledger N := ⟨.new policy, fun _ => 0, 0⟩

/-- Slot `i` is in use. -/
def Pending (l : Ledger N) (i : Fin N) : Prop := (l.outbox.slot i).state = .pending

instance (l : Ledger N) (i : Fin N) : Decidable (l.Pending i) :=
  inferInstanceAs (Decidable (_ = _))

/-- The tickets of the entries that are pending now and free in `o'`. -/
def retired (l : Ledger N) (o' : Outbox N) : List ℕ :=
  ((List.finRange N).filter fun i => l.Pending i ∧ (o'.slot i).state = .free).map l.ticket

/-- One call, with any clock value and any duty budget. -/
inductive Step : Ledger N → OutboxEvent → Ledger N → Prop
  | track {l : Ledger N} {frame : List UInt8} {nowUs : UInt64} {o' : Outbox N} {i : Fin N} :
      l.outbox.track frame nowUs = (.ok (), o') → l.outbox.freeSlot = some i →
      Step l (.tracked l.accepted frame) ⟨o', Function.update l.ticket i l.accepted, l.accepted + 1⟩
  | refuse {l : Ledger N} {frame : List UInt8} {nowUs : UInt64} {o' : Outbox N}
      {why : Outbox.Error} : l.outbox.track frame nowUs = (.error why, o') →
      Step l (.refused why) { l with outbox := o' }
  | acknowledge {l : Ledger N} {requestId : UInt32} {o' : Outbox N} {hit : Bool} :
      l.outbox.acknowledge requestId = (hit, o') →
      Step l (.acknowledged requestId hit (l.retired o')) { l with outbox := o' }
  | reap {l : Ledger N} {nowUs : UInt64} {o' : Outbox N} {fromNode id : UInt32} {i : Fin N} :
      l.outbox.reap nowUs = (some (fromNode, id), o') → l.outbox.reapSlot nowUs = some i →
      Step l (.reaped (l.ticket i) fromNode id) { l with outbox := o' }
  | reapNone {l : Ledger N} {nowUs : UInt64} {o' : Outbox N} :
      l.outbox.reap nowUs = (none, o') → Step l .nothingToReap { l with outbox := o' }
  | nextDue {l : Ledger N} {nowUs : UInt64} {airtimeUs : Micros} {duty duty' : DutyCycle}
      {o' : Outbox N} {due : Due} {i : Fin N} :
      l.outbox.nextDue nowUs airtimeUs duty = (some due, o', duty') →
      l.outbox.dueSlot nowUs = some i →
      Step l (.handedOut (l.ticket i) due.frame due.attempt) { l with outbox := o' }
  | nextDueNone {l : Ledger N} {nowUs : UInt64} {airtimeUs : Micros} {duty duty' : DutyCycle}
      {o' : Outbox N} : l.outbox.nextDue nowUs airtimeUs duty = (none, o', duty') →
      Step l .nothingDue { l with outbox := o' }

/-- How many frames were accepted, acknowledged away and reaped. -/
def trackedCount (events : List OutboxEvent) : ℕ :=
  events.countP fun | .tracked .. => true | _ => false

def retiredCount (events : List OutboxEvent) : ℕ :=
  (events.map fun | .acknowledged _ _ retired => retired.length | _ => 0).sum

def reapedCount (events : List OutboxEvent) : ℕ :=
  events.countP fun | .reaped .. => true | _ => false

theorem trackedCount_snoc (events : List OutboxEvent) (e : OutboxEvent) :
    trackedCount (events ++ [e]) = trackedCount events + trackedCount [e] := List.countP_append

theorem retiredCount_snoc (events : List OutboxEvent) (e : OutboxEvent) :
    retiredCount (events ++ [e]) = retiredCount events + retiredCount [e] := by
  simp only [retiredCount, List.map_append, List.sum_append]

theorem reapedCount_snoc (events : List OutboxEvent) (e : OutboxEvent) :
    reapedCount (events ++ [e]) = reapedCount events + reapedCount [e] := List.countP_append

/-- A pending slot holds its ticket's frame, and counts the attempts its story tells. -/
def SlotInv (policy : RetryPolicy) (facts : List Fact) (s : Slot) : Prop :=
  ∃ (header : Header) (m : ℕ), Header.decode s.bytes = some header ∧
    s.fromNode = header.fromNode ∧ s.id = header.id ∧ s.attempts.toNat = m + 1 ∧
    m ≤ policy.maxAttempts.toNat - 1 ∧ facts = sent s.bytes m

/-- What holds of an outbox after `events`. -/
structure Inv (policy : RetryPolicy) (events : List OutboxEvent) (l : Ledger N) : Prop where
  policy_eq : l.outbox.policy = policy
  slot : ∀ i, l.Pending i → SlotInv policy (story (l.ticket i) events) (l.outbox.slot i)
  fresh : ∀ i, l.Pending i → (l.ticket i) < l.accepted
  distinct : ∀ i j, l.Pending i → l.Pending j → (l.ticket i) = (l.ticket j) → i = j
  life : ∀ k < l.accepted, ∃ frame, IsLife policy frame (story k events)
  silent : ∀ k, l.accepted ≤ k → story k events = []
  accepted_eq : l.accepted = trackedCount events
  balance : l.outbox.len + retiredCount events + reapedCount events = trackedCount events

/-! ## One slot -/

section SlotInv

variable {policy : RetryPolicy} {facts : List Fact} {s : Slot}

theorem SlotInv.load {header : Header} {frame : List UInt8} (hlen : frame.length ≤ maxFrame)
    (hdec : Header.decode frame = some header) (dueUs : UInt64) :
    SlotInv policy [.tracked frame] (s.load header frame hlen dueUs) := by
  refine ⟨header, 0, ?_, rfl, rfl, rfl, Nat.zero_le _, ?_⟩
  · rwa [Slot.bytes_load]
  · rw [Slot.bytes_load]
    rfl

/-- One more attempt, numbered one higher, while attempts are left. -/
theorem SlotInv.handOut (h : SlotInv policy facts s) (hleft : s.attempts < policy.maxAttempts)
    (dueUs : UInt64) :
    SlotInv policy (facts ++ [.handedOut s.bytes (s.attempts.saturatingAdd 1)])
      { s with attempts := s.attempts.saturatingAdd 1, dueUs := dueUs } := by
  obtain ⟨header, m, hdec, hfrom, hid, hattempts, -, rfl⟩ := h
  have hmax := policy.maxAttempts.toNat_lt
  rw [UInt8.lt_iff_toNat_lt, hattempts] at hleft
  -- below a `u8` ceiling the saturating increment is exact
  have hnext : (s.attempts.saturatingAdd 1).toNat = m + 2 := by
    rw [UInt8.toNat_saturatingAdd, hattempts, show (1 : UInt8).toNat = 1 from rfl]
    omega
  refine ⟨header, m + 1, hdec, hfrom, hid, hnext, by omega, ?_⟩
  rw [← UInt8.ofNat_toNat (x := s.attempts.saturatingAdd 1), hnext, ← sent_succ]
  rfl

/-- A frame just tracked has all of its life before it. -/
theorem isLife_tracked {header : Header} {frame : List UInt8}
    (hdec : Header.decode frame = some header) : IsLife policy frame [.tracked frame] :=
  ⟨header, 0, [], hdec, Nat.zero_le _, .pending, rfl⟩

theorem SlotInv.isLife (h : SlotInv policy facts s) : IsLife policy s.bytes facts := by
  obtain ⟨header, m, hdec, -, -, -, hm, hfacts⟩ := h
  exact ⟨header, m, [], hdec, hm, .pending, by rw [hfacts, List.append_nil]⟩

theorem SlotInv.isLife_acknowledged (h : SlotInv policy facts s) :
    IsLife policy s.bytes (facts ++ [.acknowledged s.id]) := by
  obtain ⟨header, m, hdec, -, hid, -, hm, hfacts⟩ := h
  rw [hid, hfacts]
  exact ⟨header, m, _, hdec, hm, .acknowledged, rfl⟩

theorem SlotInv.isLife_reaped (h : SlotInv policy facts s)
    (hused : policy.maxAttempts ≤ s.attempts) :
    IsLife policy s.bytes (facts ++ [.reaped s.fromNode s.id]) := by
  obtain ⟨header, m, hdec, hfrom, hid, hattempts, hm, hfacts⟩ := h
  rw [UInt8.le_iff_toNat_le, hattempts] at hused
  rw [hfrom, hid, hfacts]
  exact ⟨header, m, _, hdec, hm, .reaped hused, rfl⟩

end SlotInv

/-! ## Counting the entries -/

section Counting

variable {o o' : Outbox N} {i : Fin N} {s : Slot}

/-- Replacing a slot takes away what was counted there and counts what is put there. -/
theorem len_put (o : Outbox N) (i : Fin N) (s : Slot) :
    (o.put i s).len = o.len - (if (o.slot i).state = .pending then 1 else 0) +
      if s.state = .pending then 1 else 0 := by
  have hset : o.slots.setIfInBounds i s = o.slots.set i s := by
    ext k hk
    rw [Vector.getElem_setIfInBounds hk, Vector.getElem_set i.isLt hk]
  rw [Outbox.len, Outbox.put, hset, Vector.countP_set]
  simp only [decide_eq_true_eq]
  rfl

/-- Filling a free slot adds one entry. -/
theorem len_put_of_free (hfree : (o.slot i).state = .free) (hs : s.state = .pending) :
    (o.put i s).len = o.len + 1 := by
  rw [len_put, hs, hfree]
  simp

/-- A slot in use is counted. -/
theorem len_pos (hpend : (o.slot i).state = .pending) : 0 < o.len :=
  Vector.countP_pos_iff.mpr ⟨(o.slot i), Vector.getElem_mem i.isLt, decide_eq_true hpend⟩

/-- Replacing the entry of a slot in use keeps the count. -/
theorem len_put_of_pending (hpend : (o.slot i).state = .pending) (hs : s.state = .pending) :
    (o.put i s).len = o.len := by
  have hpos := len_pos hpend
  rw [len_put, hs, hpend, if_pos rfl]
  omega

/-- Freeing a slot in use removes one entry. -/
theorem len_put_of_freed (hpend : (o.slot i).state = .pending) (hs : s.state = .free) :
    (o.put i s).len + 1 = o.len := by
  have hpos := len_pos hpend
  rw [len_put, hs, hpend, if_pos rfl, if_neg (by decide)]
  omega

/-- The entries in use, slot by slot. -/
theorem len_eq_countP (o : Outbox N) :
    o.len = (List.finRange N).countP fun i => (o.slot i).state = .pending := by
  have hmap : (List.finRange N).map o.slot = o.slots.toList := by
    apply List.ext_getElem
    · simp
    · intro i hi hi'
      rw [List.getElem_map, List.getElem_finRange, Vector.getElem_toList]
      rfl
  rw [Outbox.len, ← Vector.countP_toList, ← hmap, List.countP_map]
  rfl

/-- Counting splits along two exclusive cases. -/
theorem countP_eq_add_of_iff {α : Type*} {p q r : α → Prop} [DecidablePred p] [DecidablePred q]
    [DecidablePred r] (hiff : ∀ x, p x ↔ q x ∨ r x) (hexcl : ∀ x, q x → ¬ r x) (xs : List α) :
    xs.countP (fun x => p x) = xs.countP (fun x => q x) + xs.countP fun x => r x := by
  induction xs with
  | nil => rfl
  | cons x xs ih =>
    simp only [List.countP_cons, ih, decide_eq_true_eq, hiff x]
    by_cases hq : q x
    · simp only [hq, hexcl x hq, or_false, if_true, if_false]
      omega
    · simp only [hq, false_or, if_false]
      omega

end Counting

/-! ## What a call preserves -/

variable {policy : RetryPolicy} {events : List OutboxEvent} {l l' : Ledger N} {e : OutboxEvent}
  {o' : Outbox N}

theorem inv_start (N : ℕ) (policy : RetryPolicy) : Inv policy [] (start N policy) where
  policy_eq := rfl
  slot i h := by simp [Pending, start, Slot.empty] at h
  fresh i h := by simp [Pending, start, Slot.empty] at h
  distinct i j h := by simp [Pending, start, Slot.empty] at h
  life k h := absurd h (Nat.not_lt_zero k)
  silent k _ := rfl
  accepted_eq := rfl
  balance := by simp [start, Outbox.new, Outbox.len, Slot.empty, retiredCount, reapedCount,
    trackedCount]

/-- A call that accepts nothing: no slot becomes pending, each slot still pending
keeps to its ticket's story, and what was said of a ticket is a life. -/
theorem Inv.after (inv : Inv policy events l) (hpolicy : o'.policy = policy)
    (hpending : ∀ i : Fin N, (o'.slot i).state = .pending → l.Pending i)
    (hslot : ∀ i : Fin N, (o'.slot i).state = .pending →
      SlotInv policy (story (l.ticket i) (events ++ [e])) (o'.slot i))
    (htold : ∀ k, factsOf k e ≠ [] →
      k < l.accepted ∧ ∃ frame, IsLife policy frame (story k (events ++ [e])))
    (htracked : trackedCount [e] = 0)
    (hlen : o'.len + retiredCount [e] + reapedCount [e] = l.outbox.len) :
    Inv policy (events ++ [e]) { l with outbox := o' } where
  policy_eq := hpolicy
  slot := hslot
  fresh i hi := inv.fresh i (hpending i hi)
  distinct i j hi hj := inv.distinct i j (hpending i hi) (hpending j hj)
  life k hk := by
    by_cases hfacts : factsOf k e = []
    · rw [story_snoc_of_silent hfacts]
      exact inv.life k hk
    · exact (htold k hfacts).2
  silent k hk := by
    by_cases hfacts : factsOf k e = []
    · rw [story_snoc_of_silent hfacts]
      exact inv.silent k hk
    · exact absurd (htold k hfacts).1 (Nat.not_lt.mpr hk)
  accepted_eq := by
    rw [trackedCount_snoc, htracked]
    exact inv.accepted_eq
  balance := by
    have hbefore := inv.balance
    rw [trackedCount_snoc, retiredCount_snoc, reapedCount_snoc]
    dsimp only
    omega

/-- What an event says about the ticket of one slot says nothing about another's. -/
theorem Inv.story_other (inv : Inv policy events l) {i j : Fin N} (hj : l.Pending j)
    (hi : l.Pending i) (hji : j ≠ i) {facts : List Fact}
    (hfacts : factsOf (l.ticket j) e = if l.ticket i = l.ticket j then facts else []) :
    story (l.ticket j) (events ++ [e]) = story (l.ticket j) events := by
  apply story_snoc_of_silent
  rw [hfacts]
  exact if_neg fun hticket => hji (inv.distinct j i hj hi hticket.symm)

/-- A call that answers nothing and leaves the outbox alone. -/
theorem Inv.unchanged (inv : Inv policy events l) (hfacts : ∀ k, factsOf k e = [])
    (hcount : trackedCount [e] = 0 ∧ retiredCount [e] = 0 ∧ reapedCount [e] = 0) :
    Inv policy (events ++ [e]) { l with outbox := l.outbox } := by
  obtain ⟨htracked, hretired, hreaped⟩ := hcount
  apply inv.after
  case hpolicy => exact inv.policy_eq
  case hpending => exact fun _ h => h
  case hslot =>
    intro i hi
    rw [story_snoc_of_silent (hfacts _)]
    exact inv.slot i hi
  case htold => exact fun k h => absurd (hfacts k) h
  case htracked => exact htracked
  case hlen => omega

/-- A new frame takes a free slot and a new ticket. -/
theorem Inv.track {frame : List UInt8} {nowUs : UInt64} {i : Fin N} (inv : Inv policy events l)
    (h : l.outbox.track frame nowUs = (.ok (), o')) (hfree : l.outbox.freeSlot = some i) :
    Inv policy (events ++ [.tracked l.accepted frame])
      ⟨o', Function.update l.ticket i l.accepted, l.accepted + 1⟩ := by
  obtain ⟨header, hlen, hdec, rfl⟩ := Outbox.track_accepted h hfree
  have hstate := Outbox.freeSlot_state hfree
  -- the event tells of the new ticket only, of which nothing was told before
  have hold {k : ℕ} (hk : k ≠ l.accepted) :
      story k (events ++ [.tracked l.accepted frame]) = story k events :=
    story_snoc_of_silent (if_neg hk.symm)
  have hstory : story l.accepted (events ++ [.tracked l.accepted frame]) = [.tracked frame] := by
    rw [story_snoc, inv.silent _ le_rfl, List.nil_append, factsOf, if_pos rfl]
  constructor
  case policy_eq => exact inv.policy_eq
  case slot =>
    intro j hj
    dsimp only
    rcases Outbox.put_pending_iff.mp hj with ⟨rfl, -⟩ | ⟨hji, hpend⟩
    · rw [Outbox.slot_put_self, Function.update_self, hstory]
      exact .load hlen hdec _
    · rw [Outbox.slot_put_of_ne _ _ hji, Function.update_of_ne hji,
        hold (Nat.ne_of_lt (inv.fresh j hpend))]
      exact inv.slot j hpend
  case fresh =>
    intro j hj
    dsimp only
    rcases Outbox.put_pending_iff.mp hj with ⟨rfl, -⟩ | ⟨hji, hpend⟩
    · rw [Function.update_self]
      exact Nat.lt_succ_self _
    · rw [Function.update_of_ne hji]
      exact Nat.lt_succ_of_lt (inv.fresh j hpend)
  case distinct =>
    intro j j' hj hj' heq
    dsimp only at heq
    -- the new ticket lies above those of all slots that waited before
    rcases Outbox.put_pending_iff.mp hj with ⟨rfl, -⟩ | ⟨hji, hpend⟩ <;>
      rcases Outbox.put_pending_iff.mp hj' with ⟨rfl, -⟩ | ⟨hji', hpend'⟩
    · rfl
    · rw [Function.update_self, Function.update_of_ne hji'] at heq
      exact absurd heq.symm (Nat.ne_of_lt (inv.fresh j' hpend'))
    · rw [Function.update_self, Function.update_of_ne hji] at heq
      exact absurd heq (Nat.ne_of_lt (inv.fresh j hpend))
    · rw [Function.update_of_ne hji, Function.update_of_ne hji'] at heq
      exact inv.distinct j j' hpend hpend' heq
  case life =>
    intro k hk
    rcases Nat.lt_succ_iff_lt_or_eq.mp hk with hlt | rfl
    · rw [hold (Nat.ne_of_lt hlt)]
      exact inv.life k hlt
    · rw [hstory]
      exact ⟨frame, isLife_tracked hdec⟩
  case silent =>
    intro k hk
    have hlt : l.accepted < k := hk
    rw [hold (Nat.ne_of_gt hlt)]
    exact inv.silent k hlt.le
  case accepted_eq =>
    rw [trackedCount_snoc]
    exact congrArg (· + 1) inv.accepted_eq
  case balance =>
    have hbefore := inv.balance
    have hgrown : _ = l.outbox.len + 1 :=
      len_put_of_free hstate
        (s := (l.outbox.slot i).load header frame hlen (l.outbox.nextDueUs nowUs)) rfl
    have hcounts : trackedCount [.tracked l.accepted frame] = 1 ∧
        retiredCount [.tracked l.accepted frame] = 0 ∧
        reapedCount [.tracked l.accepted frame] = 0 := ⟨rfl, rfl, rfl⟩
    rw [trackedCount_snoc, retiredCount_snoc, reapedCount_snoc]
    dsimp only
    omega

/-- The entries freed by an acknowledgement leave with its identifier; all others stay. -/
theorem Inv.acknowledge {requestId : UInt32} {hit : Bool} (inv : Inv policy events l)
    (h : l.outbox.acknowledge requestId = (hit, o')) :
    Inv policy (events ++ [.acknowledged requestId hit (l.retired o')])
      { l with outbox := o' } := by
  have hstays (i : Fin N) : (o'.slot i).state = .pending ↔
      l.Pending i ∧ (l.outbox.slot i).id ≠ requestId := Outbox.acknowledge_pending_iff h i
  have hfree (s : Slot) : s.state = .free ↔ ¬ s.state = .pending := by cases s.state <;> simp
  -- what is freed is exactly what was pending under that identifier
  have hfreed (i : Fin N) : l.Pending i ∧ (o'.slot i).state = .free ↔
      l.Pending i ∧ (l.outbox.slot i).id = requestId := by
    rw [hfree, hstays i]
    tauto
  have hmem (k : ℕ) : k ∈ l.retired o' ↔
      ∃ i : Fin N, (l.ticket i) = k ∧ l.Pending i ∧ (l.outbox.slot i).id = requestId := by
    simp only [retired, hfreed, List.mem_map, List.mem_filter, List.mem_finRange, true_and,
      decide_eq_true_eq]
    exact exists_congr fun i => and_comm
  apply inv.after
  case hpolicy => exact (Outbox.acknowledge_policy h).trans inv.policy_eq
  case hpending => exact fun i hi => ((hstays i).mp hi).1
  case hslot =>
    intro i hi
    obtain ⟨hpend, hid⟩ := (hstays i).mp hi
    -- tickets tell slots apart, so the one freed is not this one
    have hsilent : factsOf (l.ticket i) (.acknowledged requestId hit (l.retired o')) = [] := by
      refine if_neg fun hretired => ?_
      obtain ⟨j, hticket, hpend', hid'⟩ := (hmem _).mp hretired
      exact hid (inv.distinct j i hpend' hpend hticket ▸ hid')
    rw [story_snoc_of_silent hsilent, Outbox.acknowledge_kept h fun hboth => hid hboth.2]
    exact inv.slot i hpend
  case htold =>
    intro k hk
    have hretired : k ∈ l.retired o' := by
      by_contra hnot
      exact hk (if_neg hnot)
    obtain ⟨i, rfl, hpend, rfl⟩ := (hmem k).mp hretired
    refine ⟨inv.fresh i hpend, (l.outbox.slot i).bytes, ?_⟩
    rw [story_snoc, show factsOf _ (OutboxEvent.acknowledged _ hit (l.retired o')) = _ from
      if_pos hretired]
    exact (inv.slot i hpend).isLife_acknowledged
  case htracked => rfl
  case hlen =>
    -- what waited either waits still or was freed
    have hsplit := countP_eq_add_of_iff (p := l.Pending)
      (q := fun i => (o'.slot i).state = .pending)
      (r := fun i => l.Pending i ∧ (o'.slot i).state = .free)
      (fun i => by
        rw [hstays i, hfreed i]
        tauto)
      (fun i hstay hgone => SlotState.noConfusion (hstay.symm.trans hgone.2)) (List.finRange N)
    have hretired : retiredCount [.acknowledged requestId hit (l.retired o')] =
        (List.finRange N).countP fun i => l.Pending i ∧ (o'.slot i).state = .free := by
      simp only [retiredCount, List.map_cons, List.map_nil, List.sum_singleton, retired,
        List.length_map, List.countP_eq_length_filter]
    rw [hretired, len_eq_countP o', len_eq_countP l.outbox]
    exact hsplit.symm

/-- The entry reaped leaves with its own `(from, id)` after its last attempt. -/
theorem Inv.reap {nowUs : UInt64} {i : Fin N} (inv : Inv policy events l)
    (hi : l.outbox.reapSlot nowUs = some i) :
    Inv policy
      (events ++ [.reaped (l.ticket i) (l.outbox.slot i).fromNode (l.outbox.slot i).id])
      { l with outbox := l.outbox.put i { l.outbox.slot i with state := .free } } := by
  obtain ⟨hpend, hused, -⟩ := Outbox.reapSlot_spec hi
  rw [inv.policy_eq] at hused
  -- a slot that still waits is another one
  have hother {j : Fin N} (hj : ((l.outbox.put i
      { l.outbox.slot i with state := .free }).slot j).state = .pending) :
      j ≠ i ∧ l.Pending j := by
    rcases Outbox.put_pending_iff.mp hj with ⟨-, hfreed⟩ | hboth
    · exact SlotState.noConfusion hfreed
    · exact hboth
  apply inv.after
  case hpolicy => exact inv.policy_eq
  case hpending => exact fun j hj => (hother hj).2
  case hslot =>
    intro j hj
    obtain ⟨hji, hpend'⟩ := hother hj
    rw [Outbox.slot_put_of_ne _ _ hji, inv.story_other hpend' hpend hji rfl]
    exact inv.slot j hpend'
  case htold =>
    intro k hk
    obtain rfl : l.ticket i = k := by
      by_contra hne
      exact hk (if_neg hne)
    refine ⟨inv.fresh i hpend, (l.outbox.slot i).bytes, ?_⟩
    rw [story_snoc, factsOf, if_pos rfl]
    exact (inv.slot i hpend).isLife_reaped hused
  case htracked => rfl
  case hlen =>
    exact len_put_of_freed hpend (s := { l.outbox.slot i with state := .free }) rfl

/-- The entry handed out stays pending, one attempt further. -/
theorem Inv.nextDue {nowUs : UInt64} {i : Fin N} (inv : Inv policy events l)
    (hi : l.outbox.dueSlot nowUs = some i) :
    Inv policy
      (events ++ [.handedOut (l.ticket i) (l.outbox.slot i).bytes
        ((l.outbox.slot i).attempts.saturatingAdd 1)])
      { l with outbox := l.outbox.put i (l.outbox.attempted i nowUs) } := by
  obtain ⟨hpend, hleft, -⟩ := Outbox.dueSlot_spec hi
  rw [inv.policy_eq] at hleft
  -- the slot counts the attempt its story now tells of
  have hslot : SlotInv policy (story (l.ticket i) (events ++ [.handedOut (l.ticket i)
      (l.outbox.slot i).bytes ((l.outbox.slot i).attempts.saturatingAdd 1)]))
      (l.outbox.attempted i nowUs) := by
    rw [story_snoc, factsOf, if_pos rfl]
    exact (inv.slot i hpend).handOut hleft _
  apply inv.after
  case hpolicy => exact inv.policy_eq
  case hpending =>
    intro j hj
    rcases Outbox.put_pending_iff.mp hj with ⟨rfl, -⟩ | ⟨-, hpend'⟩
    · exact hpend
    · exact hpend'
  case hslot =>
    intro j hj
    rcases Outbox.put_pending_iff.mp hj with ⟨rfl, -⟩ | ⟨hji, hpend'⟩
    · rw [Outbox.slot_put_self]
      exact hslot
    · rw [Outbox.slot_put_of_ne _ _ hji, inv.story_other hpend' hpend hji rfl]
      exact inv.slot j hpend'
  case htold =>
    intro k hk
    obtain rfl : l.ticket i = k := by
      by_contra hne
      exact hk (if_neg hne)
    exact ⟨inv.fresh i hpend, _, hslot.isLife⟩
  case htracked => rfl
  case hlen => exact len_put_of_pending hpend hpend

/-- **Step lemma.** Every call keeps the invariant. -/
theorem Inv.step (inv : Inv policy events l) (h : Step l e l') : Inv policy (events ++ [e]) l' := by
  cases h with
  | track hcall hfree => exact inv.track hcall hfree
  | refuse hcall =>
    obtain rfl := Outbox.track_error hcall
    exact inv.unchanged (fun _ => rfl) ⟨rfl, rfl, rfl⟩
  | acknowledge hcall => exact inv.acknowledge hcall
  | reap hcall hi =>
    obtain ⟨hr, rfl⟩ := Outbox.reap_some hcall hi
    obtain ⟨rfl, rfl⟩ := Prod.mk.inj hr
    exact inv.reap hi
  | reapNone hcall =>
    obtain rfl := Outbox.reap_none hcall
    exact inv.unchanged (fun _ => rfl) ⟨rfl, rfl, rfl⟩
  | nextDue hcall hi =>
    obtain ⟨rfl, rfl⟩ := Outbox.nextDue_some hcall hi
    exact inv.nextDue hi
  | nextDueNone hcall =>
    obtain rfl := Outbox.nextDue_none hcall
    exact inv.unchanged (fun _ => rfl) ⟨rfl, rfl, rfl⟩

/-- The invariant holds after every sequence of calls. -/
theorem inv_of_run (run : Run Step (start N policy) events l) : Inv policy events l :=
  run.invariant (inv_start N policy) fun _ inv hstep => inv.step hstep

/-- What one call may do to the entries: an acknowledgement answers whether it
retired something and touches no entry with another identifier; an error or an empty
answer changes nothing. -/
def StepSafe (l : Ledger N) (e : OutboxEvent) (l' : Ledger N) : Prop :=
  match e with
  | .acknowledged requestId hit retired => (hit = true ↔ retired ≠ []) ∧
      ∀ i : Fin N, (l.outbox.slot i).id ≠ requestId → (l'.outbox.slot i) = (l.outbox.slot i)
  | .refused _ | .nothingToReap | .nothingDue => l'.outbox = l.outbox
  | .tracked .. | .reaped .. | .handedOut .. => True

theorem stepSafe (h : Step l e l') : StepSafe l e l' := by
  cases h with
  | track | reap | nextDue => trivial
  | refuse hcall => exact Outbox.track_error hcall
  | reapNone hcall => exact Outbox.reap_none hcall
  | nextDueNone hcall => exact Outbox.nextDue_none hcall
  | acknowledge hcall =>
    constructor
    · -- something is retired exactly when some entry matched
      rw [Outbox.acknowledge_hit hcall, Ne, retired, List.map_eq_nil_iff,
        List.filter_eq_nil_iff]
      simp only [List.mem_finRange, decide_eq_true_eq, true_implies, not_forall, not_not]
      refine exists_congr fun i => ?_
      constructor
      · intro ⟨hpend, hid⟩
        exact ⟨hpend, by rw [Outbox.acknowledge_freed hcall hpend hid]⟩
      · intro ⟨hpend, hfree⟩
        by_contra hother
        rw [Outbox.acknowledge_kept hcall hother] at hfree
        exact SlotState.noConfusion (hpend.symm.trans hfree)
    · exact fun i hid => Outbox.acknowledge_kept hcall fun hboth => hid hboth.2

/-- **Outbox safety.** After every sequence of calls, whatever the clock and the duty
budgets, what was said about a ticket is a life under the policy, or nothing at all;
every accepted frame has such a life; the number of entries in use is the number
accepted less those retired and reaped; and every further call is safe. -/
theorem run_outbox_safe (run : Run Step (start N policy) events l) :
    (∀ k, story k events = [] ∨ ∃ frame, IsLife policy frame (story k events)) ∧
      (∀ k frame, .tracked k frame ∈ events → IsLife policy frame (story k events)) ∧
      l.outbox.len + retiredCount events + reapedCount events = trackedCount events ∧
      ∀ e l', Step l e l' → StepSafe l e l' := by
  have inv := inv_of_run run
  have hlife (k : ℕ) : story k events = [] ∨ ∃ frame, IsLife policy frame (story k events) := by
    by_cases hk : k < l.accepted
    · exact .inr (inv.life k hk)
    · exact .inl (inv.silent k (not_lt.mp hk))
  refine ⟨hlife, ?_, inv.balance, fun _ _ => stepSafe⟩
  intro k frame hmem
  have htold : Fact.tracked frame ∈ story k events :=
    List.mem_flatMap.mpr ⟨_, hmem, by simp [factsOf]⟩
  rcases hlife k with hnil | ⟨frame', hlife⟩
  · rw [hnil] at htold
    cases htold
  · -- a life tells of one tracking only
    obtain ⟨header, m, ending, hdec, hm, hending, hstory⟩ := hlife
    have hframe : frame = frame' := by
      rw [hstory, sent] at htold
      cases hending <;> simpa using htold
    subst hframe
    exact ⟨header, m, ending, hdec, hm, hending, hstory⟩

set_option maxRecDepth 4000 in
/-- The result at a run of two attempts under a clock that stands still: the frame of
node 1 with identifier 7 is tracked, handed out as attempt 2, and reaped. -/
theorem run_outbox_safe_reaped :
    IsLife ⟨2, 0⟩ [0, 0, 0, 0, 1, 0, 0, 0, 7, 0, 0, 0, 0, 0, 0, 0]
      (story 0 [.tracked 0 [0, 0, 0, 0, 1, 0, 0, 0, 7, 0, 0, 0, 0, 0, 0, 0],
        .handedOut 0 [0, 0, 0, 0, 1, 0, 0, 0, 7, 0, 0, 0, 0, 0, 0, 0] 2, .reaped 0 1 7]) := by
  have run : ∃ l, Run Step (start 1 ⟨2, 0⟩)
      [.tracked 0 [0, 0, 0, 0, 1, 0, 0, 0, 7, 0, 0, 0, 0, 0, 0, 0],
        .handedOut 0 [0, 0, 0, 0, 1, 0, 0, 0, 7, 0, 0, 0, 0, 0, 0, 0] 2, .reaped 0 1 7] l :=
    ⟨_, .cons (@Step.track 1 _ _ 5 _ 0 rfl rfl) <|
      .cons (@Step.nextDue 1 _ 5 0 ⟨0, 0, 0, 0⟩ _ _ ⟨_, _⟩ 0 rfl rfl) <|
      .cons (@Step.reap 1 _ 5 _ _ _ 0 rfl rfl) .nil⟩
  obtain ⟨l, run⟩ := run
  exact (run_outbox_safe run).2.1 0 _ List.mem_cons_self

end Ledger

end TetherMesh.Protocol
