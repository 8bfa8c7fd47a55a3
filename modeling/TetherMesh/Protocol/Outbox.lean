import TetherMesh.Math.Bytes
import TetherMesh.Protocol.Header
import TetherMesh.Protocol.Airtime

/-!
# The outbox

Frames that asked to be acknowledged wait in a fixed array of slots until an
acknowledgement retires them, or until every attempt has been used and the last
interval has passed. Slots are reused, and the buffer of a reused slot keeps the
bytes of earlier frames beyond the length of the present one.

## Main definitions

* `RetryPolicy`, `Slot`, `Outbox`
* `Outbox.track`, `Outbox.acknowledge`, `Outbox.reap`, `Outbox.nextDue`

## Main results

* `Outbox.track_cases`, `Outbox.reap_cases`, `Outbox.nextDue_cases` — everything one
  call can do, and `Outbox.track_error` … `Outbox.nextDue_some` answer by answer
* `Outbox.acknowledge_freed`, `Outbox.acknowledge_kept`, `Outbox.acknowledge_hit` — the
  acknowledged entries are freed and nothing else changes
-/

namespace TetherMesh.Protocol

open Math

/-- How many times to send, the first included, and how long to wait in between. -/
structure RetryPolicy where
  maxAttempts : UInt8
  intervalUs : UInt32
  deriving DecidableEq, Repr

namespace RetryPolicy

/-- `RetryPolicy::MEASURED_CEILING`. -/
def measuredCeiling : RetryPolicy := ⟨3, 7000000⟩

/-- `RetryPolicy::SEND_ONCE`. -/
def sendOnce : RetryPolicy := ⟨1, 0⟩

end RetryPolicy

inductive SlotState
  | free
  | pending
  deriving DecidableEq, Repr

/-- One entry of the outbox: a whole frame and its retransmission state. -/
structure Slot where
  state : SlotState
  fromNode : UInt32
  id : UInt32
  attempts : UInt8
  dueUs : UInt64
  len : UInt16
  frame : Vector UInt8 maxFrame
  len_le : len.toNat ≤ maxFrame
  deriving DecidableEq

namespace Slot

/-- `Slot::EMPTY`. -/
def empty : Slot where
  state := .free
  fromNode := 0
  id := 0
  attempts := 0
  dueUs := 0
  len := 0
  frame := Vector.replicate maxFrame 0
  len_le := Nat.zero_le _

/-- The bytes of the stored frame. -/
def bytes (s : Slot) : List UInt8 := s.frame.toList.take s.len.toNat

theorem toNat_ofNat_frame_length {frame : List UInt8} (h : frame.length ≤ maxFrame) :
    (UInt16.ofNat frame.length).toNat = frame.length := by
  rw [UInt16.toNat_ofNat']
  exact Nat.mod_eq_of_lt (h.trans_lt (by decide))

/-- Fill a slot with a frame sent once. The buffer is only overwritten as far as
the frame reaches. -/
def load (s : Slot) (header : Header) (frame : List UInt8) (h : frame.length ≤ maxFrame)
    (dueUs : UInt64) : Slot where
  state := .pending
  fromNode := header.fromNode
  id := header.id
  attempts := 1
  dueUs := dueUs
  len := UInt16.ofNat frame.length
  frame := copyInto s.frame frame
  len_le := by rwa [toNat_ofNat_frame_length h]

/-- Whatever the slot held before, it now holds the frame byte for byte. -/
theorem bytes_load (s : Slot) (header : Header) {frame : List UInt8} (h : frame.length ≤ maxFrame)
    (dueUs : UInt64) : (s.load header frame h dueUs).bytes = frame := by
  change (copyInto s.frame frame).toList.take (UInt16.ofNat frame.length).toNat = frame
  rw [toNat_ofNat_frame_length h, take_copyInto s.frame h]

end Slot

/-- A frame due for retransmission, and which attempt this is. -/
structure Due where
  frame : List UInt8
  attempt : UInt8
  deriving DecidableEq, Repr

/-- Pending transmissions awaiting acknowledgement. -/
structure Outbox (N : ℕ) where
  slots : Vector Slot N
  policy : RetryPolicy
  deriving DecidableEq

namespace Outbox

/-- Why an entry could not be queued. -/
inductive Error
  | full
  | badFrame
  deriving DecidableEq, Repr

variable {N : ℕ}

/-- An empty outbox. -/
def new (policy : RetryPolicy) : Outbox N := ⟨Vector.replicate N Slot.empty, policy⟩

/-- The slot at `i`. -/
def slot (o : Outbox N) (i : Fin N) : Slot := o.slots.get i

/-- Replace the slot at `i`. -/
def put (o : Outbox N) (i : Fin N) (s : Slot) : Outbox N :=
  { o with slots := o.slots.setIfInBounds i s }

/-- How many slots are in use. -/
def len (o : Outbox N) : ℕ := o.slots.countP (·.state = .pending)

/-- Whether nothing is pending. -/
def isEmpty (o : Outbox N) : Bool := o.len = 0

/-- The first free slot. -/
def freeSlot (o : Outbox N) : Option (Fin N) :=
  (List.finRange N).find? fun i => (o.slot i).state = .free

/-- Track a frame that has already been transmitted once. -/
def track (o : Outbox N) (frame : List UInt8) (nowUs : UInt64) : Except Error Unit × Outbox N :=
  if h : frame.length < headerLen ∨ maxFrame < frame.length then
    (.error .badFrame, o)
  else
    match Header.decode frame with
    | none => (.error .badFrame, o)
    | some header =>
      match o.freeSlot with
      | none => (.error .full, o)
      | some i =>
        -- the length fits sixteen bits, so nothing is refused after this point
        let dueUs := nowUs.saturatingAdd o.policy.intervalUs.toUInt64
        let slot := (o.slot i).load header frame (by omega) dueUs
        (.ok (), o.put i slot)

/-- Retire every entry an acknowledgement refers to; answer whether there was one. -/
def acknowledge (o : Outbox N) (requestId : UInt32) : Bool × Outbox N :=
  let matched (i : Fin N) : Bool := (o.slot i).state = .pending ∧ (o.slot i).id = requestId
  ((List.finRange N).any matched,
    { o with slots := Vector.ofFn fun i =>
        if matched i then { o.slot i with state := .free } else (o.slot i) })

/-- The first entry that has used every attempt and waited out the last interval. -/
def reapSlot (o : Outbox N) (nowUs : UInt64) : Option (Fin N) :=
  (List.finRange N).find? fun i =>
    (o.slot i).state = .pending ∧ o.policy.maxAttempts ≤ (o.slot i).attempts ∧
      (o.slot i).dueUs ≤ nowUs

/-- Drop one entry that has been given up, reporting its `(from, id)`. -/
def reap (o : Outbox N) (nowUs : UInt64) : Option (UInt32 × UInt32) × Outbox N :=
  match o.reapSlot nowUs with
  | none => (none, o)
  | some i =>
    let slot := o.slot i
    (some (slot.fromNode, slot.id), o.put i { slot with state := .free })

/-- The first entry due for retransmission. -/
def dueSlot (o : Outbox N) (nowUs : UInt64) : Option (Fin N) :=
  (List.finRange N).find? fun i =>
    (o.slot i).state = .pending ∧ (o.slot i).attempts < o.policy.maxAttempts ∧
      (o.slot i).dueUs ≤ nowUs

/-- The next frame due, if the duty budget allows it. Marks the attempt and
schedules the next; the budget is asked and not charged. -/
def nextDue (o : Outbox N) (nowUs : UInt64) (airtimeUs : Micros) (duty : DutyCycle) :
    Option Due × Outbox N × DutyCycle :=
  match o.dueSlot nowUs with
  | none => (none, o, duty)
  | some i =>
    match duty.wouldPermit nowUs airtimeUs with
    | (false, duty) => (none, o, duty)
    | (true, duty) =>
      let slot := o.slot i
      let slot := { slot with
        attempts := slot.attempts.saturatingAdd 1
        dueUs := nowUs.saturatingAdd o.policy.intervalUs.toUInt64 }
      -- `get(..len)` is in range by `len_le`
      (some ⟨slot.bytes, slot.attempts⟩, o.put i slot, duty)

/-! ## Slots -/

variable {o o' : Outbox N} {i j : Fin N}

@[simp] theorem slot_put_self (o : Outbox N) (i : Fin N) (s : Slot) : (o.put i s).slot i = s := by
  change (o.slots.setIfInBounds i s)[i.val] = s
  exact Vector.getElem_setIfInBounds_self _

theorem slot_put_of_ne (o : Outbox N) (s : Slot) (h : j ≠ i) : (o.put i s).slot j = o.slot j := by
  have hval : i.val ≠ j.val := fun hij => h (Fin.ext hij.symm)
  change (o.slots.setIfInBounds i s)[j.val] = o.slots[j.val]
  exact Vector.getElem_setIfInBounds_ne _ hval

/-- Which slots wait once slot `i` holds `s`. -/
theorem put_pending_iff {s : Slot} : ((o.put i s).slot j).state = .pending ↔
    (j = i ∧ s.state = .pending) ∨ (j ≠ i ∧ (o.slot j).state = .pending) := by
  by_cases hji : j = i
  · subst hji
    simp
  · simp [slot_put_of_ne o s hji, hji]

@[simp] theorem put_policy (o : Outbox N) (i : Fin N) (s : Slot) : (o.put i s).policy = o.policy :=
  rfl

@[simp] theorem slot_new (policy : RetryPolicy) (i : Fin N) :
    (new policy : Outbox N).slot i = Slot.empty := by
  change (Vector.replicate N Slot.empty)[i.val] = Slot.empty
  exact Vector.getElem_replicate _

/-! ## What one call can do -/

variable {frame : List UInt8} {nowUs : UInt64} {airtimeUs : Micros}
  {duty duty' : DutyCycle} {requestId : UInt32} {hit : Bool}

theorem freeSlot_state (h : o.freeSlot = some i) : (o.slot i).state = .free := by
  have hfound := List.find?_some h
  exact of_decide_eq_true hfound

theorem reapSlot_spec (h : o.reapSlot nowUs = some i) :
    (o.slot i).state = .pending ∧ o.policy.maxAttempts ≤ (o.slot i).attempts ∧
      (o.slot i).dueUs ≤ nowUs := by
  have hfound := List.find?_some h
  exact of_decide_eq_true hfound

theorem dueSlot_spec (h : o.dueSlot nowUs = some i) :
    (o.slot i).state = .pending ∧ (o.slot i).attempts < o.policy.maxAttempts ∧
      (o.slot i).dueUs ≤ nowUs := by
  have hfound := List.find?_some h
  exact of_decide_eq_true hfound

/-- When the next attempt is due after one made at `nowUs`. -/
def nextDueUs (o : Outbox N) (nowUs : UInt64) : UInt64 :=
  nowUs.saturatingAdd o.policy.intervalUs.toUInt64

/-- **Inversion of `track`.** A refused frame changes nothing; an accepted one fills
the first free slot. -/
theorem track_cases {r : Except Error Unit} (h : o.track frame nowUs = (r, o')) :
    (∃ e, r = .error e ∧ o' = o) ∨
      ∃ (i : Fin N) (header : Header) (hlen : frame.length ≤ maxFrame),
        r = .ok () ∧ Header.decode frame = some header ∧ o.freeSlot = some i ∧
        o' = o.put i ((o.slot i).load header frame hlen (o.nextDueUs nowUs)) := by
  unfold track at h
  split at h
  · obtain ⟨rfl, rfl⟩ := Prod.mk.inj h
    exact .inl ⟨_, rfl, rfl⟩
  · split at h
    · obtain ⟨rfl, rfl⟩ := Prod.mk.inj h
      exact .inl ⟨_, rfl, rfl⟩
    · next header hdec =>
      split at h
      · obtain ⟨rfl, rfl⟩ := Prod.mk.inj h
        exact .inl ⟨_, rfl, rfl⟩
      · next i hi =>
        obtain ⟨rfl, rfl⟩ := Prod.mk.inj h
        exact .inr ⟨i, header, by omega, rfl, hdec, hi, rfl⟩

/-- A refused frame changes nothing. -/
theorem track_error {why : Error} (h : o.track frame nowUs = (.error why, o')) : o' = o := by
  rcases track_cases h with ⟨_, -, rfl⟩ | ⟨_, _, _, hr, -⟩
  · rfl
  · cases hr

/-- An accepted frame fills the first free slot. -/
theorem track_accepted (h : o.track frame nowUs = (.ok (), o')) (hfree : o.freeSlot = some i) :
    ∃ (header : Header) (hlen : frame.length ≤ maxFrame), Header.decode frame = some header ∧
      o' = o.put i ((o.slot i).load header frame hlen (o.nextDueUs nowUs)) := by
  rcases track_cases h with ⟨_, hr, -⟩ | ⟨i', header, hlen, -, hdec, hfree', rfl⟩
  · cases hr
  · obtain rfl := Option.some.inj (hfree.symm.trans hfree')
    exact ⟨header, hlen, hdec, rfl⟩

/-- A frame of an admissible length is accepted whenever a slot is free. -/
theorem track_ok (hmin : headerLen ≤ frame.length) (hmax : frame.length ≤ maxFrame)
    (hfree : ∃ i : Fin N, (o.slot i).state = .free) (nowUs : UInt64) :
    (o.track frame nowUs).1 = .ok () := by
  have hne : o.freeSlot ≠ none := by
    intro hnone
    obtain ⟨i, hstate⟩ := hfree
    exact List.find?_eq_none.mp hnone i (List.mem_finRange i) (decide_eq_true hstate)
  obtain ⟨i, hi⟩ := Option.ne_none_iff_exists'.mp hne
  obtain ⟨head, rest, rfl⟩ := exists_eq_toList_append hmin
  rw [track, dif_neg (by omega), Header.decode_append]
  dsimp only
  rw [hi]

/-- **Inversion of `reap`.** -/
theorem reap_cases {r : Option (UInt32 × UInt32)} (h : o.reap nowUs = (r, o')) :
    (r = none ∧ o' = o) ∨
      ∃ i : Fin N, o.reapSlot nowUs = some i ∧ r = some ((o.slot i).fromNode, (o.slot i).id) ∧
        o' = o.put i { o.slot i with state := .free } := by
  unfold reap at h
  split at h
  · obtain ⟨rfl, rfl⟩ := Prod.mk.inj h
    exact .inl ⟨rfl, rfl⟩
  · next i hi =>
    obtain ⟨rfl, rfl⟩ := Prod.mk.inj h
    exact .inr ⟨i, hi, rfl, rfl⟩

theorem reap_none (h : o.reap nowUs = (none, o')) : o' = o := by
  rcases reap_cases h with ⟨-, rfl⟩ | ⟨_, _, hr, -⟩
  · rfl
  · cases hr

theorem reap_some {r : UInt32 × UInt32} (h : o.reap nowUs = (some r, o'))
    (hi : o.reapSlot nowUs = some i) :
    r = ((o.slot i).fromNode, (o.slot i).id) ∧ o' = o.put i { o.slot i with state := .free } := by
  rcases reap_cases h with ⟨hr, -⟩ | ⟨i', hi', hr, rfl⟩
  · cases hr
  · obtain rfl := Option.some.inj (hi.symm.trans hi')
    exact ⟨Option.some.inj hr, rfl⟩

/-- The slot after one more attempt. -/
def attempted (o : Outbox N) (i : Fin N) (nowUs : UInt64) : Slot :=
  { o.slot i with
    attempts := (o.slot i).attempts.saturatingAdd 1, dueUs := o.nextDueUs nowUs }

/-- **Inversion of `nextDue`.** Nothing is due, or the duty cycle is asked; it hands out the
first entry that is due only with its permission. -/
theorem nextDue_cases {r : Option Due} (h : o.nextDue nowUs airtimeUs duty = (r, o', duty')) :
    (r = none ∧ o' = o ∧ (duty' = duty ∨ duty' = (duty.wouldPermit nowUs airtimeUs).2)) ∨
      ∃ i : Fin N, o.dueSlot nowUs = some i ∧ (duty.wouldPermit nowUs airtimeUs).1 = true ∧
        duty' = (duty.wouldPermit nowUs airtimeUs).2 ∧
        r = some ⟨(o.slot i).bytes, (o.slot i).attempts.saturatingAdd 1⟩ ∧
        o' = o.put i (o.attempted i nowUs) := by
  unfold nextDue at h
  split at h
  · cases h
    exact .inl ⟨rfl, rfl, .inl rfl⟩
  · next i hi =>
    split at h
    · next hask =>
      cases h
      exact .inl ⟨rfl, rfl, .inr (by rw [hask])⟩
    · next hask =>
      cases h
      exact .inr ⟨i, hi, by rw [hask], by rw [hask], rfl, rfl⟩

/-- With permission, the first entry that is due is handed out. -/
theorem nextDue_of_due (hi : o.dueSlot nowUs = some i)
    (hpermit : (duty.wouldPermit nowUs airtimeUs).1 = true) :
    o.nextDue nowUs airtimeUs duty =
      (some ⟨(o.slot i).bytes, (o.slot i).attempts.saturatingAdd 1⟩,
        o.put i (o.attempted i nowUs), (duty.wouldPermit nowUs airtimeUs).2) := by
  have hask : duty.wouldPermit nowUs airtimeUs = (true, (duty.wouldPermit nowUs airtimeUs).2) :=
    Prod.ext hpermit rfl
  rw [nextDue, hi]
  dsimp only
  rw [hask]
  rfl

theorem nextDue_none (h : o.nextDue nowUs airtimeUs duty = (none, o', duty')) : o' = o := by
  rcases nextDue_cases h with ⟨-, rfl, -⟩ | ⟨_, _, _, _, hr, -⟩
  · rfl
  · cases hr

theorem nextDue_some {due : Due} (h : o.nextDue nowUs airtimeUs duty = (some due, o', duty'))
    (hi : o.dueSlot nowUs = some i) :
    due = ⟨(o.slot i).bytes, (o.slot i).attempts.saturatingAdd 1⟩ ∧
      o' = o.put i (o.attempted i nowUs) := by
  rcases nextDue_cases h with ⟨hr, -⟩ | ⟨i', hi', -, -, hr, rfl⟩
  · cases hr
  · obtain rfl := Option.some.inj (hi.symm.trans hi')
    exact ⟨Option.some.inj hr, rfl⟩

/-- Acknowledging frees a pending entry with that identifier. -/
theorem acknowledge_freed (h : o.acknowledge requestId = (hit, o'))
    (hpend : (o.slot i).state = .pending) (hid : (o.slot i).id = requestId) :
    (o'.slot i) = { o.slot i with state := .free } := by
  obtain ⟨-, rfl⟩ := Prod.mk.inj h
  refine (Vector.getElem_ofFn _).trans ?_
  exact if_pos (decide_eq_true ⟨hpend, hid⟩)

/-- It leaves every other slot as it is. -/
theorem acknowledge_kept (h : o.acknowledge requestId = (hit, o'))
    (hother : ¬ ((o.slot i).state = .pending ∧ (o.slot i).id = requestId)) :
    (o'.slot i) = (o.slot i) := by
  obtain ⟨-, rfl⟩ := Prod.mk.inj h
  refine (Vector.getElem_ofFn _).trans ?_
  exact if_neg fun hmatch => hother (of_decide_eq_true hmatch)

theorem acknowledge_pending_iff (h : o.acknowledge requestId = (hit, o')) (i : Fin N) :
    (o'.slot i).state = .pending ↔ (o.slot i).state = .pending ∧ (o.slot i).id ≠ requestId := by
  by_cases hmatch : (o.slot i).state = .pending ∧ (o.slot i).id = requestId
  · rw [acknowledge_freed h hmatch.1 hmatch.2]
    exact ⟨fun hpend => SlotState.noConfusion hpend, fun hboth => absurd hmatch.2 hboth.2⟩
  · rw [acknowledge_kept h hmatch]
    exact ⟨fun hpend => ⟨hpend, fun hid => hmatch ⟨hpend, hid⟩⟩, And.left⟩

/-- The answer is whether some pending entry had that identifier. -/
theorem acknowledge_hit (h : o.acknowledge requestId = (hit, o')) :
    hit = true ↔ ∃ i : Fin N, (o.slot i).state = .pending ∧ (o.slot i).id = requestId := by
  obtain ⟨rfl, -⟩ := Prod.mk.inj h
  rw [List.any_eq_true]
  constructor
  · intro ⟨i, _, hmatch⟩
    exact ⟨i, of_decide_eq_true hmatch⟩
  · intro ⟨i, hmatch⟩
    exact ⟨i, List.mem_finRange i, decide_eq_true hmatch⟩

theorem acknowledge_policy (h : o.acknowledge requestId = (hit, o')) : o'.policy = o.policy := by
  obtain ⟨-, rfl⟩ := Prod.mk.inj h
  rfl

end Outbox

end TetherMesh.Protocol
