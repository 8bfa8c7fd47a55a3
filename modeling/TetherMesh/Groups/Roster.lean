import TetherMesh.CS.LabelledRun
import TetherMesh.CS.SlotTable
import TetherMesh.Groups.Envelope

/-!
# The roster

A group has one owner, an epoch and at most `N` members, kept in a fixed array where node
number zero marks a free slot. Over any calls, by the owner or by strangers, it is a finite
map from node numbers to public keys.

## Main definitions

* `Member`, `Roster`, `RosterCall`, `Roster.perform`
* `Membership` — what a roster is for: an owner, an epoch and a finite map
* `Represents`, `Roster.Agrees` — a roster stands for a membership, and reports it

## Main results

* `Represents.perform` — a call answers and does what it does to the membership
* `Membership.run_epochs` — the epochs handed out only grow
* `Roster.run_is_membership`
-/

namespace TetherMesh.Groups

open CS

/-- A node number, and the public key an invite is wrapped to. -/
structure Member where
  /-- Zero means an empty slot. -/
  node : UInt32
  publicKey : Vector UInt8 32
  deriving DecidableEq

namespace Member

/-- An empty slot. -/
def vacant : Member := ⟨0, Vector.replicate 32 0⟩

/-- What a slot holds. -/
def entry (m : Member) : Option (UInt32 × Vector UInt8 32) :=
  if m.node = 0 then none else some (m.node, m.publicKey)

theorem entry_eq_some_iff {m : Member} {node : UInt32} {key : Vector UInt8 32} :
    m.entry = some (node, key) ↔ node ≠ 0 ∧ m = ⟨node, key⟩ := by
  rw [entry]
  split
  · next hzero =>
    refine ⟨nofun, ?_⟩
    rintro ⟨hnode, rfl⟩
    exact absurd hzero hnode
  · next hnode =>
    rw [Option.some_inj, Prod.mk.injEq]
    constructor
    · rintro ⟨rfl, rfl⟩
      exact ⟨hnode, rfl⟩
    · rintro ⟨-, rfl⟩
      exact ⟨rfl, rfl⟩

theorem entry_of_ne {m : Member} (h : m.node ≠ 0) : m.entry = some (m.node, m.publicKey) :=
  entry_eq_some_iff.mpr ⟨h, rfl⟩

theorem entry_eq_none_iff {m : Member} : m.entry = none ↔ m.node = 0 := by
  rw [entry]
  split
  · next hzero => exact ⟨fun _ => hzero, fun _ => rfl⟩
  · next hnode => exact ⟨nofun, fun hzero => absurd hzero hnode⟩

end Member

/-- Membership, in fixed capacity. -/
structure Roster (N : ℕ) where
  owner : UInt32
  epoch : UInt8
  members : Vector Member N
  deriving DecidableEq

namespace Roster

variable {N : ℕ}

/-- A new roster, at epoch 0. -/
def new (owner : UInt32) : Roster N := ⟨owner, 0, Vector.replicate N .vacant⟩

/-- How many members are held. -/
def len (r : Roster N) : ℕ := r.members.countP (·.node ≠ 0)

/-- Whether the roster holds nobody. -/
def isEmpty (r : Roster N) : Bool := r.len = 0

/-- Whether `node` is a member. -/
def contains (r : Roster N) (node : UInt32) : Bool :=
  node ≠ 0 ∧ r.members.any (·.node = node)

/-- `members()`: the members currently held, in the order of their slots. -/
def held (r : Roster N) : List Member := r.members.toList.filter (·.node ≠ 0)

/-- The first slot that satisfies `p`. -/
def find (r : Roster N) (p : Member → Bool) : Option (Fin N) :=
  (List.finRange N).find? fun i => p (r.members.get i)

/-- Replace a slot. -/
def put (r : Roster N) (i : Fin N) (m : Member) : Roster N :=
  { r with members := r.members.set i m i.isLt }

/-- Add a member, or replace the key of one already present. -/
def add (r : Roster N) (actor node : UInt32) (publicKey : Vector UInt8 32) :
    Except Error Unit × Roster N :=
  if actor ≠ r.owner then (.error .notOwner, r)
  else if node = 0 then (.error .malformed, r)
  else
    match r.find (·.node = node) with
    | some slot => (.ok (), r.put slot { r.members.get slot with publicKey })
    | none =>
      match r.find (·.node = 0) with
      | none => (.error .rosterFull, r)
      | some slot => (.ok (), r.put slot { r.members.get slot with node, publicKey })

/-- Remove a member; answer whether one was present. -/
def remove (r : Roster N) (actor node : UInt32) : Except Error Bool × Roster N :=
  if actor ≠ r.owner then (.error .notOwner, r)
  else
    match r.find fun m => m.node = node ∧ node ≠ 0 with
    | some slot => (.ok true, r.put slot .vacant)
    | none => (.ok false, r)

/-- Advance the epoch. -/
def bumpEpoch (r : Roster N) (actor : UInt32) : Except Error UInt8 × Roster N :=
  if actor ≠ r.owner then (.error .notOwner, r)
  else
    -- a wrap to zero would bring back the keys and nonces of an earlier epoch
    match r.epoch.checkedAdd 1 with
    | none => (.error .epochExhausted, r)
    | some next => (.ok next, { r with epoch := next })

end Roster

/-- A call that changes a roster. -/
inductive RosterCall
  | add (actor node : UInt32) (publicKey : Vector UInt8 32)
  | remove (actor node : UInt32)
  | bumpEpoch (actor : UInt32)
  deriving DecidableEq

/-- Who calls. -/
def RosterCall.actor : RosterCall → UInt32
  | add actor _ _ => actor
  | remove actor _ => actor
  | bumpEpoch actor => actor

/-- What a call answers. -/
inductive RosterAnswer
  | added
  /-- `remove`, and whether the node was present. -/
  | removed (present : Bool)
  /-- `bump_epoch`, and the new epoch. -/
  | bumped (epoch : UInt8)
  | refused (e : Error)
  deriving DecidableEq

/-- The answer of a call that can fail. -/
def RosterAnswer.of {α : Type} (answer : α → RosterAnswer) : Except Error α → RosterAnswer
  | .ok a => answer a
  | .error e => refused e

/-- One call. -/
def Roster.perform {N : ℕ} (r : Roster N) : RosterCall → RosterAnswer × Roster N
  | .add actor node publicKey =>
    let (result, r) := r.add actor node publicKey
    (.of (fun _ => .added) result, r)
  | .remove actor node =>
    let (result, r) := r.remove actor node
    (.of .removed result, r)
  | .bumpEpoch actor =>
    let (result, r) := r.bumpEpoch actor
    (.of .bumped result, r)

/-! ## Memberships -/

/-- What a roster is for: an owner, an epoch, and the public key of every member. -/
structure Membership where
  owner : UInt32
  epoch : ℕ
  keys : Finmap fun _ : UInt32 => Vector UInt8 32

namespace Membership

/-- Nobody, at epoch 0. -/
def new (owner : UInt32) : Membership := ⟨owner, 0, ∅⟩

/-- What a call is to do, with room for `capacity` members. -/
def perform (capacity : ℕ) (m : Membership) (call : RosterCall) : RosterAnswer × Membership :=
  if call.actor ≠ m.owner then (.refused .notOwner, m)
  else
    match call with
    | .add _ node publicKey =>
      if node = 0 then (.refused .malformed, m)
      else if node ∈ m.keys ∨ m.keys.keys.card < capacity then
        (.added, { m with keys := m.keys.insert node publicKey })
      else (.refused .rosterFull, m)
    | .remove _ node => (.removed (node ∈ m.keys), { m with keys := m.keys.erase node })
    | .bumpEpoch _ =>
      if m.epoch < 255 then
        (.bumped (UInt8.ofNat (m.epoch + 1)), { m with epoch := m.epoch + 1 })
      else (.refused .epochExhausted, m)

end Membership

/-! ## The slots of a roster -/

namespace Roster

variable {N : ℕ} {r r' : Roster N} {p : Member → Bool} {i : Fin N}

/-- What the slots hold. -/
def slots (r : Roster N) : List (Option (UInt32 × Vector UInt8 32)) :=
  r.members.toList.map Member.entry

@[simp] theorem length_slots (r : Roster N) : r.slots.length = N := by
  rw [slots, List.length_map, Vector.length_toList]

theorem mem_slots_iff {o : Option (UInt32 × Vector UInt8 32)} :
    o ∈ r.slots ↔ ∃ i, (r.members.get i).entry = o := by
  rw [slots, List.mem_map]
  constructor
  · rintro ⟨m, hm, rfl⟩
    obtain ⟨i, hi, rfl⟩ := Vector.mem_iff_getElem.mp (Vector.mem_toList_iff.mp hm)
    exact ⟨⟨i, hi⟩, rfl⟩
  · rintro ⟨i, rfl⟩
    exact ⟨_, Vector.mem_toList_iff.mpr (Vector.getElem_mem i.isLt), rfl⟩

/-- A slot replaced, between those in front of it and those behind. -/
theorem exists_slots_put (r : Roster N) (i : Fin N) (m : Member) : ∃ front back,
    r.slots = front ++ (r.members.get i).entry :: back ∧
      (r.put i m).slots = front ++ m.entry :: back := by
  have hi : i.val < r.members.toList.length := by rw [Vector.length_toList]; exact i.isLt
  obtain ⟨front, back, hlist, -, hset⟩ : ∃ front back, r.members.toList =
      front ++ r.members.toList[i.val] :: back ∧ front.length = i.val ∧
        r.members.toList.set i m = front ++ m :: back := List.exists_of_set hi
  refine ⟨front.map Member.entry, back.map Member.entry, ?_, ?_⟩
  · rw [slots, ← List.map_cons, ← List.map_append]
    exact congrArg (List.map Member.entry) hlist
  · rw [slots, ← List.map_cons, ← List.map_append]
    exact congrArg (List.map Member.entry) hset

theorem find_some (h : r.find p = some i) : p (r.members.get i) = true :=
  List.find?_some (p := fun i => p (r.members.get i)) h

theorem find_none (h : r.find p = none) (i : Fin N) : p (r.members.get i) = false :=
  Bool.not_eq_true _ ▸ List.find?_eq_none.mp h i (List.mem_finRange i)

/-- A node that is not found is in no slot. -/
theorem notMem_slots_of_find {node : UInt32} (h : r.find (·.node = node) = none)
    (key : Vector UInt8 32) : some (node, key) ∉ r.slots := by
  intro hmem
  obtain ⟨i, hi⟩ := mem_slots_iff.mp hmem
  obtain ⟨-, hmember⟩ := Member.entry_eq_some_iff.mp hi
  have hnone := find_none h i
  rw [hmember] at hnone
  exact absurd rfl (of_decide_eq_false hnone)

/-- Where no slot is zero, none is free. -/
theorem none_notMem_slots_of_find (h : r.find (·.node = 0) = none) : none ∉ r.slots := by
  intro hmem
  obtain ⟨i, hi⟩ := mem_slots_iff.mp hmem
  exact of_decide_eq_false (find_none h i) (Member.entry_eq_none_iff.mp hi)

theorem held_map_eq (r : Roster N) :
    r.held.map (fun m => (m.node, m.publicKey)) = r.slots.reduceOption := by
  rw [held, slots]
  induction r.members.toList with
  | nil => rfl
  | cons m ms ih =>
    by_cases hzero : m.node = 0
    · rw [List.map_cons, Member.entry_eq_none_iff.mpr hzero, List.reduceOption_cons_of_none,
        List.filter_cons_of_neg (by simpa using hzero), ih]
    · rw [List.map_cons, Member.entry_of_ne hzero, List.reduceOption_cons_of_some,
        List.filter_cons_of_pos (by simpa using hzero), List.map_cons, ih]

theorem len_eq_length_held (r : Roster N) : r.len = r.held.length := by
  rw [len, held, ← Vector.countP_toList, List.countP_eq_length_filter]

end Roster

/-! ## A roster stands for a membership -/

variable {N : ℕ} {r r' : Roster N} {m m' : Membership} {owner : UInt32}

/-- The slots hold the keys of the membership. -/
structure Represents (r : Roster N) (m : Membership) : Prop where
  owner : r.owner = m.owner
  epoch : r.epoch.toNat = m.epoch
  holds : SlotTable.Holds r.slots m.keys

theorem represents_new (N : ℕ) (owner : UInt32) :
    Represents (Roster.new owner : Roster N) (.new owner) where
  owner := rfl
  epoch := rfl
  holds := by
    have hslots : (Roster.new owner : Roster N).slots = List.replicate N none := by
      rw [Roster.slots, Roster.new, Vector.toList_replicate, List.map_replicate]
      rfl
    rw [hslots]
    exact SlotTable.holds_replicate_none N

namespace Represents

/-- Node zero is never a member. -/
theorem zero_notMem (h : Represents r m) : 0 ∉ m.keys := by
  intro hmem
  obtain ⟨key, hslot⟩ := h.holds.mem_iff.mp hmem
  obtain ⟨i, hi⟩ := Roster.mem_slots_iff.mp hslot
  exact (Member.entry_eq_some_iff.mp hi).1 rfl

/-- A member found in its slot. -/
theorem entry_of_find {node : UInt32} {i : Fin N} (hnode : node ≠ 0)
    (hfind : r.find (·.node = node) = some i) :
    (r.members.get i).entry = some (node, (r.members.get i).publicKey) := by
  have heq : (r.members.get i).node = node := of_decide_eq_true (Roster.find_some hfind)
  rw [Member.entry_of_ne (heq.symm ▸ hnode), heq]

theorem mem_of_find {node : UInt32} {i : Fin N} (h : Represents r m) (hnode : node ≠ 0)
    (hfind : r.find (·.node = node) = some i) : node ∈ m.keys :=
  h.holds.mem_iff.mpr ⟨_, Roster.mem_slots_iff.mpr ⟨i, entry_of_find hnode hfind⟩⟩

theorem notMem_of_find {node : UInt32} (h : Represents r m)
    (hfind : r.find (·.node = node) = none) : node ∉ m.keys := by
  intro hmem
  obtain ⟨key, hslot⟩ := h.holds.mem_iff.mp hmem
  exact Roster.notMem_slots_of_find hfind key hslot

end Represents

/-! ## What a call does -/

/-- A stranger changes nothing. -/
theorem Roster.perform_of_ne {call : RosterCall} (h : call.actor ≠ r.owner) :
    r.perform call = (.refused .notOwner, r) := by
  cases call with
  | add actor node key =>
    have hne : actor ≠ r.owner := h
    rw [Roster.perform, Roster.add, if_pos hne]
    rfl
  | remove actor node =>
    have hne : actor ≠ r.owner := h
    rw [Roster.perform, Roster.remove, if_pos hne]
    rfl
  | bumpEpoch actor =>
    have hne : actor ≠ r.owner := h
    rw [Roster.perform, Roster.bumpEpoch, if_pos hne]
    rfl

namespace Represents

variable {actor node : UInt32} {key : Vector UInt8 32} {i : Fin N}

/-- A slot that takes an entry instead of what it had. -/
theorem put {x : Member} (h : Represents r m) {keys : Finmap fun _ : UInt32 => Vector UInt8 32}
    (hput : ∀ front back, SlotTable.Holds (front ++ (r.members.get i).entry :: back) m.keys →
      SlotTable.Holds (front ++ x.entry :: back) keys) :
    Represents (r.put i x) { m with keys } where
  owner := h.owner
  epoch := h.epoch
  holds := by
    obtain ⟨front, back, hslots, hslots'⟩ := r.exists_slots_put i x
    rw [hslots']
    exact hput front back (hslots ▸ h.holds)

theorem add (h : Represents r m) (hactor : actor = r.owner) : ∃ a r' m',
    r.perform (.add actor node key) = (a, r') ∧ m.perform N (.add actor node key) = (a, m') ∧
      Represents r' m' := by
  have howner : (RosterCall.add actor node key).actor = m.owner := hactor.trans h.owner
  rw [Roster.perform, Roster.add, if_neg (not_not.mpr hactor), Membership.perform,
    if_neg (not_not.mpr howner)]
  by_cases hzero : node = 0
  · rw [if_pos hzero, if_pos hzero]
    exact ⟨_, _, _, rfl, rfl, h⟩
  rw [if_neg hzero, if_neg hzero]
  cases hfind : r.find (·.node = node) with
  | some i =>
    -- a key replaced in its slot
    rw [if_pos (.inl (h.mem_of_find hzero hfind))]
    refine ⟨_, _, _, rfl, rfl, h.put fun front back hold => ?_⟩
    rw [entry_of_find hzero hfind] at hold
    have heq : (r.members.get i).node = node := of_decide_eq_true (Roster.find_some hfind)
    rw [Member.entry_of_ne (heq.symm ▸ hzero), heq]
    exact hold.replace
  | none =>
    have hnot := h.notMem_of_find hfind
    cases hfree : r.find (·.node = 0) with
    | none =>
      -- every slot is in use
      have hfull : ¬ m.keys.keys.card < N := by
        rw [← r.length_slots, ← h.holds.none_mem_iff]
        exact Roster.none_notMem_slots_of_find hfree
      rw [if_neg (not_or.mpr ⟨hnot, hfull⟩)]
      exact ⟨_, _, _, rfl, rfl, h⟩
    | some i =>
      -- a free slot, so the map is not full
      have hentry : (r.members.get i).entry = none :=
        Member.entry_eq_none_iff.mpr (of_decide_eq_true (Roster.find_some hfree))
      have hroom : m.keys.keys.card < N := by
        have hlt := h.holds.none_mem_iff.mp (Roster.mem_slots_iff.mpr ⟨i, hentry⟩)
        rwa [r.length_slots] at hlt
      rw [if_pos (.inr hroom)]
      refine ⟨_, _, _, rfl, rfl, h.put fun front back hold => ?_⟩
      rw [hentry] at hold
      rw [Member.entry_of_ne hzero]
      exact hold.fill hnot

theorem remove (h : Represents r m) (hactor : actor = r.owner) : ∃ a r' m',
    r.perform (.remove actor node) = (a, r') ∧ m.perform N (.remove actor node) = (a, m') ∧
      Represents r' m' := by
  have howner : (RosterCall.remove actor node).actor = m.owner := hactor.trans h.owner
  rw [Roster.perform, Roster.remove, if_neg (not_not.mpr hactor), Membership.perform,
    if_neg (not_not.mpr howner)]
  -- node 0 is what a free slot carries, and is never found
  cases hfind : r.find fun m => m.node = node ∧ node ≠ 0 with
  | some i =>
    obtain ⟨heq, hzero⟩ := of_decide_eq_true (Roster.find_some hfind)
    have hentry : (r.members.get i).entry = some (node, (r.members.get i).publicKey) := by
      rw [Member.entry_of_ne (heq.symm ▸ hzero), heq]
    have hmem : node ∈ m.keys :=
      h.holds.mem_iff.mpr ⟨_, Roster.mem_slots_iff.mpr ⟨i, hentry⟩⟩
    rw [decide_eq_true hmem]
    refine ⟨_, _, _, rfl, rfl, h.put fun front back hold => ?_⟩
    rw [hentry] at hold
    exact hold.release
  | none =>
    have hmem : node ∉ m.keys := by
      intro hmem
      have hzero : node ≠ 0 := fun hzero => h.zero_notMem (hzero ▸ hmem)
      obtain ⟨key, hslot⟩ := h.holds.mem_iff.mp hmem
      obtain ⟨i, hi⟩ := Roster.mem_slots_iff.mp hslot
      obtain ⟨-, hmember⟩ := Member.entry_eq_some_iff.mp hi
      exact of_decide_eq_false (Roster.find_none hfind i) ⟨by rw [hmember], hzero⟩
    rw [decide_eq_false hmem, SlotTable.erase_of_notMem hmem]
    exact ⟨_, _, _, rfl, rfl, h⟩

theorem bumpEpoch (h : Represents r m) (hactor : actor = r.owner) : ∃ a r' m',
    r.perform (.bumpEpoch actor) = (a, r') ∧ m.perform N (.bumpEpoch actor) = (a, m') ∧
      Represents r' m' := by
  have howner : (RosterCall.bumpEpoch actor).actor = m.owner := hactor.trans h.owner
  rw [Roster.perform, Roster.bumpEpoch, if_neg (not_not.mpr hactor), Membership.perform,
    if_neg (not_not.mpr howner), ← h.epoch]
  by_cases hroom : r.epoch.toNat < 255
  · have hnext : r.epoch.checkedAdd 1 = some (UInt8.ofNat (r.epoch.toNat + 1)) := by
      have hfits : r.epoch.toNat + (1 : UInt8).toNat < 2 ^ 8 := Nat.succ_lt_succ hroom
      rw [UInt8.checkedAdd, if_pos hfits, UInt8.ofNat_add, UInt8.ofNat_toNat]
      rfl
    rw [if_pos hroom, hnext]
    refine ⟨_, _, _, rfl, rfl, h.owner, ?_, h.holds⟩
    rw [UInt8.toNat_ofNat_of_lt' (Nat.succ_lt_succ hroom)]
  · have hnext : r.epoch.checkedAdd 1 = none := by
      rw [UInt8.checkedAdd, if_neg]
      exact fun hlt => hroom (Nat.lt_of_succ_lt_succ hlt)
    rw [if_neg hroom, hnext]
    exact ⟨_, _, _, rfl, rfl, h⟩

/-- **One call.** A roster answers what its membership does, and goes on standing for it. -/
theorem perform (h : Represents r m) (call : RosterCall) : ∃ a r' m',
    r.perform call = (a, r') ∧ m.perform N call = (a, m') ∧ Represents r' m' := by
  by_cases hactor : call.actor = r.owner
  · cases call with
    | add actor node key => exact h.add hactor
    | remove actor node => exact h.remove hactor
    | bumpEpoch actor => exact h.bumpEpoch hactor
  · refine ⟨_, _, _, Roster.perform_of_ne hactor, ?_, h⟩
    unfold Membership.perform
    rw [if_pos (h.owner ▸ hactor)]

end Represents

/-! ## What a roster reports -/

/-- Everything a roster reports is as its membership has it. -/
structure Roster.Agrees (r : Roster N) (m : Membership) : Prop where
  owner : r.owner = m.owner
  epoch : r.epoch.toNat = m.epoch
  /-- No node is in two slots. -/
  distinct : ∀ i j, (r.members.get i).node ≠ 0 →
    (r.members.get i).node = (r.members.get j).node → i = j
  zero_notMem : 0 ∉ m.keys
  len : r.len = m.keys.keys.card
  len_le : r.len ≤ N
  isEmpty : r.isEmpty = true ↔ m.keys.keys = ∅
  contains : ∀ node, r.contains node = true ↔ node ∈ m.keys
  held : ∀ node key, ⟨node, key⟩ ∈ r.held ↔ m.keys.lookup node = some key

namespace Represents

theorem distinct (h : Represents r m) {i j : Fin N} (hnode : (r.members.get i).node ≠ 0)
    (heq : (r.members.get i).node = (r.members.get j).node) : i = j := by
  have hpairwise := List.pairwise_map.mp h.holds.nodup
  rw [List.reduceOption, List.pairwise_filterMap, Roster.slots, List.pairwise_map,
    List.pairwise_iff_getElem] at hpairwise
  have hlen : r.members.toList.length = N := Vector.length_toList
  -- two slots in order do not hold one node
  have hlt : ∀ i j : Fin N, i < j → (r.members.get i).node ≠ 0 →
      (r.members.get i).node ≠ (r.members.get j).node := by
    intro i j hij hi heq
    exact hpairwise i j (hlen.symm ▸ i.isLt) (hlen.symm ▸ j.isLt) hij _
      (Member.entry_of_ne hi) _ (Member.entry_of_ne (heq ▸ hi)) heq
  rcases lt_trichotomy i j with hij | hij | hij
  · exact absurd heq (hlt i j hij hnode)
  · exact hij
  · exact absurd heq.symm (hlt j i hij (heq ▸ hnode))

theorem len (h : Represents r m) : r.len = m.keys.keys.card := by
  rw [h.holds.card_keys, ← r.held_map_eq, List.length_map, r.len_eq_length_held]

theorem contains (h : Represents r m) (node : UInt32) :
    r.contains node = true ↔ node ∈ m.keys := by
  rw [Roster.contains, decide_eq_true_iff, Vector.any_eq_true, h.holds.mem_iff]
  constructor
  · rintro ⟨hzero, i, hi, heq⟩
    obtain rfl := of_decide_eq_true heq
    exact ⟨_, Roster.mem_slots_iff.mpr ⟨⟨i, hi⟩, Member.entry_of_ne hzero⟩⟩
  · rintro ⟨key, hslot⟩
    obtain ⟨i, hi⟩ := Roster.mem_slots_iff.mp hslot
    obtain ⟨hzero, hmember⟩ := Member.entry_eq_some_iff.mp hi
    exact ⟨hzero, i, i.isLt, decide_eq_true (congrArg Member.node hmember)⟩

theorem mem_held (h : Represents r m) (node : UInt32) (key : Vector UInt8 32) :
    ⟨node, key⟩ ∈ r.held ↔ m.keys.lookup node = some key := by
  rw [h.holds.lookup_iff, ← List.reduceOption_mem_iff, ← r.held_map_eq, List.mem_map]
  constructor
  · intro hmem
    exact ⟨_, hmem, rfl⟩
  · rintro ⟨x, hmem, heq⟩
    obtain ⟨rfl, rfl⟩ := Prod.mk.inj heq
    exact hmem

theorem agrees (h : Represents r m) : r.Agrees m where
  owner := h.owner
  epoch := h.epoch
  distinct _ _ := h.distinct
  zero_notMem := h.zero_notMem
  len := h.len
  len_le := Vector.countP_le_size
  isEmpty := by rw [Roster.isEmpty, decide_eq_true_iff, h.len, Finset.card_eq_zero]
  contains := h.contains
  held := h.mem_held

end Represents

/-! ## Runs -/

/-- One call and its answer. -/
def Roster.Step (r : Roster N) (label : RosterCall × RosterAnswer) (r' : Roster N) : Prop :=
  r.perform label.1 = (label.2, r')

/-- The same of a membership. -/
def Membership.Step (capacity : ℕ) (m : Membership) (label : RosterCall × RosterAnswer)
    (m' : Membership) : Prop :=
  m.perform capacity label.1 = (label.2, m')

/-- The epochs handed out, in order. -/
def bumpedEpochs (labels : List (RosterCall × RosterAnswer)) : List UInt8 :=
  labels.filterMap fun
    | (_, .bumped epoch) => some epoch
    | _ => none

@[simp] theorem bumpedEpochs_append (xs ys : List (RosterCall × RosterAnswer)) :
    bumpedEpochs (xs ++ ys) = bumpedEpochs xs ++ bumpedEpochs ys := List.filterMap_append

variable {label : RosterCall × RosterAnswer} {labels : List (RosterCall × RosterAnswer)}

theorem Represents.run (h : Represents r m) (run : Run Roster.Step r labels r') :
    ∃ m', Run (Membership.Step N) m labels m' ∧ Represents r' m' := by
  induction run with
  | nil => exact ⟨m, .nil, h⟩
  | snoc _ hstep ih =>
    obtain ⟨m₁, hrun, hrep⟩ := ih
    obtain ⟨a, r₂, m₂, hroster, hmembership, hrep'⟩ := hrep.perform _
    obtain ⟨rfl, rfl⟩ := Prod.mk.inj (hroster.symm.trans hstep)
    exact ⟨m₂, .snoc hrun hmembership, hrep'⟩

/-- The owner stays, and only a bump moves the epoch, by one. -/
theorem Membership.Step.cases (h : Membership.Step N m label m') : m'.owner = m.owner ∧
    ((∃ e : UInt8, bumpedEpochs [label] = [e] ∧ e.toNat = m.epoch + 1 ∧ m'.epoch = m.epoch + 1) ∨
      bumpedEpochs [label] = [] ∧ m'.epoch = m.epoch) := by
  obtain ⟨call, answer⟩ := label
  have hperform : m.perform N call = (answer, m') := h
  cases call with
  | add actor node key =>
    rw [Membership.perform] at hperform
    split_ifs at hperform <;> obtain ⟨rfl, rfl⟩ := Prod.mk.inj hperform <;>
      exact ⟨rfl, .inr ⟨rfl, rfl⟩⟩
  | remove actor node =>
    rw [Membership.perform] at hperform
    split_ifs at hperform <;> obtain ⟨rfl, rfl⟩ := Prod.mk.inj hperform <;>
      exact ⟨rfl, .inr ⟨rfl, rfl⟩⟩
  | bumpEpoch actor =>
    rw [Membership.perform] at hperform
    split_ifs at hperform with _ hroom
    · obtain ⟨rfl, rfl⟩ := Prod.mk.inj hperform
      exact ⟨rfl, .inr ⟨rfl, rfl⟩⟩
    · obtain ⟨rfl, rfl⟩ := Prod.mk.inj hperform
      exact ⟨rfl, .inl ⟨_, rfl, UInt8.toNat_ofNat_of_lt' (Nat.succ_lt_succ hroom), rfl⟩⟩
    · obtain ⟨rfl, rfl⟩ := Prod.mk.inj hperform
      exact ⟨rfl, .inr ⟨rfl, rfl⟩⟩

/-- There is one owner for good. -/
theorem Membership.run_owner (run : Run (Membership.Step N) m labels m') : m'.owner = m.owner := by
  induction run with
  | nil => rfl
  | snoc _ hstep ih => exact hstep.cases.1.trans ih

/-- The epochs handed out only grow, from zero up to the present one. -/
theorem Membership.run_epochs (run : Run (Membership.Step N) (.new owner) labels m) :
    (0 :: bumpedEpochs labels).Pairwise (· < ·) ∧
      ∀ e ∈ 0 :: bumpedEpochs labels, e.toNat ≤ m.epoch := by
  induction run with
  | nil => exact ⟨List.pairwise_singleton .., by simp [bumpedEpochs]⟩
  | snoc _ hstep ih =>
    obtain ⟨hsorted, hbelow⟩ := ih
    rw [bumpedEpochs_append, ← List.cons_append]
    rcases hstep.cases.2 with ⟨e, he, hnext, hepoch⟩ | ⟨he, hepoch⟩
    · -- the new epoch is above the present one, and so above all before
      rw [he, hepoch]
      refine ⟨List.pairwise_append.mpr ⟨hsorted, List.pairwise_singleton .., ?_⟩, ?_⟩
      · intro x hx y hy
        rw [List.mem_singleton.mp hy, UInt8.lt_iff_toNat_lt, hnext]
        exact Nat.lt_succ_of_le (hbelow x hx)
      · intro x hx
        rcases List.mem_append.mp hx with hx | hx
        · exact (hbelow x hx).trans (Nat.le_succ _)
        · rw [List.mem_singleton.mp hx, hnext]
    · rw [he, hepoch, List.append_nil]
      exact ⟨hsorted, hbelow⟩

/-- At the last epoch nothing more is handed out. -/
theorem Membership.run_exhausted (hlast : m.epoch = 255)
    (run : Run (Membership.Step N) m labels m') : bumpedEpochs labels = [] ∧ m'.epoch = 255 := by
  induction run with
  | nil => exact ⟨rfl, hlast⟩
  | snoc _ hstep ih =>
    obtain ⟨hnone, hepoch⟩ := ih
    rw [bumpedEpochs_append, hnone, List.nil_append]
    rcases hstep.cases.2 with ⟨e, -, hnext, -⟩ | ⟨he, hsame⟩
    · -- there is no epoch 256
      have hlt := e.toNat_lt
      omega
    · exact ⟨he, hsame.trans hepoch⟩

/-- A refused call leaves the roster as it was. -/
theorem Roster.perform_refused {call : RosterCall} {e : Error}
    (h : (r.perform call).1 = .refused e) : (r.perform call).2 = r := by
  cases call with
  | add actor node key =>
    simp only [Roster.perform, Roster.add] at h ⊢
    split_ifs at h ⊢
    · rfl
    · rfl
    · split at h <;> (try split at h) <;> simp_all [RosterAnswer.of]
  | remove actor node =>
    simp only [Roster.perform, Roster.remove] at h ⊢
    split_ifs at h ⊢
    · rfl
    · split at h <;> cases h
  | bumpEpoch actor =>
    simp only [Roster.perform, Roster.bumpEpoch] at h ⊢
    split_ifs at h ⊢
    · rfl
    · split at h
      · simp_all
      · cases h

/-- **A roster is a finite map with one owner.** After any calls it agrees with the membership
that the same calls, with the same answers, make of an empty one, and so does it after any one
call more; a call by a stranger, or refused for another reason, changes nothing; the epochs
handed out only grow, and at 255 there are no more. -/
theorem Roster.run_is_membership (run : Run Roster.Step (Roster.new owner : Roster N) labels r) :
    ∃ m, Run (Membership.Step N) (.new owner) labels m ∧ r.Agrees m ∧
      (∀ call, (m.perform N call).1 = (r.perform call).1 ∧
        (r.perform call).2.Agrees (m.perform N call).2) ∧
      (∀ call, call.actor ≠ owner → r.perform call = (.refused .notOwner, r)) ∧
      (∀ call e, (r.perform call).1 = .refused e → (r.perform call).2 = r) ∧
      (0 :: bumpedEpochs labels).Pairwise (· < ·) ∧
      (r.epoch = 255 → ∀ labels' r', Run Roster.Step r labels' r' → bumpedEpochs labels' = []) := by
  obtain ⟨m, hrun, hrep⟩ := (represents_new N owner).run run
  have howner : r.owner = owner := hrep.owner.trans (Membership.run_owner hrun)
  refine ⟨m, hrun, hrep.agrees, ?_, ?_, fun _ _ => perform_refused, ?_, ?_⟩
  · intro call
    obtain ⟨a, r', m', hroster, hmembership, hrep'⟩ := hrep.perform call
    rw [hroster, hmembership]
    exact ⟨rfl, hrep'.agrees⟩
  · intro call hactor
    exact perform_of_ne (howner ▸ hactor)
  · exact (Membership.run_epochs hrun).1
  · intro hlast labels' r' hrun'
    obtain ⟨m', hmrun, -⟩ := hrep.run hrun'
    exact (Membership.run_exhausted (by rw [← hrep.epoch, hlast]; rfl) hmrun).1

/-- A roster of one that takes a member, refuses a second, and moves to epoch 1. -/
theorem Roster.run_is_membership_full :
    ∃ m, Run (Membership.Step 1) (.new 7)
      [(.add 7 10 (Vector.replicate 32 1), .added),
        (.add 7 11 (Vector.replicate 32 2), .refused .rosterFull),
        (.bumpEpoch 7, .bumped 1)] m ∧
      (⟨7, 1, #v[⟨10, Vector.replicate 32 1⟩]⟩ : Roster 1).Agrees m := by
  have run : Run Roster.Step (Roster.new 7 : Roster 1)
      [(.add 7 10 (Vector.replicate 32 1), .added),
        (.add 7 11 (Vector.replicate 32 2), .refused .rosterFull),
        (.bumpEpoch 7, .bumped 1)] ⟨7, 1, #v[⟨10, Vector.replicate 32 1⟩]⟩ :=
    .cons (t := ⟨7, 0, #v[⟨10, Vector.replicate 32 1⟩]⟩) (by unfold Step; decide)
      (.cons (t := ⟨7, 0, #v[⟨10, Vector.replicate 32 1⟩]⟩) (by unfold Step; decide)
        (.single (by unfold Step; decide)))
  obtain ⟨m, hrun, hagrees, -⟩ := run_is_membership run
  exact ⟨m, hrun, hagrees⟩

end TetherMesh.Groups
