import TetherMesh.Math.MachineInt

/-!
# Packet identifiers

Channel traffic is AES-CTR under a counter block made of the packet identifier
and the sender, so an identifier must never be issued twice, not even across a
restart. `PacketIdSource` is a counter that only issues identifiers below a
high-water mark its caller has already stored durably; when the mark is used up
it asks for a new one instead of issuing.

## Main definitions

* `PacketIdSource` — `next`, `blockEnd` and the block size
* `PacketIdSource.resume`, `PacketIdSource.issue`, `PacketIdSource.persisted`

## Main results

* `PacketIdSource.issue_cases` — everything one call of `issue` can do
* `PacketIdSource.Issuable` and `issuable_iff` — the identifiers a source can
  issue are all but `u32::MAX`
-/

namespace TetherMesh.Protocol

/-- `DEFAULT_BLOCK`: identifiers reserved per durable write when none is given. -/
def defaultBlock : UInt32 := 256

/-- What `issue` produced. -/
inductive NextId
  /-- An identifier safe to transmit. -/
  | ready (id : UInt32)
  /-- Nothing was issued: store `highWater`, confirm it, ask again. -/
  | persistFirst (highWater : UInt32)
  /-- The 32-bit space is used up. -/
  | exhausted
  deriving DecidableEq, Repr

/-- Issues identifiers that never repeat. It holds no storage of its own. -/
structure PacketIdSource where
  next : UInt32
  blockEnd : UInt32
  block : UInt32
  deriving DecidableEq, Repr

namespace PacketIdSource

/-- Resume from a durably stored mark. A block size of zero means the default. -/
def resume (highWater block : UInt32) : PacketIdSource where
  next := highWater
  blockEnd := highWater
  block := if block = 0 then defaultBlock else block

/-- Issue the next identifier, or say what must happen before one can be. -/
def issue (s : PacketIdSource) : NextId × PacketIdSource :=
  if s.next < s.blockEnd then
    (.ready s.next, { s with next := s.next.saturatingAdd 1 })
  else
    match s.next.checkedAdd s.block with
    | some highWater => (.persistFirst highWater, s)
    | none =>
      -- a final short block rather than an early refusal
      if s.next < UInt32.maxValue then (.persistFirst UInt32.maxValue, s) else (.exhausted, s)

/-- Record that `highWater` is stored. A value that is not ahead is ignored. -/
def persisted (s : PacketIdSource) (highWater : UInt32) : PacketIdSource :=
  if s.blockEnd < highWater then { s with blockEnd := highWater } else s

/-- The identifier that would be issued next. -/
def peek (s : PacketIdSource) : UInt32 := s.next

variable {s s' : PacketIdSource} {r : NextId} {id highWater block : UInt32}

@[simp] theorem resume_next : (resume highWater block).next = highWater := rfl

@[simp] theorem resume_blockEnd : (resume highWater block).blockEnd = highWater := rfl

theorem resume_block_pos : 0 < (resume highWater block).block.toNat := by
  unfold resume
  split_ifs with h
  · exact show 0 < defaultBlock.toNat by decide
  · exact Nat.pos_of_ne_zero fun h0 => h (UInt32.toNat_inj.mp h0)

@[simp] theorem persisted_next : (s.persisted highWater).next = s.next := by
  unfold persisted
  split_ifs <;> rfl

@[simp] theorem persisted_block : (s.persisted highWater).block = s.block := by
  unfold persisted
  split_ifs <;> rfl

theorem persisted_blockEnd :
    (s.persisted highWater).blockEnd.toNat = max s.blockEnd.toNat highWater.toNat := by
  unfold persisted
  split_ifs with h <;> rw [UInt32.lt_iff_toNat_lt] at h
  · exact (max_eq_right h.le).symm
  · exact (max_eq_left (not_lt.mp h)).symm

/-- The mark `issue` asks for reaches one block past `next`, or the end of the space. -/
def IsRequest (s : PacketIdSource) (highWater : UInt32) : Prop :=
  highWater.toNat = min (s.next.toNat + s.block.toNat) (2 ^ 32 - 1)

/-- **Inversion of `issue`.** Below the mark it issues `next` and moves on by one;
at the mark it changes nothing, and asks for a mark or gives up at the end of the
space. -/
theorem issue_cases (h : s.issue = (r, s')) :
    (r = .ready s.next ∧ s.next.toNat < s.blockEnd.toNat ∧ s'.next.toNat = s.next.toNat + 1 ∧
        s'.blockEnd = s.blockEnd ∧ s'.block = s.block) ∨
      (∃ highWater, r = .persistFirst highWater ∧ s' = s ∧ s.blockEnd.toNat ≤ s.next.toNat ∧
        s.IsRequest highWater) ∨
      (r = .exhausted ∧ s' = s ∧ s.blockEnd.toNat ≤ s.next.toNat ∧
        s.next.toNat = 2 ^ 32 - 1) := by
  have hend := s.blockEnd.toNat_lt
  have hnext := s.next.toNat_lt
  unfold issue at h
  by_cases hlt : s.next < s.blockEnd
  · rw [if_pos hlt] at h
    rw [UInt32.lt_iff_toNat_lt] at hlt
    obtain ⟨rfl, rfl⟩ := Prod.mk.inj h
    refine .inl ⟨rfl, hlt, ?_, rfl, rfl⟩
    -- below a mark the increment does not saturate
    rw [UInt32.toNat_saturatingAdd, show (1 : UInt32).toNat = 1 from rfl]
    omega
  · rw [if_neg hlt] at h
    rw [UInt32.lt_iff_toNat_lt, not_lt] at hlt
    split at h
    · next highWater hsum =>
      obtain ⟨rfl, rfl⟩ := Prod.mk.inj h
      rw [UInt32.checkedAdd_eq_some_iff] at hsum
      have := highWater.toNat_lt
      exact .inr (.inl ⟨highWater, rfl, rfl, hlt, by unfold IsRequest; omega⟩)
    · next hsum =>
      -- a whole block no longer fits: the rest of the space is asked for, if there is any
      rw [UInt32.checkedAdd_eq_none_iff] at hsum
      split_ifs at h with hmax
      · obtain ⟨rfl, rfl⟩ := Prod.mk.inj h
        refine .inr (.inl ⟨_, rfl, rfl, hlt, ?_⟩)
        rw [IsRequest, UInt32.toNat_maxValue]
        omega
      · rw [UInt32.lt_iff_toNat_lt, UInt32.toNat_maxValue] at hmax
        obtain ⟨rfl, rfl⟩ := Prod.mk.inj h
        exact .inr (.inr ⟨rfl, rfl, hlt, by omega⟩)

/-- An identifier returned is `next`, below the mark, and `next` moves on. -/
theorem issue_ready (h : s.issue = (.ready id, s')) :
    id = s.next ∧ s.next.toNat < s.blockEnd.toNat ∧ s'.next.toNat = s.next.toNat + 1 ∧
      s'.blockEnd = s.blockEnd ∧ s'.block = s.block := by
  rcases issue_cases h with ⟨hr, hrest⟩ | ⟨_, hr, -⟩ | ⟨hr, -⟩
  · exact ⟨NextId.ready.inj hr, hrest⟩
  · exact NextId.noConfusion hr
  · exact NextId.noConfusion hr

/-- A mark is asked for at the end of the reservation, and nothing changes. -/
theorem issue_persistFirst (h : s.issue = (.persistFirst highWater, s')) :
    s' = s ∧ s.blockEnd.toNat ≤ s.next.toNat ∧ s.IsRequest highWater := by
  rcases issue_cases h with ⟨hr, -⟩ | ⟨_, hr, hrest⟩ | ⟨hr, -⟩
  · exact NextId.noConfusion hr
  · obtain rfl := NextId.persistFirst.inj hr
    exact hrest
  · exact NextId.noConfusion hr

/-- Exhaustion is reported at the end of the space, and nothing changes. -/
theorem issue_exhausted (h : s.issue = (.exhausted, s')) :
    s' = s ∧ s.next.toNat = 2 ^ 32 - 1 := by
  rcases issue_cases h with ⟨hr, -⟩ | ⟨_, hr, -⟩ | ⟨-, hsame, -, hlast⟩
  · exact NextId.noConfusion hr
  · exact NextId.noConfusion hr
  · exact ⟨hsame, hlast⟩

theorem issue_of_lt (h : s.next < s.blockEnd) :
    s.issue = (.ready s.next, { s with next := s.next.saturatingAdd 1 }) := if_pos h

/-- A state that a source can be in: resumed, and then driven by confirmations and calls
of `issue` in any order. -/
inductive Reaches : PacketIdSource → Prop
  | resume (highWater block : UInt32) : Reaches (resume highWater block)
  | issue {s : PacketIdSource} : Reaches s → Reaches s.issue.2
  | persisted {s : PacketIdSource} (highWater : UInt32) :
      Reaches s → Reaches (s.persisted highWater)

/-- The identifiers a source can issue in some such state. -/
def Issuable (id : UInt32) : Prop := ∃ s, Reaches s ∧ s.issue.1 = .ready id

/-- Every identifier but `u32::MAX` can be issued, zero included. -/
theorem issuable_iff : Issuable id ↔ id.toNat < 2 ^ 32 - 1 := by
  constructor
  · rintro ⟨s, -, hready⟩
    -- what is issued is below a mark, and that is a `u32`
    obtain ⟨rfl, hlt, -⟩ := issue_ready (Prod.ext hready rfl : s.issue = (.ready id, s.issue.2))
    have := s.blockEnd.toNat_lt
    omega
  · intro hid
    -- resume at `id` and confirm the last mark there is
    refine ⟨_, .persisted UInt32.maxValue (.resume id 1), ?_⟩
    have hlt : id < UInt32.maxValue := by rwa [UInt32.lt_iff_toNat_lt, UInt32.toNat_maxValue]
    rw [persisted, resume_blockEnd, if_pos hlt, issue_of_lt (by exact hlt)]
    rfl

end PacketIdSource

end TetherMesh.Protocol
