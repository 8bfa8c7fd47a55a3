import TetherMesh.CS.LabelledRun
import TetherMesh.CS.Tiling
import TetherMesh.Protocol.Message
import TetherMesh.Protocol.ProtobufFields

/-!
# The fields of a message tile its bytes

Whatever a length prefix says, a field that was read lies within the message and takes two
bytes at least. So the fields of a message follow each other from its first byte, and a decoder
that reads to the end is done after half as many fields as there are bytes.

## Main definitions

* `ReadsField` — one field is read, with the span it was read from
* `FieldsTile` — what holds of the fields read so far
* `Reader.decodeWithin` — the loop of the decoders, given up after so many fields

## Main results

* `Reader.nextField_none_iff` — the end is reported at the end
* `fieldsTile_of_run`
* `Reader.decodeWithin_eq` — half as many fields as bytes are enough
* `Message.fields_tile`
-/

namespace TetherMesh.Protocol.Protobuf

open CS CS.Cursor

/-- One field is read; the label has it and the span it took. -/
def ReadsField (r : Reader) (read : Field × ℕ × ℕ) (r' : Reader) : Prop :=
  Reader.nextField r = .ok (some read.1) r' ∧ read.2 = (r.pos, r'.pos)

/-- The fields read from `bytes` so far lie one behind the other, up to where the reader is. -/
structure FieldsTile (bytes : List UInt8) (reads : List (Field × ℕ × ℕ)) (r : Reader) : Prop where
  buf_eq : r.buf = bytes
  tiles : Tiles 0 (reads.map Prod.snd) r.pos
  wide : ∀ span ∈ reads.map Prod.snd, span.1 + 2 ≤ span.2
  within : ∀ span ∈ reads.map Prod.snd, span.2 ≤ bytes.length

variable {bytes : List UInt8} {reads : List (Field × ℕ × ℕ)} {r r' : Reader}

/-- **The end** is reported exactly where it is, and the reader stays there. -/
theorem Reader.nextField_none_iff :
    nextField r = .ok none r' ↔ r.pos = r.buf.length ∧ r' = r := by
  have hle := r.pos_le
  rw [nextField]
  by_cases hempty : r.isEmpty
  · have hpos : r.pos = r.buf.length := Nat.le_antisymm hle (of_decide_eq_true hempty)
    rw [if_pos hempty]
    refine ⟨fun h => ?_, fun h => by rw [h.2]⟩
    cases h
    exact ⟨hpos, rfl⟩
  · rw [if_neg hempty]
    refine ⟨fun h => ?_, fun h => ?_⟩
    · cases hfield : field r <;> rw [hfield] at h <;> cases h
    · exact absurd (decide_eq_true h.1.ge) hempty

/-- One field more. -/
theorem FieldsTile.next (h : FieldsTile bytes reads r) {read : Field × ℕ × ℕ}
    (hread : ReadsField r read r') : FieldsTile bytes (reads ++ [read]) r' := by
  obtain ⟨hnext, hspan⟩ := hread
  obtain ⟨hbuf, hpos⟩ := Reader.nextField_advances hnext
  have hend : r'.pos ≤ bytes.length := h.buf_eq ▸ hbuf ▸ r'.pos_le
  have hspans : (reads ++ [read]).map Prod.snd = reads.map Prod.snd ++ [(r.pos, r'.pos)] := by
    rw [List.map_append, List.map_singleton, hspan]
  refine ⟨hbuf.trans h.buf_eq, ?_, ?_, ?_⟩
  · rw [hspans]
    exact h.tiles.snoc (by omega)
  · rw [hspans, List.forall_mem_append, List.forall_mem_singleton]
    exact ⟨h.wide, hpos⟩
  · rw [hspans, List.forall_mem_append, List.forall_mem_singleton]
    exact ⟨h.within, hend⟩

/-- **Every run** of the reader from the start of a message. -/
theorem fieldsTile_of_run (run : Run ReadsField (Reader.new bytes) reads r) :
    FieldsTile bytes reads r := by
  refine run.invariant (I := FieldsTile bytes) ?_ fun _ h hread => h.next hread
  exact ⟨rfl, .nil 0, fun _ hspan => absurd hspan List.not_mem_nil,
    fun _ hspan => absurd hspan List.not_mem_nil⟩

/-- Two bytes at least for each field. -/
theorem FieldsTile.two_mul_length_le (h : FieldsTile bytes reads r) :
    2 * reads.length ≤ bytes.length := by
  have hlen := h.tiles.mul_length_le h.wide
  have hle := r.pos_le
  rw [List.length_map, Nat.zero_add] at hlen
  rw [h.buf_eq] at hle
  exact hlen.trans hle

/-- What the fields were read from is what lies behind the reader. -/
theorem FieldsTile.flatten_eq (h : FieldsTile bytes reads r) :
    (reads.map fun read => slice bytes read.2).flatten = bytes.take r.pos := by
  have hflatten := h.tiles.flatten_slices bytes
  rwa [List.map_map, slice, List.drop_zero, Nat.sub_zero] at hflatten

/-! ## The loop of the decoders -/

namespace Reader

variable {α : Type} {absorb : α → Field → α}

/-- The loop of the decoders, given up when there is a field after `n` of them. -/
def decodeWithin (absorb : α → Field → α) (n : ℕ) (out : α) (r : Reader) :
    Option (Except Error α) :=
  match nextField r with
  | .error e _ => some (.error e)
  | .ok none _ => some (.ok out)
  | .ok (some f) r' =>
    match n with
    | 0 => none
    | n + 1 => decodeWithin absorb n (absorb out f) r'

/-- **The loop ends** within half as many fields as there are bytes left. -/
theorem decodeWithin_eq {n : ℕ} (out : α) (hn : r.buf.length ≤ r.pos + 2 * n + 1) :
    decodeWithin absorb n out r = some (decodeWith absorb out r) := by
  induction out, r using decodeWith.induct absorb generalizing n with
  | case1 out r e r' hnext =>
    unfold decodeWithin
    rw [hnext, decodeWith_error hnext]
  | case2 out r r' hnext =>
    unfold decodeWithin
    rw [hnext, decodeWith_end hnext]
  | case3 out r f r' hnext ih =>
    obtain ⟨hbuf, hpos⟩ := nextField_advances hnext
    have hle := r'.pos_le
    rw [hbuf] at hle
    unfold decodeWithin
    rw [hnext, decodeWith_more hnext]
    cases n with
    | zero =>
      -- there was no room for a field
      omega
    | succ n => exact ih (by rw [hbuf]; omega)

end Reader

end TetherMesh.Protocol.Protobuf

namespace TetherMesh.Protocol.Message

open CS Protobuf

/-- A decoder's loop is done within half as many fields as the message has bytes. -/
def EndsWithinHalf {α : Type} (absorb : α → Field → α) (init : α)
    (decode : List UInt8 → Except Error α) : Prop :=
  ∀ bytes, Reader.decodeWithin absorb (bytes.length / 2) init (Reader.new bytes) =
    some (decode bytes)

theorem endsWithinHalf {α : Type} (absorb : α → Field → α) (init : α) :
    EndsWithinHalf absorb init fun bytes => Reader.decodeWith absorb init (Reader.new bytes) := by
  intro bytes
  refine Reader.decodeWithin_eq init ?_
  change bytes.length ≤ 0 + 2 * (bytes.length / 2) + 1
  omega

/-- **Fields tile the message.** A read from anywhere takes two bytes at least and stays within
the message. From the start the spans of the fields follow each other up to where the reader is,
which is the end when it says so. So there are at most half as many fields as bytes, and each of
the seven loops ends. -/
theorem fields_tile :
    (∀ r f r', Reader.nextField r = .ok (some f) r' →
      r'.buf = r.buf ∧ r.pos + 2 ≤ r'.pos ∧ r'.pos ≤ r.buf.length) ∧
    (∀ bytes reads r, Run ReadsField (Reader.new bytes) reads r →
      FieldsTile bytes reads r ∧ 2 * reads.length ≤ bytes.length ∧
      (reads.map fun read => slice bytes read.2).flatten = bytes.take r.pos ∧
      ∀ r', Reader.nextField r = .ok none r' → r'.pos = bytes.length) ∧
    EndsWithinHalf Data.absorb {} Data.decode ∧ EndsWithinHalf User.absorb {} User.decode ∧
    EndsWithinHalf Position.absorb {} Position.decode ∧
    EndsWithinHalf ChannelSettings.absorb {} ChannelSettings.decode ∧
    EndsWithinHalf Routing.absorb {} Routing.decode ∧
    EndsWithinHalf NodeInfo.absorb {} NodeInfo.decode ∧
    EndsWithinHalf MeshPacket.absorb {} MeshPacket.decode := by
  refine ⟨fun r f r' hnext => ?_, fun bytes reads r run => ?_, ?_⟩
  · obtain ⟨hbuf, hpos⟩ := Reader.nextField_advances hnext
    exact ⟨hbuf, hpos, hbuf ▸ r'.pos_le⟩
  · have htile := fieldsTile_of_run run
    refine ⟨htile, htile.two_mul_length_le, htile.flatten_eq, fun r' hnone => ?_⟩
    obtain ⟨hend, rfl⟩ := Reader.nextField_none_iff.mp hnone
    rw [hend, htile.buf_eq]
  · exact ⟨endsWithinHalf _ _, endsWithinHalf _ _, endsWithinHalf _ _, endsWithinHalf _ _,
      endsWithinHalf _ _, endsWithinHalf _ _, endsWithinHalf _ _⟩

/-- The three fields with their spans, of which the first has a byte too many. -/
def threeReads : List (Field × ℕ × ℕ) := threeFields.zip [(0, 3), (3, 7), (7, 12)]

/-- Three fields take up a message of twelve bytes, at whose end the reader is. -/
theorem fields_tile_three : ∃ r, Run ReadsField (Reader.new threeOverlong) threeReads r ∧
    FieldsTile threeOverlong threeReads r ∧ 2 * threeReads.length ≤ threeOverlong.length ∧
    (threeReads.map fun read => slice threeOverlong read.2).flatten = threeOverlong ∧
    r.pos = threeOverlong.length := by
  obtain ⟨hfirst, hsecond, hthird⟩ := nextField_threeOverlong
  have run : Run ReadsField (Reader.new threeOverlong) threeReads _ :=
    .cons ⟨hfirst, rfl⟩ (.cons ⟨hsecond, rfl⟩ (.cons ⟨hthird, rfl⟩ .nil))
  obtain ⟨htile, hlen, hflatten, hend⟩ := fields_tile.2.1 _ _ _ run
  exact ⟨_, run, htile, hlen, hflatten, hend _ rfl⟩

end TetherMesh.Protocol.Message
