import TetherMesh.CS.Cursor
import TetherMesh.Math.Bytes
import TetherMesh.Math.MachineInt
import TetherMesh.Math.Varint

/-!
# Protobuf wire format

Tags, wire types and lengths: what `protobuf.rs` knows of a message. A reader and
a writer are cursors over bytes, and an operation that fails leaves the cursor
where it stopped.

## Main definitions

* `Reader.nextField` — the next field, or nothing at the end
* `Reader.decodeWith` — the loop every message decoder runs
* `Writer.field` — append one field

## Main results

* `Reader.nextField_advances` — a field takes at least two bytes, so the loop ends
-/

namespace TetherMesh.Protocol.Protobuf

open CS CS.Cursor Math

/-- What went wrong decoding or encoding. -/
inductive Error
  /-- Input ended inside a field. -/
  | truncated
  /-- A varint ran past ten bytes. -/
  | malformedVarint
  /-- Wire type 3, 4, 6 or 7. -/
  | unsupportedWireType
  /-- Field number 0, or one past 32 bits. -/
  | zeroFieldNumber
  /-- The output buffer is too small. -/
  | bufferTooSmall
  deriving DecidableEq, Repr

/-- A decoded field value. -/
inductive Value
  /-- Wire type 0. -/
  | varint (v : UInt64)
  /-- Wire type 1. -/
  | fixed64 (bytes : Vector UInt8 8)
  /-- Wire type 2. -/
  | len (bytes : List UInt8)
  /-- Wire type 5. -/
  | fixed32 (bytes : Vector UInt8 4)
  deriving DecidableEq, Repr

/-- The wire type a value encodes as. -/
def Value.wireType : Value → UInt8
  | .varint _ => 0
  | .fixed64 _ => 1
  | .len _ => 2
  | .fixed32 _ => 5

/-- One field: its number and its value. -/
structure Field where
  /-- Field number from the tag. -/
  number : UInt32
  /-- The value. -/
  value : Value
  deriving DecidableEq, Repr

/-- The lengths a `usize` can have. -/
def usizeLimit : ℕ := 2 ^ 64

/-! ## The reader -/

/-- Reads fields from a protobuf message. -/
abbrev Reader := Cursor UInt8

/-- An operation of a reader. -/
abbrev Reading := EStateM Error Reader

namespace Reader

/-- Start reading `buf`. -/
def new (buf : List UInt8) : Reader := start buf

/-- True once every byte has been consumed. -/
def isEmpty (r : Reader) : Bool := r.buf.length ≤ r.pos

/-- One byte. -/
def byte : Reading UInt8 := fun r =>
  if h : r.pos < r.buf.length then .ok r.buf[r.pos] ⟨r.buf, r.pos + 1, h⟩
  else .error .truncated r

/-- The next `len` bytes. -/
def take (len : ℕ) : Reading (List UInt8) := fun r =>
  if h : r.pos + len ≤ r.buf.length then
    .ok ((r.buf.drop r.pos).take len) ⟨r.buf, r.pos + len, h⟩
  else .error .truncated r

/-- The loop of `varint`, with the bits read so far and where the next ones go. -/
def varintLoop (value : UInt64) (shift : ℕ) : Reading UInt64 := do
  let byte ← byte
  match (byte &&& 0x7F).toUInt64.checkedShl shift with
  | none => throw .malformedVarint
  | some part =>
    if byte &&& 0x80 = 0 then return value ||| part
    -- a tenth byte may not announce another
    else if 64 ≤ shift + 7 then throw .malformedVarint
    else varintLoop (value ||| part) (shift + 7)
termination_by 64 - shift

/-- Decode one varint. -/
def varint : Reading UInt64 := varintLoop 0 0

/-- Decode the value that a wire type announces. -/
def value (wireType : UInt64) : Reading Value :=
  match wireType.toNat with
  | 0 => do return .varint (← varint)
  | 1 => do return .fixed64 (pad 8 (← take 8))
  | 2 => do
    let len ← varint
    return .len (← take len.toNat)
  | 5 => do return .fixed32 (pad 4 (← take 4))
  -- groups, and the wire types that were never assigned
  | _ => throw .unsupportedWireType

/-- Decode a field that is there. -/
def field : Reading Field := do
  let tag ← varint
  match (tag >>> 3).tryToUInt32 with
  -- a number past 32 bits is reported like zero
  | none => throw .zeroFieldNumber
  | some number =>
    if number = 0 then throw .zeroFieldNumber
    else return ⟨number, ← value (tag &&& 0x07)⟩

/-- Read the next field, or nothing at the end of the message. -/
def nextField : Reading (Option Field) := fun r =>
  if r.isEmpty then .ok none r
  else match field r with
    | .ok f r' => .ok (some f) r'
    | .error e r' => .error e r'

/-! ### Every field moves the reader on -/

theorem advances_byte : Advances 1 byte := by
  intro r b r' h
  rw [byte] at h
  split_ifs at h
  cases h
  exact ⟨rfl, Nat.le_refl _⟩

theorem advances_take (len : ℕ) : Advances len (take len) := by
  intro r b r' h
  rw [take] at h
  split_ifs at h
  cases h
  exact ⟨rfl, Nat.le_refl _⟩

theorem advances_varintLoop (value : UInt64) (shift : ℕ) : Advances 1 (varintLoop value shift) := by
  induction value, shift using varintLoop.induct with
  | case1 value shift ih =>
    rw [varintLoop]
    -- the byte is enough, whatever the digits after it add
    refine advances_byte.bind (k := 0) fun b => ?_
    cases hpart : (b &&& 0x7F).toUInt64.checkedShl shift with
    | none => exact Advances.throw 0 _
    | some part =>
      by_cases hlast : b &&& 0x80 = 0
      · simp only [if_pos hlast]
        exact Advances.nil _
      · by_cases hlong : 64 ≤ shift + 7
        · simp only [if_neg hlast, if_pos hlong]
          exact Advances.throw 0 _
        · simp only [if_neg hlast, if_neg hlong]
          exact (ih part hlong).mono (Nat.zero_le 1)

theorem advances_varint : Advances 1 varint := advances_varintLoop 0 0

theorem advances_value (wireType : UInt64) : Advances 1 (value wireType) := by
  rw [value]
  split
  · exact advances_varint.bind fun v => Advances.nil _
  · exact ((advances_take 8).bind fun bytes => Advances.nil _).mono (by omega)
  · exact advances_varint.bind fun len =>
      (((advances_take len.toNat).bind fun bytes => Advances.nil _).mono (Nat.zero_le _))
  · exact ((advances_take 4).bind fun bytes => Advances.nil _).mono (by omega)
  · exact Advances.throw 1 _

/-- A field takes a tag and a value, of at least one byte each. -/
theorem advances_field : Advances 2 field := by
  refine advances_varint.bind (k := 1) fun tag => ?_
  cases (tag >>> 3).tryToUInt32 with
  | none => exact Advances.throw 1 _
  | some number =>
    by_cases hzero : number = 0
    · simp only [if_pos hzero]
      exact Advances.throw 1 _
    · simp only [if_neg hzero]
      exact (advances_value _).bind fun v => Advances.nil _

theorem nextField_advances {r r' : Reader} {f : Field} (h : nextField r = .ok (some f) r') :
    r'.buf = r.buf ∧ r.pos + 2 ≤ r'.pos := by
  rw [nextField] at h
  by_cases hempty : r.isEmpty
  · rw [if_pos hempty] at h
    cases h
  · rw [if_neg hempty] at h
    cases hrun : field r with
    | error e r₁ =>
      rw [hrun] at h
      cases h
    | ok g r₁ =>
      rw [hrun] at h
      cases h
      exact advances_field r f r' hrun

/-- The loop every message decoder runs: absorb field after field until none is left. -/
def decodeWith {α : Type} (absorb : α → Field → α) (out : α) (r : Reader) : Except Error α :=
  match _h : nextField r with
  | .error e _ => .error e
  | .ok none _ => .ok out
  | .ok (some f) r' => decodeWith absorb (absorb out f) r'
termination_by r.buf.length - r.pos
decreasing_by
  obtain ⟨hbuf, hpos⟩ := nextField_advances _h
  have := r'.pos_le
  rw [hbuf] at this ⊢
  omega

end Reader

/-! ## The writer -/

/-- Writes fields into a buffer. -/
abbrev Writer := Cursor UInt8

/-- An operation of a writer. -/
abbrev Writing := EStateM Error Writer Unit

namespace Writer

/-- Start writing into `buf`. -/
def new (buf : List UInt8) : Writer := start buf

/-- Bytes written so far. -/
def len (w : Writer) : ℕ := w.pos

/-- One byte. -/
def put (byte : UInt8) : Writing := fun w =>
  if h : w.pos < w.buf.length then
    .ok () ⟨w.buf.set w.pos byte, w.pos + 1, by rwa [List.length_set]⟩
  else .error .bufferTooSmall w

/-- Some bytes, all or none. -/
def putSlice (bytes : List UInt8) : Writing := fun w =>
  if h : w.pos + bytes.length ≤ w.buf.length then
    .ok () ⟨overwrite w.buf w.pos bytes, w.pos + bytes.length, by rwa [length_overwrite]⟩
  else .error .bufferTooSmall w

/-- Write a varint in minimal form. -/
def varint (value : UInt64) : Writing :=
  let low := (value &&& 0x7F).toUInt8
  if _h : value >>> 7 = 0 then put low
  else do
    put (low ||| 0x80)
    varint (value >>> 7)
termination_by value.toNat
decreasing_by
  have hne : (value >>> 7).toNat ≠ 0 := fun hz => _h (UInt64.toNat_inj.mp hz)
  rw [UInt64.toNat_shiftRight, Nat.shiftRight_eq_div_pow] at hne ⊢
  change value.toNat / 2 ^ 7 ≠ 0 at hne
  change value.toNat / 2 ^ 7 < value.toNat
  omega

/-- Write what follows the tag. -/
def value : Value → Writing
  | .varint v => varint v
  | .fixed64 bytes => putSlice bytes.toList
  | .len bytes =>
    if bytes.length < usizeLimit then do
      varint (UInt64.ofNat bytes.length)
      putSlice bytes
    else throw .bufferTooSmall
  | .fixed32 bytes => putSlice bytes.toList

/-- Append one field. -/
def field (number : UInt32) (v : Value) : Writing :=
  if number = 0 then throw .zeroFieldNumber
  else match number.toUInt64.checkedShl 3 with
    -- three places are never too many
    | none => throw .malformedVarint
    | some shifted => do
      varint (shifted ||| v.wireType.toUInt64)
      value v

end Writer

end TetherMesh.Protocol.Protobuf
