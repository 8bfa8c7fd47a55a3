import TetherMesh.Protocol.Protobuf

/-!
# The protobuf wire layer reads back what it writes

## Main definitions

* `Field.encoding` — the bytes of a field, with minimal varints
* `Field.lead` — those of them that are written one at a time

## Main results

* `Writer.writesLead_field` — a field writes its encoding, or the buffer is too small and keeps
  what was written by then
* `Reader.reads_field` — a field reads its encoding
* `Reader.decodeWith_encodings` — the decoders' loop absorbs the fields written, in order
-/

namespace TetherMesh.Protocol.Protobuf

open CS CS.Cursor Math

/-- The bytes of a value. -/
def Value.encoding : Value → List UInt8
  | .varint v => Varint.encode v.toNat
  | .fixed64 bytes => bytes.toList
  | .len bytes => Varint.encode bytes.length ++ bytes
  | .fixed32 bytes => bytes.toList

/-- The number a field's tag carries. -/
def Field.tag (f : Field) : ℕ := 8 * f.number.toNat + f.value.wireType.toNat

/-- The bytes of a field. -/
def Field.encoding (f : Field) : List UInt8 := Varint.encode f.tag ++ f.value.encoding

/-- The bytes of a value that are written one at a time, before those that are copied. -/
def Value.lead : Value → List UInt8
  | .varint v => Varint.encode v.toNat
  | .fixed64 _ | .fixed32 _ => []
  -- a length that no `usize` holds is refused before it is written
  | .len bytes => if bytes.length < usizeLimit then Varint.encode bytes.length else []

/-- The bytes of a field that are written one at a time. -/
def Field.lead (f : Field) : List UInt8 := Varint.encode f.tag ++ f.value.lead

/-- The bytes of a list of fields. -/
def encodings (fs : List Field) : List UInt8 := fs.flatMap Field.encoding

@[simp] theorem encodings_nil : encodings [] = [] := rfl

@[simp] theorem encodings_cons (f : Field) (fs : List Field) :
    encodings (f :: fs) = f.encoding ++ encodings fs := List.flatMap_cons

@[simp] theorem encodings_append (fs gs : List Field) :
    encodings (fs ++ gs) = encodings fs ++ encodings gs := List.flatMap_append

/-- A field that may be written, and that is not too long for a buffer. -/
structure Field.Valid (f : Field) : Prop where
  /-- The wire format has no field number zero. -/
  number_ne : f.number ≠ 0
  /-- The length of a buffer is a `usize`. -/
  sized : f.value.encoding.length < usizeLimit

variable {number : UInt32} {v : Value} {fs : List Field}

/-! ## Tags -/

theorem Value.wireType_lt (v : Value) : v.wireType.toNat < 8 := by
  cases v with
  | varint _ | fixed64 _ | len _ | fixed32 _ => exact Nat.le_of_ble_eq_true rfl

theorem Field.tag_lt (f : Field) : f.tag < 2 ^ 64 := by
  have hnumber := f.number.toNat_lt
  have hwire := f.value.wireType_lt
  rw [Field.tag]
  omega

/-- Shifting the number past the wire type. -/
theorem checkedShl_number (number : UInt32) :
    number.toUInt64.checkedShl 3 = some (UInt64.ofNat (number.toNat * 8)) := rfl

theorem toNat_tag (f : Field) :
    (UInt64.ofNat (f.number.toNat * 8) ||| f.value.wireType.toUInt64).toNat = f.tag := by
  have hnumber := f.number.toNat_lt
  have hwire : f.value.wireType.toNat < 2 ^ 3 := f.value.wireType_lt
  rw [UInt64.toNat_or, UInt64.toNat_ofNat', UInt8.toNat_toUInt64,
    Nat.mod_eq_of_lt (by omega), Nat.mul_comm, ← Nat.two_pow_add_eq_or_of_lt hwire]
  rfl

/-- The tag gives back the number. -/
theorem tag_number (f : Field) : (UInt64.ofNat f.tag >>> 3).tryToUInt32 = some f.number := by
  have hnumber := f.number.toNat_lt
  have hwire := f.value.wireType_lt
  have htag : (UInt64.ofNat f.tag >>> 3).toNat = f.number.toNat := by
    rw [UInt64.toNat_shiftRight, UInt64.toNat_ofNat_of_lt' f.tag_lt, Nat.shiftRight_eq_div_pow]
    change f.tag / 2 ^ 3 = _
    rw [Field.tag]
    omega
  rw [UInt64.tryToUInt32, if_pos (by omega), Option.some_inj]
  apply UInt32.toNat_inj.mp
  rw [UInt64.toNat_toUInt32, htag, Nat.mod_eq_of_lt hnumber]

/-- The tag gives back the wire type. -/
theorem tag_wireType (f : Field) :
    (UInt64.ofNat f.tag &&& 0x07).toNat = f.value.wireType.toNat := by
  have hwire := f.value.wireType_lt
  rw [UInt64.toNat_and, UInt64.toNat_ofNat_of_lt' f.tag_lt]
  change f.tag &&& 2 ^ 3 - 1 = _
  rw [Nat.and_two_pow_sub_one_eq_mod, Field.tag]
  omega

/-! ## Digits -/

/-- A digit with more to come: its seven bits, and the mark. -/
theorem digit_more : ∀ d : Fin 128, UInt8.ofNat (d + 128) &&& 0x7F = UInt8.ofNat d ∧
    UInt8.ofNat (d + 128) &&& 0x80 ≠ 0 ∧ UInt8.ofNat d ||| 0x80 = UInt8.ofNat (d + 128) := by decide

/-- The digit that goes out first. -/
theorem low_digit (v : UInt64) : (v &&& 0x7F).toUInt8 = UInt8.ofNat (v.toNat % 128) := by
  have hand : (v &&& 0x7F).toNat = v.toNat % 128 := by
    rw [UInt64.toNat_and]
    exact Nat.and_two_pow_sub_one_eq_mod v.toNat 7
  apply UInt8.toNat_inj.mp
  rw [UInt64.toNat_toUInt8, hand, UInt8.toNat_ofNat']

/-- What is left after it. -/
theorem toNat_rest (v : UInt64) : (v >>> 7).toNat = v.toNat / 128 := by
  rw [UInt64.toNat_shiftRight, Nat.shiftRight_eq_div_pow]
  rfl

/-! ## Writing -/

namespace Writer

theorem writesLead_put (b : UInt8) : WritesLead usizeLimit .bufferTooSmall (put b) [b] [b] := by
  intro front rest _
  cases rest with
  | nil =>
    refine ⟨fun hroom => absurd hroom (Nat.not_lt_zero _), fun _ => ?_⟩
    rw [List.length_nil, List.take_zero, List.drop_nil, List.append_nil, put, dif_neg (by simp)]
  | cons x rest =>
    refine ⟨fun _ => ?_, fun hshort => absurd hshort (by simp)⟩
    rw [put, dif_pos (by simp)]
    simp [between]

/-- A slice is copied whole or not at all. -/
theorem writesLead_putSlice (bytes : List UInt8) :
    WritesLead usizeLimit .bufferTooSmall (putSlice bytes) [] bytes := by
  intro front rest _
  constructor
  · intro hroom
    have htake : (rest.take bytes.length).length = bytes.length := by
      rw [List.length_take, Nat.min_eq_left hroom]
    have hwrite := overwrite_append front (rest.drop bytes.length) htake
    rw [List.append_assoc, List.take_append_drop] at hwrite
    rw [putSlice, dif_pos (by rw [buf_between, List.length_append, pos_between]; omega)]
    simp only [hwrite, between, List.length_append]
  · intro hshort
    rw [List.take_nil, List.append_nil, List.length_nil, List.drop_zero, putSlice,
      dif_neg (by rw [buf_between, List.length_append, pos_between]; omega)]

/-- A varint is written in its shortest form. -/
theorem writesLead_varint (v : UInt64) : WritesLead usizeLimit .bufferTooSmall (varint v)
    (Varint.encode v.toNat) (Varint.encode v.toNat) := by
  induction v using varint.induct with
  | case1 v hlast =>
    have hrest := congrArg UInt64.toNat hlast
    rw [toNat_rest] at hrest
    change v.toNat / 128 = 0 at hrest
    rw [varint, dif_pos hlast, low_digit, Varint.encode_of_lt (by omega),
      Nat.mod_eq_of_lt (by omega)]
    exact writesLead_put _
  | case2 v hmore ih =>
    have hrest : v.toNat / 128 ≠ 0 := by
      intro hz
      apply hmore
      apply UInt64.toNat_inj.mp
      rw [toNat_rest, hz]
      rfl
    rw [varint, dif_neg hmore, low_digit, (digit_more ⟨_, Nat.mod_lt _ (by omega)⟩).2.2,
      Varint.encode_of_le (by omega)]
    rw [toNat_rest] at ih
    exact (writesLead_put _).bind ih

theorem writesLead_value (v : Value) :
    WritesLead usizeLimit .bufferTooSmall (value v) v.lead v.encoding := by
  cases v with
  | varint v => exact writesLead_varint v
  | fixed64 bytes => exact writesLead_putSlice bytes.toList
  | fixed32 bytes => exact writesLead_putSlice bytes.toList
  | len bytes =>
    rw [value, Value.encoding, Value.lead]
    by_cases hlen : bytes.length < usizeLimit
    · rw [if_pos hlen, if_pos hlen]
      have hlead := writesLead_varint (UInt64.ofNat bytes.length)
      rw [UInt64.toNat_ofNat_of_lt' hlen] at hlead
      have hvalue := hlead.bind (writesLead_putSlice bytes)
      rwa [List.append_nil] at hvalue
    · -- no buffer is long enough for such a string
      rw [if_neg hlen, if_neg hlen]
      intro front rest hlimit
      rw [List.length_append]
      refine ⟨fun hroom => by omega, fun _ => ?_⟩
      rw [List.take_nil, List.append_nil, List.length_nil, List.drop_zero]
      rfl

/-- **Writing a field.** It writes its encoding where that fits. Otherwise it reports that the
buffer is too small, after its tag and what leads its value. -/
theorem writesLead_field (hnumber : number ≠ 0) (v : Value) :
    WritesLead usizeLimit .bufferTooSmall (field number v) (Field.lead ⟨number, v⟩)
      (Field.encoding ⟨number, v⟩) := by
  rw [field, if_neg hnumber, checkedShl_number]
  have htag := writesLead_varint (UInt64.ofNat (number.toNat * 8) ||| v.wireType.toUInt64)
  rw [toNat_tag ⟨number, v⟩] at htag
  exact htag.bind (writesLead_value v)

theorem writes_field (hnumber : number ≠ 0) (v : Value) :
    Writes usizeLimit .bufferTooSmall (field number v) (Field.encoding ⟨number, v⟩) :=
  (writesLead_field hnumber v).writes

end Writer

/-! ## Reading -/

namespace Reader

theorem reads_byte (b : UInt8) : Reads byte [b] b := by
  intro front rest
  rw [byte, dif_pos (by simp)]
  simp [between]

theorem reads_take (bytes : List UInt8) : Reads (take bytes.length) bytes bytes := by
  intro front rest
  rw [take, dif_pos (by simp)]
  simp [between]

/-- The seven bits of a digit, and its mark. -/
theorem digit_bits (b : UInt8) :
    (b &&& 0x7F).toNat = b.toNat % 128 ∧ (b &&& 0x80 = 0 ↔ b.toNat < 128) := by
  have hall : ∀ n : Fin 256, (UInt8.ofNat n &&& 0x7F).toNat = n % 128 ∧
      (UInt8.ofNat n &&& 0x80 = 0 ↔ (n : ℕ) < 128) := by decide +kernel
  have hb := hall ⟨b.toNat, b.toNat_lt⟩
  rwa [UInt8.ofNat_toNat] at hb

/-- A digit joins the bits below it, as far as the word reaches. -/
theorem or_checkedShl {acc : UInt64} {shift : ℕ} (hacc : acc.toNat < 2 ^ shift)
    (hshift : shift < 64) (b : UInt8) :
    ∃ part, (b &&& 0x7F).toUInt64.checkedShl shift = some part ∧
      acc ||| part = UInt64.ofNat (acc.toNat + b.toNat % 128 * 2 ^ shift) := by
  refine ⟨_, if_pos hshift, UInt64.toNat_inj.mp ?_⟩
  rw [UInt64.toNat_or, UInt64.toNat_ofNat', UInt64.toNat_ofNat', UInt8.toNat_toUInt64,
    (digit_bits b).1, Varint.or_digit_mod hacc hshift.le]

/-- The first byte of a varint: the loop stops, or goes on with seven bits more. -/
theorem varintLoop_cons {acc : UInt64} {shift : ℕ} (hacc : acc.toNat < 2 ^ shift)
    (hshift : shift < 64) (b : UInt8) (front rest : List UInt8) :
    varintLoop acc shift (between front (b :: rest)) =
      if b.toNat < 128 then
        .ok (UInt64.ofNat (acc.toNat + b.toNat * 2 ^ shift)) (between (front ++ [b]) rest)
      else if 64 ≤ shift + 7 then .error .malformedVarint (between (front ++ [b]) rest)
      else varintLoop (UInt64.ofNat (acc.toNat + b.toNat % 128 * 2 ^ shift)) (shift + 7)
        (between (front ++ [b]) rest) := by
  obtain ⟨part, hpart, hor⟩ := or_checkedShl hacc hshift b
  have hread : byte (between front (b :: rest)) = .ok b (between (front ++ [b]) rest) :=
    reads_byte b front rest
  rw [varintLoop]
  simp only [Bind.bind, EStateM.bind, hread, hpart, (digit_bits b).2, hor]
  split_ifs with hlast hlong
  · rw [Nat.mod_eq_of_lt hlast]
    rfl
  · rfl
  · rfl

/-- The bits read so far and a digit stay below the place of the next one. -/
theorem toNat_digit_lt {acc : UInt64} {shift : ℕ} (hacc : acc.toNat < 2 ^ shift)
    (hmore : shift + 7 < 64) (b : UInt8) :
    (UInt64.ofNat (acc.toNat + b.toNat % 128 * 2 ^ shift)).toNat =
        acc.toNat + b.toNat % 128 * 2 ^ shift ∧
      acc.toNat + b.toNat % 128 * 2 ^ shift < 2 ^ (shift + 7) := by
  have hdigit := Nat.mul_le_mul_right (2 ^ shift) (show b.toNat % 128 ≤ 127 by omega)
  have hnext : 2 ^ (shift + 7) = 128 * 2 ^ shift := by rw [Nat.pow_add, Nat.mul_comm]
  have hlt : acc.toNat + b.toNat % 128 * 2 ^ shift < 2 ^ (shift + 7) := by omega
  exact ⟨UInt64.toNat_ofNat_of_lt' (hlt.trans (Nat.pow_lt_pow_right (by decide) hmore)), hlt⟩

/-- **The loop on a varint.** It adds the number the varint stands for to the bits it has,
in a word of 64 bits. -/
theorem reads_varintLoop {bs : List UInt8} (hbs : Varint.IsVarint bs) {acc : UInt64} {shift : ℕ}
    (hacc : acc.toNat < 2 ^ shift) (hfit : shift + 7 * (bs.length - 1) < 64) :
    Reads (varintLoop acc shift) bs (UInt64.ofNat (acc.toNat + Varint.value bs * 2 ^ shift)) := by
  induction hbs generalizing acc shift with
  | @last b hb =>
    intro front rest
    rw [List.singleton_append, varintLoop_cons hacc (by omega), if_pos hb, Varint.value,
      Varint.value, Nat.mod_eq_of_lt hb, Nat.mul_zero, Nat.add_zero]
  | @more b bs hb hbs ih =>
    intro front rest
    have hpos := hbs.length_pos
    rw [List.length_cons] at hfit
    obtain ⟨hdigit, hlt⟩ := toNat_digit_lt hacc (by omega) b
    have hrest := ih (hdigit.symm ▸ hlt) (by omega) (front ++ [b]) rest
    -- the digit and seven places further up the rest make up the number
    have hvalue : acc.toNat + b.toNat % 128 * 2 ^ shift + Varint.value bs * 2 ^ (shift + 7) =
        acc.toNat + Varint.value (b :: bs) * 2 ^ shift := by
      rw [Varint.value, Nat.pow_add, Nat.add_mul, Nat.add_assoc, Nat.mul_comm (2 ^ shift),
        ← Nat.mul_assoc, Nat.mul_comm (Varint.value bs)]
    rw [hdigit, hvalue, List.append_assoc, List.singleton_append] at hrest
    rw [List.cons_append, varintLoop_cons hacc (by omega), if_neg (Nat.not_lt.mpr hb),
      if_neg (by omega), hrest]

/-- **Reading a varint of at most ten bytes** gives its number modulo `2 ^ 64`. -/
theorem reads_isVarint {bs : List UInt8} (hbs : Varint.IsVarint bs) (hlen : bs.length ≤ 10) :
    Reads varint bs (UInt64.ofNat (Varint.value bs)) := by
  have hread : Reads (varintLoop 0 0) bs _ := reads_varintLoop hbs (by decide) (by omega)
  rwa [Nat.pow_zero, Nat.mul_one, show (0 : UInt64).toNat = 0 from rfl, Nat.zero_add] at hread

theorem reads_varint (v : UInt64) : Reads varint (Varint.encode v.toNat) v := by
  have hlen : (Varint.encode v.toNat).length ≤ 10 :=
    Varint.length_encode_le_iff.mpr (v.toNat_lt.trans (by decide))
  have hread := reads_isVarint (Varint.isVarint_encode v.toNat) hlen
  rwa [Varint.value_encode, UInt64.ofNat_toNat] at hread

/-- Reading a value under its wire type, if it is not too long for a buffer. -/
theorem reads_value {wireType : UInt64} (hwire : wireType.toNat = v.wireType.toNat)
    (hsize : v.encoding.length < usizeLimit) : Reads (value wireType) v.encoding v := by
  rw [value, hwire]
  cases v with
  | varint v => exact (reads_varint v).map _
  | fixed64 bytes =>
    have hread := (reads_take bytes.toList).map fun bs => Value.fixed64 (pad 8 bs)
    rwa [Vector.length_toList, pad_toList] at hread
  | fixed32 bytes =>
    have hread := (reads_take bytes.toList).map fun bs => Value.fixed32 (pad 4 bs)
    rwa [Vector.length_toList, pad_toList] at hread
  | len bytes =>
    rw [Value.encoding, List.length_append] at hsize
    have hlen : (UInt64.ofNat bytes.length).toNat = bytes.length :=
      UInt64.toNat_ofNat_of_lt' (Nat.lt_of_le_of_lt (Nat.le_add_left _ _) hsize)
    have hlead := reads_varint (UInt64.ofNat bytes.length)
    have hbytes := (reads_take bytes).map Value.len
    rw [hlen] at hlead
    refine hlead.bind ?_
    rwa [hlen]

theorem reads_field {f : Field} (hf : f.Valid) : Reads field f.encoding f := by
  have htag := reads_varint (UInt64.ofNat f.tag)
  rw [UInt64.toNat_ofNat_of_lt' f.tag_lt] at htag
  refine htag.bind ?_
  rw [tag_number]
  dsimp only
  rw [if_neg hf.number_ne]
  exact (reads_value (tag_wireType f) hf.sized).map (Field.mk f.number)

/-- **Reading a field.** In front of a field the reader finds it. -/
theorem reads_nextField {f : Field} (hf : f.Valid) : Reads nextField f.encoding (some f) := by
  intro front rest
  -- the field has a byte at least, so the message is not at its end
  have hpos : 0 < f.encoding.length := by
    have := Varint.length_encode_pos f.tag
    rw [Field.encoding, List.length_append]
    omega
  have hmore : ¬ isEmpty (between front (f.encoding ++ rest)) = true := by
    rw [isEmpty, decide_eq_true_iff, buf_between, pos_between, List.length_append,
      List.length_append]
    omega
  rw [nextField, if_neg hmore, reads_field hf front rest]

theorem nextField_end (front : List UInt8) :
    nextField (between front []) = .ok none (between front []) := by
  rw [nextField, if_pos]
  rw [isEmpty, decide_eq_true_iff, buf_between, pos_between, List.append_nil]

section Loop

variable {α : Type} {absorb : α → Field → α} {out : α} {r r' : Reader}

theorem decodeWith_end (h : nextField r = .ok none r') : decodeWith absorb out r = .ok out := by
  rw [decodeWith]
  split
  · rename_i heq
    rw [h] at heq
    cases heq
  · rfl
  · rename_i heq
    rw [h] at heq
    cases heq

theorem decodeWith_error {e : Error} (h : nextField r = .error e r') :
    decodeWith absorb out r = .error e := by
  rw [decodeWith]
  split
  · rename_i heq
    rw [h] at heq
    cases heq
    rfl
  · rename_i heq
    rw [h] at heq
    cases heq
  · rename_i heq
    rw [h] at heq
    cases heq

theorem decodeWith_more {f : Field} (h : nextField r = .ok (some f) r') :
    decodeWith absorb out r = decodeWith absorb (absorb out f) r' := by
  rw [decodeWith]
  split
  · rename_i heq
    rw [h] at heq
    cases heq
  · rename_i heq
    rw [h] at heq
    cases heq
  · rename_i heq
    rw [h] at heq
    cases heq
    rfl

/-- **The decoders' loop** on the encodings of fields absorbs them in order. -/
theorem decodeWith_encodings (hvalid : ∀ f ∈ fs, f.Valid) :
    decodeWith absorb out (new (encodings fs)) = .ok (fs.foldl absorb out) := by
  -- wherever the reader stands
  suffices ∀ front, decodeWith absorb out (between front (encodings fs)) =
      .ok (fs.foldl absorb out) from this []
  induction fs generalizing out with
  | nil => exact fun front => decodeWith_end (nextField_end front)
  | cons f fs ih =>
    intro front
    have hf := hvalid f List.mem_cons_self
    rw [encodings_cons, decodeWith_more (reads_nextField hf front (encodings fs)),
      List.foldl_cons]
    exact ih (fun g hg => hvalid g (List.mem_cons_of_mem f hg)) _

end Loop

end Reader

end TetherMesh.Protocol.Protobuf
