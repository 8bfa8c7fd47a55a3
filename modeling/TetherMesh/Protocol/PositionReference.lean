import TetherMesh.Protocol.MessageRoundTrip

/-!
# Locations against the reference encoding

The protobuf specification writes a negative `int32` sign-extended to 64 bits, as a varint
of ten bytes. The encoder widens the altitude without its sign, to a varint of five. The
decoder takes the lower 32 bits of either.

## Main definitions

* `Proto3.int32` and the other scalar types
* `Position.reference` — a location as the specification encodes it

## Main results

* `Position.decode_reference` — the decoder reads it
* `Position.encodesReference_iff`
-/

namespace TetherMesh.Protocol.Message

open CS Math Protobuf

/-! ## Scalar types -/

namespace Proto3

/-- An `int32`, sign-extended. -/
def int32 (x : Int32) : Value := .varint x.toInt64.toUInt64

/-- A `uint32`. -/
def uint32 (x : UInt32) : Value := .varint x.toUInt64

/-- A `fixed32`. -/
def fixed32 (x : UInt32) : Value := .fixed32 x.toLeBytes

/-- An `sfixed32`, in two's complement. -/
def sfixed32 (x : Int32) : Value := .fixed32 x.toUInt32.toLeBytes

end Proto3

/-- The lower half of a sign-extended word is the word. -/
theorem truncateU32_signExtend (x : Int32) : (truncateU32 x.toInt64.toUInt64).toInt32 = x := by
  apply Int32.toBitVec_inj.mp
  rw [truncateU32, UInt32.toBitVec_toInt32, UInt64.toBitVec_toUInt32, Int64.toBitVec_toUInt64,
    Int32.toBitVec_toInt64]
  ext i hi
  rw [BitVec.getElem_setWidth, BitVec.getLsbD_signExtend, if_pos hi, BitVec.getLsbD_eq_getElem hi,
    decide_eq_true (hi.trans (by decide)), Bool.true_and]

/-- The sign bit of a word that is not negative. -/
theorem msb_of_nonneg {x : Int32} : x.toBitVec.msb = false ↔ 0 ≤ x := by
  rw [Int32.le_iff_toInt_le, BitVec.msb_eq_toInt, decide_eq_false_iff_not, not_lt]
  rfl

/-- A word that is not negative is extended by zeros. -/
theorem signExtend_of_nonneg {x : Int32} (h : 0 ≤ x) :
    x.toInt64.toUInt64 = x.toUInt32.toUInt64 := by
  apply UInt64.toBitVec_inj.mp
  rw [Int64.toBitVec_toUInt64, Int32.toBitVec_toInt64, UInt32.toBitVec_toUInt64,
    Int32.toBitVec_toUInt32, BitVec.signExtend_eq_setWidth_of_msb_false (msb_of_nonneg.mpr h)]

/-- A negative word is extended by ones. -/
theorem le_signExtend_of_neg {x : Int32} (h : ¬ 0 ≤ x) : 2 ^ 63 ≤ x.toInt64.toUInt64.toNat := by
  have hmsb : (x.toBitVec.signExtend 64).msb = true := by
    rw [BitVec.msb_signExtend]
    simpa using mt msb_of_nonneg.mp h
  rw [BitVec.msb_eq_decide] at hmsb
  exact of_decide_eq_true hmsb

/-- So a negative `int32` takes five bytes more than its 32-bit pattern. -/
theorem length_int32_of_neg {x : Int32} (h : ¬ 0 ≤ x) :
    (Varint.encode x.toInt64.toUInt64.toNat).length = 10 ∧
      (Varint.encode x.toUInt32.toUInt64.toNat).length ≤ 5 := by
  constructor
  · have hlow := le_signExtend_of_neg h
    have hhigh := x.toInt64.toUInt64.toNat_lt
    exact Varint.length_encode_eq 8 (le_trans (by decide) hlow) (hhigh.trans (by decide))
  · rw [UInt32.toNat_toUInt64]
    exact Varint.length_encode_le_iff.mpr (x.toUInt32.toNat_lt.trans (by decide))

/-! ## Lengths -/

theorem length_fieldIf_le {p : Prop} [Decidable p] {number : UInt32} {v : Value} :
    (fieldIf p number v).length ≤ 1 := by
  rw [fieldIf]
  split
  · exact Nat.le_refl 1
  · exact Nat.zero_le 1

/-- A varint takes at most ten bytes. -/
theorem length_varint_le (v : UInt64) : (Value.varint v).encoding.length ≤ 10 :=
  Varint.length_encode_le_iff.mpr (v.toNat_lt.trans (by decide))

theorem length_fixed32_le (bytes : Vector UInt8 4) :
    (Value.fixed32 bytes).encoding.length ≤ 10 := by
  rw [Value.encoding, Vector.length_toList]
  decide

/-- A tag takes no more than ten bytes either. -/
theorem length_encodings_le {fs : List Field}
    (h : ∀ f ∈ fs, f.value.encoding.length ≤ 10) : (encodings fs).length ≤ 20 * fs.length := by
  induction fs with
  | nil => exact Nat.le_refl 0
  | cons f fs ih =>
    obtain ⟨hf, hfs⟩ := List.forall_mem_cons.mp h
    have htag : (Varint.encode f.tag).length ≤ 10 :=
      Varint.length_encode_le_iff.mpr (f.tag_lt.trans (by decide))
    have hrest := ih hfs
    rw [encodings_cons, Field.encoding, List.length_append, List.length_append, List.length_cons]
    omega

namespace Position

/-- The fields of a location as the specification has them, in ascending order and without
those that hold their default. -/
def referenceFields (m : Position) : List Field := List.flatten
  [fieldIf (m.latitudeI ≠ 0) 1 (Proto3.sfixed32 m.latitudeI),
    fieldIf (m.longitudeI ≠ 0) 2 (Proto3.sfixed32 m.longitudeI),
    fieldIf (m.altitude ≠ 0) 3 (Proto3.int32 m.altitude),
    fieldIf (m.time ≠ 0) 4 (Proto3.fixed32 m.time),
    fieldIf (m.precisionBits ≠ 0) 23 (Proto3.uint32 m.precisionBits)]

/-- A location as the specification encodes it. -/
def reference (m : Position) : List UInt8 := encodings m.referenceFields

/-- Encoding writes exactly the reference bytes, in any buffer that holds them. -/
def EncodesReference (m : Position) : Prop :=
  ∀ buf : Slice, m.reference.length ≤ buf.bytes.length →
    m.encode buf.bytes = (.ok m.reference.length, m.reference ++ buf.bytes.drop m.reference.length)

variable {m : Position}

theorem foldl_referenceFields (m : Position) : m.referenceFields.foldl absorb {} = m := by
  refine (foldl_fieldIf (fun x out => { out with latitudeI := x })
    (by simp [absorb, Proto3.sfixed32]) rfl).trans ?_
  refine (foldl_fieldIf (fun x out => { out with longitudeI := x })
    (by simp [absorb, Proto3.sfixed32]) rfl).trans ?_
  refine (foldl_fieldIf (fun x out => { out with altitude := x })
    (by simp [absorb, Proto3.int32, truncateU32_signExtend]) rfl).trans ?_
  refine (foldl_fieldIf (fun x out => { out with time := x })
    (by simp [absorb, Proto3.fixed32]) rfl).trans ?_
  refine (foldl_fieldIf (fun x out => { out with precisionBits := x })
    (by simp [absorb, Proto3.uint32]) rfl).trans ?_
  rfl

theorem reference_numbers_ne_zero (m : Position) : ∀ f ∈ m.referenceFields, f.number ≠ 0 := by
  simp [referenceFields, or_imp, forall_and]

theorem length_reference_lt (m : Position) : m.reference.length < usizeLimit := by
  have hcount : m.referenceFields.length ≤ 5 := by
    have hone := @length_fieldIf_le
    simp only [referenceFields, List.flatten_cons, List.flatten_nil, List.length_append,
      List.length_nil]
    exact Nat.add_le_add hone (Nat.add_le_add hone (Nat.add_le_add hone
      (Nat.add_le_add hone (Nat.add_le_add hone (Nat.le_refl 0)))))
  have hvalues : ∀ f ∈ m.referenceFields, f.value.encoding.length ≤ 10 := by
    simp [referenceFields, or_imp, forall_and, Proto3.int32, Proto3.uint32, Proto3.fixed32,
      Proto3.sfixed32, length_varint_le, length_fixed32_le]
  have hle := length_encodings_le hvalues
  have hlimit : 20 * 5 < usizeLimit := by decide
  rw [reference]
  omega

/-- **The decoder reads the reference bytes** of every location. -/
theorem decode_reference (m : Position) : decode m.reference = .ok m :=
  decodeWith_of_foldl (reference_numbers_ne_zero m) (foldl_referenceFields m)
    (length_reference_lt m)

/-- The altitude is all that the encoder may write otherwise. -/
theorem exists_altitude (h : m.altitude ≠ 0) : ∃ front back,
    m.fields = front ++ ⟨3, .varint m.altitude.toUInt32.toUInt64⟩ :: back ∧
      m.referenceFields = front ++ ⟨3, Proto3.int32 m.altitude⟩ :: back := by
  refine ⟨fieldIf (m.latitudeI ≠ 0) 1 (Proto3.sfixed32 m.latitudeI) ++
      fieldIf (m.longitudeI ≠ 0) 2 (Proto3.sfixed32 m.longitudeI),
    fieldIf (m.time ≠ 0) 4 (Proto3.fixed32 m.time) ++
      fieldIf (m.precisionBits ≠ 0) 23 (Proto3.uint32 m.precisionBits), ?_, ?_⟩
  · simp [fields, fieldIf, h, Proto3.sfixed32, Proto3.fixed32, Proto3.uint32]
  · simp [referenceFields, fieldIf, h]

/-- A negative altitude goes out five bytes short. -/
theorem length_encodings_lt_of_neg (h : ¬ 0 ≤ m.altitude) :
    (encodings m.fields).length < m.reference.length := by
  have hne : m.altitude ≠ 0 := by
    intro hzero
    rw [hzero] at h
    exact h (by decide)
  obtain ⟨front, back, hfields, hreference⟩ := exists_altitude hne
  obtain ⟨hten, hfive⟩ := length_int32_of_neg h
  have htag : Field.tag ⟨3, Proto3.int32 m.altitude⟩ =
    Field.tag ⟨3, .varint m.altitude.toUInt32.toUInt64⟩ := rfl
  rw [reference, hfields, hreference, encodings_append, encodings_append, encodings_cons,
    encodings_cons, Field.encoding, Field.encoding, htag]
  simp only [List.length_append, Value.encoding, Proto3.int32]
  omega

/-- So the encoder does not write what the reference has. -/
theorem not_encodesReference_of_neg (h : ¬ 0 ≤ m.altitude) : ¬ m.EncodesReference := by
  intro hencodes
  -- in a buffer of the reference's length the encoder reports less than that
  have hlt := length_encodings_lt_of_neg h
  have hlen : (List.replicate m.reference.length (0 : UInt8)).length = m.reference.length :=
    List.length_replicate
  have hbuf : (List.replicate m.reference.length (0 : UInt8)).length < usizeLimit :=
    hlen.trans_lt (length_reference_lt m)
  have hanswer := hencodes ⟨_, hbuf⟩ hlen.ge
  rw [encode, encodeFields_fits (numbers_ne_zero m) hbuf (hlt.le.trans hlen.ge)] at hanswer
  have hok := Except.ok.inj (Prod.mk.inj hanswer).1
  omega

/-- **When a location is encoded as the reference encodes it**: where its altitude is not
negative. It is decoded from the reference bytes in any case. -/
theorem encodesReference_iff (m : Position) :
    decode m.reference = .ok m ∧ (m.EncodesReference ↔ 0 ≤ m.altitude) := by
  refine ⟨decode_reference m, ?_, ?_⟩
  · intro hencodes
    by_contra hneg
    exact not_encodesReference_of_neg hneg hencodes
  · intro hnonneg buf hroom
    have hfields : m.fields = m.referenceFields := by
      simp only [fields, referenceFields, Proto3.int32, signExtend_of_nonneg hnonneg]
      rfl
    rw [encode, hfields]
    exact encodeFields_fits (reference_numbers_ne_zero m) buf.length_lt hroom

/-- A location one metre below sea level. -/
def belowSea : Position := { altitude := -1 }

/-- **Five bytes too few.** The encoder writes a varint of five bytes, the reference one of
ten. -/
theorem belowSea_not_encodesReference :
    belowSea.reference = [0x18, 0xFF, 0xFF, 0xFF, 0xFF, 0xFF, 0xFF, 0xFF, 0xFF, 0xFF, 0x01] ∧
      encodings belowSea.fields = [0x18, 0xFF, 0xFF, 0xFF, 0xFF, 0x0F] ∧
      ¬ belowSea.EncodesReference := by
  have hreference : belowSea.referenceFields = [⟨3, .varint 0xFFFFFFFFFFFFFFFF⟩] := rfl
  have hfields : belowSea.fields = [⟨3, .varint 0xFFFFFFFF⟩] := rfl
  refine ⟨?_, ?_, not_encodesReference_of_neg (by decide)⟩
  · rw [reference, hreference]
    decide +kernel
  · rw [hfields]
    decide +kernel

end Position

end TetherMesh.Protocol.Message
