import TetherMesh.Protocol.Message
import TetherMesh.Protocol.ProtobufFields

/-!
# Every message wrapper round-trips

Leaving out a field that holds its default loses nothing, because that is the value
a decoder starts from. So absorbing the fields of a message one after another
rebuilds it column by column, whichever of them were written.

## Main definitions

* `Slice` — a byte buffer whose length is a `usize`
* `RoundTrips` — when encoding succeeds, what it writes, and that it decodes

## Main results

* `encodeFields_fits`, `encodeFields_short` — what encoding does to a buffer
* `foldl_fieldIf`, `foldl_flag`, `foldl_fieldSome` — one column at a time
* `messages_round_trip` — all seven wrappers round-trip
-/

namespace TetherMesh.Protocol.Message

open CS.Cursor Protobuf

/-- A byte buffer. The length of one is a `usize`. -/
structure Slice where
  /-- The bytes. -/
  bytes : List UInt8
  /-- Their number is a `usize`. -/
  length_lt : bytes.length < usizeLimit

/-! ## Writing fields into a buffer -/

section Encode

variable {fs : List Field} {buf : List UInt8}

/-- **Encoding into a buffer that is long enough** writes the fields at its front. -/
theorem encodeFields_fits (hnumbers : ∀ f ∈ fs, f.number ≠ 0) (hbuf : buf.length < usizeLimit)
    (hfits : (encodings fs).length ≤ buf.length) :
    encodeFields fs buf =
      (.ok (encodings fs).length, encodings fs ++ buf.drop (encodings fs).length) := by
  have hrun := ((Writer.writes_fields hnumbers).start hbuf).1 hfits
  rw [encodeFields, Writer.new, hrun]
  rfl

/-- Encoding into a buffer that is too short. -/
theorem encodeFields_short (hnumbers : ∀ f ∈ fs, f.number ≠ 0) (hbuf : buf.length < usizeLimit)
    (hshort : buf.length < (encodings fs).length) :
    ∃ buf', buf'.length = buf.length ∧ encodeFields fs buf = (.error .bufferTooSmall, buf') := by
  obtain ⟨c, hlen, hrun⟩ := ((Writer.writes_fields hnumbers).start hbuf).2 hshort
  refine ⟨c.buf, hlen, ?_⟩
  rw [encodeFields, Writer.new, hrun]

end Encode

/-! ## Rebuilding a message column by column -/

section Columns

variable {α β : Type} {absorb : α → Field → α} {out : α} {n : UInt32} {v : Value}
  {rest : List (List Field)}

/-- A column that is left out when it holds its default. -/
theorem foldl_fieldIf (set : β → α → α) {x d : β} [Decidable (x ≠ d)]
    (hset : absorb out ⟨n, v⟩ = set x out) (hdefault : set d out = out) :
    (fieldIf (x ≠ d) n v :: rest).flatten.foldl absorb out =
      rest.flatten.foldl absorb (set x out) := by
  rw [List.flatten_cons, List.foldl_append, fieldIf]
  by_cases hx : x ≠ d
  · rw [if_pos hx, List.foldl_cons, List.foldl_nil, hset]
  · rw [if_neg hx, not_ne_iff.mp hx, hdefault, List.foldl_nil]

/-- A flag that is written only when it is raised. -/
theorem foldl_flag (set : Bool → α → α) {x : Bool} (hset : absorb out ⟨n, v⟩ = set true out)
    (hdefault : set false out = out) :
    (fieldIf (x = true) n v :: rest).flatten.foldl absorb out =
      rest.flatten.foldl absorb (set x out) := by
  rw [List.flatten_cons, List.foldl_append, fieldIf]
  cases x with
  | true => rw [if_pos rfl, List.foldl_cons, List.foldl_nil, hset]
  | false => rw [if_neg Bool.false_ne_true, hdefault, List.foldl_nil]

/-- A column with explicit presence. -/
theorem foldl_fieldSome (set : Option β → α → α) {o : Option β} {v : β → Value}
    (hset : ∀ x, absorb out ⟨n, v x⟩ = set (some x) out) (hdefault : set none out = out) :
    (fieldSome o n v :: rest).flatten.foldl absorb out =
      rest.flatten.foldl absorb (set o out) := by
  rw [List.flatten_cons, List.foldl_append, fieldSome]
  cases o with
  | none => rw [Option.elim_none, List.foldl_nil, hdefault]
  | some x => rw [Option.elim_some, List.foldl_cons, List.foldl_nil, hset]

end Columns

@[simp] theorem truncateU32_toUInt64 (x : UInt32) : truncateU32 x.toUInt64 = x := by
  simp [truncateU32]

@[simp] theorem toUInt64_eq_zero_iff (b : Bool) : b.toUInt64 = 0 ↔ b = false := by
  cases b <;> decide

theorem Data.foldl_fields (m : Data) : m.fields.foldl absorb {} = m := by
  -- starting from the defaults, each column is set to what it is in `m`
  refine (foldl_fieldIf (fun x out => { out with portnum := x }) (by simp [absorb]) rfl).trans ?_
  refine (foldl_fieldIf (fun x out => { out with payload := x }) (by simp [absorb]) rfl).trans ?_
  refine (foldl_flag (fun x out => { out with wantResponse := x }) (by simp [absorb]) rfl).trans ?_
  refine (foldl_fieldIf (fun x out => { out with dest := x }) (by simp [absorb]) rfl).trans ?_
  refine (foldl_fieldIf (fun x out => { out with source := x }) (by simp [absorb]) rfl).trans ?_
  refine (foldl_fieldIf (fun x out => { out with requestId := x }) (by simp [absorb]) rfl).trans ?_
  refine (foldl_fieldIf (fun x out => { out with replyId := x }) (by simp [absorb]) rfl).trans ?_
  refine (foldl_fieldIf (fun x out => { out with emoji := x }) (by simp [absorb]) rfl).trans ?_
  refine (foldl_fieldSome (fun x out => { out with bitfield := x }) (by simp [absorb]) rfl).trans ?_
  refine (foldl_fieldIf (fun x out => { out with xeddsaSignature := x }) (by simp [absorb])
    rfl).trans ?_
  rfl

theorem User.foldl_fields (m : User) : m.fields.foldl absorb {} = m := by
  refine (foldl_fieldIf (fun x out => { out with id := x }) (by simp [absorb]) rfl).trans ?_
  refine (foldl_fieldIf (fun x out => { out with longName := x }) (by simp [absorb]) rfl).trans ?_
  refine (foldl_fieldIf (fun x out => { out with shortName := x }) (by simp [absorb]) rfl).trans ?_
  refine (foldl_fieldIf (fun x out => { out with macaddr := x }) (by simp [absorb]) rfl).trans ?_
  refine (foldl_fieldIf (fun x out => { out with hwModel := x }) (by simp [absorb]) rfl).trans ?_
  refine (foldl_flag (fun x out => { out with isLicensed := x }) (by simp [absorb]) rfl).trans ?_
  refine (foldl_fieldIf (fun x out => { out with role := x }) (by simp [absorb]) rfl).trans ?_
  refine (foldl_fieldIf (fun x out => { out with publicKey := x }) (by simp [absorb]) rfl).trans ?_
  refine (foldl_fieldSome (fun x out => { out with isUnmessagable := x }) (by simp [absorb])
    rfl).trans ?_
  rfl

theorem Position.foldl_fields (m : Position) : m.fields.foldl absorb {} = m := by
  refine (foldl_fieldIf (fun x out => { out with latitudeI := x }) (by simp [absorb]) rfl).trans ?_
  refine (foldl_fieldIf (fun x out => { out with longitudeI := x }) (by simp [absorb]) rfl).trans ?_
  refine (foldl_fieldIf (fun x out => { out with altitude := x }) (by simp [absorb]) rfl).trans ?_
  refine (foldl_fieldIf (fun x out => { out with time := x }) (by simp [absorb]) rfl).trans ?_
  refine (foldl_fieldIf (fun x out => { out with precisionBits := x }) (by simp [absorb])
    rfl).trans ?_
  rfl

theorem ChannelSettings.foldl_fields (m : ChannelSettings) : m.fields.foldl absorb {} = m := by
  refine (foldl_fieldIf (fun x out => { out with psk := x }) (by simp [absorb]) rfl).trans ?_
  refine (foldl_fieldIf (fun x out => { out with name := x }) (by simp [absorb]) rfl).trans ?_
  refine (foldl_fieldIf (fun x out => { out with id := x }) (by simp [absorb]) rfl).trans ?_
  refine (foldl_flag (fun x out => { out with uplinkEnabled := x }) (by simp [absorb])
    rfl).trans ?_
  refine (foldl_flag (fun x out => { out with downlinkEnabled := x }) (by simp [absorb])
    rfl).trans ?_
  refine (foldl_fieldIf (fun x out => { out with moduleSettings := x }) (by simp [absorb])
    rfl).trans ?_
  rfl

theorem Routing.foldl_fields (m : Routing) : m.fields.foldl absorb {} = m := by
  simp [fields, absorb]

theorem NodeInfo.foldl_fields (m : NodeInfo) : m.fields.foldl absorb {} = m := by
  refine (foldl_fieldIf (fun x out => { out with num := x }) (by simp [absorb]) rfl).trans ?_
  refine (foldl_fieldSome (fun x out => { out with user := x }) (by simp [absorb]) rfl).trans ?_
  refine (foldl_fieldSome (fun x out => { out with position := x }) (by simp [absorb]) rfl).trans ?_
  refine (foldl_fieldSome (fun x out => { out with flag10 := x }) (by simp [absorb]) rfl).trans ?_
  rfl

theorem MeshPacket.foldl_fields (m : MeshPacket) : m.fields.foldl absorb {} = m := by
  refine (foldl_fieldIf (fun x out => { out with fromNode := x }) (by simp [absorb]) rfl).trans ?_
  refine (foldl_fieldIf (fun x out => { out with toNode := x }) (by simp [absorb]) rfl).trans ?_
  refine (foldl_fieldIf (fun x out => { out with channel := x }) (by simp [absorb]) rfl).trans ?_
  refine (foldl_fieldIf (fun x out => { out with encrypted := x }) (by simp [absorb]) rfl).trans ?_
  refine (foldl_fieldIf (fun x out => { out with id := x }) (by simp [absorb]) rfl).trans ?_
  refine (foldl_fieldIf (fun x out => { out with priority := x }) (by simp [absorb]) rfl).trans ?_
  refine (foldl_fieldIf (fun x out => { out with relayNode := x }) (by simp [absorb]) rfl).trans ?_
  rfl

/-! ## Round trips -/

/-- A wrapper round-trips: whatever the message and the buffer, encoding succeeds
exactly when the buffer is as long as the fields take, and reports a full buffer
otherwise; it writes those fields and nothing behind them, and decoding what it
wrote gives the message back. -/
def RoundTrips {α : Type} (fields : α → List Field)
    (encode : α → List UInt8 → Except Error ℕ × List UInt8)
    (decode : List UInt8 → Except Error α) : Prop :=
  ∀ (m : α) (buf : Slice),
    let answer := encode m buf.bytes
    let n := (encodings (fields m)).length
    (answer.1 = .ok n ↔ n ≤ buf.bytes.length) ∧
    (answer.1 = .error .bufferTooSmall ↔ buf.bytes.length < n) ∧
    ∀ k, answer.1 = .ok k →
      k = n ∧ answer.2.length = buf.bytes.length ∧ answer.2.drop k = buf.bytes.drop k ∧
        decode (answer.2.take k) = .ok m

/-- The fields of a message that some buffer holds decode to the message. -/
theorem decodeWith_of_foldl {α : Type} {absorb : α → Field → α} {init m : α} {fs : List Field}
    (hnumbers : ∀ f ∈ fs, f.number ≠ 0) (hfold : fs.foldl absorb init = m)
    (hlen : (encodings fs).length < usizeLimit) :
    Reader.decodeWith absorb init (Reader.new (encodings fs)) = .ok m := by
  rw [Reader.decodeWith_encodings (valid_of_length hnumbers hlen), hfold]

/-- Fields with numbers, and absorbed into the message they came from, round-trip. -/
theorem roundTrips_of_foldl {α : Type} {fields : α → List Field} {absorb : α → Field → α}
    {init : α} (hnumbers : ∀ m, ∀ f ∈ fields m, f.number ≠ 0)
    (hfold : ∀ m, (fields m).foldl absorb init = m) :
    RoundTrips fields (fun m => encodeFields (fields m))
      (fun bytes => Reader.decodeWith absorb init (Reader.new bytes)) := by
  intro m buf answer n
  rcases Nat.lt_or_ge buf.bytes.length n with hshort | hfits
  · obtain ⟨buf', -, hanswer⟩ := encodeFields_short (hnumbers m) buf.length_lt hshort
    have hone : answer.1 = .error .bufferTooSmall := congrArg Prod.fst hanswer
    rw [hone]
    refine ⟨⟨fun h => ?_, fun h => ?_⟩, ⟨fun _ => hshort, fun _ => rfl⟩, fun k hk => ?_⟩
    · cases h
    · exact absurd hshort (Nat.not_lt.mpr h)
    · cases hk
  · have hanswer : answer = (.ok n, encodings (fields m) ++ buf.bytes.drop n) :=
      encodeFields_fits (hnumbers m) buf.length_lt hfits
    rw [hanswer]
    refine ⟨⟨fun _ => hfits, fun _ => rfl⟩, ⟨fun h => ?_, fun h => ?_⟩, fun k hk => ?_⟩
    · cases h
    · exact absurd hfits (Nat.not_le.mpr h)
    · obtain rfl := Except.ok.inj hk
      refine ⟨rfl, ?_, List.drop_left, ?_⟩
      · rw [List.length_append, List.length_drop]
        exact Nat.add_sub_cancel' hfits
      · dsimp only
        rw [List.take_left]
        exact decodeWith_of_foldl (hnumbers m) (hfold m) (Nat.lt_of_le_of_lt hfits buf.length_lt)

@[simp] theorem forall_mem_fieldIf {c : Prop} [Decidable c] {n : UInt32} {v : Value}
    {p : Field → Prop} : (∀ f ∈ fieldIf c n v, p f) ↔ (c → p ⟨n, v⟩) := by
  by_cases hc : c <;> simp [fieldIf, hc]

@[simp] theorem forall_mem_fieldSome {α : Type} {o : Option α} {n : UInt32} {v : α → Value}
    {p : Field → Prop} : (∀ f ∈ fieldSome o n v, p f) ↔ ∀ x ∈ o, p ⟨n, v x⟩ := by
  cases o <;> simp [fieldSome]

theorem Data.numbers_ne_zero (m : Data) : ∀ f ∈ m.fields, f.number ≠ 0 := by
  simp [fields, or_imp, forall_and]

theorem User.numbers_ne_zero (m : User) : ∀ f ∈ m.fields, f.number ≠ 0 := by
  simp [fields, or_imp, forall_and]

theorem Position.numbers_ne_zero (m : Position) : ∀ f ∈ m.fields, f.number ≠ 0 := by
  simp [fields, or_imp, forall_and]

theorem ChannelSettings.numbers_ne_zero (m : ChannelSettings) : ∀ f ∈ m.fields, f.number ≠ 0 := by
  simp [fields, or_imp, forall_and]

theorem Routing.numbers_ne_zero (m : Routing) : ∀ f ∈ m.fields, f.number ≠ 0 := by
  simp [fields]

theorem NodeInfo.numbers_ne_zero (m : NodeInfo) : ∀ f ∈ m.fields, f.number ≠ 0 := by
  simp [fields, or_imp, forall_and]

theorem MeshPacket.numbers_ne_zero (m : MeshPacket) : ∀ f ∈ m.fields, f.number ≠ 0 := by
  simp [fields, or_imp, forall_and]

/-- **Every message wrapper round-trips.** -/
theorem messages_round_trip :
    RoundTrips Data.fields Data.encode Data.decode ∧
    RoundTrips User.fields User.encode User.decode ∧
    RoundTrips Position.fields Position.encode Position.decode ∧
    RoundTrips ChannelSettings.fields ChannelSettings.encode ChannelSettings.decode ∧
    RoundTrips Routing.fields Routing.encode Routing.decode ∧
    RoundTrips NodeInfo.fields NodeInfo.encode NodeInfo.decode ∧
    RoundTrips MeshPacket.fields MeshPacket.encode MeshPacket.decode :=
  ⟨roundTrips_of_foldl Data.numbers_ne_zero Data.foldl_fields,
    roundTrips_of_foldl User.numbers_ne_zero User.foldl_fields,
    roundTrips_of_foldl Position.numbers_ne_zero Position.foldl_fields,
    roundTrips_of_foldl ChannelSettings.numbers_ne_zero ChannelSettings.foldl_fields,
    roundTrips_of_foldl Routing.numbers_ne_zero Routing.foldl_fields,
    roundTrips_of_foldl NodeInfo.numbers_ne_zero NodeInfo.foldl_fields,
    roundTrips_of_foldl MeshPacket.numbers_ne_zero MeshPacket.foldl_fields⟩

end TetherMesh.Protocol.Message
