import TetherMesh.Protocol.ProtobufFields

/-!
# Writing on after a failure

A field is written in up to three steps, each of which can run out of room: its tag, its length
or number, and its bytes. The writer takes nothing back. A caller that goes on with other fields
after one that failed therefore has a part of that field in the message, unless the field was
refused for its number or found no room at all.

## Main definitions

* `Writer.calls`, `Writer.accepted` — a sequence of calls, and the fields whose call succeeded
* `message` — what a sequence of calls puts into so much room
* `FailuresLeaveNothing` — a failure leaves the message as it was
* `Whole` — no field of a sequence is cut off

## Main results

* `Writer.calls_between` — the state after any sequence of calls
* `writer_calls_leave`
-/

namespace TetherMesh.Protocol.Protobuf

open CS CS.Cursor

namespace Writer

/-- The writer after a call of `field`, whatever it answered. -/
def after (w : Writer) (f : Field) : Writer :=
  match field f.number f.value w with
  | .ok () w' => w'
  | .error _ w' => w'

/-- Whether the call succeeds. -/
def accepts (w : Writer) (f : Field) : Bool :=
  match field f.number f.value w with
  | .ok () _ => true
  | .error _ _ => false

/-- The writer after a sequence of calls. -/
def calls (w : Writer) (fs : List Field) : Writer := fs.foldl after w

/-- The fields whose call succeeded. -/
def accepted (w : Writer) : List Field → List Field
  | [] => []
  | f :: fs => if w.accepts f then f :: accepted (w.after f) fs else accepted (w.after f) fs

end Writer

/-- No call of a sequence that fails moves the writer. -/
def Writer.Keeps (w : Writer) (fs : List Field) : Prop :=
  ∀ before f rest e w', fs = before ++ f :: rest →
    Writer.field f.number f.value (w.calls before) = .error e w' → w'.len = (w.calls before).len

/-- **A failure leaves the message as it was.** What was written is the fields whose call
succeeded, and a call that fails does not move the writer. -/
structure FailuresLeaveNothing (buf : List UInt8) (fs : List Field) : Prop where
  len_eq : ((Writer.new buf).calls fs).len = (encodings ((Writer.new buf).accepted fs)).length
  front_eq : ((Writer.new buf).calls fs).buf.take ((Writer.new buf).calls fs).len =
    encodings ((Writer.new buf).accepted fs)
  kept : (Writer.new buf).Keeps fs

/-! ## What a call leaves -/

/-- A field that may be written, and for which there is room. -/
def Field.Fits (room : ℕ) (f : Field) : Prop := f.number ≠ 0 ∧ f.encoding.length ≤ room

instance (room : ℕ) (f : Field) : Decidable (f.Fits room) := instDecidableAnd

/-- What a call puts into so much room: the whole field, or what goes out one byte at a time. -/
def Field.left (room : ℕ) (f : Field) : List UInt8 :=
  if f.number = 0 then []
  else if f.encoding.length ≤ room then f.encoding
  else f.lead.take room

/-- What a sequence of calls puts into so much room. -/
def message : ℕ → List Field → List UInt8
  | _, [] => []
  | room, f :: fs => f.left room ++ message (room - (f.left room).length) fs

/-- The fields of a sequence for which there is room when their turn comes. -/
def fitting : ℕ → List Field → List Field
  | _, [] => []
  | room, f :: fs =>
    if f.Fits room then f :: fitting (room - (f.left room).length) fs
    else fitting (room - (f.left room).length) fs

/-- No field is cut off: each fits, or is refused for its number, or meets a full buffer. -/
def Whole : ℕ → List Field → Prop
  | _, [] => True
  | room, f :: fs =>
    (f.Fits room ∨ f.number = 0 ∨ room = 0) ∧ Whole (room - (f.left room).length) fs

variable {f : Field} {fs : List Field} {front rest : List UInt8} {room : ℕ}

theorem Field.left_of_fits (h : f.Fits room) : f.left room = f.encoding := by
  rw [left, if_neg h.1, if_pos h.2]

theorem Field.lead_ne_nil (f : Field) : f.lead ≠ [] := by
  have hpos := Math.Varint.length_encode_pos f.tag
  rw [← List.length_pos_iff, lead, List.length_append]
  omega

/-- A call that fails leaves nothing just where the field is not cut off. -/
theorem Field.left_eq_nil_iff (h : ¬ f.Fits room) : f.left room = [] ↔ f.number = 0 ∨ room = 0 := by
  rw [left]
  by_cases hnumber : f.number = 0
  · simp [hnumber]
  · have hshort : ¬ f.encoding.length ≤ room := fun hfits => h ⟨hnumber, hfits⟩
    rw [if_neg hnumber, if_neg hshort, List.take_eq_nil_iff]
    simp [hnumber, f.lead_ne_nil]

theorem Field.length_left_le (room : ℕ) (f : Field) : (f.left room).length ≤ room := by
  rw [left]
  split_ifs with hnumber hfits
  · exact Nat.zero_le room
  · exact hfits
  · exact List.length_take_le room f.lead

/-! ## Runs -/

namespace Writer

/-- **One call**, at any writer. -/
theorem field_between (hlimit : front.length + rest.length < usizeLimit) (f : Field) :
    field f.number f.value (between front rest) =
      if f.Fits rest.length then
        .ok () (between (front ++ f.left rest.length) (rest.drop (f.left rest.length).length))
      else .error (if f.number = 0 then .zeroFieldNumber else .bufferTooSmall)
        (between (front ++ f.left rest.length) (rest.drop (f.left rest.length).length)) := by
  by_cases hnumber : f.number = 0
  · have hleft : f.left rest.length = [] := if_pos hnumber
    rw [field_zero hnumber, if_neg fun h => h.1 hnumber, if_pos hnumber, hleft, List.append_nil,
      List.length_nil, List.drop_zero]
  obtain ⟨hfits, hshort⟩ := writesLead_field hnumber f.value front rest hlimit
  by_cases hroom : f.encoding.length ≤ rest.length
  · rw [if_pos ⟨hnumber, hroom⟩, Field.left_of_fits ⟨hnumber, hroom⟩]
    exact hfits hroom
  · have hleft : f.left rest.length = f.lead.take rest.length := by
      rw [Field.left, if_neg hnumber, if_neg hroom]
    have hdrop : rest.drop (f.lead.take rest.length).length = rest.drop f.lead.length := by
      rw [List.length_take]
      rcases Nat.le_total rest.length f.lead.length with hle | hle
      · rw [Nat.min_eq_left hle, List.drop_length, List.drop_eq_nil_of_le hle]
      · rw [Nat.min_eq_right hle]
    rw [if_neg fun h => hroom h.2, if_neg hnumber, hleft, hdrop]
    exact hshort (Nat.not_le.mp hroom)

theorem after_between (hlimit : front.length + rest.length < usizeLimit) (f : Field) :
    after (between front rest) f =
      between (front ++ f.left rest.length) (rest.drop (f.left rest.length).length) := by
  rw [after, field_between hlimit]
  split_ifs <;> rfl

theorem accepts_between (hlimit : front.length + rest.length < usizeLimit) (f : Field) :
    accepts (between front rest) f = decide (f.Fits rest.length) := by
  rw [accepts, field_between hlimit]
  by_cases hfits : f.Fits rest.length
  · rw [if_pos hfits, decide_eq_true hfits]
  · rw [if_neg hfits, decide_eq_false hfits]

/-- A call neither lengthens nor shortens the buffer. -/
theorem length_after (hlimit : front.length + rest.length < usizeLimit) (f : Field) :
    (front ++ f.left rest.length).length + (rest.drop (f.left rest.length).length).length <
      usizeLimit := by
  have hle := f.length_left_le rest.length
  rw [List.length_append, List.length_drop]
  omega

/-- **A sequence of calls** puts down its message, and what lies beyond stays. -/
theorem calls_between (hlimit : front.length + rest.length < usizeLimit) (fs : List Field) :
    calls (between front rest) fs = between (front ++ message rest.length fs)
      (rest.drop (message rest.length fs).length) := by
  induction fs generalizing front rest with
  | nil =>
    rw [message, List.append_nil, List.length_nil, List.drop_zero]
    rfl
  | cons f fs ih =>
    have hrest := ih (length_after hlimit f)
    rw [List.length_drop, List.append_assoc, List.drop_drop] at hrest
    rw [calls, List.foldl_cons, after_between hlimit, message, List.length_append]
    exact hrest

theorem accepted_between (hlimit : front.length + rest.length < usizeLimit) (fs : List Field) :
    accepted (between front rest) fs = fitting rest.length fs := by
  induction fs generalizing front rest with
  | nil => rfl
  | cons f fs ih =>
    have hrest := ih (length_after hlimit f)
    rw [List.length_drop] at hrest
    rw [accepted, accepts_between hlimit, after_between hlimit, hrest, fitting]
    by_cases hfits : f.Fits rest.length
    · rw [decide_eq_true hfits, if_pos rfl, if_pos hfits]
    · rw [decide_eq_false hfits, if_neg Bool.false_ne_true, if_neg hfits]

/-! ## When a failure leaves nothing -/

/-- The first call of a sequence, and the others. -/
theorem keeps_cons {w : Writer} : w.Keeps (f :: fs) ↔
    (∀ e w', field f.number f.value w = .error e w' → w'.len = w.len) ∧ (w.after f).Keeps fs := by
  constructor
  · intro h
    refine ⟨fun e w' => h [] f fs e w' rfl, fun before g rest e w' hfs hrun => ?_⟩
    exact h (f :: before) g rest e w' (by rw [hfs, List.cons_append]) hrun
  · rintro ⟨hfirst, hothers⟩ before g rest e w' hfs hrun
    cases before with
    | nil =>
      obtain ⟨rfl, rfl⟩ := List.cons_eq_cons.mp hfs
      exact hfirst e w' hrun
    | cons f' before =>
      obtain ⟨rfl, htail⟩ := List.cons_eq_cons.mp hfs
      exact hothers before g rest e w' htail hrun

/-- One call keeps the length if it succeeds, or the field is not cut off. -/
theorem field_keeps_iff (hlimit : front.length + rest.length < usizeLimit) (f : Field) :
    (∀ e w', field f.number f.value (between front rest) = .error e w' →
      len w' = len (between front rest)) ↔
        f.Fits rest.length ∨ f.number = 0 ∨ rest.length = 0 := by
  rw [field_between hlimit]
  by_cases hfits : f.Fits rest.length
  · rw [if_pos hfits]
    exact ⟨fun _ => .inl hfits, fun _ e w' herr => by cases herr⟩
  · rw [if_neg hfits, ← Field.left_eq_nil_iff hfits, or_iff_right hfits]
    constructor
    · intro h
      have hlen := h _ _ rfl
      rw [len, len, pos_between, pos_between, List.length_append] at hlen
      exact List.eq_nil_of_length_eq_zero (by omega)
    · intro hleft e w' herr
      cases herr
      rw [len, len, pos_between, pos_between, hleft, List.append_nil]

theorem keeps_between (hlimit : front.length + rest.length < usizeLimit) (fs : List Field) :
    Keeps (between front rest) fs ↔ Whole rest.length fs := by
  induction fs generalizing front rest with
  | nil =>
    refine ⟨fun _ => trivial, fun _ before f tail e w' hfs => ?_⟩
    cases before <;> cases hfs
  | cons f fs ih =>
    have hrest := ih (length_after hlimit f)
    rw [List.length_drop] at hrest
    rw [keeps_cons, field_keeps_iff hlimit, after_between hlimit, hrest]
    rfl

end Writer

/-- A message in which no field is cut off is the fields that fit. -/
theorem message_of_whole (h : Whole room fs) : message room fs = encodings (fitting room fs) := by
  induction fs generalizing room with
  | nil => rfl
  | cons f fs ih =>
    obtain ⟨hf, hrest⟩ := h
    rw [message, fitting, ih hrest]
    by_cases hfits : f.Fits room
    · rw [if_pos hfits, encodings_cons, Field.left_of_fits hfits]
    · have hleft := (Field.left_eq_nil_iff hfits).mpr (hf.resolve_left hfits)
      rw [if_neg hfits, hleft, List.nil_append]

/-- **What calls leave**, of which any may fail. The message is, in order, what each call left:
the fields that fitted, and what came before the cut of those that were cut off. It consists of
the fields whose call succeeded, and no failure moved the writer, just where none was. -/
theorem writer_calls_leave {buf : List UInt8} (hbuf : buf.length < usizeLimit) (fs : List Field) :
    ((Writer.new buf).calls fs).len = (message buf.length fs).length ∧
    ((Writer.new buf).calls fs).buf =
      message buf.length fs ++ buf.drop (message buf.length fs).length ∧
    (Writer.new buf).accepted fs = fitting buf.length fs ∧
    (FailuresLeaveNothing buf fs ↔ Whole buf.length fs) := by
  have hlimit : ([] : List UInt8).length + buf.length < usizeLimit := by
    rwa [List.length_nil, Nat.zero_add]
  have hcalls : (Writer.new buf).calls fs = between ([] ++ message buf.length fs) _ :=
    Writer.calls_between hlimit fs
  have haccepted : (Writer.new buf).accepted fs = fitting buf.length fs :=
    Writer.accepted_between hlimit fs
  have hkeeps : (Writer.new buf).Keeps fs ↔ Whole buf.length fs := Writer.keeps_between hlimit fs
  rw [List.nil_append] at hcalls
  have hlen : ((Writer.new buf).calls fs).len = (message buf.length fs).length := by
    rw [hcalls, Writer.len, pos_between]
  refine ⟨hlen, by rw [hcalls, buf_between], haccepted, fun h => hkeeps.mp h.kept, fun h => ?_⟩
  have hmessage := message_of_whole h
  exact {
    len_eq := by rw [hlen, haccepted, hmessage]
    front_eq := by rw [hlen, haccepted, hcalls, buf_between, List.take_left, hmessage]
    kept := hkeeps.mpr h }

/-- Field 1 with five bytes, and field 2 with the value 1. -/
def cutOffFields : List Field := [⟨1, .len [1, 2, 3, 4, 5]⟩, ⟨2, .varint 1⟩]

theorem message_cutOffFields :
    message 4 cutOffFields = [10, 5, 16, 1] ∧ fitting 4 cutOffFields = [⟨2, .varint 1⟩] := by
  simp [message, fitting, cutOffFields, Field.left, Field.Fits, Field.encoding, Field.lead,
    Value.encoding, Value.lead, Field.tag, Value.wireType, Math.Varint.encode, usizeLimit]

/-- **A part stays behind.** In four bytes the first field fails and leaves its tag and its
length; the second succeeds and comes to stand in the place of the first one's bytes. -/
theorem cutOffFields_not_failuresLeaveNothing :
    ((Writer.new [0, 0, 0, 0]).calls cutOffFields).buf = [10, 5, 16, 1] ∧
    ((Writer.new [0, 0, 0, 0]).calls cutOffFields).len = 4 ∧
    encodings ((Writer.new [0, 0, 0, 0]).accepted cutOffFields) = [16, 1] ∧
    ¬ FailuresLeaveNothing [0, 0, 0, 0] cutOffFields := by
  have hlimit : ([] : List UInt8).length + [0, 0, 0, (0 : UInt8)].length < usizeLimit := by decide
  obtain ⟨hmessage, hfitting⟩ := message_cutOffFields
  have hcalls : (Writer.new [0, 0, 0, 0]).calls cutOffFields =
      between ([] ++ message 4 cutOffFields) ([0, 0, 0, 0].drop (message 4 cutOffFields).length) :=
    Writer.calls_between hlimit cutOffFields
  have haccepted : (Writer.new [0, 0, 0, 0]).accepted cutOffFields = fitting 4 cutOffFields :=
    Writer.accepted_between hlimit cutOffFields
  have hencodings : encodings [⟨2, .varint 1⟩] = [16, 1] := by
    simp [encodings, Field.encoding, Value.encoding, Field.tag, Value.wireType,
      Math.Varint.encode]
  rw [hmessage] at hcalls
  refine ⟨by rw [hcalls]; rfl, by rw [hcalls]; rfl, by rw [haccepted, hfitting, hencodings], ?_⟩
  intro h
  have hlen := h.len_eq
  rw [hcalls, haccepted, hfitting, hencodings] at hlen
  exact absurd hlen (by decide)

/-- A refused number, a field that fits, and one that meets a full buffer. -/
theorem writer_calls_leave_whole : FailuresLeaveNothing [0, 0]
    [⟨0, .varint 1⟩, ⟨1, .varint 1⟩, ⟨1, .varint 1⟩] :=
  (writer_calls_leave (by decide) _).2.2.2.mpr (by
    simp [Whole, Field.left, Field.Fits, Field.encoding, Value.encoding, Field.tag,
      Value.wireType, Math.Varint.encode])

end TetherMesh.Protocol.Protobuf
