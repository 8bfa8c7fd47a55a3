import TetherMesh.Protocol.ProtobufRoundTrip

/-!
# Lists of fields on the wire

Field after field is written into a buffer, and field after field is read back until
the reader reports the end.

## Main definitions

* `Yields r fs r'` — successive reads from `r` answer `fs` and then report the end

## Main results

* `Writer.writes_fields` — a list of fields writes its encodings
* `field_write` — everything one write does to a buffer
* `fields_read_back`
-/

namespace TetherMesh.Protocol.Protobuf

open CS CS.Cursor

/-- Successive calls of `nextField` answer the fields of a list in order and then
report the end of the message. -/
inductive Yields : Reader → List Field → Reader → Prop
  /-- The message is at its end. -/
  | done {r r' : Reader} (h : Reader.nextField r = .ok none r') : Yields r [] r'
  /-- One field more. -/
  | more {r r' r'' : Reader} {f : Field} {fs : List Field}
    (h : Reader.nextField r = .ok (some f) r') (hrest : Yields r' fs r'') : Yields r (f :: fs) r''

variable {fs : List Field} {r r' : Reader}

/-- In front of the encodings of fields the reader finds them. -/
theorem yields_encodings (hvalid : ∀ f ∈ fs, f.Valid) (front : List UInt8) :
    Yields (between front (encodings fs)) fs (between (front ++ encodings fs) []) := by
  induction fs generalizing front with
  | nil =>
    rw [encodings_nil, List.append_nil]
    exact .done (Reader.nextField_end front)
  | cons f fs ih =>
    have hf := hvalid f List.mem_cons_self
    rw [encodings_cons, ← List.append_assoc]
    exact .more (Reader.reads_nextField hf front (encodings fs))
      (ih (fun g hg => hvalid g (List.mem_cons_of_mem f hg)) _)

/-- What is decoded was absorbed from the fields that the reader answers. -/
theorem Reader.exists_yields {α : Type} {absorb : α → Field → α} {out m : α}
    (h : decodeWith absorb out r = .ok m) :
    ∃ fs r', Yields r fs r' ∧ fs.foldl absorb out = m := by
  induction out, r using decodeWith.induct absorb with
  | case1 out r e r' hnext =>
    rw [decodeWith_error hnext] at h
    cases h
  | case2 out r r' hnext =>
    rw [decodeWith_end hnext] at h
    cases h
    exact ⟨[], r', .done hnext, rfl⟩
  | case3 out r f r' hnext ih =>
    rw [decodeWith_more hnext] at h
    obtain ⟨fs, r'', hrest, hfold⟩ := ih h
    exact ⟨f :: fs, r'', .more hnext hrest, hfold⟩

/-! ## Writing -/

namespace Writer

theorem writes_fields (hnumbers : ∀ f ∈ fs, f.number ≠ 0) :
    Writes usizeLimit .bufferTooSmall (fs.forM fun f => field f.number f.value)
      (encodings fs) :=
  Writes.listForM fun f hf => writes_field (hnumbers f hf) f.value

/-- Fields that were written have numbers. -/
theorem numbers_of_forM {w w' : Writer}
    (h : (fs.forM fun f => field f.number f.value) w = .ok () w') : ∀ f ∈ fs, f.number ≠ 0 := by
  induction fs generalizing w with
  | nil => exact fun f hf => absurd hf List.not_mem_nil
  | cons f fs ih =>
    obtain ⟨_, w₁, hf, hrest⟩ := bind_ok h
    intro g hg
    rcases List.mem_cons.mp hg with rfl | hg
    · intro hzero
      change field g.number g.value w = _ at hf
      rw [field, if_pos hzero] at hf
      cases hf
    · exact ih hrest g hg

end Writer

/-- A field written into a buffer has a value that fits one. -/
theorem valid_of_length (hnumbers : ∀ f ∈ fs, f.number ≠ 0)
    (hlen : (encodings fs).length < usizeLimit) : ∀ f ∈ fs, f.Valid := by
  intro f hf
  refine ⟨hnumbers f hf, Nat.lt_of_le_of_lt ?_ hlen⟩
  obtain ⟨before, after, rfl⟩ := List.append_of_mem hf
  rw [encodings_append, encodings_cons, Field.encoding]
  simp only [List.length_append]
  omega

/-- **Everything one write does.** A zero number is refused and leaves the writer as it
was. Any other field succeeds exactly where its encoding fits and puts that down between
what lies behind and what lies beyond; where it does not fit, what lies behind stays. -/
structure FieldWrite (w : Writer) (f : Field) : Prop where
  /-- A zero number. -/
  zero : f.number = 0 → Writer.field f.number f.value w = .error .zeroFieldNumber w
  /-- Success. -/
  ok_iff : f.number ≠ 0 → ((∃ w', Writer.field f.number f.value w = .ok () w') ↔
    f.encoding.length ≤ w.buf.length - w.pos)
  /-- What success leaves behind. -/
  written : ∀ w', Writer.field f.number f.value w = .ok () w' →
    w'.pos = w.pos + f.encoding.length ∧
      w'.buf = w.buf.take w.pos ++ f.encoding ++ w.buf.drop w'.pos
  /-- What failure leaves behind. -/
  kept : ∀ e w', Writer.field f.number f.value w = .error e w' →
    w'.buf.length = w.buf.length ∧ w'.buf.take w.pos = w.buf.take w.pos

section FieldWrite

variable {w : Writer} {f : Field}

/-- A writer's buffer, cut at its position. -/
theorem length_take_pos (w : Writer) : (w.buf.take w.pos).length = w.pos := by
  rw [List.length_take, Nat.min_eq_left w.pos_le]

theorem Writer.field_zero (hnumber : f.number = 0) :
    Writer.field f.number f.value w = .error .zeroFieldNumber w := by
  rw [Writer.field, if_pos hnumber]
  rfl

/-- A field that fits is put down between what lies behind and what lies beyond. -/
theorem Writer.field_fits (hw : w.buf.length < usizeLimit) (hnumber : f.number ≠ 0)
    (hfits : f.encoding.length ≤ w.buf.length - w.pos) :
    Writer.field f.number f.value w = .ok () (between (w.buf.take w.pos ++ f.encoding)
      (w.buf.drop (w.pos + f.encoding.length))) := by
  have hrun := Writer.writes_field hnumber f.value (w.buf.take w.pos) (w.buf.drop w.pos)
    (by rwa [← List.length_append, List.take_append_drop])
  rw [← eq_between, List.length_drop, List.drop_drop] at hrun
  exact hrun.1 hfits

/-- A field that does not fit leaves what lies behind. -/
theorem Writer.field_short (hw : w.buf.length < usizeLimit) (hnumber : f.number ≠ 0)
    (hshort : w.buf.length - w.pos < f.encoding.length) :
    ∃ mid rest', mid.length + rest'.length = w.buf.length - w.pos ∧
      Writer.field f.number f.value w =
        .error .bufferTooSmall (between (w.buf.take w.pos ++ mid) rest') := by
  have hrun := Writer.writes_field hnumber f.value (w.buf.take w.pos) (w.buf.drop w.pos)
    (by rwa [← List.length_append, List.take_append_drop])
  rw [← eq_between, List.length_drop] at hrun
  exact hrun.2 hshort

theorem field_write (hw : w.buf.length < usizeLimit) (f : Field) : FieldWrite w f := by
  by_cases hnumber : f.number = 0
  · have hrun := Writer.field_zero (w := w) hnumber
    refine ⟨fun _ => hrun, fun hne => absurd hnumber hne, fun w' hok => ?_, fun e w' herr => ?_⟩
    · rw [hrun] at hok
      cases hok
    · rw [hrun] at herr
      cases herr
      exact ⟨rfl, rfl⟩
  rcases Nat.lt_or_ge (w.buf.length - w.pos) f.encoding.length with hshort | hfits
  · -- a part of the field may have been put down, but only beyond the position
    obtain ⟨mid, rest', hlen, hrun⟩ := Writer.field_short hw hnumber hshort
    refine ⟨fun h => absurd h hnumber, fun _ => ⟨fun hok => ?_, fun h => ?_⟩, fun w' hok => ?_,
      fun e w' herr => ?_⟩
    · obtain ⟨w', hok⟩ := hok
      rw [hrun] at hok
      cases hok
    · exact absurd hshort (Nat.not_lt.mpr h)
    · rw [hrun] at hok
      cases hok
    · rw [hrun] at herr
      cases herr
      constructor
      · rw [buf_between, List.length_append, List.length_append, Nat.add_assoc, hlen,
          length_take_pos, Nat.add_sub_cancel' w.pos_le]
      · rw [buf_between, List.append_assoc, List.take_left' (length_take_pos w)]
  · have hrun := Writer.field_fits hw hnumber hfits
    refine ⟨fun h => absurd h hnumber, fun _ => ⟨fun _ => hfits, fun _ => ⟨_, hrun⟩⟩,
      fun w' hok => ?_, fun e w' herr => ?_⟩
    · rw [hrun] at hok
      cases hok
      have hpos : (w.buf.take w.pos ++ f.encoding).length = w.pos + f.encoding.length := by
        rw [List.length_append, length_take_pos]
      refine ⟨hpos, ?_⟩
      rw [buf_between, pos_between, hpos]
    · rw [hrun] at herr
      cases herr

end FieldWrite

/-- **The wire layer reads back what it writes.** At every writer a field does what
`FieldWrite` says, and the bytes of fields that were all written are read back as those
fields and nothing more, up to the last byte. -/
theorem fields_read_back {w : Writer} (hw : w.buf.length < usizeLimit) :
    (∀ f, FieldWrite w f) ∧
      ∀ fs w', (fs.forM fun f => Writer.field f.number f.value) (Writer.new w.buf) = .ok () w' →
        ∃ r, Yields (Reader.new (w'.buf.take w'.len)) fs r ∧ r.pos = w'.len := by
  refine ⟨field_write hw, ?_⟩
  intro fs w' hrun
  have hnumbers := Writer.numbers_of_forM hrun
  obtain ⟨hfits, hfull⟩ := (Writer.writes_fields hnumbers).start hw
  rcases Nat.lt_or_ge w.buf.length (encodings fs).length with hshort | hlong
  · obtain ⟨w₁, -, herr⟩ := hfull hshort
    rw [Writer.new, herr] at hrun
    cases hrun
  · -- what lies beyond the last field is cut off, so the reader ends where the writer did
    rw [Writer.new, hfits hlong] at hrun
    cases hrun
    refine ⟨between (encodings fs) [], ?_, rfl⟩
    rw [buf_between, Writer.len, pos_between, List.take_left' rfl]
    exact yields_encodings (valid_of_length hnumbers (Nat.lt_of_le_of_lt hlong hw)) []

/-- A varint, bytes behind their length, and four bytes. -/
def threeFields : List Field :=
  [⟨1, .varint 1⟩, ⟨2, .len [104, 105]⟩, ⟨3, .fixed32 #v[7, 0, 0, 0]⟩]

/-- What they are written as. -/
def threeBytes : List UInt8 := [8, 1, 18, 2, 104, 105, 29, 7, 0, 0, 0]

/-- Three fields in a buffer of sixteen bytes. -/
theorem fields_read_back_three :
    ∃ w, (threeFields.forM fun f => Writer.field f.number f.value)
        (Writer.new (List.replicate 16 0)) = .ok () w ∧ w.buf.take w.len = threeBytes ∧
      ∃ r, Yields (Reader.new threeBytes) threeFields r ∧ r.pos = 11 := by
  have hbuf : (List.replicate 16 (0 : UInt8)).length < usizeLimit := by decide
  have hrun : (threeFields.forM fun f => Writer.field f.number f.value)
      (Writer.new (List.replicate 16 0)) =
        .ok () ⟨threeBytes ++ List.replicate 5 0, 11, by decide⟩ := by with_unfolding_all rfl
  exact ⟨_, hrun, rfl, (fields_read_back (w := Writer.new (List.replicate 16 0)) hbuf).2 _ _ hrun⟩

/-- The three fields again, where the varint takes a byte too many. -/
def threeOverlong : List UInt8 := [8, 129, 0, 18, 2, 104, 105, 29, 7, 0, 0, 0]

/-- They are read all the same. -/
theorem nextField_threeOverlong :
    Reader.nextField (Reader.new threeOverlong) =
        .ok (some ⟨1, .varint 1⟩) ⟨threeOverlong, 3, by decide⟩ ∧
      Reader.nextField ⟨threeOverlong, 3, by decide⟩ =
        .ok (some ⟨2, .len [104, 105]⟩) ⟨threeOverlong, 7, by decide⟩ ∧
      Reader.nextField ⟨threeOverlong, 7, by decide⟩ =
        .ok (some ⟨3, .fixed32 #v[7, 0, 0, 0]⟩) ⟨threeOverlong, 12, by decide⟩ := by
  refine ⟨?_, ?_, ?_⟩
  all_goals with_unfolding_all rfl

end TetherMesh.Protocol.Protobuf
