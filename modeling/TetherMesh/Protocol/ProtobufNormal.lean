import TetherMesh.Protocol.ProtobufFields

/-!
# Writing back what was read

A message that reads to its end may spell its varints longer than needed. Writing its
fields back shortens exactly those, so the result fits where the message was, reads as
the same fields, and is the message itself just when every varint in it was minimal.

## Main definitions

* `Spelled`, `Spelled.Minimal` — the bytes of a varint and the value they were read as
* `Reader.valueVarints`, `Reader.fieldVarints`, `VarintIn` — the varints of a value, of a
  field, of a message

## Main results

* `Reader.varint_consumes` — a varint takes no fewer bytes than the minimal one
* `Reader.nextField_consumes` — the same for a field
* `reemit_normalises`
-/

namespace TetherMesh.Protocol.Protobuf

open CS CS.Cursor Math

/-- The bytes of a varint and the value they were read as. -/
structure Spelled where
  /-- The bytes. -/
  bytes : List UInt8
  /-- The value. -/
  value : UInt64
  deriving DecidableEq, Repr

/-- The bytes are the shortest for the value. -/
def Spelled.Minimal (s : Spelled) : Prop := s.bytes = Varint.encode s.value.toNat

namespace Reader

/-- The varint a value starts with, where its wire type announces one: the value itself,
or its length. -/
def valueVarints (wireType : UInt64) (r : Reader) : List Spelled :=
  match wireType.toNat with
  | 0 | 2 =>
    match varint r with
    | .error _ _ => []
    | .ok v r' => [⟨r.since r', v⟩]
  | _ => []

/-- The varints of the field that starts at `r`: its tag, and that of its value. -/
def fieldVarints (r : Reader) : List Spelled :=
  match varint r with
  | .error _ _ => []
  | .ok tag r' => ⟨r.since r', tag⟩ :: valueVarints (tag &&& 0x07) r'

end Reader

/-- The varints of a message, from the reader's position on. -/
inductive VarintIn : Reader → Spelled → Prop
  /-- In the next field. -/
  | here {r r' : Reader} {f : Field} {s : Spelled} (h : Reader.nextField r = .ok (some f) r')
    (hs : s ∈ r.fieldVarints) : VarintIn r s
  /-- In a field after it. -/
  | later {r r' : Reader} {f : Field} {s : Spelled} (h : Reader.nextField r = .ok (some f) r')
    (hs : VarintIn r' s) : VarintIn r s

/-! ## What a read consumed -/

namespace Reader

variable {r r' : Reader}

theorem byte_consumes {b : UInt8} (h : byte r = .ok b r') : Consumed r [b] r' := by
  rw [byte] at h
  split_ifs at h with hlt
  cases h
  let next : Reader := ⟨r.buf, r.pos + 1, hlt⟩
  have hone : Consumed r (r.since next) next := consumed_since rfl (Nat.le_succ _)
  rwa [since, Nat.add_sub_cancel_left, List.drop_eq_getElem_cons hlt, List.take_succ_cons,
    List.take_zero] at hone

theorem take_consumes {len : ℕ} {bs : List UInt8} (h : take len r = .ok bs r') :
    Consumed r bs r' ∧ bs.length = len := by
  rw [take] at h
  split_ifs at h with hfits
  cases h
  let next : Reader := ⟨r.buf, r.pos + len, hfits⟩
  have hpiece : Consumed r (r.since next) next := consumed_since rfl (Nat.le_add_right _ _)
  rw [since, Nat.add_sub_cancel_left] at hpiece
  refine ⟨hpiece, ?_⟩
  rw [List.length_take, List.length_drop]
  omega

/-- A digit keeps the value below the place of the next one, also where bits are
shifted out. -/
theorem toNat_or_part_lt {value part : UInt64} {byte : UInt8} {shift : ℕ}
    (hvalue : value.toNat < 2 ^ shift)
    (hpart : (byte &&& 0x7F).toUInt64.checkedShl shift = some part) :
    (value ||| part).toNat < 2 ^ (shift + 7) := by
  rw [UInt64.checkedShl] at hpart
  split_ifs at hpart
  cases hpart
  have hdigit : (byte &&& 0x7F).toNat < 128 := by
    rw [UInt8.toNat_and]
    exact Nat.lt_of_le_of_lt Nat.and_le_right (by decide)
  have hpow : 2 ^ (shift + 7) = 128 * 2 ^ shift := by rw [Nat.pow_add, Nat.mul_comm]
  rw [UInt64.toNat_or, UInt64.toNat_ofNat', UInt8.toNat_toUInt64]
  refine Nat.or_lt_two_pow (by omega) (Nat.lt_of_le_of_lt (Nat.mod_le _ _) ?_)
  rw [hpow]
  exact Nat.mul_lt_mul_of_pos_right hdigit (Nat.two_pow_pos shift)

/-- The loop keeps its value below the place of the next digit. -/
theorem varintLoop_consumes {value v : UInt64} {shift : ℕ} (hvalue : value.toNat < 2 ^ shift)
    (h : varintLoop value shift r = .ok v r') :
    ∃ bs, Consumed r bs r' ∧ 0 < bs.length ∧ v.toNat < 2 ^ (shift + 7 * bs.length) := by
  induction value, shift using varintLoop.induct generalizing r with
  | case1 value shift ih =>
    rw [varintLoop] at h
    obtain ⟨byte, r₁, hbyte, hrest⟩ := bind_ok h
    have hfirst := byte_consumes hbyte
    cases hpart : (byte &&& 0x7F).toUInt64.checkedShl shift with
    | none =>
      -- the shift has left the word: no value is answered
      rw [hpart] at hrest
      cases hrest
    | some part =>
      rw [hpart] at hrest
      have hnext := toNat_or_part_lt hvalue hpart
      by_cases hlast : byte &&& 0x80 = 0
      · simp only [if_pos hlast] at hrest
        cases hrest
        exact ⟨[byte], hfirst, Nat.one_pos, hnext⟩
      · by_cases hlong : 64 ≤ shift + 7
        · simp only [if_neg hlast, if_pos hlong] at hrest
          cases hrest
        · simp only [if_neg hlast, if_neg hlong] at hrest
          obtain ⟨bs, hbs, -, hv⟩ := ih part hlong hnext hrest
          refine ⟨[byte] ++ bs, hfirst.trans hbs, Nat.succ_pos _, ?_⟩
          rwa [List.length_append, List.length_singleton, Nat.mul_add, ← Nat.add_assoc]

/-- **A varint takes no fewer bytes than the minimal one** of its value. -/
theorem varint_consumes {v : UInt64} (h : varint r = .ok v r') :
    ∃ bs, Consumed r bs r' ∧ (Varint.encode v.toNat).length ≤ bs.length := by
  obtain ⟨bs, hbs, hpos, hv⟩ := varintLoop_consumes (by decide) h
  refine ⟨bs, hbs, ?_⟩
  obtain ⟨k, hk⟩ := Nat.exists_eq_add_of_lt hpos
  rw [Nat.zero_add] at hk
  rw [hk, Varint.length_encode_le_iff, ← hk, show 128 = 2 ^ 7 from rfl, ← Nat.pow_mul]
  rwa [Nat.zero_add] at hv

theorem value_consumes {wireType : UInt64} {v : Value} (h : value wireType r = .ok v r') :
    v.wireType.toNat = wireType.toNat ∧ ∃ bs, Consumed r bs r' ∧
      v.encoding.length ≤ bs.length ∧
      (v.encoding = bs ↔ ∀ s ∈ valueVarints wireType r, s.Minimal) := by
  rw [value] at h
  rw [valueVarints]
  generalize wireType.toNat = k at h ⊢
  split at h
  · -- a varint may be longer than its encoding
    obtain ⟨v, hread, rfl⟩ := map_ok h
    obtain ⟨bs, hbs, hlen⟩ := varint_consumes hread
    refine ⟨rfl, bs, hbs, hlen, ?_⟩
    simp only [hread, hbs.since_eq, List.forall_mem_singleton, Spelled.Minimal, Value.encoding]
    exact eq_comm
  · obtain ⟨bs, hread, rfl⟩ := map_ok h
    obtain ⟨hbs, hlen⟩ := take_consumes hread
    rw [Value.encoding, toList_pad hlen]
    exact ⟨rfl, bs, hbs, Nat.le_refl _, fun _ _ hs => absurd hs List.not_mem_nil, fun _ => rfl⟩
  · -- of bytes only the length before them may be longer
    obtain ⟨len, r₁, hread, hrest⟩ := bind_ok h
    obtain ⟨bytes, htake, rfl⟩ := map_ok hrest
    obtain ⟨bs, hbs, hlen⟩ := varint_consumes hread
    obtain ⟨hbytes, hlenBytes⟩ := take_consumes htake
    refine ⟨rfl, bs ++ bytes, hbs.trans hbytes, ?_, ?_⟩
    · rw [Value.encoding, hlenBytes, List.length_append, List.length_append]
      omega
    · rw [Value.encoding, hlenBytes, append_eq_append_iff_of_length_le hlen (Nat.le_refl _)]
      simp only [hread, hbs.since_eq, List.forall_mem_singleton, Spelled.Minimal, and_true]
      exact eq_comm
  · obtain ⟨bs, hread, rfl⟩ := map_ok h
    obtain ⟨hbs, hlen⟩ := take_consumes hread
    rw [Value.encoding, toList_pad hlen]
    exact ⟨rfl, bs, hbs, Nat.le_refl _, fun _ _ hs => absurd hs List.not_mem_nil, fun _ => rfl⟩
  · cases h

/-- The tag of a field is put together from what the reader took apart. -/
theorem tag_eq {tag : UInt64} {f : Field} (hnumber : (tag >>> 3).tryToUInt32 = some f.number)
    (hwire : f.value.wireType.toNat = (tag &&& 0x07).toNat) : f.tag = tag.toNat := by
  rw [UInt64.tryToUInt32] at hnumber
  split_ifs at hnumber with hlt
  rw [Option.some_inj] at hnumber
  have hshift : (tag >>> 3).toNat = tag.toNat / 8 := by
    rw [UInt64.toNat_shiftRight, Nat.shiftRight_eq_div_pow]
    rfl
  have hlow : (tag &&& 0x07).toNat = tag.toNat % 8 := by
    rw [UInt64.toNat_and]
    exact Nat.and_two_pow_sub_one_eq_mod tag.toNat 3
  rw [Field.tag, ← hnumber, UInt64.toNat_toUInt32, Nat.mod_eq_of_lt hlt, hshift, hwire, hlow]
  omega

theorem field_of_nextField {f : Field} (h : nextField r = .ok (some f) r') :
    field r = .ok f r' := by
  rw [nextField] at h
  by_cases hend : r.isEmpty
  · rw [if_pos hend] at h
    cases h
  · rw [if_neg hend] at h
    cases hrun : field r with
    | error e r₁ =>
      rw [hrun] at h
      cases h
    | ok g r₁ =>
      rw [hrun] at h
      cases h
      rfl

theorem isEmpty_of_nextField (h : nextField r = .ok none r') : r.isEmpty ∧ r' = r := by
  rw [nextField] at h
  by_cases hend : r.isEmpty
  · rw [if_pos hend] at h
    cases h
    exact ⟨hend, rfl⟩
  · rw [if_neg hend] at h
    cases hrun : field r with
    | error e r₁ =>
      rw [hrun] at h
      cases h
    | ok g r₁ =>
      rw [hrun] at h
      cases h

/-- **A field takes no fewer bytes than its encoding**, and the same bytes just when its
varints are minimal. -/
theorem nextField_consumes {f : Field} (h : nextField r = .ok (some f) r') :
    f.number ≠ 0 ∧ ∃ bs, Consumed r bs r' ∧ f.encoding.length ≤ bs.length ∧
      (f.encoding = bs ↔ ∀ s ∈ fieldVarints r, s.Minimal) := by
  obtain ⟨tag, r₁, htag, hrest⟩ := bind_ok (field_of_nextField h)
  cases hnumber : (tag >>> 3).tryToUInt32 with
  | none =>
    rw [hnumber] at hrest
    cases hrest
  | some number =>
    rw [hnumber] at hrest
    by_cases hzero : number = 0
    · simp only [if_pos hzero] at hrest
      cases hrest
    · simp only [if_neg hzero] at hrest
      obtain ⟨v, hvalue, rfl⟩ := map_ok hrest
      obtain ⟨bs, hbs, hlen⟩ := varint_consumes htag
      obtain ⟨hwire, bs', hbs', hlen', hmin⟩ := value_consumes hvalue
      have hencode : Field.encoding ⟨number, v⟩ = Varint.encode tag.toNat ++ v.encoding := by
        rw [Field.encoding, tag_eq hnumber hwire]
      refine ⟨hzero, bs ++ bs', hbs.trans hbs', ?_, ?_⟩
      · rw [hencode, List.length_append, List.length_append]
        omega
      · -- neither part is longer than what was read, so both must be what was read
        rw [hencode, append_eq_append_iff_of_length_le hlen hlen', hmin]
        simp only [fieldVarints, htag, hbs.since_eq, List.forall_mem_cons, Spelled.Minimal]
        rw [eq_comm]

end Reader

/-! ## Whole messages -/

section Message

variable {r r' : Reader} {fs : List Field}

theorem varintIn_iff {f : Field} (h : Reader.nextField r = .ok (some f) r') {s : Spelled} :
    VarintIn r s ↔ s ∈ r.fieldVarints ∨ VarintIn r' s := by
  constructor
  · rintro (⟨-, hs⟩ | ⟨h', hs⟩)
    · exact .inl hs
    · rw [h] at h'
      cases h'
      exact .inr hs
  · rintro (hs | hs)
    · exact .here h hs
    · exact .later h hs

/-- A message takes no fewer bytes than the encodings of its fields, and the same bytes
just when every varint in it is minimal. -/
theorem Yields.consumes (h : Yields r fs r') :
    r'.isEmpty = true ∧ (∀ f ∈ fs, f.number ≠ 0) ∧ ∃ bs, Consumed r bs r' ∧
      (encodings fs).length ≤ bs.length ∧
      (encodings fs = bs ↔ ∀ s, VarintIn r s → s.Minimal) := by
  induction h with
  | @done r r' hend =>
    obtain ⟨hempty, rfl⟩ := Reader.isEmpty_of_nextField hend
    refine ⟨hempty, fun f hf => absurd hf List.not_mem_nil, [], ?_, Nat.le_refl _, ?_⟩
    · have hnone := consumed_since (c := r') rfl (Nat.le_refl r'.pos)
      rwa [since, Nat.sub_self, List.take_zero] at hnone
    · refine ⟨fun _ s hs => ?_, fun _ => rfl⟩
      rcases hs with ⟨hmore, -⟩ | ⟨hmore, -⟩
      · rw [hend] at hmore
        cases hmore
      · rw [hend] at hmore
        cases hmore
  | more hmore hrest ih =>
    obtain ⟨hempty, hnumbers, bs', hbs', hlen', hmin'⟩ := ih
    obtain ⟨hnumber, bs, hbs, hlen, hmin⟩ := Reader.nextField_consumes hmore
    refine ⟨hempty, List.forall_mem_cons.mpr ⟨hnumber, hnumbers⟩, bs ++ bs', hbs.trans hbs', ?_,
      ?_⟩
    · rw [encodings_cons, List.length_append, List.length_append]
      omega
    · rw [encodings_cons, append_eq_append_iff_of_length_le hlen hlen', hmin, hmin']
      simp only [varintIn_iff hmore, or_imp, forall_and]

/-- **Reading and writing back normalises.** The fields of a message that reads to its end
fit in a buffer of its length; what is written is no longer than the message, reads as the
same fields, and is the message itself exactly when every varint in it is minimal. -/
theorem reemit_normalises {b buf : List UInt8} (hb : b.length < usizeLimit)
    (hbuf : buf.length = b.length) (h : Yields (Reader.new b) fs r) :
    ∃ w, (fs.forM fun f => Writer.field f.number f.value) (Writer.new buf) = .ok () w ∧
      (w.buf.take w.len).length ≤ b.length ∧
      (∃ r', Yields (Reader.new (w.buf.take w.len)) fs r') ∧
      (w.buf.take w.len = b ↔ ∀ s, VarintIn (Reader.new b) s → s.Minimal) := by
  obtain ⟨hempty, hnumbers, bs, hbs, hlen, hmin⟩ := h.consumes
  -- the reader started at the front and stopped at the end
  have hall : bs = b := by
    obtain ⟨front, rest, hstart, rfl⟩ := hbs
    have hstart' : between [] b = _ := hstart
    obtain ⟨rfl, hb'⟩ := between_inj hstart'
    have hrest : rest = [] := by
      rw [Reader.isEmpty, decide_eq_true_iff, buf_between, pos_between, List.length_append]
        at hempty
      exact List.length_eq_zero_iff.mp (by omega)
    rw [hb', hrest, List.append_nil]
  rw [hall] at hlen hmin
  obtain ⟨hfits, -⟩ := (Writer.writes_fields hnumbers).start (hbuf ▸ hb)
  refine ⟨_, hfits (hbuf ▸ hlen), ?_⟩
  rw [buf_between, Writer.len, pos_between, List.take_left' rfl]
  exact ⟨hlen, ⟨_, yields_encodings (valid_of_length hnumbers (Nat.lt_of_le_of_lt hlen hb)) []⟩,
    hmin⟩

/-- Three fields, of which one has a byte too many: it is not written back. -/
theorem reemit_normalises_three :
    ∃ w, (threeFields.forM fun f => Writer.field f.number f.value)
        (Writer.new (List.replicate 12 0)) = .ok () w ∧
      (w.buf.take w.len).length ≤ threeOverlong.length ∧
      (∃ r', Yields (Reader.new (w.buf.take w.len)) threeFields r') ∧
      w.buf.take w.len = threeBytes ∧ ∃ s, VarintIn (Reader.new threeOverlong) s ∧ ¬ s.Minimal := by
  obtain ⟨hfirst, hsecond, hthird⟩ := nextField_threeOverlong
  have hread : Yields (Reader.new threeOverlong) threeFields ⟨threeOverlong, 12, by decide⟩ :=
    .more hfirst (.more hsecond (.more hthird (.done rfl)))
  have hbuf : (List.replicate 12 (0 : UInt8)).length = threeOverlong.length := rfl
  obtain ⟨w, hrun, hle, hsame, hminimal⟩ := reemit_normalises (by decide) hbuf hread
  have hwritten : w.buf.take w.len = threeBytes := by
    have hrun' : (threeFields.forM fun f => Writer.field f.number f.value)
        (Writer.new (List.replicate 12 0)) =
          .ok () ⟨threeBytes ++ [0], 11, by decide⟩ := by with_unfolding_all rfl
    rw [hrun] at hrun'
    cases hrun'
    rfl
  refine ⟨w, hrun, hle, hsame, hwritten, ?_⟩
  -- what was written is another string, so some varint was not minimal
  rw [hwritten] at hminimal
  by_contra hnone
  refine absurd (hminimal.mpr fun s hs => ?_) (by decide : threeBytes ≠ threeOverlong)
  by_contra hs'
  exact hnone ⟨s, hs, hs'⟩

end Message

end TetherMesh.Protocol.Protobuf
