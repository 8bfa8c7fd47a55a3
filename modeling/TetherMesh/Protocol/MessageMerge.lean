import TetherMesh.CS.Streaming
import TetherMesh.Protocol.MessageColumns

/-!
# Messages one after another

The readers stream, so decoding two messages put together is decoding the second on top of
the first. What the second writes replaces what the first had, and the rest stays.

## Main definitions

* `Merges` — how a decoder takes two messages put together

## Main results

* `Reader.streams_field` — reading a field looks at no more than it consumes
* `Reader.decodeWith_append`
* `messages_merge` — all seven decoders
-/

namespace TetherMesh.Protocol.Protobuf

open CS CS.Cursor

namespace Reader

/-! ## The readers stream -/

theorem streams_byte : Streams .truncated byte where
  ok r b r' h := ⟨[b], byte_consumes h, reads_byte b⟩
  error front rest e r' h front' more hmore := by
    rw [byte] at h
    split_ifs at h with hlt
    cases h
    have hrest : rest = [] := by
      rw [buf_between, pos_between, List.length_append] at hlt
      exact List.length_eq_zero_iff.mp (by omega)
    rw [hmore rfl, hrest, List.append_nil, byte, dif_neg (by simp)]
    exact ⟨_, rfl⟩

theorem streams_take (len : ℕ) : Streams .truncated (take len) where
  ok r bytes r' h := by
    obtain ⟨hbytes, rfl⟩ := take_consumes h
    exact ⟨bytes, hbytes, reads_take bytes⟩
  error front rest e r' h front' more hmore := by
    rw [take] at h
    split_ifs at h with hfits
    cases h
    rw [buf_between, pos_between, List.length_append] at hfits
    rw [hmore rfl, List.append_nil, take,
      dif_neg (by rw [buf_between, pos_between, List.length_append]; omega)]
    exact ⟨_, rfl⟩

theorem streams_varintLoop (value : UInt64) (shift : ℕ) :
    Streams .truncated (varintLoop value shift) := by
  induction value, shift using varintLoop.induct with
  | case1 value shift ih =>
    rw [varintLoop]
    refine streams_byte.bind fun b => ?_
    cases hpart : (b &&& 0x7F).toUInt64.checkedShl shift with
    | none => exact Streams.throw _
    | some part =>
      by_cases hlast : b &&& 0x80 = 0
      · simp only [if_pos hlast]
        exact Streams.nil _
      · by_cases hlong : 64 ≤ shift + 7
        · simp only [if_neg hlast, if_pos hlong]
          exact Streams.throw _
        · simp only [if_neg hlast, if_neg hlong]
          exact ih part hlong

theorem streams_varint : Streams .truncated varint := streams_varintLoop 0 0

theorem streams_value (wireType : UInt64) : Streams .truncated (value wireType) := by
  rw [value]
  split
  · exact streams_varint.map _
  · exact (streams_take 8).map _
  · exact streams_varint.bind fun len => (streams_take len.toNat).map _
  · exact (streams_take 4).map _
  · exact Streams.throw _

/-- **Reading a field** looks at no more than it consumes. -/
theorem streams_field : Streams .truncated field := by
  refine streams_varint.bind fun tag => ?_
  cases (tag >>> 3).tryToUInt32 with
  | none => exact Streams.throw _
  | some number =>
    by_cases hzero : number = 0
    · simp only [if_pos hzero]
      exact Streams.throw _
    · simp only [if_neg hzero]
      exact (streams_value _).map _

/-! ## The loop of the decoders -/

variable {α : Type} {absorb : α → Field → α} {out m : α} {front front' a b rest : List UInt8}
  {e : Error} {r r' : Reader} {f : Field}

theorem isEmpty_between : isEmpty (between front rest) = true ↔ rest = [] := by
  rw [isEmpty, decide_eq_true_iff, buf_between, pos_between, List.length_append,
    ← List.length_eq_zero_iff]
  omega

/-- A field is read wherever the same lies ahead. -/
theorem nextField_between (h : nextField (between front rest) = .ok (some f) r') :
    ∃ bs rest', rest = bs ++ rest' ∧ r' = between (front ++ bs) rest' ∧
      ∀ front' more, nextField (between front' (bs ++ more)) =
        .ok (some f) (between (front' ++ bs) more) := by
  obtain ⟨bs, rest', rfl, rfl, hreads⟩ := streams_field.ok_between (field_of_nextField h)
  refine ⟨bs, rest', rfl, rfl, fun front' more => ?_⟩
  have hnonempty : bs ≠ [] := by
    rintro rfl
    -- a field takes two bytes
    obtain ⟨-, hpos⟩ := nextField_advances h
    rw [List.append_nil, pos_between, pos_between] at hpos
    omega
  have hmore : ¬ isEmpty (between front' (bs ++ more)) = true := by
    rw [isEmpty_between, List.append_eq_nil_iff]
    exact fun hnil => hnonempty hnil.1
  rw [nextField, if_neg hmore, hreads]

/-- An error is reported wherever the same lies ahead, and whatever follows it unless the
message had ended. -/
theorem nextField_error (h : nextField (between front rest) = .error e r')
    (front' more : List UInt8)
    (hmore : e = .truncated → more = []) :
    ∃ r'', nextField (between front' (rest ++ more)) = .error e r'' := by
  have hnonempty : ¬ isEmpty (between front rest) = true := by
    intro hempty
    rw [nextField, if_pos hempty] at h
    cases h
  rw [nextField, if_neg hnonempty] at h
  cases hfield : field (between front rest) with
  | ok g r₁ =>
    rw [hfield] at h
    cases h
  | error e₁ r₁ =>
    rw [hfield] at h
    cases h
    obtain ⟨r'', hagain⟩ := streams_field.error _ _ _ _ hfield front' more hmore
    have hmore' : ¬ isEmpty (between front' (rest ++ more)) = true := by
      rw [isEmpty_between] at hnonempty ⊢
      exact fun hnil => hnonempty (List.append_eq_nil_iff.mp hnil).1
    exact ⟨r'', by rw [nextField, if_neg hmore', hagain]⟩

/-- **Decoding goes on** behind a message that was accepted, with what was read so far. -/
theorem decodeWith_append (h : decodeWith absorb out (between front a) = .ok m)
    (front' b : List UInt8) :
    decodeWith absorb out (between front' (a ++ b)) =
      decodeWith absorb m (between (front' ++ a) b) := by
  obtain ⟨fs, r', hyields, rfl⟩ := exists_yields h
  clear h
  generalize hr : between front a = r at hyields
  induction hyields generalizing front front' a out with
  | done hend =>
    subst hr
    obtain rfl := isEmpty_between.mp (isEmpty_of_nextField hend).1
    rw [List.append_nil, List.nil_append, List.foldl_nil]
  | more hmore hrest ih =>
    subst hr
    obtain ⟨bs, rest, rfl, rfl, hreads⟩ := nextField_between hmore
    have hnext := hreads front' (rest ++ b)
    rw [List.append_assoc, decodeWith_more hnext, ih (front' ++ bs) rfl, List.append_assoc,
      List.foldl_cons]

/-- Where a message starts does not matter. -/
theorem decodeWith_ok_between (h : decodeWith absorb out (between front a) = .ok m)
    (front' : List UInt8) : decodeWith absorb out (between front' a) = .ok m := by
  have hagain := decodeWith_append h front' []
  rwa [List.append_nil, decodeWith_end (nextField_end _)] at hagain

/-- Nor does it, or what was read before, or what follows, for one that fails. -/
theorem decodeWith_error_between (h : decodeWith absorb out (between front a) = .error e)
    (front' more : List UInt8) (hmore : e = .truncated → more = []) (out' : α) :
    decodeWith absorb out' (between front' (a ++ more)) = .error e := by
  generalize hr : between front a = r at h
  induction out, r using decodeWith.induct absorb generalizing front front' a out' with
  | case1 out r e' r' hnext =>
    subst hr
    rw [decodeWith_error hnext] at h
    cases h
    obtain ⟨r'', hagain⟩ := nextField_error hnext front' more hmore
    exact decodeWith_error hagain
  | case2 out r r' hnext =>
    rw [decodeWith_end hnext] at h
    cases h
  | case3 out r f r' hnext ih =>
    subst hr
    rw [decodeWith_more hnext] at h
    obtain ⟨bs, rest, rfl, rfl, hreads⟩ := nextField_between hnext
    have hagain := hreads front' (rest ++ more)
    rw [List.append_assoc, decodeWith_more hagain]
    exact ih _ _ rfl h

end Reader

end TetherMesh.Protocol.Protobuf

namespace TetherMesh.Protocol.Message

open CS Cursor Protobuf

/-! ## What a message writes -/

theorem lastValue_append (number : UInt32) (wireType : UInt8) (fs gs : List Field) :
    lastValue number wireType (fs ++ gs) =
      (lastValue number wireType gs).or (lastValue number wireType fs) := by
  rw [lastValue, lastValue, lastValue, List.filter_append, List.getLast?_append, Option.map_or]

/-- A value that is there is the last one or comes before it. -/
theorem lastValue_ne_none {fs : List Field} {f : Field} (hf : f ∈ fs) :
    lastValue f.number f.value.wireType fs ≠ none := by
  rw [lastValue, Ne, Option.map_eq_none_iff, List.getLast?_eq_none_iff, List.filter_eq_nil_iff]
  exact fun hnone => hnone f hf (decide_eq_true ⟨rfl, rfl⟩)

namespace Schema

variable {α : Type} (s : Schema α) {c : Column} {m m' : α} {v : Value}

/-- A message writes what its fields say. -/
theorem emits_eq (m : α) : s.emits m = s.columns.map (Column.emitted (s.fields m)) := by
  rw [← s.emits_foldl, s.foldl_fields]

/-- Each of its fields is what it writes for a column. -/
theorem mem_fields (hc : c ∈ s.columns) :
    ⟨c.number, v⟩ ∈ s.fields m ↔ c.emitted (s.fields m) = some v := by
  have hfields := s.fields_foldl (s.fields m)
  rw [s.foldl_fields] at hfields
  constructor
  · intro hv
    rw [hfields, List.mem_filterMap] at hv
    obtain ⟨d, hd, hfield⟩ := hv
    obtain ⟨w, hw, heq⟩ := Option.map_eq_some_iff.mp hfield
    obtain ⟨hnumber, rfl⟩ := Field.mk.inj heq
    obtain rfl := eq_of_number_eq s.sorted hd hc hnumber
    exact hw
  · intro hv
    rw [hfields, List.mem_filterMap]
    exact ⟨c, hc, by rw [hv, Option.map_some]⟩

/-- **Column by column**, what the second message writes replaces what the first wrote. -/
theorem emitted_append (hc : c ∈ s.columns) (fs : List Field) :
    c.emitted (fs ++ s.fields m') =
      (c.emitted (s.fields m')).or (c.emitted fs) := by
  rw [Column.emitted, lastValue_append]
  cases hlast : lastValue c.number c.kind.wireType (s.fields m') with
  | some v =>
    -- a value that is written is written again as it is
    have hv := (s.mem_fields hc).mp (mem_of_lastValue hlast).1
    have hnormal : c.kind.normal v = some v := by
      rw [← hv, Column.emitted, hlast]
      rfl
    rw [hv]
    exact hnormal
  | none =>
    have habsent : c.emitted (s.fields m') = c.kind.absent := by
      rw [Column.emitted, hlast, Option.elim_none]
    cases hkind : c.kind.absent with
    | none =>
      rw [habsent, hkind, Option.none_or, Option.none_or, Column.emitted, hkind]
    | some w =>
      -- a column that is always written has a value
      have halways := Kind.eq_always_of_absent hkind
      have hmem := (s.mem_fields hc).mpr (habsent.trans hkind)
      rw [halways] at hkind hlast
      obtain rfl : Value.varint 0 = w := Option.some.inj hkind
      exact absurd hlast (lastValue_ne_none hmem)

/-- Absorbing more fields is absorbing a longer list. -/
theorem foldl_absorb (m : α) (fs : List Field) :
    fs.foldl s.absorb m = (s.fields m ++ fs).foldl s.absorb s.init := by
  rw [List.foldl_append, s.foldl_fields]

theorem emits_merge (m m' : α) :
    s.emits ((s.fields m').foldl s.absorb m) = List.zipWith Option.or (s.emits m') (s.emits m) := by
  rw [s.foldl_absorb, s.emits_foldl, s.emits_eq m, s.emits_eq m', List.zipWith_map,
    List.zipWith_self]
  exact List.map_congr_left fun c hc => s.emitted_append hc (s.fields m)

end Schema

/-! ## The seven messages -/

/-- How a decoder takes two messages put together. -/
structure Merges {α : Type} (emits : α → List (Option Value))
    (decode : List UInt8 → Except Error α)
    (encode : α → List UInt8 → Except Error ℕ × List UInt8) : Prop where
  /-- Behind a message that is accepted another is accepted, or fails as it does alone. -/
  error_iff : ∀ a b m, decode a = .ok m → ∀ e, decode (a ++ b) = .error e ↔ decode b = .error e
  /-- What follows does not repair a message, unless it had only been cut short. -/
  spoiled : ∀ a b e, decode a = .error e → e ≠ .truncated → decode (a ++ b) = .error e
  /-- A message that was cut short is accepted, or reported as truncated. -/
  cut : ∀ a b m, decode (a ++ b) = .ok m →
    (∃ m', decode a = .ok m') ∨ decode a = .error .truncated
  /-- What the second message writes replaces what the first wrote, and the rest stays. -/
  overlay : ∀ a m m', decode a = .ok m → ∀ (buf : Slice) n,
    (encode m' buf.bytes).1 = .ok n →
      ∃ w, decode (a ++ (encode m' buf.bytes).2.take n) = .ok w ∧
        emits w = List.zipWith Option.or (emits m') (emits m)

namespace Schema

variable {α : Type} (s : Schema α)

theorem merges : Merges s.emits s.decode s.encode where
  error_iff a b m h e := by
    have hrun : Reader.decodeWith s.absorb s.init (between [] a) = .ok m := h
    have happend : s.decode (a ++ b) = Reader.decodeWith s.absorb m (between a b) :=
      Reader.decodeWith_append hrun [] b
    have hmoved {out out' : α} {front front' : List UInt8}
        (herr : Reader.decodeWith s.absorb out (between front b) = .error e) :
        Reader.decodeWith s.absorb out' (between front' b) = .error e := by
      have hagain := Reader.decodeWith_error_between herr front' [] (fun _ => rfl) out'
      rwa [List.append_nil] at hagain
    have halone : s.decode b = Reader.decodeWith s.absorb s.init (between [] b) := rfl
    rw [happend, halone]
    exact ⟨hmoved, hmoved⟩
  spoiled a b e h hne := by
    have hrun : Reader.decodeWith s.absorb s.init (between [] a) = .error e := h
    exact Reader.decodeWith_error_between hrun [] b (fun htrunc => absurd htrunc hne) s.init
  cut a b m h := by
    cases hcut : s.decode a with
    | ok m' => exact .inl ⟨m', rfl⟩
    | error e =>
      right
      by_contra hne
      have hrun : Reader.decodeWith s.absorb s.init (between [] a) = .error e := hcut
      have hspoiled : s.decode (a ++ b) = .error e :=
        Reader.decodeWith_error_between hrun [] b
          (fun htrunc => absurd (congrArg Except.error htrunc) hne) s.init
      cases hspoiled.symm.trans h
  overlay a m m' h buf n hwrite := by
    have hnumbers := s.numbers_ne_zero m'
    rcases Nat.lt_or_ge buf.bytes.length (encodings (s.fields m')).length with hshort | hfits
    · obtain ⟨buf', -, hrefused⟩ := encodeFields_short hnumbers buf.length_lt hshort
      rw [encode, hrefused] at hwrite
      cases hwrite
    · have hwritten := encodeFields_fits hnumbers buf.length_lt hfits
      rw [encode, hwritten] at hwrite ⊢
      obtain rfl := Except.ok.inj hwrite
      rw [List.take_left]
      have hrun : Reader.decodeWith s.absorb s.init (between [] a) = .ok m := h
      have happend : s.decode (a ++ encodings (s.fields m')) =
          Reader.decodeWith s.absorb m (between a (encodings (s.fields m'))) :=
        Reader.decodeWith_append hrun [] _
      refine ⟨_, ?_, s.emits_merge m m'⟩
      rw [happend]
      have hvalid := valid_of_length hnumbers (Nat.lt_of_le_of_lt hfits buf.length_lt)
      have halone : Reader.decodeWith s.absorb m (between [] (encodings (s.fields m'))) = _ :=
        Reader.decodeWith_encodings hvalid
      exact Reader.decodeWith_ok_between halone a

end Schema

/-- **Messages merge.** For each of the seven: behind a message that is accepted a second one is
read as it would be alone, and the outcome is the first with what the second writes laid over it.
An error stays whatever follows, unless it is that the message was cut short; and a message that
was cut short is never reported as anything else. -/
theorem messages_merge :
    Merges Data.emits Data.decode Data.encode ∧ Merges User.emits User.decode User.encode ∧
    Merges Position.emits Position.decode Position.encode ∧
    Merges ChannelSettings.emits ChannelSettings.decode ChannelSettings.encode ∧
    Merges Routing.emits Routing.decode Routing.encode ∧
    Merges NodeInfo.emits NodeInfo.decode NodeInfo.encode ∧
    Merges MeshPacket.emits MeshPacket.decode MeshPacket.encode :=
  ⟨Data.schema.merges, User.schema.merges, Position.schema.merges, ChannelSettings.schema.merges,
    Routing.schema.merges, NodeInfo.schema.merges, MeshPacket.schema.merges⟩

end TetherMesh.Protocol.Message
