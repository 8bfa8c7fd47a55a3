import Mathlib.Data.List.Sort
import TetherMesh.Protocol.MessageRoundTrip
import TetherMesh.Protocol.ProtobufNormal

/-!
# Messages as tables of columns

A message knows some field numbers, each under one wire type. What its encoder writes for
a column is decided by the last field of that number and wire type alone. So the decoder
is last-wins and blind to every other field, and writing a message back can only shorten
what it was read from.

## Main definitions

* `Kind`, `Column` — how a field is declared
* `lastValue` — the last value of a field number under a wire type
* `Schema` — a decoder and an encoder that work column by column
* `LastWins`, `CanonicalBytes`, `RestoresCanonical`, `NeverGrows`

## Main results

* `Schema.emits_foldl` — what is written after absorbing a list of fields
* `Schema.lastWins`, `Schema.restoresCanonical`, `Schema.neverGrows`
-/

namespace TetherMesh.Protocol.Message

open CS CS.Cursor Math Protobuf

/-! ## Columns -/

/-- How a field is declared: its type, and when it is written. -/
inductive Kind
  /-- A 32-bit integer as a varint, left out when it is zero. -/
  | uint32
  /-- The same, left out when it was not set. -/
  | optUint32
  /-- The same, never left out. -/
  | always
  /-- A flag, left out when it is lowered. -/
  | flag
  /-- A flag, left out when it was not set. -/
  | optFlag
  /-- Bytes, left out when there are none. -/
  | bytes
  /-- Bytes, left out when they were not set. -/
  | optBytes
  /-- Four bytes, left out when all are zero. -/
  | fixed32
  deriving DecidableEq, Repr

/-- A value written if `p` holds. -/
def valueIf (p : Prop) [Decidable p] (v : Value) : Option Value := if p then some v else none

namespace Kind

/-- The wire type the decoders expect. -/
def wireType : Kind → UInt8
  | uint32 | optUint32 | always | flag | optFlag => 0
  | bytes | optBytes => 2
  | fixed32 => 5

/-- What is written back for a value that was read, if anything. -/
def normal : Kind → Value → Option Value
  | uint32, .varint v => valueIf (truncateU32 v ≠ 0) (.varint (truncateU32 v).toUInt64)
  | optUint32, .varint v | always, .varint v => some (.varint (truncateU32 v).toUInt64)
  | flag, .varint v => valueIf (v ≠ 0) (.varint 1)
  | optFlag, .varint v => some (.varint (decide (v ≠ 0)).toUInt64)
  | bytes, .len b => valueIf (b ≠ []) (.len b)
  | optBytes, .len b => some (.len b)
  | fixed32, .fixed32 b => valueIf (UInt32.ofLeBytes b ≠ 0) (.fixed32 b)
  | _, _ => none

/-- What is written where no value was read. -/
def absent : Kind → Option Value
  | always => some (.varint 0)
  | _ => none

/-- The values of canonical bytes: 32-bit integers in 32 bits, flags zero or one, and no
default where a field may be left out. -/
def Canonical : Kind → Value → Prop
  | uint32, .varint v => v ≠ 0 ∧ v.toNat < 2 ^ 32
  | optUint32, .varint v | always, .varint v => v.toNat < 2 ^ 32
  | flag, .varint v => v = 1
  | optFlag, .varint v => v = 0 ∨ v = 1
  | bytes, .len b => b ≠ []
  | optBytes, .len _ => True
  | fixed32, .fixed32 b => b ≠ Vector.replicate 4 0
  | _, _ => False

end Kind

/-- A field number with its declaration. -/
structure Column where
  number : UInt32
  kind : Kind
  deriving DecidableEq, Repr

/-- The last value of a field number under a wire type. -/
def lastValue (number : UInt32) (wireType : UInt8) (fs : List Field) : Option Value :=
  (fs.filter fun f => f.number = number ∧ f.value.wireType = wireType).getLast?.map Field.value

namespace Column

/-- The column takes the field. -/
def Reads (c : Column) (f : Field) : Prop :=
  f.number = c.number ∧ f.value.wireType = c.kind.wireType

instance (c : Column) (f : Field) : Decidable (c.Reads f) := inferInstanceAs (Decidable (_ ∧ _))

/-- What is written for the column after a field. -/
def step (c : Column) (f : Field) (old : Option Value) : Option Value :=
  if c.Reads f then c.kind.normal f.value else old

/-- What is written for the column after a list of fields. -/
def emitted (fs : List Field) (c : Column) : Option Value :=
  (lastValue c.number c.kind.wireType fs).elim c.kind.absent c.kind.normal

/-- The values of columns as fields. -/
def assemble : List Column → List (Option Value) → List Field
  | c :: columns, e :: es => (e.map (Protobuf.Field.mk c.number)).toList ++ assemble columns es
  | _, _ => []

end Column

/-! ## Last values -/

section LastValue

variable {number : UInt32} {wireType : UInt8} {fs : List Field} {f : Field} {v : Value}

theorem lastValue_concat : lastValue number wireType (fs ++ [f]) =
    if f.number = number ∧ f.value.wireType = wireType then some f.value
    else lastValue number wireType fs := by
  rw [lastValue, List.filter_append, List.filter_singleton]
  split
  · next hreads =>
    rw [decide_eq_true hreads, cond_true, List.getLast?_concat]
    rfl
  · next hreads =>
    rw [decide_eq_false hreads, cond_false, List.append_nil]
    rfl

/-- A last value is one of the values. -/
theorem mem_of_lastValue (h : lastValue number wireType fs = some v) :
    ⟨number, v⟩ ∈ fs ∧ v.wireType = wireType := by
  obtain ⟨f, hf, rfl⟩ := Option.map_eq_some_iff.mp h
  obtain ⟨hmem, hreads⟩ := List.mem_filter.mp (List.mem_of_getLast? hf)
  obtain ⟨rfl, rfl⟩ := of_decide_eq_true hreads
  exact ⟨hmem, rfl⟩

/-- A field that is the only one of its number is the last one. -/
theorem lastValue_of_mem (hf : f ∈ fs) (honly : ∀ g ∈ fs, g.number = f.number → g = f) :
    lastValue f.number f.value.wireType fs = some f.value := by
  cases hlast : lastValue f.number f.value.wireType fs with
  | none =>
    rw [lastValue, Option.map_eq_none_iff, List.getLast?_eq_none_iff, List.filter_eq_nil_iff]
      at hlast
    exact absurd (decide_eq_true ⟨rfl, rfl⟩) (hlast f hf)
  | some v =>
    obtain ⟨hmem, -⟩ := mem_of_lastValue hlast
    exact congrArg (some ∘ Field.value) (honly _ hmem rfl)

end LastValue

/-! ## What is written back for a value -/

namespace Kind

variable {k : Kind} {v w : Value}

/-- A value not above `v` has a varint no longer than that of `v`. -/
theorem length_encode_truncate_le (v : UInt64) :
    (Varint.encode (truncateU32 v).toUInt64.toNat).length ≤ (Varint.encode v.toNat).length := by
  refine Varint.length_encode_mono ?_
  rw [UInt32.toNat_toUInt64, truncateU32, UInt64.toNat_toUInt32]
  exact Nat.mod_le _ _

/-- A byte is the shortest varint. -/
theorem length_encode_one_le {n : ℕ} (hn : n < 128) (v : UInt64) :
    (Varint.encode n).length ≤ (Varint.encode v.toNat).length := by
  rw [Varint.encode_of_lt hn]
  exact Varint.length_encode_pos v.toNat

theorem valueIf_eq_some_iff {p : Prop} [Decidable p] : valueIf p v = some w ↔ p ∧ v = w := by
  rw [valueIf]
  split
  · next hp => exact ⟨fun h => ⟨hp, Option.some_inj.mp h⟩, fun h => congrArg some h.2⟩
  · next hp => exact ⟨nofun, fun h => absurd h.1 hp⟩

/-- What is written back keeps the wire type and is no longer. -/
theorem normal_le (h : k.normal v = some w) :
    w.wireType = v.wireType ∧ w.encoding.length ≤ v.encoding.length := by
  unfold normal at h
  split at h
  · obtain ⟨-, rfl⟩ := valueIf_eq_some_iff.mp h
    exact ⟨rfl, length_encode_truncate_le _⟩
  · cases h
    exact ⟨rfl, length_encode_truncate_le _⟩
  · cases h
    exact ⟨rfl, length_encode_truncate_le _⟩
  · obtain ⟨-, rfl⟩ := valueIf_eq_some_iff.mp h
    exact ⟨rfl, length_encode_one_le (by decide) _⟩
  · cases h
    have hflag : ∀ b : Bool, b.toUInt64.toNat < 128 := by decide
    exact ⟨rfl, length_encode_one_le (hflag _) _⟩
  · obtain ⟨-, rfl⟩ := valueIf_eq_some_iff.mp h
    exact ⟨rfl, Nat.le_refl _⟩
  · cases h
    exact ⟨rfl, Nat.le_refl _⟩
  · obtain ⟨-, rfl⟩ := valueIf_eq_some_iff.mp h
    exact ⟨rfl, Nat.le_refl _⟩
  · cases h

theorem eq_always_of_absent (h : k.absent = some v) : k = always := by
  cases k with
  | always => rfl
  | uint32 | optUint32 | flag | optFlag | bytes | optBytes | fixed32 => cases h

/-- A canonical value has the expected wire type. -/
theorem Canonical.wireType_eq (h : k.Canonical v) : v.wireType = k.wireType := by
  unfold Canonical at h
  split at h
  all_goals first | rfl | exact h.elim

/-- A canonical value is written back as it is. -/
theorem Canonical.normal_eq (h : k.Canonical v) : k.normal v = some v := by
  have hsame {x : UInt64} (hx : x.toNat < 2 ^ 32) : (truncateU32 x).toUInt64 = x := by
    refine UInt64.toNat_inj.mp ?_
    rw [UInt32.toNat_toUInt64, truncateU32, UInt64.toNat_toUInt32, Nat.mod_eq_of_lt hx]
  unfold Canonical at h
  split at h
  · next x =>
    refine valueIf_eq_some_iff.mpr ⟨fun hzero => h.1 ?_, by rw [hsame h.2]⟩
    rw [← hsame h.2, hzero]
    rfl
  · rw [normal, hsame h]
  · rw [normal, hsame h]
  · subst h
    rfl
  · rcases h with rfl | rfl <;> rfl
  · exact valueIf_eq_some_iff.mpr ⟨h, rfl⟩
  · rfl
  · next b =>
    refine valueIf_eq_some_iff.mpr ⟨fun hzero => h ?_, rfl⟩
    rw [← UInt32.toLeBytes_ofLeBytes b, hzero]
    rfl
  · exact h.elim

end Kind

/-! ## Assembling fields -/

namespace Column

variable {columns : List Column} {es : List (Option Value)} {f : Field} {c : Column}

@[simp] theorem assemble_cons (c : Column) (e : Option Value) :
    assemble (c :: columns) (e :: es) =
      (e.map (Protobuf.Field.mk c.number)).toList ++ assemble columns es := rfl

theorem assemble_map (g : Column → Option Value) :
    assemble columns (columns.map g) =
      columns.filterMap fun c => (g c).map (Protobuf.Field.mk c.number) := by
  induction columns with
  | nil => rfl
  | cons c columns ih =>
    rw [List.map_cons, assemble_cons, ih]
    cases hg : g c with
    | none => simp [hg]
    | some v => simp [hg]

theorem emitted_concat (f : Field) (c : Column) (fs : List Field) :
    c.emitted (fs ++ [f]) = c.step f (c.emitted fs) := by
  rw [emitted, step, lastValue_concat]
  by_cases hreads : f.number = c.number ∧ f.value.wireType = c.kind.wireType
  · have htakes : c.Reads f := hreads
    rw [if_pos hreads, if_pos htakes]
    rfl
  · have hleaves : ¬ c.Reads f := hreads
    rw [if_neg hreads, if_neg hleaves]
    rfl

/-- A field that no column takes changes nothing. -/
theorem zipWith_step_of_not (h : ∀ c ∈ columns, ¬ c.Reads f) (hlen : es.length = columns.length) :
    List.zipWith (step · f) columns es = es := by
  induction columns generalizing es with
  | nil => exact (List.eq_nil_of_length_eq_zero hlen).symm
  | cons c columns ih =>
    obtain ⟨hc, hcolumns⟩ := List.forall_mem_cons.mp h
    obtain ⟨e, es, rfl⟩ := List.exists_cons_of_length_eq_add_one hlen
    rw [List.zipWith_cons_cons, step, if_neg hc, ih hcolumns (Nat.succ_injective hlen)]

/-- **A field adds no more than its own length** to what is written. -/
theorem length_assemble_step_le (hsorted : columns.Pairwise fun c d => c.number < d.number)
    (hlen : es.length = columns.length) :
    (encodings (assemble columns (List.zipWith (step · f) columns es))).length ≤
      (encodings (assemble columns es)).length + f.encoding.length := by
  induction columns generalizing es with
  | nil => exact Nat.zero_le _
  | cons c columns ih =>
    obtain ⟨hbelow, hsorted⟩ := List.pairwise_cons.mp hsorted
    obtain ⟨e, es, rfl⟩ := List.exists_cons_of_length_eq_add_one hlen
    have hlen' : es.length = columns.length := Nat.succ_injective hlen
    rw [List.zipWith_cons_cons, assemble_cons, assemble_cons, encodings_append, encodings_append,
      List.length_append, List.length_append, step]
    split
    · next hreads =>
      -- no other column has that number
      have hothers : ∀ d ∈ columns, ¬ d.Reads f := by
        intro d hd hboth
        have hlt := hbelow d hd
        rw [← hreads.1, ← hboth.1] at hlt
        exact absurd hlt (UInt32.lt_irrefl _)
      rw [zipWith_step_of_not hothers hlen']
      have hshort :
          (encodings ((c.kind.normal f.value).map (Protobuf.Field.mk c.number)).toList).length ≤
            f.encoding.length := by
        cases hnormal : c.kind.normal f.value with
        | none => exact Nat.zero_le _
        | some w =>
          obtain ⟨hwire, hle⟩ := Kind.normal_le hnormal
          have htag : Field.tag ⟨c.number, w⟩ = f.tag := by
            rw [Field.tag, Field.tag, hwire, hreads.1]
          rw [Option.map_some, Option.toList_some, encodings_cons, encodings_nil, List.append_nil,
            Field.encoding, Field.encoding, htag, List.length_append, List.length_append]
          exact Nat.add_le_add_left hle _
      omega
    · have hrest := ih hsorted hlen'
      omega

end Column

/-! ## Schemas -/

/-- A decoder and an encoder of one message, column by column. -/
structure Schema (α : Type) where
  init : α
  absorb : α → Field → α
  fields : α → List Field
  columns : List Column
  /-- What is written for each column. -/
  emits : α → List (Option Value)
  numbers_ne_zero : ∀ m, ∀ f ∈ fields m, f.number ≠ 0
  sorted : columns.Pairwise fun c d => c.number < d.number
  fields_eq : ∀ m, fields m = Column.assemble columns (emits m)
  emits_init : emits init = columns.map fun c => c.kind.absent
  /-- A field sets what is written for the column that takes it. -/
  emits_absorb : ∀ m f, emits (absorb m f) = List.zipWith (Column.step · f) columns (emits m)
  /-- Nothing but what is written makes up the message. -/
  foldl_fields : ∀ m, (fields m).foldl absorb init = m

namespace Schema

variable {α : Type} (s : Schema α) {fs gs : List Field} {b : List UInt8} {m : α}

/-- Decode from protobuf bytes. -/
def decode (bytes : List UInt8) : Except Error α :=
  Reader.decodeWith s.absorb s.init (Reader.new bytes)

/-- Encode into `buf`. -/
def encode (m : α) (buf : List UInt8) : Except Error ℕ × List UInt8 := encodeFields (s.fields m) buf

/-- **What is written after a list of fields** was absorbed: for each column what its last
field gives. -/
theorem emits_foldl (fs : List Field) :
    s.emits (fs.foldl s.absorb s.init) = s.columns.map (Column.emitted fs) := by
  induction fs using List.reverseRecOn with
  | nil => exact s.emits_init
  | append_singleton fs f ih =>
    rw [List.foldl_concat, s.emits_absorb, ih, List.zipWith_map_right, List.zipWith_self]
    exact List.map_congr_left fun c _ => (Column.emitted_concat f c fs).symm

/-- The fields of a message that was absorbed from a list of them. -/
theorem fields_foldl (fs : List Field) :
    s.fields (fs.foldl s.absorb s.init) =
      s.columns.filterMap fun c => (c.emitted fs).map (Protobuf.Field.mk c.number) := by
  rw [s.fields_eq, s.emits_foldl, Column.assemble_map]

end Schema

/-! ## What a schema gives -/

/-- Fields with numbers, whose bytes some buffer holds. -/
structure FieldList where
  fields : List Field
  numbers_ne_zero : ∀ f ∈ fields, f.number ≠ 0
  length_lt : (encodings fields).length < usizeLimit

/-- A decoder is last-wins and blind to everything else: where each column has the same last
value, the bytes decode alike. -/
def LastWins {α : Type} (columns : List Column) (decode : List UInt8 → Except Error α) : Prop :=
  ∀ fs gs : FieldList,
    (∀ c ∈ columns, lastValue c.number c.kind.wireType fs.fields =
      lastValue c.number c.kind.wireType gs.fields) →
    decode (encodings fs.fields) = decode (encodings gs.fields)

/-- Known fields in ascending order, each with a canonical value, and those that are always
written among them. -/
structure CanonicalFields (columns : List Column) (fs : List Field) : Prop where
  ascending : fs.Pairwise fun f g => f.number < g.number
  known : ∀ f ∈ fs, ∃ c ∈ columns, c.number = f.number ∧ c.kind.Canonical f.value
  always : ∀ c ∈ columns, c.kind = .always → ∃ f ∈ fs, f.number = c.number

/-- The bytes of such fields, with minimal varints. -/
def CanonicalBytes (columns : List Column) (b : List UInt8) : Prop :=
  ∃ fs, b = encodings fs ∧ CanonicalFields columns fs

/-- Decoding canonical bytes and encoding the result gives them back. -/
def RestoresCanonical {α : Type} (columns : List Column)
    (decode : List UInt8 → Except Error α)
    (encode : α → List UInt8 → Except Error ℕ × List UInt8) : Prop :=
  ∀ b : Slice, CanonicalBytes columns b.bytes → ∃ m, decode b.bytes = .ok m ∧
    ∀ buf : Slice, b.bytes.length ≤ buf.bytes.length →
      encode m buf.bytes = (.ok b.bytes.length, b.bytes ++ buf.bytes.drop b.bytes.length)

/-- Whatever decodes is encoded again in a buffer as long as it was. -/
def NeverGrows {α : Type} (decode : List UInt8 → Except Error α)
    (encode : α → List UInt8 → Except Error ℕ × List UInt8) : Prop :=
  ∀ (b : Slice) (m : α), decode b.bytes = .ok m → ∀ buf : Slice,
    buf.bytes.length = b.bytes.length → ∃ n ≤ b.bytes.length, (encode m buf.bytes).1 = .ok n

/-- Where numbers ascend, each is there once. -/
theorem eq_of_number_eq {β : Type} {number : β → UInt32} {l : List β}
    (h : l.Pairwise fun a b => number a < number b) {a b : β} (ha : a ∈ l) (hb : b ∈ l)
    (heq : number a = number b) : a = b := by
  have hnodup : (l.map number).Nodup :=
    List.pairwise_map.mpr (h.imp fun hlt => UInt32.ne_of_lt hlt)
  exact List.inj_on_of_nodup_map hnodup ha hb heq

namespace Schema

variable {α : Type} (s : Schema α) {fs : List Field} {m : α}

theorem lastWins : LastWins s.columns s.decode := by
  intro fs gs hlast
  rw [decode, decode, Reader.decodeWith_encodings (valid_of_length fs.numbers_ne_zero fs.length_lt),
    Reader.decodeWith_encodings (valid_of_length gs.numbers_ne_zero gs.length_lt)]
  -- both messages are made up of the same fields
  rw [← s.foldl_fields (fs.fields.foldl _ _), ← s.foldl_fields (gs.fields.foldl _ _),
    s.fields_foldl, s.fields_foldl]
  have hemitted :
      (s.columns.filterMap fun c => (c.emitted fs.fields).map (Protobuf.Field.mk c.number)) =
      s.columns.filterMap fun c => (c.emitted gs.fields).map (Protobuf.Field.mk c.number) :=
    List.filterMap_congr fun c hc => by rw [Column.emitted, Column.emitted, hlast c hc]
  rw [hemitted]

/-- Canonical fields are written back as they were read. -/
theorem fields_of_canonical (h : CanonicalFields s.columns fs) :
    s.fields (fs.foldl s.absorb s.init) = fs := by
  rw [s.fields_foldl]
  have hsorted :
      (s.columns.filterMap fun c => (c.emitted fs).map (Protobuf.Field.mk c.number)).Pairwise
        fun f g => f.number < g.number := by
    refine List.pairwise_filterMap.mpr (s.sorted.imp ?_)
    intro c d hlt f hf g hg
    obtain ⟨v, -, rfl⟩ := Option.map_eq_some_iff.mp hf
    obtain ⟨w, -, rfl⟩ := Option.map_eq_some_iff.mp hg
    exact hlt
  -- two ascending lists with the same fields
  refine hsorted.eq_of_mem_iff h.ascending fun f => ?_
  rw [List.mem_filterMap]
  constructor
  · rintro ⟨c, hc, hf⟩
    obtain ⟨w, hw, rfl⟩ := Option.map_eq_some_iff.mp hf
    rw [Column.emitted] at hw
    cases hlast : lastValue c.number c.kind.wireType fs with
    | none =>
      -- only a column that is always written, and then it has a field
      rw [hlast, Option.elim_none] at hw
      obtain ⟨g, hg, hnumber⟩ := h.always c hc (Kind.eq_always_of_absent hw)
      obtain ⟨d, hd, hsame, hcanonical⟩ := h.known g hg
      obtain rfl := eq_of_number_eq s.sorted hd hc (hsame.trans hnumber)
      have hsome := lastValue_of_mem hg fun x hx heq => eq_of_number_eq h.ascending hx hg heq
      rw [hnumber, hcanonical.wireType_eq, hlast] at hsome
      cases hsome
    | some v =>
      rw [hlast, Option.elim_some] at hw
      obtain ⟨hmem, -⟩ := mem_of_lastValue hlast
      obtain ⟨d, hd, hnumber, hcanonical⟩ := h.known _ hmem
      obtain rfl := eq_of_number_eq s.sorted hd hc hnumber
      rw [hcanonical.normal_eq, Option.some_inj] at hw
      rwa [← hw]
  · intro hf
    obtain ⟨c, hc, hnumber, hcanonical⟩ := h.known f hf
    refine ⟨c, hc, ?_⟩
    have hlast := lastValue_of_mem hf fun g hg heq => eq_of_number_eq h.ascending hg hf heq
    rw [← hnumber, hcanonical.wireType_eq] at hlast
    rw [Column.emitted, hlast, Option.elim_some, hcanonical.normal_eq, Option.map_some, hnumber]

theorem restoresCanonical : RestoresCanonical s.columns s.decode s.encode := by
  rintro ⟨b, hb⟩ ⟨fs, rfl, hcanonical⟩
  have hfields := s.fields_of_canonical hcanonical
  have hnumbers : ∀ f ∈ fs, f.number ≠ 0 := hfields ▸ s.numbers_ne_zero _
  refine ⟨_, Reader.decodeWith_encodings (valid_of_length hnumbers hb), fun buf hroom => ?_⟩
  rw [encode, hfields]
  exact encodeFields_fits hnumbers buf.length_lt hroom

/-- What is written is no longer than what was absorbed. -/
theorem length_fields_foldl_le (fs : List Field) :
    (encodings (s.fields (fs.foldl s.absorb s.init))).length ≤
      (encodings (s.fields s.init)).length + (encodings fs).length := by
  induction fs using List.reverseRecOn with
  | nil => exact Nat.le_refl _
  | append_singleton fs f ih =>
    have hlen : (s.emits (fs.foldl s.absorb s.init)).length = s.columns.length := by
      rw [s.emits_foldl, List.length_map]
    have hstep := Column.length_assemble_step_le (f := f) s.sorted hlen
    rw [List.foldl_concat, s.fields_eq, s.emits_absorb, encodings_append, List.length_append,
      encodings_cons, encodings_nil, List.append_nil]
    rw [s.fields_eq (fs.foldl _ _)] at ih
    omega

theorem neverGrows (hinit : s.fields s.init = []) : NeverGrows s.decode s.encode := by
  intro b m hdecode buf hbuf
  obtain ⟨fs, r', hyields, rfl⟩ := Reader.exists_yields hdecode
  obtain ⟨-, -, bs, hconsumed, hle, -⟩ := hyields.consumes
  have hread : bs.length ≤ b.bytes.length := by
    obtain ⟨front, rest, hstart, -⟩ := hconsumed
    have hbuffer : b.bytes = front ++ (bs ++ rest) := congrArg Cursor.buf hstart
    rw [hbuffer, List.length_append, List.length_append]
    omega
  have hgrow := s.length_fields_foldl_le fs
  rw [hinit, encodings_nil, List.length_nil, Nat.zero_add] at hgrow
  have hfits := (hgrow.trans hle).trans hread
  exact ⟨_, hfits, congrArg Prod.fst
    (encodeFields_fits (s.numbers_ne_zero _) buf.length_lt (hbuf ▸ hfits))⟩

end Schema

end TetherMesh.Protocol.Message
