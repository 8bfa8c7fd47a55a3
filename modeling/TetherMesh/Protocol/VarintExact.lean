import TetherMesh.Protocol.ProtobufRoundTrip

/-!
# How exact the varint reader is

`Reader.varint` takes at most ten bytes. Nine of them hold 63 bits, and whatever the tenth
holds above its lowest bit is shifted out of the word and lost. So the reader is exact but
for a tenth byte above one that ends the varint, and there it answers the number modulo
`2 ^ 64`.

## Main definitions

* `VarintExact` — the reader answers the number of the varint, or says why there is none
* `Overfull` — a varint of ten bytes, the last of them above one

## Main results

* `Reader.varint_overlong`, `Reader.varint_truncated` — no end within ten bytes
* `varintExact_iff`
-/

namespace TetherMesh.Protocol.Protobuf

open CS CS.Cursor Math

/-- The reader answers exactly the number of the varint in front of it. -/
structure VarintExact (r : Reader) : Prop where
  /-- A value is answered just where there is a varint of at most ten bytes, and is its
  number. -/
  ok_iff : ∀ v, (∃ r', Reader.varint r = .ok v r') ↔ ∃ ds rest, r.buf.drop r.pos = ds ++ rest ∧
    Varint.IsVarint ds ∧ ds.length ≤ 10 ∧ Varint.value ds = v.toNat
  /-- Ten bytes that all announce another. -/
  overlong : ∀ ds rest, r.buf.drop r.pos = ds ++ rest → ds.length = 10 →
    (∀ b ∈ ds, 128 ≤ b.toNat) → ∃ r', Reader.varint r = .error .malformedVarint r'
  /-- A number that does not fit 64 bits. -/
  overflow : ∀ ds rest, r.buf.drop r.pos = ds ++ rest → Varint.IsVarint ds →
    2 ^ 64 ≤ Varint.value ds → ∃ r', Reader.varint r = .error .malformedVarint r'
  /-- Fewer than ten bytes that all announce another. -/
  truncated : (r.buf.drop r.pos).length < 10 → (∀ b ∈ r.buf.drop r.pos, 128 ≤ b.toNat) →
    ∃ r', Reader.varint r = .error .truncated r'

/-- Nine bytes that announce another, and a tenth that ends the varint and is above one. -/
def Overfull (bs : List UInt8) : Prop :=
  ∃ front b rest, bs = front ++ b :: rest ∧ front.length = 9 ∧ (∀ c ∈ front, 128 ≤ c.toNat) ∧
    1 < b.toNat ∧ b.toNat < 128

namespace Reader

variable {acc : UInt64} {shift : ℕ} {ds : List UInt8}

/-! ## No end within ten bytes -/

/-- The loop stops once the next digit would lie beyond the word. -/
theorem varintLoop_overlong (hds : ∀ b ∈ ds, 128 ≤ b.toNat) (hacc : acc.toNat < 2 ^ shift)
    (hshift : shift < 64) (hlen : 64 ≤ shift + 7 * ds.length) (front rest : List UInt8) :
    ∃ r', varintLoop acc shift (between front (ds ++ rest)) = .error .malformedVarint r' := by
  induction ds generalizing acc shift front with
  | nil =>
    rw [List.length_nil] at hlen
    omega
  | cons b ds ih =>
    obtain ⟨hb, hds⟩ := List.forall_mem_cons.mp hds
    rw [List.cons_append, varintLoop_cons hacc hshift, if_neg (Nat.not_lt.mpr hb)]
    by_cases hlong : 64 ≤ shift + 7
    · rw [if_pos hlong]
      exact ⟨_, rfl⟩
    · rw [if_neg hlong]
      obtain ⟨hdigit, hlt⟩ := toNat_digit_lt hacc (Nat.not_le.mp hlong) b
      rw [List.length_cons] at hlen
      exact ih hds (hdigit.symm ▸ hlt) (Nat.not_le.mp hlong) (by omega) _

theorem varint_overlong (hds : ∀ b ∈ ds, 128 ≤ b.toNat) (hlen : ds.length = 10)
    (front rest : List UInt8) :
    ∃ r', varint (between front (ds ++ rest)) = .error .malformedVarint r' :=
  varintLoop_overlong hds (by decide) (by decide) (by omega) front rest

/-- The loop runs into the end of the message. -/
theorem varintLoop_truncated (hds : ∀ b ∈ ds, 128 ≤ b.toNat) (hacc : acc.toNat < 2 ^ shift)
    (hlen : shift + 7 * ds.length < 64) (front : List UInt8) :
    ∃ r', varintLoop acc shift (between front ds) = .error .truncated r' := by
  induction ds generalizing acc shift front with
  | nil =>
    have hend : byte (between front []) = .error .truncated (between front []) := by
      rw [byte, dif_neg (by simp)]
    refine ⟨between front [], ?_⟩
    rw [varintLoop]
    simp only [Bind.bind, EStateM.bind, hend]
  | cons b ds ih =>
    obtain ⟨hb, hds⟩ := List.forall_mem_cons.mp hds
    rw [List.length_cons] at hlen
    obtain ⟨hdigit, hlt⟩ := toNat_digit_lt hacc (by omega) b
    rw [varintLoop_cons hacc (by omega), if_neg (Nat.not_lt.mpr hb), if_neg (by omega)]
    exact ih hds (hdigit.symm ▸ hlt) (by omega) _

theorem varint_truncated (hds : ∀ b ∈ ds, 128 ≤ b.toNat) (hlen : ds.length < 10)
    (front : List UInt8) : ∃ r', varint (between front ds) = .error .truncated r' :=
  varintLoop_truncated hds (by decide) (by omega) front

end Reader

/-! ## The tenth byte -/

variable {r : Reader} {ds rest : List UInt8}

/-- A last digit behind nine others. -/
theorem value_tenth {front : List UInt8} (hlen : front.length = 9) (b : UInt8) :
    Varint.value (front ++ [b]) = Varint.value front + 2 ^ 63 * (b.toNat % 128) ∧
      Varint.value front < 2 ^ 63 := by
  have hlt := Varint.value_lt front
  rw [hlen] at hlt
  refine ⟨?_, hlt.trans_eq (by decide)⟩
  rw [Varint.value_append, hlen, Varint.value, Varint.value, Nat.mul_zero, Nat.add_zero]
  rfl

/-- A tenth byte above one does not fit. -/
theorem Overfull.le_value (h : Overfull (r.buf.drop r.pos)) : ∃ ds rest,
    r.buf.drop r.pos = ds ++ rest ∧ Varint.IsVarint ds ∧ ds.length ≤ 10 ∧
      2 ^ 64 ≤ Varint.value ds := by
  obtain ⟨front, b, rest, hdrop, hlen, hfront, hlow, hhigh⟩ := h
  obtain ⟨hvalue, -⟩ := value_tenth hlen b
  rw [Nat.mod_eq_of_lt hhigh] at hvalue
  refine ⟨front ++ [b], rest, ?_, Varint.isVarint_iff.mpr ⟨front, b, rfl, hfront, hhigh⟩, ?_, ?_⟩
  · rw [hdrop, List.append_assoc, List.singleton_append]
  · rw [List.length_append, hlen, List.length_singleton]
  · rw [hvalue]
    omega

/-- Any other varint of at most ten bytes fits. -/
theorem value_lt_of_not_overfull (h : ¬ Overfull (r.buf.drop r.pos))
    (hdrop : r.buf.drop r.pos = ds ++ rest) (hds : Varint.IsVarint ds) (hlen : ds.length ≤ 10) :
    Varint.value ds < 2 ^ 64 := by
  rcases Nat.lt_or_ge ds.length 10 with hshort | hlong
  · have hpow : 128 ^ ds.length ≤ 128 ^ 9 := Nat.pow_le_pow_right (by decide) (by omega)
    have hlt := (Varint.value_lt ds).trans_le hpow
    exact hlt.trans (by decide)
  · obtain ⟨front, b, rfl, hfront, hb⟩ := Varint.isVarint_iff.mp hds
    rw [List.length_append, List.length_singleton] at hlong hlen
    have hnine : front.length = 9 := by omega
    -- the tenth byte is zero or one, as the varint would be overfull
    have hone : b.toNat ≤ 1 := by
      by_contra hmore
      refine h ⟨front, b, rest, ?_, hnine, hfront, Nat.not_le.mp hmore, hb⟩
      rw [hdrop, List.append_assoc, List.singleton_append]
    obtain ⟨hvalue, hlt⟩ := value_tenth hnine b
    rw [hvalue, Nat.mod_eq_of_lt hb]
    omega

/-! ## Exactness -/

/-- What the reader does on the varint in front of it. -/
theorem varint_of_drop (hdrop : r.buf.drop r.pos = ds ++ rest) (hds : Varint.IsVarint ds)
    (hlen : ds.length ≤ 10) :
    ∃ r', Reader.varint r = .ok (UInt64.ofNat (Varint.value ds)) r' := by
  have hrun := Reader.reads_isVarint hds hlen (r.buf.take r.pos) rest
  rw [← hdrop, ← eq_between r] at hrun
  exact ⟨_, hrun⟩

/-- Ten bytes without an end are malformed. -/
theorem varint_overlong_of_drop (hdrop : r.buf.drop r.pos = ds ++ rest) (hlen : ds.length = 10)
    (hds : ∀ b ∈ ds, 128 ≤ b.toNat) : ∃ r', Reader.varint r = .error .malformedVarint r' := by
  obtain ⟨r', hrun⟩ := Reader.varint_overlong hds hlen (r.buf.take r.pos) rest
  rw [← hdrop, ← eq_between r] at hrun
  exact ⟨r', hrun⟩

/-- A message that ends within a varint is truncated. -/
theorem varint_truncated_of_drop (hlen : (r.buf.drop r.pos).length < 10)
    (hds : ∀ b ∈ r.buf.drop r.pos, 128 ≤ b.toNat) :
    ∃ r', Reader.varint r = .error .truncated r' := by
  obtain ⟨r', hrun⟩ := Reader.varint_truncated hds hlen (r.buf.take r.pos)
  rw [← eq_between r] at hrun
  exact ⟨r', hrun⟩

/-- An overfull varint is answered with its upper bits lost. -/
theorem not_varintExact_of_overfull (h : Overfull (r.buf.drop r.pos)) : ¬ VarintExact r := by
  intro hexact
  obtain ⟨ds, rest, hdrop, hds, hlen, hlarge⟩ := h.le_value
  obtain ⟨r', hok⟩ := varint_of_drop hdrop hds hlen
  obtain ⟨r'', herr⟩ := hexact.overflow ds rest hdrop hds hlarge
  rw [hok] at herr
  cases herr

theorem varintExact_of_not_overfull (h : ¬ Overfull (r.buf.drop r.pos)) : VarintExact r where
  ok_iff v := by
    constructor
    · rintro ⟨r', hok⟩
      -- a varint within ten bytes is the only front that is answered
      rcases Varint.exists_varint_or 10 (r.buf.drop r.pos) with
        ⟨ds, rest, hdrop, hds, hlen⟩ | ⟨ds, rest, hdrop, hlen, hall⟩ | ⟨hlen, hall⟩
      · obtain ⟨r'', hrun⟩ := varint_of_drop hdrop hds hlen
        rw [hok] at hrun
        cases hrun
        refine ⟨ds, rest, hdrop, hds, hlen, ?_⟩
        rw [UInt64.toNat_ofNat_of_lt' (value_lt_of_not_overfull h hdrop hds hlen)]
      · obtain ⟨r'', herr⟩ := varint_overlong_of_drop hdrop hlen hall
        rw [hok] at herr
        cases herr
      · obtain ⟨r'', herr⟩ := varint_truncated_of_drop hlen hall
        rw [hok] at herr
        cases herr
    · rintro ⟨ds, rest, hdrop, hds, hlen, hvalue⟩
      obtain ⟨r', hrun⟩ := varint_of_drop hdrop hds hlen
      rw [hvalue, UInt64.ofNat_toNat] at hrun
      exact ⟨r', hrun⟩
  overlong _ _ hdrop hlen hds := varint_overlong_of_drop hdrop hlen hds
  overflow ds rest hdrop hds hlarge := by
    rcases Nat.lt_or_ge 10 ds.length with hlong | hlen
    · -- its first ten bytes all announce another
      obtain ⟨front, b, rfl, hfront, -⟩ := Varint.isVarint_iff.mp hds
      rw [List.length_append, List.length_singleton] at hlong
      have hten : r.buf.drop r.pos = front.take 10 ++ (front.drop 10 ++ [b] ++ rest) := by
        rw [hdrop, ← List.append_assoc, ← List.append_assoc, List.take_append_drop]
      refine varint_overlong_of_drop hten ?_ fun c hc => hfront c (List.mem_of_mem_take hc)
      rw [List.length_take]
      omega
    · exact absurd hlarge (Nat.not_le.mpr (value_lt_of_not_overfull h hdrop hds hlen))
  truncated := varint_truncated_of_drop

/-- **When the varint reader is exact**: unless nine bytes that announce another are followed by
one that ends the varint and is above one. -/
theorem varintExact_iff (r : Reader) : VarintExact r ↔ ¬ Overfull (r.buf.drop r.pos) :=
  ⟨fun hexact h => not_varintExact_of_overfull h hexact, varintExact_of_not_overfull⟩

/-- A varint of ten bytes that stands for `2 ^ 64`. -/
def overfullBytes : List UInt8 := List.replicate 9 0x80 ++ [2]

/-- **High bits dropped.** The reader answers zero for `2 ^ 64`. -/
theorem varintExact_overfullBytes_not :
    Varint.IsVarint overfullBytes ∧ Varint.value overfullBytes = 2 ^ 64 ∧
      (∃ r', Reader.varint (Reader.new overfullBytes) = .ok 0 r') ∧
      ¬ VarintExact (Reader.new overfullBytes) := by
  have hmarked : ∀ c ∈ List.replicate 9 (0x80 : UInt8), 128 ≤ c.toNat := by
    intro c hc
    rw [List.eq_of_mem_replicate hc]
    decide
  have hvarint : Varint.IsVarint overfullBytes :=
    Varint.isVarint_iff.mpr ⟨List.replicate 9 0x80, 2, rfl, hmarked, by decide⟩
  have hvalue : Varint.value overfullBytes = 2 ^ 64 := by decide
  refine ⟨hvarint, hvalue, ?_, not_varintExact_of_overfull ?_⟩
  · have hdrop : (Reader.new overfullBytes).buf.drop (Reader.new overfullBytes).pos =
        overfullBytes ++ [] := rfl
    obtain ⟨r', hrun⟩ := varint_of_drop hdrop hvarint (by decide)
    rw [hvalue] at hrun
    exact ⟨r', hrun⟩
  · exact ⟨List.replicate 9 0x80, 2, [], rfl, rfl, hmarked, by decide, by decide⟩

end TetherMesh.Protocol.Protobuf
