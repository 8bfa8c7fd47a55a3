import Mathlib.Logic.Relation
import TetherMesh.Groups.Envelope

/-!
# Opening accepts exactly what sealing writes

A buffer opens under a group key and a binding exactly when some message, sealed
under them, is that buffer. The associated data covers only what relays leave alone,
so opening does not notice how often a frame has been relayed.

## Main definitions

* `SealsAs` — sealing writes exactly this buffer
* `SameInvariant` — two headers agree outside hop limit, next hop and relay node

## Main results

* `aadFromHeader_eq_iff` — the associated data is the invariant part of the header
* `open_accepts_exactly_sealed`
-/

namespace TetherMesh.Groups

open Math Protocol

/-- Sealing `p` with these fields into a buffer of that size writes exactly `buf`. -/
def SealsAs (groupKey : Vector UInt8 32) (binding : Binding) (msgType : MsgType)
    (groupId : UInt32) (epoch : UInt8) (p buf : List UInt8) : Prop :=
  ∃ room, room.length = buf.length ∧
    sealInto ⟨groupKey, groupId, epoch⟩ binding msgType p room = (.ok buf.length, buf)

/-- Two headers that differ at most in what relays rewrite. -/
def SameInvariant (h h' : Vector UInt8 headerLen) : Prop :=
  (∀ i < 14, i ≠ 12 → byteAt h i = byteAt h' i) ∧ byteAt h 12 &&& 0xF8 = byteAt h' 12 &&& 0xF8

section Invariant

variable {h h' : Vector UInt8 headerLen}

theorem byteAt_aadFromHeader (h : Vector UInt8 headerLen) {i : ℕ} (hi : i < 14) :
    byteAt (aadFromHeader h) i = if i = 12 then byteAt h 12 &&& 0xF8 else byteAt h i := by
  have hi' : i < headerLen := hi.trans (by decide)
  rw [aadFromHeader]
  by_cases h12 : i = 12
  · subst h12
    rw [if_pos rfl, byteAt_setByte_self _ (by decide)]
  · rw [if_neg h12, byteAt_setByte_ne _ (Ne.symm h12), byteAt_of_lt _ hi, byteAt_of_lt _ hi',
      copyInto, Vector.getElem_ofFn]
    simp [hi']

/-- **The associated data is the invariant part of the header.** -/
theorem aadFromHeader_eq_iff : aadFromHeader h = aadFromHeader h' ↔ SameInvariant h h' := by
  constructor
  · intro haad
    have hbyte (i : ℕ) (hi : i < 14) := congrArg (byteAt · i) haad
    constructor
    · intro i hi h12
      have hi' := hbyte i hi
      rwa [byteAt_aadFromHeader h hi, byteAt_aadFromHeader h' hi, if_neg h12, if_neg h12] at hi'
    · have h12 := hbyte 12 (by decide)
      rwa [byteAt_aadFromHeader h (by decide), byteAt_aadFromHeader h' (by decide), if_pos rfl,
        if_pos rfl] at h12
  · intro ⟨hsame, h12⟩
    apply ext_byteAt
    intro i hi
    rw [byteAt_aadFromHeader h hi, byteAt_aadFromHeader h' hi]
    split_ifs with hi12
    · exact h12
    · exact hsame i hi hi12

/-- One relay step: some node relays the header. -/
def Relayed (h h' : Header) : Prop := ∃ ourNodeNum, h.relayedBy ourNodeNum = some h'

/-- A new hop limit and relay node leave the invariant part. -/
theorem sameInvariant_update (h : Header) (hopLimit relayNode : UInt8) :
    SameInvariant h.encode
      ({ h with hopLimit := hopLimit, relayNode := relayNode } : Header).encode := by
  rw [Header.encode_update h hopLimit relayNode]
  constructor
  · intro i hi h12
    have hi' : i < headerLen := hi.trans (by decide)
    rw [byteAt_of_lt _ hi', byteAt_of_lt _ hi', Vector.getElem_set_ne _ _ (by omega),
      Vector.getElem_set_ne _ _ (Ne.symm h12)]
  · rw [byteAt_of_lt _ (by decide), byteAt_of_lt _ (by decide),
      Vector.getElem_set_ne _ _ (by decide), Vector.getElem_set_self]
    exact Header.packFlags_and_invariant ..

/-- Relaying rewrites the hop limit and the relay node only. -/
theorem sameInvariant_of_relayed {h h' : Header} (hrelay : Relayed h h') :
    SameInvariant h.encode h'.encode := by
  obtain ⟨ourNodeNum, hsome⟩ := hrelay
  rw [Header.relayedBy, Option.bind_eq_bind, Option.bind_eq_some_iff] at hsome
  obtain ⟨remaining, -, hsome⟩ := hsome
  obtain rfl := Option.some.inj hsome
  exact sameInvariant_update h remaining ourNodeNum.toLeBytes[0]

/-- However often a frame is relayed, its associated data stays. -/
theorem aadFromHeader_of_relayed {h h' : Header} (hchain : Relation.ReflTransGen Relayed h h') :
    aadFromHeader h.encode = aadFromHeader h'.encode := by
  induction hchain with
  | refl => rfl
  | tail _ hstep ih => exact ih.trans (aadFromHeader_eq_iff.mpr (sameInvariant_of_relayed hstep))

end Invariant

variable {groupKey : Vector UInt8 32} {binding binding' : Binding} {buf p : List UInt8}
  {msgType : MsgType} {groupId : UInt32} {epoch : UInt8}

/-- Opening reads a binding through its nonce and its associated data only. -/
theorem openInPlace_congr (hfrom : binding.fromNode = binding'.fromNode)
    (hid : binding.id = binding'.id)
    (haad : aadFromHeader binding.header = aadFromHeader binding'.header) :
    openInPlace groupKey binding buf = openInPlace groupKey binding' buf := by
  simp only [openInPlace, hfrom, hid, haad]

/-- The buffers a message is sealed as: a head and the sealed body. -/
theorem sealsAs_iff : SealsAs groupKey binding msgType groupId epoch p buf ↔
    groupId ≠ 0 ∧ ∃ sealed, sealedUnder groupKey binding epoch p = some sealed ∧
      buf = (envelopeHead msgType groupId epoch).toList ++ sealed := by
  obtain ⟨sealed, hsealed⟩ := exists_sealedUnder groupKey binding epoch p
  have hlen : sealed.length = p.length + ccmTagLen := length_of_ccmSealed hsealed
  constructor
  · intro ⟨room, hroom, hseal⟩
    by_cases hrefused : groupId = 0 ∨ room.length < p.length + overhead
    · obtain ⟨e, herr⟩ := sealInto_refused ⟨groupKey, groupId, epoch⟩ binding msgType hrefused
      rw [herr] at hseal
      cases hseal
    · obtain ⟨hgroup, hshort⟩ := not_or.mp hrefused
      have hwrite :=
        sealInto_eq ⟨groupKey, groupId, epoch⟩ msgType hgroup (not_lt.mp hshort) hsealed
      rw [hseal] at hwrite
      obtain ⟨htotal, hbuf⟩ := Prod.mk.inj hwrite
      refine ⟨hgroup, sealed, hsealed, ?_⟩
      rw [hbuf, List.drop_of_length_le (by rw [hroom, Except.ok.inj htotal]), List.append_nil]
  · intro ⟨hgroup, sealed', hsealed', hbuf⟩
    obtain rfl := Option.some.inj (hsealed.symm.trans hsealed')
    have htotal : buf.length = p.length + overhead := by
      rw [hbuf, List.length_append, Vector.length_toList, hlen]
      change 7 + (p.length + 8) = p.length + 15
      omega
    have hwrite := sealInto_eq ⟨groupKey, groupId, epoch⟩ msgType hgroup htotal.ge hsealed
    rw [List.drop_of_length_le htotal.le, List.append_nil, ← hbuf, ← htotal] at hwrite
    exact ⟨buf, rfl, hwrite⟩

/-- What was sealed is found again: it parses, opens, and leaves the plaintext behind
the head. -/
theorem SealsAs.opens (hseals : SealsAs groupKey binding msgType groupId epoch p buf) :
    parse buf = .ok ⟨version, msgType, groupId, epoch, buf.drop headerBytes⟩ ∧
      (openInPlace groupKey binding buf).1 = .ok p.length ∧
      ((openInPlace groupKey binding buf).2.drop headerBytes).take p.length = p := by
  obtain ⟨hgroup, sealed, hsealed, rfl⟩ := sealsAs_iff.mp hseals
  have htag : ccmTagLen ≤ sealed.length := by
    rw [length_of_ccmSealed hsealed]
    exact Nat.le_add_left _ _
  have hdrop (tail : List UInt8) :
      ((envelopeHead msgType groupId epoch).toList ++ tail).drop headerBytes = tail :=
    List.drop_left' Vector.length_toList
  obtain ⟨hok, hplain⟩ := (ccmDecrypt_ok_iff ccmTagLen_le).mpr ⟨hsealed, rfl⟩
  rw [openInPlace_eq hgroup htag, hdrop]
  dsimp only
  rw [hok, hdrop]
  exact ⟨parse_eq_ok_iff.mpr ⟨rfl, hgroup, htag, rfl⟩, rfl, hplain⟩

/-- What opens was sealed: the body the tag vouches for is the sealing of the
plaintext that comes out. -/
theorem exists_sealsAs {n : ℕ} (hopen : (openInPlace groupKey binding buf).1 = .ok n) :
    ∃ msgType groupId epoch p, groupId ≠ 0 ∧ p.length = n ∧
      SealsAs groupKey binding msgType groupId epoch p buf := by
  cases hparse : parse buf with
  | error e =>
    rw [openInPlace, hparse] at hopen
    cases hopen
  | ok e =>
    obtain ⟨-, hgroup, htag, hbuf⟩ := parse_eq_ok_iff.mp hparse
    rw [hbuf, openInPlace_eq hgroup htag] at hopen
    dsimp only at hopen
    cases hanswer : (ccmDecryptInPlaceAad (epochKey groupKey e.epoch)
        (nonce binding.fromNode binding.id e.epoch).toList (aadFromHeader binding.header).toList
        e.sealed ccmTagLen).1 with
    | error e' =>
      rw [hanswer] at hopen
      cases hopen
    | ok len =>
      rw [hanswer] at hopen
      obtain rfl := Except.ok.inj hopen
      obtain ⟨hsealed, hlen⟩ := (ccmDecrypt_ok_iff ccmTagLen_le).mp ⟨hanswer, rfl⟩
      exact ⟨e.msgType, e.groupId, e.epoch, _, hgroup, hlen,
        sealsAs_iff.mpr ⟨hgroup, e.sealed, hsealed, hbuf⟩⟩

/-- Sealing succeeds exactly when the group has a number and the output has the room,
and changes nothing otherwise. -/
theorem sealInto_ok_iff (group : GroupEpoch) (binding : Binding) (msgType : MsgType)
    (p out : List UInt8) :
    ((∃ n, (sealInto group binding msgType p out).1 = .ok n) ↔
        group.groupId ≠ 0 ∧ p.length + overhead ≤ out.length) ∧
      ((∃ e, (sealInto group binding msgType p out).1 = .error e) →
        (sealInto group binding msgType p out).2 = out) := by
  by_cases hrefused : group.groupId = 0 ∨ out.length < p.length + overhead
  · obtain ⟨e, herr⟩ := sealInto_refused group binding msgType hrefused
    rw [herr]
    simp only [reduceCtorEq, exists_false, false_iff, not_and_or, not_not, not_le, hrefused,
      implies_true, and_self]
  · obtain ⟨hgroup, hshort⟩ := not_or.mp hrefused
    have hroom := not_lt.mp hshort
    obtain ⟨sealed, hsealed⟩ := exists_sealedUnder group.groupKey binding group.epoch p
    rw [sealInto_eq group msgType hgroup hroom hsealed]
    simp only [Except.ok.injEq, exists_eq', hgroup, hroom, ne_eq, not_false_eq_true, and_self,
      reduceCtorEq, exists_false, false_implies]

/-- **Opening accepts exactly what sealing writes, and relaying never breaks it.** A
buffer opens to `n` bytes iff some type, group, epoch and plaintext of `n` bytes seal as
it; it then parses as those fields and the plaintext stands behind the head. The outcome
is the same for bindings with the same originator and identifier whose headers agree in
their invariant part, and so after any chain of relays. Sealing succeeds iff the group is
not zero and the output holds the plaintext and fifteen bytes, and otherwise changes
nothing. -/
theorem open_accepts_exactly_sealed (groupKey : Vector UInt8 32) (binding : Binding)
    (buf : List UInt8) :
    (∀ n, (openInPlace groupKey binding buf).1 = .ok n ↔
      ∃ msgType groupId epoch p, groupId ≠ 0 ∧ p.length = n ∧
        SealsAs groupKey binding msgType groupId epoch p buf) ∧
      (∀ msgType groupId epoch p, SealsAs groupKey binding msgType groupId epoch p buf →
        parse buf = .ok ⟨version, msgType, groupId, epoch, buf.drop headerBytes⟩ ∧
        (openInPlace groupKey binding buf).1 = .ok p.length ∧
        ((openInPlace groupKey binding buf).2.drop headerBytes).take p.length = p) ∧
      (∀ binding', binding.fromNode = binding'.fromNode → binding.id = binding'.id →
        SameInvariant binding.header binding'.header →
        openInPlace groupKey binding buf = openInPlace groupKey binding' buf) ∧
      (∀ h h' : Header, Relation.ReflTransGen Relayed h h' → ∀ fromNode id,
        openInPlace groupKey ⟨h.encode, fromNode, id⟩ buf =
          openInPlace groupKey ⟨h'.encode, fromNode, id⟩ buf) ∧
      (∀ group msgType p out,
        ((∃ n, (sealInto group binding msgType p out).1 = .ok n) ↔
          group.groupId ≠ 0 ∧ p.length + overhead ≤ out.length) ∧
        ((∃ e, (sealInto group binding msgType p out).1 = .error e) →
          (sealInto group binding msgType p out).2 = out)) := by
  refine ⟨?_, ?_, ?_, ?_, ?_⟩
  · intro n
    constructor
    · exact exists_sealsAs
    · rintro ⟨msgType, groupId, epoch, p, -, rfl, hseals⟩
      exact hseals.opens.2.1
  · intro msgType groupId epoch p hseals
    exact hseals.opens
  · intro binding' hfrom hid hsame
    exact openInPlace_congr hfrom hid (aadFromHeader_eq_iff.mpr hsame)
  · intro h h' hchain fromNode id
    exact openInPlace_congr rfl rfl (aadFromHeader_of_relayed hchain)
  · intro group msgType p out
    exact sealInto_ok_iff group binding msgType p out

end TetherMesh.Groups
