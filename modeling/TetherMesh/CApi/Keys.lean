import TetherMesh.CApi.Abi
import TetherMesh.Protocol.Channel

/-!
# The C interface: channel keys

A stored pre-shared key reaches a channel by two ways: `expandPsk` in the protocol
library, and the key constructors of the interface. They agree on every stored key but
one of 32 bytes, of which the interface keeps the first sixteen.

## Main definitions

* `tmKeyFromIndex`, `tmKeyFromBytes`, `tmChannelHash`
* `keyRoute`, `RoutesAgree` — the interface's way, and what agreement means

## Main results

* `routesAgree_iff`
-/

namespace TetherMesh.CApi

open Math Protocol

/-- `DEFAULT_PSK`. -/
def defaultPsk : Block := #[
  0xd4, 0xf1, 0xbb, 0x3a, 0x20, 0x29, 0x07, 0x59,
  0xf0, 0xbc, 0xff, 0xab, 0xcf, 0x4e, 0x69, 0x01].toVector

/-- Expand the one-byte shorthand. -/
def tmKeyFromIndex (index : UInt8) (out : Ptr TmKey) : ℤ × Ptr TmKey :=
  match out with
  | none => (tmEArg, none)
  | some old =>
    if ¬ (1 ≤ index ∧ index ≤ 10) then (tmEBadIndex, some old)
    else (tmOk, some ⟨setByte defaultPsk 15 (byteAt defaultPsk 15 + (index - 1))⟩)

/-- Take an explicit key of 16 or 32 bytes. -/
def tmKeyFromBytes (psk : Ptr (List UInt8)) (out : Ptr TmKey) : ℤ × Ptr TmKey :=
  match psk, out with
  | some psk, some old =>
    if psk.length ≠ 16 ∧ psk.length ≠ 32 then (tmEBadKeyLen, some old)
    else (tmOk, some ⟨copyInto zeroBlock (psk.take 16)⟩)
  | _, _ => (tmEArg, out)

/-- Channel hash over a name and an expanded key. -/
def tmChannelHash (name : Ptr (List UInt8)) (key : Ptr TmKey) : UInt8 :=
  match name, key with
  | some name, some key => channelHash name key.bytes.toList
  | _, _ => 0

/-- The interface's way from a stored key: a single byte is an index. -/
def keyRoute (stored : List UInt8) (out : Ptr TmKey) : ℤ × Ptr TmKey :=
  match stored with
  | [index] => tmKeyFromIndex index out
  | _ => tmKeyFromBytes (some stored) out

/-- The bytes of the key a stored key means. -/
def pskBytes : Psk → List UInt8
  | .none => []
  | .aes128 key => key.toList
  | .aes256 key => key.toList

/-- The two ways agree on a stored key, on a channel of this name. -/
structure RoutesAgree (stored name : List UInt8) : Prop where
  /-- What means no key is refused. -/
  refused : expandPsk stored = none ∨ expandPsk stored = some .none →
    ∀ out, (keyRoute stored out).1 < 0
  /-- A key of 128 bits is the same. -/
  key_eq : ∀ key, expandPsk stored = some (.aes128 key) →
    ∀ old, keyRoute stored (some old) = (tmOk, some ⟨key⟩)
  /-- The channel hash of whatever key is made is that of the key meant. -/
  hash_eq : ∀ old key, keyRoute stored (some old) = (tmOk, some key) →
    ∃ psk, expandPsk stored = some psk ∧
      tmChannelHash (some name) (some key) = channelHash name (pskBytes psk)

variable {stored name : List UInt8} {out : Ptr TmKey} {old : TmKey}

/-! ## One stored length at a time -/

theorem keyRoute_singleton (index : UInt8) (out : Ptr TmKey) :
    keyRoute [index] out = tmKeyFromIndex index out := rfl

theorem keyRoute_of_length_ne_one (h : stored.length ≠ 1) (out : Ptr TmKey) :
    keyRoute stored out = tmKeyFromBytes (some stored) out := by
  match stored, h with
  | [], _ | _ :: _ :: _, _ => rfl
  | [_], h => exact absurd rfl h

theorem tmKeyFromBytes_refused (h16 : stored.length ≠ 16) (h32 : stored.length ≠ 32)
    (out : Ptr TmKey) : (tmKeyFromBytes (some stored) out).1 < 0 := by
  cases out with
  | none => exact tmEArg_neg
  | some old =>
    rw [tmKeyFromBytes, if_pos ⟨h16, h32⟩]
    exact (by decide : tmEBadKeyLen < 0)

theorem routesAgree_of_refused (hpsk : expandPsk stored = none ∨ expandPsk stored = some .none)
    (hroute : ∀ out, (keyRoute stored out).1 < 0) : RoutesAgree stored name where
  refused _ := hroute
  key_eq key hkey := by
    rcases hpsk with hpsk | hpsk
    · rw [hpsk] at hkey
      cases hkey
    · rw [hpsk] at hkey
      cases hkey
  hash_eq old key hkey := by
    have hneg := hroute (some old)
    rw [hkey] at hneg
    exact absurd hneg (by decide : ¬ tmOk < 0)

theorem routesAgree_of_aes128 {key : Block} (hpsk : expandPsk stored = some (.aes128 key))
    (hroute : ∀ old, keyRoute stored (some old) = (tmOk, some ⟨key⟩)) :
    RoutesAgree stored name where
  refused h := by
    rcases h with h | h
    · rw [hpsk] at h
      cases h
    · rw [hpsk] at h
      cases h
  key_eq key' hkey := by
    rw [hpsk] at hkey
    cases hkey
    exact hroute
  hash_eq old key' hkey := by
    rw [hroute old] at hkey
    cases hkey
    exact ⟨_, hpsk, rfl⟩

theorem routesAgree_singleton (index : UInt8) : RoutesAgree [index] name := by
  have hexpand := expandPsk_singleton index
  by_cases hrange : 1 ≤ index ∧ index ≤ 10
  · rw [UInt8.le_iff_toNat_le, UInt8.le_iff_toNat_le] at hrange
    have hzero : index ≠ 0 := by
      rintro rfl
      exact absurd hrange.1 (by decide)
    have hbig : ¬ 10 < index := by
      rw [UInt8.lt_iff_toNat_lt]
      exact Nat.not_lt.mpr hrange.2
    rw [if_neg hzero, if_neg hbig] at hexpand
    -- both add the index, less one, to the last byte of the default key
    refine routesAgree_of_aes128 hexpand fun old => ?_
    rw [keyRoute_singleton, tmKeyFromIndex, if_neg]
    · rfl
    · rw [not_not, UInt8.le_iff_toNat_le, UInt8.le_iff_toNat_le]
      exact hrange
  · refine routesAgree_of_refused ?_ fun out => ?_
    · rw [hexpand]
      by_cases hzero : index = 0
      · rw [if_pos hzero]
        exact .inr rfl
      · rw [if_neg hzero, if_pos]
        · exact .inl rfl
        · have hone : 0 < index.toNat :=
            Nat.pos_of_ne_zero fun h => hzero (UInt8.toNat_inj.mp h)
          rw [UInt8.lt_iff_toNat_lt]
          rw [UInt8.le_iff_toNat_le, UInt8.le_iff_toNat_le] at hrange
          change ¬ (1 ≤ index.toNat ∧ index.toNat ≤ 10) at hrange
          change 10 < index.toNat
          omega
    · rw [keyRoute_singleton]
      cases out with
      | none => exact tmEArg_neg
      | some old =>
        rw [tmKeyFromIndex, if_pos hrange]
        exact (by decide : tmEBadIndex < 0)

/-- A stored key of 32 bytes is cut to its first half. -/
theorem keyRoute_of_length_thirtyTwo (h : stored.length = 32) (old : TmKey) :
    keyRoute stored (some old) = (tmOk, some ⟨copyInto zeroBlock (stored.take 16)⟩) := by
  rw [keyRoute_of_length_ne_one (by omega), tmKeyFromBytes, if_neg]
  exact fun hlen => hlen.2 h

/-- **The hash of half a key** is that of the whole key exactly when the other half folds
to zero. -/
theorem routesAgree_iff_of_length_thirtyTwo (h : stored.length = 32) :
    RoutesAgree stored name ↔ xorFold (stored.drop 16) = 0 := by
  have hexpand := expandPsk_of_length_thirtyTwo h
  have hroute := keyRoute_of_length_thirtyTwo h
  have hhalf : (copyInto zeroBlock (stored.take 16)).toList = stored.take 16 :=
    toList_copyInto zeroBlock (by rw [List.length_take, h]; rfl)
  have hwhole : (copyInto (Vector.replicate 32 0) stored).toList =
      stored.take 16 ++ stored.drop 16 := by
    rw [toList_copyInto _ h, List.take_append_drop]
  have hhash : tmChannelHash (some name) (some ⟨copyInto zeroBlock (stored.take 16)⟩) =
      channelHash name (pskBytes (.aes256 (copyInto (Vector.replicate 32 0) stored))) ↔
        xorFold (stored.drop 16) = 0 := by
    rw [tmChannelHash, pskBytes, hhalf, hwhole]
    exact channelHash_eq_iff name _ _
  rw [← hhash]
  constructor
  · intro hagree
    obtain ⟨psk, hpsk, heq⟩ := hagree.hash_eq ⟨zeroBlock⟩ _ (hroute _)
    rw [hexpand] at hpsk
    cases hpsk
    exact heq
  · -- such a key means 256 bits, so only the hash is left to agree
    intro heq
    refine ⟨fun hnone => ?_, fun key hkey => ?_, fun old key hkey => ?_⟩
    · rcases hnone with hnone | hnone
      · rw [hexpand] at hnone
        cases hnone
      · rw [hexpand] at hnone
        cases hnone
    · rw [hexpand] at hkey
      cases hkey
    · rw [hroute] at hkey
      cases hkey
      exact ⟨_, hexpand, heq⟩

/-- **When the two ways agree.** On every stored key of another length than 32, and on one
of 32 bytes exactly when its last sixteen fold to zero, whatever the channel is called. -/
theorem routesAgree_iff (stored name : List UInt8) :
    RoutesAgree stored name ↔ (stored.length = 32 → xorFold (stored.drop 16) = 0) := by
  by_cases h32 : stored.length = 32
  · rw [routesAgree_iff_of_length_thirtyTwo h32]
    exact ⟨fun h _ => h, fun h => h h32⟩
  · refine ⟨fun _ h => absurd h h32, fun _ => ?_⟩
    by_cases h1 : stored.length = 1
    · obtain ⟨index, rfl⟩ := List.length_eq_one_iff.mp h1
      exact routesAgree_singleton index
    by_cases h16 : stored.length = 16
    · refine routesAgree_of_aes128 (expandPsk_of_length_sixteen h16) fun old => ?_
      rw [keyRoute_of_length_ne_one h1, tmKeyFromBytes, if_neg fun h => h.1 h16,
        List.take_of_length_le h16.le]
    · -- no other length means a key, and the empty one means that there is none
      refine routesAgree_of_refused ?_ fun out => ?_
      · by_cases h0 : stored.length = 0
        · rw [List.length_eq_zero_iff.mp h0]
          exact .inr rfl
        · exact .inl (expandPsk_of_length_ne h0 h1 h16 h32)
      · rw [keyRoute_of_length_ne_one h1]
        exact tmKeyFromBytes_refused h16 h32 out

/-- A key of 32 bytes whose last byte alone is not zero. -/
def longKey : List UInt8 := List.replicate 31 0 ++ [1]

/-- **A node on another channel.** The interface accepts a key of 32 bytes, and the hash of
what it makes of it is not that of the key. -/
theorem routesAgree_longKey_not :
    keyRoute longKey (some ⟨zeroBlock⟩) = (tmOk, some ⟨zeroBlock⟩) ∧
      expandPsk longKey = some (.aes256 (copyInto (Vector.replicate 32 0) longKey)) ∧
      tmChannelHash (some [76, 70]) (some ⟨zeroBlock⟩) = 10 ∧
      channelHash [76, 70] (copyInto (Vector.replicate 32 0) longKey).toList = 11 ∧
      ¬ RoutesAgree longKey [76, 70] := by
  have hlen : longKey.length = 32 := rfl
  refine ⟨?_, expandPsk_of_length_thirtyTwo hlen, by decide, ?_, fun hagree => ?_⟩
  · have hkey : copyInto zeroBlock (longKey.take 16) = zeroBlock := by decide
    rw [keyRoute_of_length_thirtyTwo hlen, hkey]
  · rw [toList_copyInto _ hlen]
    decide
  · exact absurd ((routesAgree_iff_of_length_thirtyTwo hlen).mp hagree) (by decide)

end TetherMesh.CApi
