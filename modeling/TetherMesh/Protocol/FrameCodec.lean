import TetherMesh.Protocol.Frame

/-!
# The frame codec is a bijection

Under one key and one extra nonce, headers of three-bit hop counts with a payload and byte
strings of at least a header correspond one to one.

## Main definitions

* `Header.Wire` — hop counts of three bits
* `Builds`, `Parses` — what building and taking apart a frame do

## Main results

* `builds`, `parses`
* `codec_bijective`
-/

namespace TetherMesh.Protocol

open Math

/-- Hop counts that fit the flags byte. -/
structure Header.Wire (header : Header) : Prop where
  hopLimit_le : header.hopLimit ≤ 7
  hopStart_le : header.hopStart ≤ 7

namespace Header

/-- Three bits are kept. -/
theorem and_seven_of_le {b : UInt8} (h : b ≤ 7) : b &&& 7 = b := by
  have hlt : b.toNat < 2 ^ 3 := Nat.lt_succ_of_le (UInt8.le_iff_toNat_le.mp h)
  refine UInt8.toNat_inj.mp ?_
  rw [UInt8.toNat_and]
  exact (Nat.and_two_pow_sub_one_eq_mod b.toNat 3).trans (Nat.mod_eq_of_lt hlt)

theorem ofBytes_encode_wire {header : Header} (h : header.Wire) :
    ofBytes header.encode = header := by
  rw [ofBytes_encode, and_seven_of_le h.hopLimit_le, and_seven_of_le h.hopStart_le]

/-- Sixteen bytes spell out hop counts of three bits. -/
theorem wire_ofBytes (head : Vector UInt8 headerLen) : (ofBytes head).Wire := by
  have hsame := ofBytes_encode (ofBytes head)
  rw [encode_ofBytes] at hsame
  constructor
  · rw [hsame]
    exact UInt8.and_le_right
  · rw [hsame]
    exact UInt8.and_le_right

end Header

namespace Frame

variable {header : Header} {plaintext bytes out : List UInt8} {key : Block} {extraNonce : UInt32}
  {ceiling : ℕ}

/-- What building a frame does. -/
structure Builds (key : Block) (extraNonce : UInt32) (header : Header) (plaintext : List UInt8)
    (ceiling : ℕ) (out : List UInt8) : Prop where
  ok_iff : (∃ n, (encodeBounded header plaintext key extraNonce ceiling out).1 = .ok n) ↔
    plaintext.length ≤ ceiling ∧ headerLen + plaintext.length ≤ out.length
  /-- Nothing is written on failure. -/
  refused : ∀ e out', encodeBounded header plaintext key extraNonce ceiling out = (.error e, out') →
    out' = out
  /-- Nothing is written past the frame, and the frame decodes to what it was built of. -/
  built : ∀ n out', encodeBounded header plaintext key extraNonce ceiling out = (.ok n, out') →
    n = headerLen + plaintext.length ∧ out'.length = out.length ∧ out'.drop n = out.drop n ∧
      (decodeInPlace (out'.take n) key extraNonce).1 = .ok (header, plaintext)

/-- What taking a byte string apart does. -/
structure Parses (key : Block) (extraNonce : UInt32) (bytes : List UInt8) : Prop where
  /-- Building a frame again restores the byte string. -/
  rebuilt : headerLen ≤ bytes.length → ∃ header plaintext,
    (decodeInPlace bytes key extraNonce).1 = .ok (header, plaintext) ∧ header.Wire ∧
      ∀ ceiling out, plaintext.length ≤ ceiling → bytes.length ≤ out.length →
        encodeBounded header plaintext key extraNonce ceiling out =
          (.ok bytes.length, bytes ++ out.drop bytes.length)
  short : bytes.length < headerLen → decodeInPlace bytes key extraNonce = (.error .tooShort, bytes)

/-- A frame decodes to what it was built of. -/
theorem decodeInPlace_sealed (h : header.Wire) :
    (decodeInPlace (sealed header plaintext key extraNonce) key extraNonce).1 =
      .ok (header, plaintext) := by
  rw [sealed, decodeInPlace_append, Header.ofBytes_encode_wire h, ctrApply_ctrApply]

theorem builds (h : header.Wire) : Builds key extraNonce header plaintext ceiling out := by
  by_cases hfits : plaintext.length ≤ ceiling ∧ headerLen + plaintext.length ≤ out.length
  · have hok : encodeBounded header plaintext key extraNonce ceiling out = _ :=
      encodeBounded_ok hfits.1 hfits.2
    refine ⟨⟨fun _ => hfits, fun _ => ⟨_, by rw [hok]⟩⟩, ?_, ?_⟩
    · intro e out' herr
      rw [hok] at herr
      cases herr
    · intro n out' hbuilt
      rw [hok] at hbuilt
      cases hbuilt
      have hlen : (sealed header plaintext key extraNonce).length =
        headerLen + plaintext.length := length_sealed
      refine ⟨rfl, ?_, ?_, ?_⟩
      · rw [List.length_append, List.length_drop, hlen]
        omega
      · rw [List.drop_left' hlen]
      · rw [List.take_left' hlen, decodeInPlace_sealed h]
  · obtain ⟨e, herr⟩ := encodeBounded_refused header key extraNonce hfits
    refine ⟨⟨?_, fun hand => absurd hand hfits⟩, ?_, ?_⟩
    · rintro ⟨n, hn⟩
      rw [herr] at hn
      cases hn
    · intro e' out' herr'
      rw [herr] at herr'
      exact (Prod.mk.inj herr').2.symm
    · intro n out' hbuilt
      rw [herr] at hbuilt
      cases hbuilt

theorem parses (key : Block) (extraNonce : UInt32) (bytes : List UInt8) :
    Parses key extraNonce bytes where
  rebuilt hlen := by
    obtain ⟨head, body, rfl⟩ := exists_eq_toList_append hlen
    refine ⟨_, _, congrArg Prod.fst (decodeInPlace_append head body), Header.wire_ofBytes head, ?_⟩
    intro ceiling out hceiling hroom
    rw [List.length_append, Vector.length_toList] at hroom ⊢
    rw [length_ctrApply] at hceiling
    -- the header encodes to the bytes it was read from, and the keystream cancels
    rw [encodeBounded_ok (by rwa [length_ctrApply]) (by rwa [length_ctrApply]), sealed,
      Header.encode_ofBytes, ctrApply_ctrApply, length_ctrApply]
  short hlen := by
    rw [decodeInPlace, Header.decode_eq_none_iff.mpr hlen]

/-- **The channel-frame codec is a bijection** between headers of three-bit hop counts with a
payload and byte strings of at least a header, under every key and extra nonce. -/
theorem codec_bijective (key : Block) (extraNonce : UInt32) :
    (∀ header plaintext ceiling out, header.Wire →
      Builds key extraNonce header plaintext ceiling out) ∧
    ∀ bytes, Parses key extraNonce bytes :=
  ⟨fun _ _ _ _ h => builds h, parses key extraNonce⟩

end Frame

end TetherMesh.Protocol
