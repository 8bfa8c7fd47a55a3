import TetherMesh.CApi.PkiAgree
import TetherMesh.CApi.RoundTrip

/-!
# Direct messages

A frame opens as a direct message exactly when it is one: a header, a body sealed under the
nonce that this header and the last four bytes make up, and those four bytes. Relays do not
change the answer. Two nodes that have read each other's announcements agree on one key, and
what either seals under it the other reads.

## Main definitions

* `SealedDirect` — the frame carries a plaintext sealed under this key
* `introduction` — who announced itself in a frame, and with which public key
* `Announces` — a frame that the library built for a node to announce itself

## Main results

* `direct_opens_exactly` — every frame gets one of three answers
* `introduced_can_talk` — from two announcements to a direct message
-/

namespace TetherMesh.CApi

open Math Protocol Protocol.Message

variable {key : TmPkiKey} {frame sealed p payloadOut : List UInt8} {lenOut : ℕ}
  {head : Vector UInt8 headerLen} {extra : Vector UInt8 4}

/-! ## Opening -/

/-- The frame is a header, the plaintext as it is sealed in place, and the extra nonce. -/
def SealedDirect (key : TmPkiKey) (frame p : List UInt8) : Prop :=
  ∃ (head : Vector UInt8 headerLen) (sealed : List UInt8) (extra : Vector UInt8 4),
    frame = head.toList ++ (sealed ++ extra.toList) ∧
    ∃ room, room.length = ccmTagLen ∧
      ccmEncryptInPlace key.bytes
        (pkiNonce (Header.ofBytes head).id extra (Header.ofBytes head).fromNode).toList
        (p ++ room) p.length ccmTagLen = (.ok (p.length + ccmTagLen), sealed)

/-- The nonce of a direct message, from its header and its last four bytes. -/
def directNonce (head : Vector UInt8 headerLen) (extra : Vector UInt8 4) : List UInt8 :=
  (pkiNonce (Header.ofBytes head).id extra (Header.ofBytes head).fromNode).toList

/-- What opening leaves behind, by the answer of the cipher. -/
def openedDirect (head : Vector UInt8 headerLen) (extra : Vector UInt8 4)
    (payloadOut : List UInt8) (lenOut : ℕ) (answer : Except CcmError ℕ × List UInt8) : Opened :=
  let frame := some (head.toList ++ answer.2 ++ extra.toList)
  match answer.1 with
  | .ok n => ⟨tmOk, frame, some answer.2, some n⟩
  | .error .unauthentic => ⟨tmEUnauthentic, frame, some payloadOut, some lenOut⟩
  | .error _ => ⟨tmEShort, frame, some payloadOut, some lenOut⟩

/-- **Opening a direct message** is opening its sealed body. -/
theorem tmPkiDecrypt_parts (key : TmPkiKey) (head : Vector UInt8 headerLen)
    (extra : Vector UInt8 4) (hlen : ccmTagLen ≤ sealed.length) (payloadOut : List UInt8)
    (lenOut : ℕ) :
    tmPkiDecrypt (some (head.toList ++ (sealed ++ extra.toList))) (some key) (some payloadOut)
        (some lenOut) =
      openedDirect head extra payloadOut lenOut
        (ccmDecryptInPlace key.bytes (directNonce head extra) sealed ccmTagLen) := by
  have hbody : (sealed ++ extra.toList).length = sealed.length + 4 := by
    rw [List.length_append, Vector.length_toList]
  have hlong : ¬ sealed.length + 4 < pkiOverhead := by
    change ¬ sealed.length + 4 < 12
    change 8 ≤ sealed.length at hlen
    omega
  rw [tmPkiDecrypt, Frame.peekHeader_append]
  dsimp only
  rw [List.drop_left' Vector.length_toList, List.take_left' Vector.length_toList, hbody,
    if_neg hlong, Nat.add_sub_cancel, List.drop_left, List.take_left, pad_toList, directNonce]
  obtain ⟨r, buf⟩ := ccmDecryptInPlace key.bytes
    (pkiNonce (Header.ofBytes head).id extra (Header.ofBytes head).fromNode).toList sealed ccmTagLen
  cases r with
  | ok => rfl
  | error e => cases e <;> rfl

/-- The body takes a tag and the nonce is as long as it should be, so it opens or is not
authentic. -/
theorem tmPkiDecrypt_cases (key : TmPkiKey) (head : Vector UInt8 headerLen)
    (extra : Vector UInt8 4) (hlen : ccmTagLen ≤ sealed.length) (payloadOut : List UInt8)
    (lenOut : ℕ) :
    let opened := tmPkiDecrypt (some (head.toList ++ (sealed ++ extra.toList))) (some key)
      (some payloadOut) (some lenOut)
    let answer := ccmDecryptInPlace key.bytes (directNonce head extra) sealed ccmTagLen
    (∃ n, answer.1 = .ok n ∧ opened.code = tmOk ∧ opened.plaintext = answer.2.take n) ∨
    (answer.1 = .error .unauthentic ∧ opened.code = tmEUnauthentic ∧
      opened.payload = some payloadOut ∧ opened.payloadLen = some lenOut) := by
  have hnonce : (directNonce head extra).length = ccmNonceLen := Vector.length_toList
  dsimp only
  rw [tmPkiDecrypt_parts key head extra hlen, openedDirect]
  rcases ccmDecrypt_outcomes key.bytes (directNonce head extra) [] sealed ccmTagLen_le with
    ⟨-, hshort⟩ | ⟨-, -, hbad⟩ | ⟨⟨n, hok⟩, -⟩ | ⟨hbad, -⟩
  · exact absurd hlen (not_le.mpr hshort)
  · exact absurd hnonce hbad
  · rw [ccmDecryptInPlace, hok]
    exact .inl ⟨n, rfl, rfl, rfl⟩
  · rw [ccmDecryptInPlace, hbad]
    exact .inr ⟨rfl, rfl, rfl, rfl⟩

/-- Fewer bytes than a header, a tag and an extra nonce are refused. -/
theorem tmPkiDecrypt_short (hshort : frame.length < headerLen + pkiOverhead) :
    tmPkiDecrypt (some frame) (some key) (some payloadOut) (some lenOut) =
      ⟨tmEShort, some frame, some payloadOut, some lenOut⟩ := by
  rw [tmPkiDecrypt, Frame.peekHeader]
  cases hdec : Header.decode frame with
  | none => rfl
  | some h =>
    dsimp only
    rw [if_pos]
    rw [List.length_drop]
    change frame.length - 16 < 12
    change frame.length < 16 + 12 at hshort
    omega

/-- Otherwise there is a header, a body with a tag, and an extra nonce. -/
theorem exists_direct_parts (hlong : headerLen + pkiOverhead ≤ frame.length) :
    ∃ (head : Vector UInt8 headerLen) (sealed : List UInt8) (extra : Vector UInt8 4),
      frame = head.toList ++ (sealed ++ extra.toList) ∧ ccmTagLen ≤ sealed.length := by
  obtain ⟨head, body, rfl⟩ := exists_eq_toList_append ((Nat.le_add_right _ _).trans hlong)
  rw [List.length_append, Vector.length_toList] at hlong
  have hbody : 12 ≤ body.length := Nat.le_of_add_le_add_left hlong
  have hlast : 4 ≤ (body.drop (body.length - 4)).length := by
    rw [List.length_drop]
    omega
  obtain ⟨extra, rest, hextra⟩ := exists_eq_toList_append hlast
  have hrest : rest = [] := by
    have hlen := congrArg List.length hextra
    rw [List.length_drop, List.length_append, Vector.length_toList] at hlen
    exact List.length_eq_zero_iff.mp (by omega)
  refine ⟨head, body.take (body.length - 4), extra, ?_, ?_⟩
  · rw [hrest, List.append_nil] at hextra
    rw [← hextra, List.take_append_drop]
  · rw [List.length_take]
    change 8 ≤ min (body.length - 4) body.length
    omega

/-- What is sealed opens, and yields the plaintext. -/
theorem SealedDirect.opens (h : SealedDirect key frame p) (payloadOut : List UInt8) (lenOut : ℕ) :
    (tmPkiDecrypt (some frame) (some key) (some payloadOut) (some lenOut)).code = tmOk ∧
      (tmPkiDecrypt (some frame) (some key) (some payloadOut) (some lenOut)).plaintext = p := by
  obtain ⟨head, sealed, extra, rfl, hroom⟩ := h
  have hsealed := ccmSealed_iff_encrypt.mpr hroom
  have hlen : ccmTagLen ≤ sealed.length := by
    rw [length_of_ccmSealed hsealed]
    exact Nat.le_add_left _ _
  obtain ⟨hok, hplain⟩ := (ccmDecrypt_ok_iff ccmTagLen_le).mpr ⟨hsealed, rfl⟩
  rcases tmPkiDecrypt_cases key head extra hlen payloadOut lenOut with
    ⟨n, hanswer, hcode, hopened⟩ | ⟨hanswer, -⟩
  · obtain rfl := Except.ok.inj (hok.symm.trans hanswer)
    exact ⟨hcode, hopened.trans hplain⟩
  · cases hok.symm.trans hanswer

/-- **A frame opens as a direct message exactly when it is one.** -/
theorem opens_iff (key : TmPkiKey) (frame payloadOut : List UInt8) (lenOut : ℕ) (p : List UInt8) :
    ((tmPkiDecrypt (some frame) (some key) (some payloadOut) (some lenOut)).code = tmOk ∧
      (tmPkiDecrypt (some frame) (some key) (some payloadOut) (some lenOut)).plaintext = p) ↔
      SealedDirect key frame p := by
  refine ⟨?_, fun h => h.opens payloadOut lenOut⟩
  rintro ⟨hcode, hplain⟩
  rcases Nat.lt_or_ge frame.length (headerLen + pkiOverhead) with hshort | hlong
  · rw [tmPkiDecrypt_short hshort] at hcode
    exact absurd hcode (by decide : tmEShort ≠ tmOk)
  · obtain ⟨head, sealed, extra, rfl, hlen⟩ := exists_direct_parts hlong
    rcases tmPkiDecrypt_cases key head extra hlen payloadOut lenOut with
      ⟨n, hanswer, -, hopened⟩ | ⟨-, hbad, -⟩
    · refine ⟨head, sealed, extra, rfl, ccmSealed_iff_encrypt.mp ?_⟩
      exact ((ccmDecrypt_ok_iff ccmTagLen_le).mp ⟨hanswer, hopened.symm.trans hplain⟩).1
    · exact absurd (hcode.symm.trans hbad) (by decide : tmOk ≠ tmEUnauthentic)

theorem SealedDirect.le_length (h : SealedDirect key frame p) :
    headerLen + pkiOverhead ≤ frame.length := by
  obtain ⟨head, sealed, extra, rfl, hroom⟩ := h
  have hlen := length_of_ccmSealed (ccmSealed_iff_encrypt.mpr hroom)
  rw [List.length_append, List.length_append, Vector.length_toList, Vector.length_toList, hlen]
  change 16 + 12 ≤ 16 + (p.length + 8 + 4)
  omega

/-! ## Relays -/

/-- What is sealed is read off one way only, and relays keep what the nonce is made of. -/
theorem sealedDirect_of_sameBody {head' : Vector UInt8 headerLen} {body : List UInt8}
    (hid : (Header.ofBytes head').id = (Header.ofBytes head).id)
    (hfrom : (Header.ofBytes head').fromNode = (Header.ofBytes head).fromNode)
    (h : SealedDirect key (head.toList ++ body) p) : SealedDirect key (head'.toList ++ body) p := by
  obtain ⟨head₁, sealed, extra, heq, hroom⟩ := h
  obtain ⟨hhead, rfl⟩ :=
    List.append_inj heq (by rw [Vector.length_toList, Vector.length_toList])
  obtain rfl := Vector.toList_inj.mp hhead
  refine ⟨head', sealed, extra, rfl, ?_⟩
  rwa [hid, hfrom]

/-- **Relays neither make nor break a direct message.** -/
theorem sealedDirect_relayChain (relays : List (UInt8 × UInt32)) :
    SealedDirect key (relayChain frame relays) p ↔ SealedDirect key frame p := by
  rcases Nat.lt_or_ge frame.length headerLen with hshort | hlong
  · rw [relayChain_of_length_lt hshort]
  · obtain ⟨head, body, rfl⟩ := exists_eq_toList_append hlong
    obtain ⟨head', hchain, hsent⟩ :=
      exists_relayChain relays (SentAs.refl (Header.ofBytes head)) body
    rw [hchain]
    exact ⟨sealedDirect_of_sameBody hsent.id_eq.symm hsent.fromNode_eq.symm,
      sealedDirect_of_sameBody hsent.id_eq hsent.fromNode_eq⟩

/-- A frame is too short, or a direct message, or neither. -/
theorem tmPkiDecrypt_outcomes (key : TmPkiKey) (frame payloadOut : List UInt8) (lenOut : ℕ) :
    let opened := tmPkiDecrypt (some frame) (some key) (some payloadOut) (some lenOut)
    (frame.length < headerLen + pkiOverhead ∧ opened.code = tmEShort ∧
      opened.payload = some payloadOut ∧ opened.payloadLen = some lenOut) ∨
    (∃ p, SealedDirect key frame p ∧ opened.code = tmOk ∧ opened.plaintext = p) ∨
    (headerLen + pkiOverhead ≤ frame.length ∧ (∀ p, ¬ SealedDirect key frame p) ∧
      opened.code = tmEUnauthentic ∧ opened.payload = some payloadOut ∧
      opened.payloadLen = some lenOut) := by
  intro opened
  rcases Nat.lt_or_ge frame.length (headerLen + pkiOverhead) with hshort | hlong
  · have hopened : opened = _ := tmPkiDecrypt_short hshort
    rw [hopened]
    exact .inl ⟨hshort, rfl, rfl, rfl⟩
  · right
    by_cases hsealed : ∃ p, SealedDirect key frame p
    · obtain ⟨p, hp⟩ := hsealed
      exact .inl ⟨p, hp, hp.opens payloadOut lenOut⟩
    · refine .inr ⟨hlong, not_exists.mp hsealed, ?_⟩
      obtain ⟨head, sealed, extra, rfl, hlen⟩ := exists_direct_parts hlong
      rcases tmPkiDecrypt_cases key head extra hlen payloadOut lenOut with
        ⟨n, -, hcode, hplain⟩ | ⟨-, hbad⟩
      · exact absurd ⟨_, (opens_iff key _ payloadOut lenOut _).mp ⟨hcode, hplain⟩⟩ hsealed
      · exact hbad

/-- **Relays do not change the answer.** -/
theorem tmPkiDecrypt_relayChain (key : TmPkiKey) (frame payloadOut : List UInt8) (lenOut : ℕ)
    (relays : List (UInt8 × UInt32)) :
    let opened (frame : List UInt8) :=
      tmPkiDecrypt (some frame) (some key) (some payloadOut) (some lenOut)
    (opened (relayChain frame relays)).code = (opened frame).code ∧
      (opened (relayChain frame relays)).plaintext = (opened frame).plaintext := by
  intro opened
  have hlen := length_relayChain frame relays
  rcases tmPkiDecrypt_outcomes key frame payloadOut lenOut with
    ⟨hshort, -⟩ | ⟨p, hp, hcode, hplain⟩ | ⟨hlong, hnone, hcode, hpayload, hlenOut⟩
  · have hrelayed : (relayChain frame relays).length < headerLen + pkiOverhead := hlen ▸ hshort
    have hbefore : opened frame = _ := tmPkiDecrypt_short hshort
    have hafter : opened (relayChain frame relays) = _ := tmPkiDecrypt_short hrelayed
    rw [hbefore, hafter]
    exact ⟨rfl, rfl⟩
  · have hrelayed := (sealedDirect_relayChain relays).mpr hp
    obtain ⟨hcode', hplain'⟩ := hrelayed.opens payloadOut lenOut
    exact ⟨hcode'.trans hcode.symm, hplain'.trans hplain.symm⟩
  · rcases tmPkiDecrypt_outcomes key (relayChain frame relays) payloadOut lenOut with
      ⟨hshort, -⟩ | ⟨p, hp, -⟩ | ⟨-, -, hcode', hpayload', hlenOut'⟩
    · exact absurd hshort (not_lt.mpr (hlen ▸ hlong))
    · exact absurd ((sealedDirect_relayChain relays).mp hp) (hnone p)
    · refine ⟨hcode'.trans hcode.symm, ?_⟩
      rw [Opened.plaintext, Opened.plaintext, hpayload', hlenOut', hpayload, hlenOut]

/-- **Every frame gets one of three answers.** It is too short for a header, a tag and an extra
nonce; or it is a direct message under this key and yields its plaintext; or it is not
authentic. Nothing is handed back but a plaintext, and relays do not change the answer. -/
theorem direct_opens_exactly (key : TmPkiKey) (frame payloadOut : List UInt8) (lenOut : ℕ) :
    let opened (frame : List UInt8) :=
      tmPkiDecrypt (some frame) (some key) (some payloadOut) (some lenOut)
    ((opened frame).code = tmEShort ↔ frame.length < headerLen + pkiOverhead) ∧
    (∀ p, (opened frame).code = tmOk ∧ (opened frame).plaintext = p ↔ SealedDirect key frame p) ∧
    ((opened frame).code = tmEUnauthentic ↔
      headerLen + pkiOverhead ≤ frame.length ∧ ∀ p, ¬ SealedDirect key frame p) ∧
    ((opened frame).code ≠ tmOk →
      (opened frame).payload = some payloadOut ∧ (opened frame).payloadLen = some lenOut) ∧
    ∀ relays, (opened (relayChain frame relays)).code = (opened frame).code ∧
      (opened (relayChain frame relays)).plaintext = (opened frame).plaintext := by
  intro opened
  have hanswers := tmPkiDecrypt_outcomes key frame payloadOut lenOut
  have hopens := opens_iff key frame payloadOut lenOut
  have hnever : ∀ p, SealedDirect key frame p → ¬ frame.length < headerLen + pkiOverhead :=
    fun p hp => not_lt.mpr hp.le_length
  refine ⟨⟨?_, ?_⟩, hopens, ⟨?_, ?_⟩, ?_, ?_⟩
  · intro hcode
    rcases hanswers with ⟨hshort, -⟩ | ⟨p, -, hok, -⟩ | ⟨-, -, hbad, -⟩
    · exact hshort
    · exact absurd (hcode.symm.trans hok) (by decide : tmEShort ≠ tmOk)
    · exact absurd (hcode.symm.trans hbad) (by decide : tmEShort ≠ tmEUnauthentic)
  · intro hshort
    exact congrArg Opened.code (tmPkiDecrypt_short hshort)
  · intro hcode
    rcases hanswers with ⟨-, hbad, -⟩ | ⟨p, -, hok, -⟩ | ⟨hlong, hnone, -⟩
    · exact absurd (hcode.symm.trans hbad) (by decide : tmEUnauthentic ≠ tmEShort)
    · exact absurd (hcode.symm.trans hok) (by decide : tmEUnauthentic ≠ tmOk)
    · exact ⟨hlong, hnone⟩
  · rintro ⟨hlong, hnone⟩
    rcases hanswers with ⟨hshort, -⟩ | ⟨p, hp, -⟩ | ⟨-, -, hcode, -⟩
    · exact absurd hshort (not_lt.mpr hlong)
    · exact absurd hp (hnone p)
    · exact hcode
  · intro hcode
    rcases hanswers with ⟨-, -, hkept⟩ | ⟨p, -, hok, -⟩ | ⟨-, -, -, hkept⟩
    · exact hkept
    · exact absurd hok hcode
    · exact hkept
  · exact tmPkiDecrypt_relayChain key frame payloadOut lenOut

/-! ## Introductions -/

/-- What a call filled in, when it succeeded. -/
def filled {α : Type} (answer : ℤ × Ptr α) : Ptr α := if answer.1 = tmOk then answer.2 else none

/-- Who announced itself in a received frame, and with which public key: look at the header,
open the frame, take it apart and read the user. -/
def introduction (channel : TmKey) (frame payloadOut : List UInt8) (lenOut : ℕ)
    (header : TmHeader) (data : TmData) (user : TmUser) : Option (UInt32 × List UInt8) := do
  let h ← filled (tmHeaderPeek (some frame) (some header))
  let opened := tmFrameDecrypt (some frame) (some channel) (some payloadOut) (some lenOut)
  guard (opened.code = tmOk)
  let d ← filled (tmDataDecode (some opened.plaintext) (some data))
  guard (d.portnum = PortNum.nodeinfoApp)
  let u ← filled (tmUserDecode (some ((borrow d.payload).take d.payloadLen)) (some user))
  return (h.fromNode, borrow u.publicKey)

/-- The library built the frame for the node to announce itself, with the public key that it
derived from the node's private key. -/
def Announces (f : X25519.Fiat) (channel : TmKey) (node : UInt32)
    (privateKey : Vector UInt8 X25519.keyLen) (frame : List UInt8) : Prop :=
  ∃ (toNode id : UInt32) (hopLimit channelHash wantResponse : UInt8) (user : TmUser)
    (out : Ptr (List UInt8)) (place : Vector UInt8 X25519.keyLen),
    user.publicKey = (tmX25519Public f (some privateKey.toList) (some place.toList)).2 ∧
    let answer := tmNodeinfoEncode node toNode id hopLimit channelHash wantResponse (some channel)
      (some user) out
    0 < answer.1 ∧ frame = built answer

section Introductions

variable {f : X25519.Fiat} {channel : TmKey} {node : UInt32}
  {privateKey : Vector UInt8 X25519.keyLen}

/-- **An announcement is read back**, through relays: the number of the node and its key. -/
theorem Announces.introduction (h : Announces f channel node privateKey frame)
    (relays : List (UInt8 × UInt32)) (payloadOut : List UInt8) (lenOut : ℕ) (header : TmHeader)
    (data : TmData) (user : TmUser) :
    CApi.introduction channel (relayChain frame relays) payloadOut lenOut header data user =
      some (node, (f.publicKey privateKey).toList) := by
  obtain ⟨toNode, id, hopLimit, channelHash, wantResponse, announced, out, place, hkey, hpos,
    rfl⟩ := h
  obtain ⟨record, hback, huser⟩ := readsBack_of_identity hpos payloadOut lenOut
  obtain ⟨⟨hcode, hdecoded⟩, hreports⟩ := hback relays
  obtain ⟨h, hpeek, hfrom, -⟩ := hreports header
  obtain ⟨d, hdata, hport, hpayload, -⟩ := hdecoded data
  obtain ⟨u, hread, hprofile⟩ := huser user
  have hlearned : borrow u.publicKey = (f.publicKey privateKey).toList := by
    have hsame : borrow u.publicKey = borrow announced.publicKey :=
      congrArg Message.User.publicKey (Option.some.inj hprofile)
    rw [hsame, hkey, tmX25519Public_eq f privateKey Vector.length_toList.ge,
      List.drop_of_length_le Vector.length_toList.le, List.append_nil]
    rfl
  simp [CApi.introduction, filled, hpeek, hcode, hdata, hport, hpayload, hread, hfrom, hlearned]

/-- A node with a short name and this key. -/
def shortProfile (publicKey : List UInt8) : TmUser :=
  ⟨some [33, 49], some [78], none, some publicKey, none, 43, 0⟩

theorem length_shortProfile {publicKey : List UInt8} (hlen : publicKey.length = 32) :
    (Protobuf.encodings (shortProfile publicKey).profile.fields).length = 43 := by
  have hnil : publicKey ≠ [] := fun h => by simp [h] at hlen
  simp [shortProfile, TmUser.profile, borrow, User.fields, fieldIf, fieldSome, hnil, hlen,
    Protobuf.Field.encoding, Protobuf.Field.tag, Protobuf.Value.encoding, Protobuf.Value.wireType,
    Varint.encode_of_lt]

theorem length_shortAnnouncement {publicKey : List UInt8} (hlen : publicKey.length = 32) :
    (wrapped (announcement (shortProfile publicKey) 0)).length = 47 := by
  have hrecord := length_shortProfile hlen
  have hnil : Protobuf.encodings (shortProfile publicKey).profile.fields ≠ [] :=
    fun h => by simp [h] at hrecord
  simp [announcement, hnil, hrecord, PortNum.nodeinfoApp, wrapped, Data.fields, fieldIf,
    fieldSome, Protobuf.Field.encoding, Protobuf.Field.tag, Protobuf.Value.encoding,
    Protobuf.Value.wireType, Varint.encode_of_lt]

/-- The frame in which a node with a short name announces itself. -/
def shortFrame (node : UInt32) (privateKey : Vector UInt8 X25519.keyLen) : List UInt8 :=
  built (tmNodeinfoEncode node 0xFFFFFFFF 9 3 8 0 (some ⟨Vector.replicate 16 7⟩)
    (some (shortProfile (X25519.Fiat.reference.publicKey privateKey).toList))
    (some (List.replicate 128 0)))

theorem announces_short (node : UInt32) (privateKey : Vector UInt8 X25519.keyLen) :
    Announces .reference ⟨Vector.replicate 16 7⟩ node privateKey (shortFrame node privateKey) := by
  have hlen : (X25519.Fiat.reference.publicKey privateKey).toList.length = 32 :=
    Vector.length_toList
  have hrecord := length_shortProfile hlen
  have hwrapped := length_shortAnnouncement hlen
  have hout : (List.replicate 128 (0 : UInt8)).length = 128 := List.length_replicate
  have hsizes : headerLen = 16 ∧ maxPayload = 233 := ⟨rfl, rfl⟩
  refine ⟨0xFFFFFFFF, 9, 3, 8, 0, _, some (List.replicate 128 0),
    Vector.replicate X25519.keyLen 0, ?_, ?_, rfl⟩
  · rw [tmX25519Public_eq _ privateKey Vector.length_toList.ge,
      List.drop_of_length_le Vector.length_toList.le, List.append_nil]
    rfl
  · exact tmNodeinfoEncode_pos (by omega) (by omega) (by omega)

/-- **Two nodes that have heard each other can talk.** Each announced itself and read the other's
announcement, whatever relays lay between. The two keys agreed are one, and what either seals
under it, through relays again, the other reads. -/
theorem introduced_can_talk (h : f.Sound) {alice bob : UInt32}
    {alicePrivate bobPrivate : Vector UInt8 X25519.keyLen} {aliceFrame bobFrame : List UInt8}
    (halice : Announces f channel alice alicePrivate aliceFrame)
    (hbob : Announces f channel bob bobPrivate bobFrame)
    (relays relays' : List (UInt8 × UInt32)) (payloadOut : List UInt8) (lenOut : ℕ)
    (header : TmHeader) (data : TmData) (user : TmUser) (old : TmPkiKey) :
    let hears (frame : List UInt8) :=
      introduction channel frame payloadOut lenOut header data user
    ∃ alicePublic bobPublic key,
      hears (relayChain aliceFrame relays) = some (alice, alicePublic) ∧
      hears (relayChain bobFrame relays') = some (bob, bobPublic) ∧
      tmPkiAgree f (some alicePrivate.toList) (some bobPublic) (some old) = (tmOk, some key) ∧
      tmPkiAgree f (some bobPrivate.toList) (some alicePublic) (some old) = (tmOk, some key) ∧
      ∀ (fromNode toNode id : UInt32) (hopLimit wantAck : UInt8) (extraNonce portnum : UInt32)
        (payload out : Ptr (List UInt8)),
        let answer := tmPkiEncode fromNode toNode id hopLimit wantAck (some key) extraNonce portnum
          payload out
        0 < answer.1 →
          ReadsBack (built answer)
            (fun frame => tmPkiDecrypt (some frame) (some key) (some payloadOut) (some lenOut))
            fromNode toNode id hopLimit (wantAck ≠ 0) portnum (borrow payload) false := by
  intro hears
  refine ⟨(f.publicKey alicePrivate).toList, (f.publicKey bobPrivate).toList,
    ⟨sha256 (f.scalarmult alicePrivate (f.publicKey bobPrivate)).toList⟩, ?_, ?_, ?_, ?_, ?_⟩
  · exact halice.introduction relays payloadOut lenOut header data user
  · exact hbob.introduction relays' payloadOut lenOut header data user
  · rw [tmPkiAgree_eq, h.x25519_publicKey alicePrivate bobPrivate]
  · rw [tmPkiAgree_eq, h.x25519_publicKey bobPrivate alicePrivate,
      h.scalarmult_publicKey_comm bobPrivate alicePrivate]
  · intro fromNode toNode id hopLimit wantAck extraNonce portnum payload out answer hpos
    exact readsBack_of_direct hpos payloadOut lenOut

/-- Two nodes with short names, two relays one way and none the other. -/
theorem introduced_can_talk_short :
    let alicePrivate : Vector UInt8 X25519.keyLen := Vector.replicate X25519.keyLen 0x11
    let bobPrivate : Vector UInt8 X25519.keyLen := Vector.replicate X25519.keyLen 0xA5
    let hears (frame : List UInt8) :=
      introduction ⟨Vector.replicate 16 7⟩ frame [] 0 ⟨0, 0, 0, 0, 0, 0, 0, 0, 0, 0⟩
        ⟨0, none, 0, 0, 0⟩ ⟨none, none, none, none, none, 0, 0⟩
    ∃ alicePublic bobPublic key,
      hears (relayChain (shortFrame 1 alicePrivate) [(2, 7), (1, 8)]) = some (1, alicePublic) ∧
      hears (relayChain (shortFrame 2 bobPrivate) []) = some (2, bobPublic) ∧
      tmPkiAgree .reference (some alicePrivate.toList) (some bobPublic)
        (some ⟨Vector.replicate 32 0⟩) = (tmOk, some key) ∧
      tmPkiAgree .reference (some bobPrivate.toList) (some alicePublic)
        (some ⟨Vector.replicate 32 0⟩) = (tmOk, some key) ∧
      ∀ (fromNode toNode id : UInt32) (hopLimit wantAck : UInt8) (extraNonce portnum : UInt32)
        (payload out : Ptr (List UInt8)),
        let answer := tmPkiEncode fromNode toNode id hopLimit wantAck (some key) extraNonce portnum
          payload out
        0 < answer.1 →
          ReadsBack (built answer)
            (fun frame => tmPkiDecrypt (some frame) (some key) (some []) (some 0))
            fromNode toNode id hopLimit (wantAck ≠ 0) portnum (borrow payload) false :=
  introduced_can_talk X25519.Fiat.reference_sound (announces_short 1 _) (announces_short 2 _) _ _
    _ _ _ _ _ _

end Introductions

end TetherMesh.CApi
