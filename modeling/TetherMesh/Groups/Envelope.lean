import TetherMesh.Protocol.CcmFormat
import TetherMesh.Protocol.Header
import TetherMesh.Protocol.Sha256

/-!
# Group envelopes

The groups bundle seals a message with AES-256-CCM under a key derived from the
group key and an epoch, bound to the invariant part of the cleartext header of the
frame that carries it. The envelope in front of the ciphertext is seven bytes:
version, message type, group and epoch.

## Main definitions

* `aadFromHeader`, `epochKey`, `nonce`
* `GroupEpoch`, `Binding`, `Envelope`
* `sealInto`, `parse`, `openInPlace`

## Main results

* `parse_eq_ok_iff` — what is parsed is an envelope head and at least a tag
* `sealInto_eq` — what sealing writes, and where
* `openInPlace_eq` — opening is CCM decryption of what follows the head
-/

namespace TetherMesh.Groups

open Math Protocol

/-- `VERSION`. -/
def version : UInt8 := 1

/-- `HEADER_BYTES`: version, type, group, epoch. -/
abbrev headerBytes : ℕ := 7

/-- `OVERHEAD`. -/
abbrev overhead : ℕ := headerBytes + ccmTagLen

/-- `AAD_LEN`. -/
abbrev aadLen : ℕ := 14

/-- `KDF_LABEL`. -/
def kdfLabel : List UInt8 := "tethermesh-groups-v1".toList.map fun c => UInt8.ofNat c.toNat

/-- What an envelope carries. -/
inductive MsgType
  | data
  | invite
  | revoke
  | roster
  | leave
  deriving DecidableEq, Repr

namespace MsgType

/-- The wire value. -/
def toU8 : MsgType → UInt8
  | .data => 1
  | .invite => 2
  | .revoke => 3
  | .roster => 4
  | .leave => 5

/-- Read a wire value, or `none` if it names nothing. -/
def fromU8 (v : UInt8) : Option MsgType :=
  if v = 1 then some .data
  else if v = 2 then some .invite
  else if v = 3 then some .revoke
  else if v = 4 then some .roster
  else if v = 5 then some .leave
  else none

theorem fromU8_eq_some_iff {v : UInt8} {t : MsgType} : fromU8 v = some t ↔ v = t.toU8 := by
  constructor
  · intro h
    unfold fromU8 at h
    split_ifs at h <;> (cases h; assumption)
  · intro h
    subst h
    cases t <;> rfl

end MsgType

/-- Why an envelope could not be produced or accepted. -/
inductive Error
  | bufferTooSmall
  | malformed
  | unsupportedVersion
  | unauthentic
  | badGroupId
  | rosterFull
  | notOwner
  | epochExhausted
  deriving DecidableEq, Repr

/-- `Error::from`: only a tag that does not verify is unauthentic. -/
def Error.ofCcm : CcmError → Error
  | .unauthentic => .unauthentic
  | .tooShort | .badNonce => .malformed

/-- The invariant subset of the cleartext header: bytes 0 to 13, byte 12 without the
hop limit. -/
def aadFromHeader (header : Vector UInt8 headerLen) : Vector UInt8 aadLen :=
  let out : Vector UInt8 aadLen := copyInto (Vector.replicate aadLen 0) header.toList
  setByte out 12 (byteAt header 12 &&& 0xF8)

/-- What the key of an epoch is the hash of. -/
def epochKeyInput (groupKey : Vector UInt8 32) (epoch : UInt8) : List UInt8 :=
  let input : Vector UInt8 (32 + 20 + 1) := Vector.replicate (32 + 20 + 1) 0
  let input := updateBytes 0 32 (fun i _ => byteAt groupKey i) input
  let n := 32
  let input := updateBytes n kdfLabel.length (fun i _ => kdfLabel.getD i 0) input
  let n := n + kdfLabel.length
  let input := setByte input n epoch
  let n := n + 1
  input.toList.take n

/-- The AES-256 key for an epoch. -/
def epochKey (groupKey : Vector UInt8 32) (epoch : UInt8) : Vector UInt8 32 :=
  sha256 (epochKeyInput groupKey epoch)

/-- The CCM nonce of a frame. -/
def nonce (fromNode id : UInt32) (epoch : UInt8) : Vector UInt8 ccmNonceLen :=
  let out : Vector UInt8 ccmNonceLen := Vector.replicate ccmNonceLen 0
  let out := updateBytes 0 4 (fun i _ => byteAt fromNode.toLeBytes i) out
  let out := updateBytes 4 4 (fun i _ => byteAt id.toLeBytes i) out
  setByte out 8 epoch

/-- Which group, at which epoch, and the group's long-term key. -/
structure GroupEpoch where
  groupKey : Vector UInt8 32
  groupId : UInt32
  epoch : UInt8
  deriving DecidableEq

/-- What the AEAD is bound to: the header of the carrying frame, its originator and its
packet identifier. -/
structure Binding where
  header : Vector UInt8 headerLen
  fromNode : UInt32
  id : UInt32
  deriving DecidableEq

/-- A sealed message as it is parsed. -/
structure Envelope where
  version : UInt8
  msgType : MsgType
  groupId : UInt32
  epoch : UInt8
  sealed : List UInt8
  deriving DecidableEq, Repr

/-- `seal`: seal a message into `out`, answering the number of bytes written. -/
def sealInto (group : GroupEpoch) (binding : Binding) (msgType : MsgType)
    (plaintext out : List UInt8) : Except Error ℕ × List UInt8 :=
  if group.groupId = 0 then
    (.error .badGroupId, out)
  else
    let total := plaintext.length + overhead
    if out.length < total then
      (.error .bufferTooSmall, out)
    else
      let out := out.set 0 version
      let out := out.set 1 msgType.toU8
      let out := overwrite out 2 group.groupId.toLeBytes.toList
      let out := out.set 6 group.epoch
      let body := overwrite ((out.take total).drop headerBytes) 0 plaintext
      let key := epochKey group.groupKey group.epoch
      let n := nonce binding.fromNode binding.id group.epoch
      let aad := aadFromHeader binding.header
      let (answer, body) :=
        ccmEncryptInPlaceAad key n.toList aad.toList body plaintext.length ccmTagLen
      -- the head stays in the buffer also when the encryption is refused
      let out := out.take headerBytes ++ body ++ out.drop total
      match answer with
      | .error e => (.error (.ofCcm e), out)
      | .ok written => (.ok (headerBytes + written), out)

/-- `opt.ok_or(e)`. -/
def okOr {α : Type*} (x : Option α) (e : Error) : Except Error α :=
  match x with
  | none => .error e
  | some a => .ok a

/-- Parse an envelope without decrypting it. -/
def parse (payload : List UInt8) : Except Error Envelope :=
  if payload.length < overhead then
    .error .malformed
  else do
    let v ← okOr payload[0]? .malformed
    if v ≠ version then
      .error .unsupportedVersion
    else do
      let rawType ← okOr payload[1]? .malformed
      let msgType ← okOr (MsgType.fromU8 rawType) .malformed
      let g0 ← okOr payload[2]? .malformed
      let g1 ← okOr payload[3]? .malformed
      let g2 ← okOr payload[4]? .malformed
      let g3 ← okOr payload[5]? .malformed
      let groupId := UInt32.ofLeBytes (pad 4 [g0, g1, g2, g3])
      if groupId = 0 then
        .error .badGroupId
      else do
        let epoch ← okOr payload[6]? .malformed
        return ⟨v, msgType, groupId, epoch, payload.drop headerBytes⟩

/-- Verify and decrypt in place, answering the plaintext length. -/
def openInPlace (groupKey : Vector UInt8 32) (binding : Binding) (buf : List UInt8) :
    Except Error ℕ × List UInt8 :=
  match parse buf with
  | .error e => (.error e, buf)
  | .ok e =>
    if e.groupId = 0 then
      (.error .badGroupId, buf)
    else
      let key := epochKey groupKey e.epoch
      let n := nonce binding.fromNode binding.id e.epoch
      let aad := aadFromHeader binding.header
      let (answer, body) :=
        ccmDecryptInPlaceAad key n.toList aad.toList (buf.drop headerBytes) ccmTagLen
      let buf := buf.take headerBytes ++ body
      match answer with
      | .error e => (.error (.ofCcm e), buf)
      | .ok len => (.ok len, buf)

/-! ## The envelope head -/

/-- The seven bytes in front of the ciphertext. -/
def envelopeHead (msgType : MsgType) (groupId : UInt32) (epoch : UInt8) :
    Vector UInt8 headerBytes :=
  #v[version, msgType.toU8, byteAt groupId.toLeBytes 0, byteAt groupId.toLeBytes 1,
    byteAt groupId.toLeBytes 2, byteAt groupId.toLeBytes 3, epoch]

variable {payload buf p out sealed rest : List UInt8} {e : Envelope} {groupKey : Vector UInt8 32}
  {binding binding' : Binding} {msgType : MsgType} {groupId : UInt32}
  {epoch : UInt8}

/-- Parsing looks at seven bytes and at how many follow. -/
theorem parse_append (head : Vector UInt8 headerBytes) (hlen : ccmTagLen ≤ sealed.length) :
    parse (head.toList ++ sealed) =
      if head[0] ≠ version then .error .unsupportedVersion
      else match MsgType.fromU8 head[1] with
        | none => .error .malformed
        | some msgType =>
          if UInt32.ofLeBytes #v[head[2], head[3], head[4], head[5]] = 0 then .error .badGroupId
          else .ok ⟨head[0], msgType, UInt32.ofLeBytes #v[head[2], head[3], head[4], head[5]],
            head[6], sealed⟩ := by
  have hlong : ¬ (head.toList ++ sealed).length < overhead := by
    rw [List.length_append, Vector.length_toList]
    exact Nat.not_lt.mpr (Nat.add_le_add_left hlen _)
  have hdrop : (head.toList ++ sealed).drop headerBytes = sealed :=
    List.drop_left' Vector.length_toList
  simp (disch := decide) only [parse, if_neg hlong, getElem?_toList_append, hdrop]
  simp only [okOr, bind, Except.bind, pure, Except.pure]
  cases MsgType.fromU8 head[1] <;> rfl

/-- Seven bytes are the head of the fields they spell out. -/
theorem envelopeHead_eq {head : Vector UInt8 headerBytes} (hversion : head[0] = version)
    (htype : MsgType.fromU8 head[1] = some msgType) :
    envelopeHead msgType (UInt32.ofLeBytes #v[head[2], head[3], head[4], head[5]]) head[6] =
      head := by
  rw [envelopeHead, UInt32.toLeBytes_ofLeBytes, ← hversion, ← MsgType.fromU8_eq_some_iff.mp htype]
  apply Vector.ext
  intro i hi
  match i, hi with
  | 0, _ | 1, _ | 2, _ | 3, _ | 4, _ | 5, _ | 6, _ => rfl

/-- A head is parsed as the fields it was made of. -/
theorem parse_envelopeHead (hgroup : groupId ≠ 0) (htag : ccmTagLen ≤ sealed.length) :
    parse ((envelopeHead msgType groupId epoch).toList ++ sealed) =
      .ok ⟨version, msgType, groupId, epoch, sealed⟩ := by
  have hword : UInt32.ofLeBytes #v[byteAt groupId.toLeBytes 0, byteAt groupId.toLeBytes 1,
      byteAt groupId.toLeBytes 2, byteAt groupId.toLeBytes 3] = groupId :=
    UInt32.ofLeBytes_toLeBytes groupId
  rw [parse_append _ htag]
  simp only [envelopeHead, Vector.getElem_mk, List.getElem_toArray, List.getElem_cons_zero,
    List.getElem_cons_succ, MsgType.fromU8_eq_some_iff.mpr rfl, hword, hgroup, ne_eq,
    not_true_eq_false, if_false]

/-- **What parses is an envelope head followed by at least a tag.** -/
theorem parse_eq_ok_iff : parse payload = .ok e ↔
    e.version = version ∧ e.groupId ≠ 0 ∧ ccmTagLen ≤ e.sealed.length ∧
      payload = (envelopeHead e.msgType e.groupId e.epoch).toList ++ e.sealed := by
  constructor
  · intro h
    by_cases hshort : payload.length < overhead
    · rw [parse, if_pos hshort] at h
      cases h
    · have hlong : headerBytes + ccmTagLen ≤ payload.length := not_lt.mp hshort
      obtain ⟨head, sealed, rfl⟩ := exists_eq_toList_append ((Nat.le_add_right _ _).trans hlong)
      rw [List.length_append, Vector.length_toList] at hlong
      have htag : ccmTagLen ≤ sealed.length := Nat.le_of_add_le_add_left hlong
      rw [parse_append head htag] at h
      -- the checks in the order they are made: version, type, group
      by_cases hversion : head[0] = version
      · rw [if_neg (not_not.mpr hversion)] at h
        cases htype : MsgType.fromU8 head[1] with
        | none =>
          rw [htype] at h
          cases h
        | some msgType =>
          rw [htype] at h
          dsimp only at h
          split_ifs at h with hgroup
          obtain rfl := Except.ok.inj h
          refine ⟨hversion, hgroup, htag, ?_⟩
          rw [envelopeHead_eq hversion htype]
      · rw [if_pos hversion] at h
        cases h
  · intro ⟨hversion, hgroup, htag, hpayload⟩
    obtain ⟨v, msgType, groupId, epoch, sealed⟩ := e
    subst hversion
    rw [hpayload]
    exact parse_envelopeHead hgroup htag

/-! ## Sealing -/

/-- The key, nonce and associated data a message is sealed under. -/
def sealedUnder (groupKey : Vector UInt8 32) (binding : Binding) (epoch : UInt8)
    (p : List UInt8) : Option (List UInt8) :=
  ccmSealed (epochKey groupKey epoch) (nonce binding.fromNode binding.id epoch).toList
    (aadFromHeader binding.header).toList p ccmTagLen

/-- The nonce has thirteen bytes, so there is always a sealed body. -/
theorem exists_sealedUnder (groupKey : Vector UInt8 32) (binding : Binding) (epoch : UInt8)
    (p : List UInt8) : ∃ sealed, sealedUnder groupKey binding epoch p = some sealed :=
  exists_ccmSealed _ _ _ p ccmTagLen

/-- Writing the head field by field over any seven bytes. -/
theorem write_envelopeHead (head : Vector UInt8 headerBytes) (rest : List UInt8) :
    (overwrite (((head.toList ++ rest).set 0 version).set 1 msgType.toU8) 2
        groupId.toLeBytes.toList).set 6 epoch =
      (envelopeHead msgType groupId epoch).toList ++ rest := by
  obtain ⟨b0, b1, b2, b3, b4, b5, b6, rfl⟩ : ∃ b0 b1 b2 b3 b4 b5 b6,
      head = #v[b0, b1, b2, b3, b4, b5, b6] :=
    ⟨head[0], head[1], head[2], head[3], head[4], head[5], head[6], by
      apply Vector.ext
      intro i hi
      match i, hi with
      | 0, _ | 1, _ | 2, _ | 3, _ | 4, _ | 5, _ | 6, _ => rfl⟩
  have hfour : [b2, b3, b4, b5].length = groupId.toLeBytes.toList.length := by
    rw [Vector.length_toList]
    rfl
  have hwrite := overwrite_append [version, msgType.toU8] (b6 :: rest) hfour
  have hword : groupId.toLeBytes.toList = [groupId.toLeBytes[0], groupId.toLeBytes[1],
      groupId.toLeBytes[2], groupId.toLeBytes[3]] := rfl
  change (overwrite ([version, msgType.toU8] ++ [b2, b3, b4, b5] ++ b6 :: rest) 2 _).set 6 epoch = _
  rw [show (2 : ℕ) = [version, msgType.toU8].length from rfl, hwrite, hword]
  rfl

/-- **What sealing writes**: the head, the sealed body, and nothing after them. -/
theorem sealInto_eq (group : GroupEpoch) (msgType : MsgType) (hgroup : group.groupId ≠ 0)
    (hroom : p.length + overhead ≤ out.length)
    (hsealed : sealedUnder group.groupKey binding group.epoch p = some sealed) :
    sealInto group binding msgType p out = (.ok (p.length + overhead),
      (envelopeHead msgType group.groupId group.epoch).toList ++ sealed ++
        out.drop (p.length + overhead)) := by
  have hsum : p.length + overhead = headerBytes + (p.length + ccmTagLen) := by
    change p.length + 15 = 7 + (p.length + 8)
    omega
  -- cut the output into seven bytes, the body and what is beyond
  have hhead : headerBytes ≤ out.length := by omega
  obtain ⟨head, tail, rfl⟩ := exists_eq_toList_append hhead
  have htail : p.length + ccmTagLen ≤ tail.length := by
    rw [List.length_append, Vector.length_toList] at hroom
    omega
  have hcut (head' : Vector UInt8 headerBytes) :
      ((head'.toList ++ tail).take (p.length + overhead)).drop headerBytes =
        tail.take (p.length + ccmTagLen) ∧
      (head'.toList ++ tail).drop (p.length + overhead) = tail.drop (p.length + ccmTagLen) := by
    rw [hsum, ← List.drop_drop, List.drop_take, List.drop_left' Vector.length_toList,
      Nat.add_sub_cancel_left]
    exact ⟨rfl, rfl⟩
  -- the plaintext goes to the front of the body, and leaves room for the tag behind it
  have hbody : overwrite (tail.take (p.length + ccmTagLen)) 0 p =
      p ++ (tail.drop p.length).take ccmTagLen := by
    have hfront : (tail.take p.length).length = p.length := by
      rw [List.length_take]
      omega
    have hwrite := overwrite_append [] ((tail.drop p.length).take ccmTagLen) hfront
    rw [List.nil_append, List.nil_append, ← List.take_add] at hwrite
    exact hwrite
  have hback : ((tail.drop p.length).take ccmTagLen).length = ccmTagLen := by
    rw [List.length_take, List.length_drop]
    omega
  have hencrypt := ccmEncrypt_eq [] hback hsealed
  rw [List.append_nil, List.append_nil] at hencrypt
  have htake : ((envelopeHead msgType group.groupId group.epoch).toList ++ tail).take headerBytes =
      (envelopeHead msgType group.groupId group.epoch).toList :=
    List.take_left' Vector.length_toList
  rw [sealInto, if_neg hgroup]
  dsimp only
  rw [if_neg (not_lt.mpr hroom), write_envelopeHead, (hcut _).1, (hcut _).2, (hcut head).2, hbody,
    hencrypt, htake]
  dsimp only
  rw [hsum]

/-- Sealing is refused for group zero and for too small a buffer, which is then left
as it was. -/
theorem sealInto_refused (group : GroupEpoch) (binding : Binding) (msgType : MsgType)
    (h : group.groupId = 0 ∨ out.length < p.length + overhead) :
    ∃ e, sealInto group binding msgType p out = (.error e, out) := by
  rw [sealInto]
  by_cases hgroup : group.groupId = 0
  · rw [if_pos hgroup]
    exact ⟨_, rfl⟩
  · rw [if_neg hgroup]
    dsimp only
    rw [if_pos (h.resolve_left hgroup)]
    exact ⟨_, rfl⟩

/-! ## Opening -/

/-- Opening decrypts what follows the head under the epoch it names. -/
theorem openInPlace_eq (hgroup : groupId ≠ 0) (htag : ccmTagLen ≤ sealed.length) :
    openInPlace groupKey binding ((envelopeHead msgType groupId epoch).toList ++ sealed) =
      let answer := ccmDecryptInPlaceAad (epochKey groupKey epoch)
        (nonce binding.fromNode binding.id epoch).toList (aadFromHeader binding.header).toList
        sealed ccmTagLen
      (answer.1.mapError .ofCcm, (envelopeHead msgType groupId epoch).toList ++ answer.2) := by
  have hparse : parse ((envelopeHead msgType groupId epoch).toList ++ sealed) =
      .ok ⟨version, msgType, groupId, epoch, sealed⟩ := parse_envelopeHead hgroup htag
  have htake : ((envelopeHead msgType groupId epoch).toList ++ sealed).take headerBytes =
      (envelopeHead msgType groupId epoch).toList := List.take_left' Vector.length_toList
  have hdrop : ((envelopeHead msgType groupId epoch).toList ++ sealed).drop headerBytes = sealed :=
    List.drop_left' Vector.length_toList
  simp only [openInPlace, hparse, if_neg hgroup, hdrop, htake]
  cases (ccmDecryptInPlaceAad (epochKey groupKey epoch)
    (nonce binding.fromNode binding.id epoch).toList (aadFromHeader binding.header).toList
    sealed ccmTagLen).1 <;> rfl

end TetherMesh.Groups
