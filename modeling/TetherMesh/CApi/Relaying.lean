import TetherMesh.CApi.Transmit

/-!
# What a relay does to a frame

A relay rewrites the hop limit and the relay node and nothing else, so however
many relays a frame has been through, the rest of its header and its body are
those that were sent.

## Main definitions

* `relayedHead` — a header after one relay
* `relayChain` — a frame after any number of relays
* `SentAs` — a header that differs from another at most in what relays rewrite
* `SameButRelay` — the same for the bytes of frames

## Main results

* `tmRelayPrepare_append` — one relay, on a header and a body
* `exists_relayChain` — a chain of relays
* `sameButRelay_relayed` — one relay changes three bits of one byte and another byte
-/

namespace TetherMesh.CApi

open Math Protocol

/-- The header bytes a relay leaves. -/
def relayedHead (head : Vector UInt8 headerLen) (relayHopLimit : UInt8) (ourNodeNum : UInt32) :
    Vector UInt8 headerLen :=
  ({ Header.ofBytes head with
    hopLimit := relayHopLimit, relayNode := (ourNodeNum &&& 0xFF).toUInt8 } : Header).encode

/-- **One relay** rewrites the header and carries the body verbatim. -/
theorem tmRelayPrepare_append (head : Vector UInt8 headerLen) (body : List UInt8)
    (relayHopLimit : UInt8) (ourNodeNum : UInt32) :
    tmRelayPrepare (some (head.toList ++ body)) relayHopLimit ourNodeNum =
      (tmOk, some ((relayedHead head relayHopLimit ourNodeNum).toList ++ body)) := by
  have hlen : head.toList.length = (relayedHead head relayHopLimit ourNodeNum).toList.length := by
    rw [Vector.length_toList, Vector.length_toList]
  have hwrite := overwrite_append [] body hlen
  rw [List.nil_append, List.nil_append] at hwrite
  rw [tmRelayPrepare]
  dsimp only
  rw [Header.decode_append]
  exact congrArg (fun frame => (tmOk, some frame)) hwrite

/-- The three bits of a hop count as it was received. -/
theorem hopStart_ofBytes_and (head : Vector UInt8 headerLen) :
    (Header.ofBytes head).hopStart &&& (7 : UInt8) = (Header.ofBytes head).hopStart := by
  have hbits : ∀ f : UInt8, (f &&& Header.hopStartMask) >>> (5 : UInt8) &&& (7 : UInt8) =
      (f &&& Header.hopStartMask) >>> (5 : UInt8) := Header.forall_byte (by decide +kernel)
  exact hbits head[12]

/-- What a relayed header decodes to. -/
theorem ofBytes_relayedHead (head : Vector UInt8 headerLen) (relayHopLimit : UInt8)
    (ourNodeNum : UInt32) :
    Header.ofBytes (relayedHead head relayHopLimit ourNodeNum) =
      { Header.ofBytes head with
        hopLimit := relayHopLimit &&& 7, relayNode := (ourNodeNum &&& 0xFF).toUInt8 } := by
  rw [relayedHead, Header.ofBytes_encode]
  dsimp only
  rw [hopStart_ofBytes_and]

/-- A header that differs from `h` at most in what relays rewrite. -/
def SentAs (h h' : Header) : Prop :=
  ∃ hopLimit relayNode, h' = { h with hopLimit := hopLimit, relayNode := relayNode }

theorem SentAs.refl (h : Header) : SentAs h h := ⟨h.hopLimit, h.relayNode, rfl⟩

theorem SentAs.fromNode_eq {h h' : Header} (hsent : SentAs h h') : h'.fromNode = h.fromNode := by
  obtain ⟨hopLimit, relayNode, rfl⟩ := hsent
  rfl

theorem SentAs.id_eq {h h' : Header} (hsent : SentAs h h') : h'.id = h.id := by
  obtain ⟨hopLimit, relayNode, rfl⟩ := hsent
  rfl

theorem SentAs.relay {h : Header} {head : Vector UInt8 headerLen}
    (hsent : SentAs h (Header.ofBytes head)) (relayHopLimit : UInt8) (ourNodeNum : UInt32) :
    SentAs h (Header.ofBytes (relayedHead head relayHopLimit ourNodeNum)) := by
  obtain ⟨hopLimit, relayNode, hhead⟩ := hsent
  rw [ofBytes_relayedHead, hhead]
  exact ⟨_, _, rfl⟩

/-- A frame after relays, each with its hop limit and its node number. -/
def relayChain (frame : List UInt8) (relays : List (UInt8 × UInt32)) : List UInt8 :=
  relays.foldl (fun frame relay => borrow (tmRelayPrepare (some frame) relay.1 relay.2).2) frame

/-- **A chain of relays** leaves the body and all of the header but two fields. -/
theorem exists_relayChain (relays : List (UInt8 × UInt32)) {h : Header}
    {head : Vector UInt8 headerLen} (hsent : SentAs h (Header.ofBytes head)) (body : List UInt8) :
    ∃ head', relayChain (Vector.toList head ++ body) relays = Vector.toList head' ++ body ∧
      SentAs h (Header.ofBytes head') := by
  induction relays generalizing head with
  | nil => exact ⟨head, rfl, hsent⟩
  | cons relay relays ih =>
    rw [relayChain, List.foldl_cons, tmRelayPrepare_append]
    exact ih (hsent.relay relay.1 relay.2)

/-- A frame without a header is not relayed. -/
theorem relayChain_of_length_lt {frame : List UInt8} (hshort : frame.length < headerLen)
    (relays : List (UInt8 × UInt32)) : relayChain frame relays = frame := by
  induction relays with
  | nil => rfl
  | cons relay relays ih =>
    rw [relayChain, List.foldl_cons, tmRelayPrepare, Header.decode_eq_none_iff.mpr hshort]
    exact ih

theorem length_relayChain (frame : List UInt8) (relays : List (UInt8 × UInt32)) :
    (relayChain frame relays).length = frame.length := by
  rcases Nat.lt_or_ge frame.length headerLen with hshort | hlong
  · rw [relayChain_of_length_lt hshort]
  · obtain ⟨head, body, rfl⟩ := exists_eq_toList_append hlong
    obtain ⟨head', hchain, -⟩ :=
      exists_relayChain relays (SentAs.refl (Header.ofBytes head)) body
    rw [hchain, List.length_append, List.length_append, Vector.length_toList, Vector.length_toList]

/-- Two frames are the same in every byte but the low three bits of the flags, which are
the hop limit, and the last of the header, which is the relay node. -/
structure SameButRelay (frame sent : List UInt8) : Prop where
  length_eq : frame.length = sent.length
  byte_eq : ∀ i, i ≠ 12 → i ≠ 15 → frame[i]? = sent[i]?
  flags_eq : frame[12]?.map (· &&& 0xF8) = sent[12]?.map (· &&& 0xF8)

theorem SameButRelay.refl (frame : List UInt8) : SameButRelay frame frame :=
  ⟨rfl, fun _ _ _ => rfl, rfl⟩

theorem SameButRelay.trans {a b c : List UInt8} (hab : SameButRelay a b) (hbc : SameButRelay b c) :
    SameButRelay a c where
  length_eq := hab.length_eq.trans hbc.length_eq
  byte_eq i h12 h15 := (hab.byte_eq i h12 h15).trans (hbc.byte_eq i h12 h15)
  flags_eq := hab.flags_eq.trans hbc.flags_eq

/-- A relay rewrites the flags and the relay node. -/
theorem relayedHead_eq (head : Vector UInt8 headerLen) (relayHopLimit : UInt8)
    (ourNodeNum : UInt32) :
    ∃ flags relayNode : UInt8, flags &&& (0xF8 : UInt8) = head[12] &&& (0xF8 : UInt8) ∧
      relayedHead head relayHopLimit ourNodeNum = (head.set 12 flags).set 15 relayNode := by
  set h := Header.ofBytes head with hh
  refine ⟨Header.packFlags relayHopLimit h.wantAck h.viaMqtt h.hopStart,
    (ourNodeNum &&& 0xFF).toUInt8, ?_, ?_⟩
  · -- the hop limit it had packs into the byte it was read from
    have hpacked : Header.packFlags h.hopLimit h.wantAck h.viaMqtt h.hopStart = head[12] :=
      Header.packFlags_unpack head[12]
    rw [← hpacked]
    exact Header.packFlags_and_invariant ..
  · rw [relayedHead, Header.encode_update, ← hh, Header.encode_ofBytes]

/-- **One relay changes three bits and one byte** of a frame. -/
theorem sameButRelay_relayed (head : Vector UInt8 headerLen) (body : List UInt8)
    (relayHopLimit : UInt8) (ourNodeNum : UInt32) :
    SameButRelay ((relayedHead head relayHopLimit ourNodeNum).toList ++ body)
      (head.toList ++ body) := by
  obtain ⟨flags, relayNode, hflags, hhead⟩ := relayedHead_eq head relayHopLimit ourNodeNum
  have hlen : head.toList.length = headerLen := Vector.length_toList
  have h12 : 12 < head.toList.length := hlen.symm ▸ by decide
  have hbytes : (relayedHead head relayHopLimit ourNodeNum).toList ++ body =
      ((head.toList ++ body).set 12 flags).set 15 relayNode := by
    rw [hhead, Vector.toList_set, Vector.toList_set, List.set_append_left _ _ h12,
      List.set_append_left]
    rw [List.length_set, hlen]
    decide
  rw [hbytes]
  refine ⟨by rw [List.length_set, List.length_set], fun i hi12 hi15 => ?_, ?_⟩
  · rw [List.getElem?_set_ne hi15.symm, List.getElem?_set_ne hi12.symm]
  · have hread : (head.toList ++ body)[12]? = some head[12] := by
      rw [List.getElem?_append_left h12, List.getElem?_eq_getElem h12, Vector.getElem_toList]
    rw [List.getElem?_set_ne (by decide), List.getElem?_set_self, hread]
    · exact congrArg some hflags
    · rw [List.length_append]
      omega

end TetherMesh.CApi
