import TetherMesh.Protocol.Crypto
import TetherMesh.Protocol.Header

/-!
# Whole frames

Sixteen header bytes in the clear, then the payload under AES-CTR. Both
directions work in the caller's buffer, so each function here answers the buffer
it leaves behind along with its result.

## Main definitions

* `Frame.encodeBounded`, `Frame.encode` — build a frame
* `Frame.decodeInPlace`, `Frame.peekHeader` — take one apart

## Main results

* `Frame.encodeBounded_ok` — what is written when a frame is built
* `Frame.encodeBounded_refused` — a refused frame leaves the buffer alone
* `Frame.decodeInPlace_append` — decoding, on a header and a body
-/

namespace TetherMesh.Protocol.Frame

open Math

/-- What went wrong. -/
inductive Error
  /-- Fewer bytes than a header. -/
  | tooShort
  /-- The payload exceeds the ceiling. -/
  | payloadTooLong
  /-- The output buffer cannot hold the result. -/
  | bufferTooSmall
  deriving DecidableEq, Repr

/-- Build a frame with an explicit payload ceiling. -/
def encodeBounded (header : Header) (plaintext : List UInt8) (key : Block) (extraNonce : UInt32)
    (ceiling : ℕ) (out : List UInt8) : Except Error ℕ × List UInt8 :=
  if ceiling < plaintext.length then (.error .payloadTooLong, out)
  else
    let total := headerLen + plaintext.length
    if out.length < total then (.error .bufferTooSmall, out)
    else
      let buf := out.take total
      let head := overwrite (buf.take headerLen) 0 header.encode.toList
      let body := overwrite (buf.drop headerLen) 0 plaintext
      let body := ctrApply key (nonce header.id header.fromNode extraNonce) body
      (.ok total, head ++ body ++ out.drop total)

/-- Build a frame into `out`, answering its length. -/
def encode (header : Header) (plaintext : List UInt8) (key : Block) (extraNonce : UInt32)
    (out : List UInt8) : Except Error ℕ × List UInt8 :=
  encodeBounded header plaintext key extraNonce maxPayload out

/-- Take a frame apart, decrypting the payload in place. -/
def decodeInPlace (frame : List UInt8) (key : Block) (extraNonce : UInt32) :
    Except Error (Header × List UInt8) × List UInt8 :=
  match Header.decode frame with
  | none => (.error .tooShort, frame)
  | some header =>
    let body := ctrApply key (nonce header.id header.fromNode extraNonce) (frame.drop headerLen)
    (.ok (header, body), frame.take headerLen ++ body)

/-- Read the header without touching the payload. -/
def peekHeader (frame : List UInt8) : Except Error Header :=
  match Header.decode frame with
  | none => .error .tooShort
  | some header => .ok header

variable {header : Header} {plaintext out out' : List UInt8} {key : Block} {extraNonce : UInt32}
  {ceiling n : ℕ}

/-- The bytes a frame is built as. -/
def sealed (header : Header) (plaintext : List UInt8) (key : Block) (extraNonce : UInt32) :
    List UInt8 :=
  header.encode.toList ++ ctrApply key (nonce header.id header.fromNode extraNonce) plaintext

@[simp] theorem length_sealed : (sealed header plaintext key extraNonce).length =
    headerLen + plaintext.length := by
  rw [sealed, List.length_append, Vector.length_toList, length_ctrApply]

/-- A payload under the ceiling and a buffer with room for it. -/
theorem encodeBounded_ok (hceiling : plaintext.length ≤ ceiling)
    (hroom : headerLen + plaintext.length ≤ out.length) :
    encodeBounded header plaintext key extraNonce ceiling out =
      (.ok (headerLen + plaintext.length),
        sealed header plaintext key extraNonce ++ out.drop (headerLen + plaintext.length)) := by
  rw [encodeBounded, if_neg (not_lt.mpr hceiling)]
  dsimp only
  -- header and payload each fill their part of the `total` bytes exactly
  rw [if_neg (not_lt.mpr hroom), overwrite_self, overwrite_self, sealed]
  · rw [List.length_drop, List.length_take]
    omega
  · rw [List.length_take, List.length_take, Vector.length_toList]
    omega

/-- A refused frame leaves the buffer alone. -/
theorem encodeBounded_refused (header : Header) (key : Block) (extraNonce : UInt32)
    (h : ¬ (plaintext.length ≤ ceiling ∧ headerLen + plaintext.length ≤ out.length)) :
    ∃ e, encodeBounded header plaintext key extraNonce ceiling out = (.error e, out) := by
  rw [encodeBounded]
  by_cases hceiling : ceiling < plaintext.length
  · rw [if_pos hceiling]
    exact ⟨_, rfl⟩
  · rw [if_neg hceiling]
    dsimp only
    rw [if_pos (not_le.mp fun hroom => h ⟨not_lt.mp hceiling, hroom⟩)]
    exact ⟨_, rfl⟩

theorem encode_refused (header : Header) (key : Block) (extraNonce : UInt32)
    (h : ¬ (plaintext.length ≤ maxPayload ∧ headerLen + plaintext.length ≤ out.length)) :
    ∃ e, encode header plaintext key extraNonce out = (.error e, out) :=
  encodeBounded_refused header key extraNonce h

/-- Decoding reads the header off the front and decrypts the rest under it. -/
theorem decodeInPlace_append (head : Vector UInt8 headerLen) (body : List UInt8) :
    decodeInPlace (head.toList ++ body) key extraNonce =
      (.ok (Header.ofBytes head,
          ctrApply key (nonce (Header.ofBytes head).id (Header.ofBytes head).fromNode extraNonce)
            body),
        head.toList ++
          ctrApply key (nonce (Header.ofBytes head).id (Header.ofBytes head).fromNode extraNonce)
            body) := by
  rw [decodeInPlace, Header.decode_append]
  dsimp only
  rw [List.take_left' Vector.length_toList, List.drop_left' Vector.length_toList]

theorem peekHeader_append (head : Vector UInt8 headerLen) (body : List UInt8) :
    peekHeader (head.toList ++ body) = .ok (Header.ofBytes head) := by
  rw [peekHeader, Header.decode_append]

end TetherMesh.Protocol.Frame
