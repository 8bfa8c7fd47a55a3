import TetherMesh.Protocol.Acknowledgement
import TetherMesh.Protocol.Outbox

/-!
# The C interface: codes, pointers and keys

A pointer is null or names something. Where the interface takes a pointer and a
length, the model takes the bytes they describe; where it takes a place to write
to, the model takes what the place holds and answers what it holds afterwards.

## Main definitions

* `Ptr` — a pointer that may be null
* the status codes
* `TmKey`, `TmPkiKey` — keys as the interface carries them
* `resolveRetryPolicy`, `classifyAck`, `mapDeliveryError` — the decisions behind the calls
-/

namespace TetherMesh.CApi

open Protocol Protocol.Message

/-- A pointer: null, or what it points to. -/
abbrev Ptr (α : Type) := Option α

/-! ## Status codes -/

/-- `TM_OK`. -/
def tmOk : ℤ := 0

/-- `TM_E_ARG`: a null pointer, or a value outside its range. -/
def tmEArg : ℤ := -1

/-- `TM_E_SHORT`: a buffer too small, or no free slot. -/
def tmEShort : ℤ := -3

/-- `TM_E_BAD_KEY_LEN`: a key of the wrong length. -/
def tmEBadKeyLen : ℤ := -4

/-- `TM_E_BAD_INDEX`: a key index outside 1 to 10. -/
def tmEBadIndex : ℤ := -5

/-- `TM_E_TOO_AGGRESSIVE`: a retry policy past the ceiling. -/
def tmETooAggressive : ℤ := -6

/-- `TM_E_UNAUTHENTIC`: a tag that does not verify. -/
def tmEUnauthentic : ℤ := -7

/-- `TM_E_SMALL_ORDER`: a public key with which nothing can be agreed. -/
def tmESmallOrder : ℤ := -8

/-- `TM_E_RESERVED_PORTNUM`: a portnum below the private range. -/
def tmEReservedPortnum : ℤ := -9

theorem tmEArg_neg : tmEArg < 0 := by decide

theorem tmEShort_neg : tmEShort < 0 := by decide

theorem tmEReservedPortnum_neg : tmEReservedPortnum < 0 := by decide

/-- `n as i32`: the low 32 bits, as a signed number. -/
def asI32 (n : ℕ) : ℤ := (Int32.ofNat n).toInt

/-- `i32::try_from(n)`, or `other`. -/
def tryI32 (other : ℤ) (n : ℕ) : ℤ := if n < 2 ^ 31 then n else other

theorem asI32_of_lt {n : ℕ} (h : n < 2 ^ 31) : asI32 n = n := Int32.toInt_ofNat_of_lt h

theorem tryI32_of_lt {other : ℤ} {n : ℕ} (h : n < 2 ^ 31) : tryI32 other n = n := if_pos h

/-! ## Keys -/

/-- An expanded channel key. -/
structure TmKey where
  bytes : Block

/-- A message key agreed with one peer. -/
structure TmPkiKey where
  bytes : Vector UInt8 32

/-! ## Decisions -/

/-- Resolve a requested retry policy, or refuse it. -/
def resolveRetryPolicy (maxAttempts : UInt8) (intervalUs : UInt32) : Except ℤ RetryPolicy :=
  let ceiling := RetryPolicy.measuredCeiling
  if maxAttempts = 0 ∧ intervalUs = 0 then .ok ceiling
  else if maxAttempts = 0 then .error tmEArg
  else if 1 < maxAttempts ∧
      (ceiling.maxAttempts < maxAttempts ∨ intervalUs < ceiling.intervalUs) then
    .error tmETooAggressive
  else .ok ⟨maxAttempts, intervalUs⟩

/-- Read a decrypted payload as an acknowledgement: what it answers, and the status. -/
def classifyAck (payload : List UInt8) : Option (UInt32 × UInt32) :=
  match Data.decode payload with
  | .error _ => none
  | .ok data => (acknowledges data).map fun ack => (ack.requestId, ack.status)

/-- Map a delivery error onto the status codes. -/
def mapDeliveryError : Outbox.Error → ℤ
  | .full => tmEShort
  | .badFrame => tmEArg

end TetherMesh.CApi
