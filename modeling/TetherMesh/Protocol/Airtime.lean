import TetherMesh.Math.MachineInt

/-!
# Time on air, and the duty-cycle budget

How long a frame occupies the channel follows from the settings of the modem, by the
arithmetic of LoRa in integers.

A node may occupy the channel for `limit_permille` thousandths of a fixed
window. `DutyCycle` accumulates the airtime charged in the current window and
forgets it when the window has elapsed. The caller owns the clock.

## Main definitions

* `ModemParams`, `ModemParams.symbolTimeUs`, `ModemParams.airtimeUs`
* `DutyCycle`, `DutyCycle.new`, `DutyCycle.budgetUs`
* `DutyCycle.wouldPermit` — whether more airtime fits; rolls the window, charges nothing
* `DutyCycle.charge`
-/

namespace TetherMesh.Protocol

/-- Microseconds. -/
abbrev Micros := UInt32

/-! ## Time on air -/

/-- The modem settings that determine the time on air. -/
structure ModemParams where
  /-- Spreading factor, 7 to 12. -/
  spreadingFactor : UInt8
  /-- Bandwidth in Hz. -/
  bandwidthHz : UInt32
  /-- Coding rate 1 to 4, for 4/5 to 4/8. -/
  codingRate : UInt8
  /-- Preamble length in symbols. -/
  preambleSymbols : UInt16
  crc : Bool
  implicitHeader : Bool
  lowDataRateOptimize : Bool
  deriving DecidableEq, Repr

namespace ModemParams

/-- `LONGFAST`: the default preset. -/
def longfast : ModemParams where
  spreadingFactor := 11
  bandwidthHz := 250000
  codingRate := 1
  preambleSymbols := 16
  crc := true
  implicitHeader := false
  lowDataRateOptimize := false

/-- `LONGSLOW`: preset 1. -/
def longslow : ModemParams :=
  { longfast with spreadingFactor := 12, bandwidthHz := 125000, lowDataRateOptimize := true }

/-- `MEDIUMSLOW`: preset 3. -/
def mediumslow : ModemParams := { longfast with spreadingFactor := 10 }

/-- `MEDIUMFAST`: preset 4. -/
def mediumfast : ModemParams := { longfast with spreadingFactor := 9 }

/-- `SHORTSLOW`: preset 5. -/
def shortslow : ModemParams := { longfast with spreadingFactor := 8 }

/-- `SHORTFAST`: preset 6. -/
def shortfast : ModemParams := { longfast with spreadingFactor := 7 }

/-- `LONGMOD`: preset 7, the symbol of which lasts 16384 microseconds. -/
def longmod : ModemParams :=
  { longfast with bandwidthHz := 125000, lowDataRateOptimize := true }

/-- `SHORTTURBO`: preset 8, of the widest bandwidth. -/
def shortturbo : ModemParams := { longfast with spreadingFactor := 7, bandwidthHz := 500000 }

/-- `LONGTURBO`: preset 9. -/
def longturbo : ModemParams := { longfast with bandwidthHz := 500000 }

/-- Symbol time, `2^SF / BW`. `none` for settings outside the range of the radio. -/
def symbolTimeUs (p : ModemParams) : Option Micros :=
  if p.spreadingFactor < 7 ∨ 12 < p.spreadingFactor ∨ p.bandwidthHz = 0 then
    none
  else do
    let chips ← (1 : UInt64).checkedShl p.spreadingFactor.toNat
    let numer ← chips.checkedMul 1000000
    let us ← numer.checkedDiv p.bandwidthHz.toUInt64
    us.tryToUInt32

/-- `numer`: what the payload adds to the symbols, before it is divided into steps. -/
def stepsNumer (p : ModemParams) (payloadLen : UInt16) : Option Int64 := do
  let sf := Int64.ofNat p.spreadingFactor.toNat
  let pl := Int64.ofNat payloadLen.toNat
  let crcTerm : Int64 := if p.crc then 16 else 0
  let ihTerm : Int64 := if p.implicitHeader then 20 else 0
  let bits ← pl.checkedMul 8
  let chips ← sf.checkedMul 4
  let numer ← bits.checkedSub chips
  let numer ← numer.checkedAdd 28
  let numer ← numer.checkedAdd crcTerm
  numer.checkedSub ihTerm

/-- `denom`: how much of it makes one step. -/
def stepsDenom (p : ModemParams) : Option Int64 := do
  let sf := Int64.ofNat p.spreadingFactor.toNat
  let de : Int64 := if p.lowDataRateOptimize then 1 else 0
  let twice ← de.checkedMul 2
  let rate ← sf.checkedSub twice
  rate.checkedMul 4

/-- `n_payload`: steps rounded up, each as many symbols as the coding rate makes of four. A
negative numerator is none. -/
def stepsSymbols (p : ModemParams) (numer denom : Int64) : Option Int64 :=
  if numer ≤ 0 then
    some 0
  else do
    let sum ← numer.checkedAdd denom
    let sum ← sum.checkedSub 1
    let steps ← sum.checkedDiv denom
    let cr := Int64.ofNat p.codingRate.toNat
    if ¬ (1 ≤ cr ∧ cr ≤ 4) then
      none
    else
      let rate ← cr.checkedAdd 4
      steps.checkedMul rate

/-- `T_preamble = (n + 4.25) * T_sym`, as a quarter of `(4 n + 17) * T_sym`. -/
def preambleUs (p : ModemParams) (tSym : UInt64) : Option UInt64 := do
  let preScaled ← p.preambleSymbols.toUInt64.checkedMul 4
  let preScaled ← preScaled.checkedAdd 17
  let scaled ← preScaled.checkedMul tSym
  scaled.checkedDiv 4

/-- `t_payload`: the steps of the payload, and eight symbols more. -/
def payloadUs (p : ModemParams) (payloadLen : UInt16) (tSym : UInt64) : Option UInt64 := do
  let numer ← p.stepsNumer payloadLen
  let denom ← p.stepsDenom
  if denom ≤ 0 then
    none
  else
    let nPayload ← p.stepsSymbols numer denom
    let symbols ← nPayload.checkedAdd 8
    let symbolsU ← symbols.tryToUInt64
    symbolsU.checkedMul tSym

/-- The time on air before it is narrowed. -/
def wideAirtimeUs (p : ModemParams) (payloadLen : UInt16) : Option UInt64 := do
  let tSym ← p.symbolTimeUs
  let tPreamble ← p.preambleUs tSym.toUInt64
  let tPayload ← p.payloadUs payloadLen tSym.toUInt64
  tPreamble.checkedAdd tPayload

/-- Time on air for a payload of `payloadLen` bytes. `none` for settings that are found to be
out of range, and where it does not fit. -/
def airtimeUs (p : ModemParams) (payloadLen : UInt16) : Option Micros := do
  let total ← p.wideAirtimeUs payloadLen
  total.tryToUInt32

end ModemParams

/-! ## The budget -/

/-- A duty-cycle budget over a fixed window. -/
structure DutyCycle where
  limitPermille : UInt16
  windowUs : UInt64
  usedUs : UInt64
  windowStartedUs : UInt64
  deriving DecidableEq, Repr

namespace DutyCycle

/-- A budget of `limitPermille` thousandths over `windowMs`. `none` for an empty
window or a limit above the whole. -/
def new (limitPermille : UInt16) (windowMs : UInt32) (nowUs : UInt64) : Option DutyCycle :=
  if windowMs = 0 ∨ 1000 < limitPermille then
    none
  else do
    let windowUs ← windowMs.toUInt64.checkedMul 1000
    return { limitPermille, windowUs, usedUs := 0, windowStartedUs := nowUs }

/-- Airtime permitted per window. -/
def budgetUs (d : DutyCycle) : UInt64 :=
  ((d.windowUs.saturatingMul d.limitPermille.toUInt64).checkedDiv 1000).getD 0

/-- Roll the window forward if it has elapsed. -/
def roll (d : DutyCycle) (nowUs : UInt64) : DutyCycle :=
  let elapsed := nowUs.saturatingSub d.windowStartedUs
  if d.windowUs ≤ elapsed then { d with usedUs := 0, windowStartedUs := nowUs } else d

/-- Whether `airtimeUs` more would fit in the budget. Charges nothing. -/
def wouldPermit (d : DutyCycle) (nowUs : UInt64) (airtimeUs : Micros) : Bool × DutyCycle :=
  let d := d.roll nowUs
  (decide (d.usedUs.saturatingAdd airtimeUs.toUInt64 ≤ d.budgetUs), d)

/-- Charge `airtimeUs`, or answer `false` and charge nothing if it does not fit. -/
def charge (d : DutyCycle) (nowUs : UInt64) (airtimeUs : Micros) : Bool × DutyCycle :=
  match d.wouldPermit nowUs airtimeUs with
  | (false, d) => (false, d)
  | (true, d) => (true, { d with usedUs := d.usedUs.saturatingAdd airtimeUs.toUInt64 })

end DutyCycle

end TetherMesh.Protocol
