import Mathlib.Algebra.Order.Floor.Semifield
import Mathlib.Data.Nat.Cast.Field
import Mathlib.Data.Rat.Floor
import Mathlib.Tactic.Linarith
import TetherMesh.Protocol.DutyRuns

/-!
# The time on air against its formula

The formula is one of rational numbers. The code computes it in 64-bit integers, cutting the
symbol time down to a microsecond first, so it is short of the formula by less than a
microsecond a symbol, and one more. No step before the last overflows.

The coding rate is only looked at where the payload adds to the eight symbols that every frame
has, and a symbol shorter than a microsecond lasts none at all.

## Main definitions

* `ModemParams.InRange` — settings the radio has
* `ModemParams.tPacket` — the formula, with `tSym`, `tPreamble`, `nPayload`
* `ModemParams.wholeAirtimeUs` — the same of whole symbol times, rounded down
* `ModemParams.RefusesAndCosts` — other settings are refused, and no frame is free

## Main results

* `exists_wideAirtimeUs`, `airtimeUs_eq_some_iff` — what is computed, and when
* `airtimeUs_tracks_tPacket` — how close it is to the formula
* `refusesAndCosts_iff`
-/

namespace TetherMesh.Protocol.ModemParams

open CS

/-! ## The formula -/

/-- The spreading factor and the bandwidth are of the radio. -/
structure SymbolInRange (p : ModemParams) : Prop where
  spreadingFactor : 7 ≤ p.spreadingFactor.toNat ∧ p.spreadingFactor.toNat ≤ 12
  bandwidthHz : 0 < p.bandwidthHz.toNat

/-- So is the coding rate. -/
structure InRange (p : ModemParams) : Prop extends SymbolInRange p where
  codingRate : 1 ≤ p.codingRate.toNat ∧ p.codingRate.toNat ≤ 4

/-- `8*PL - 4*SF + 28 + 16*CRC - 20*IH`. -/
def numerator (p : ModemParams) (payloadLen : UInt16) : ℤ :=
  8 * payloadLen.toNat - 4 * p.spreadingFactor.toNat + 28 + 16 * p.crc.toNat -
    20 * p.implicitHeader.toNat

/-- `4*(SF - 2*DE)`. -/
def denominator (p : ModemParams) : ℤ :=
  4 * (p.spreadingFactor.toNat - 2 * p.lowDataRateOptimize.toNat)

/-- `T_sym = 2^SF / BW`, in microseconds. -/
def tSym (p : ModemParams) : ℚ := 2 ^ p.spreadingFactor.toNat / p.bandwidthHz.toNat * 1000000

/-- `T_preamble = (n_preamble + 4.25) * T_sym`. -/
def tPreamble (p : ModemParams) : ℚ := (p.preambleSymbols.toNat + 17 / 4) * p.tSym

/-- `n_payload = 8 + max(0, ceil(numerator / denominator) * (CR + 4))`. -/
def nPayload (p : ModemParams) (payloadLen : UInt16) : ℤ :=
  8 + max 0 (⌈(p.numerator payloadLen : ℚ) / p.denominator⌉ * (p.codingRate.toNat + 4))

/-- `T_packet = T_preamble + n_payload * T_sym`. -/
def tPacket (p : ModemParams) (payloadLen : UInt16) : ℚ :=
  p.tPreamble + p.nPayload payloadLen * p.tSym

/-- The symbols of a frame, those of the preamble included. -/
def nSymbols (p : ModemParams) (payloadLen : UInt16) : ℚ :=
  p.preambleSymbols.toNat + 17 / 4 + p.nPayload payloadLen

variable {p : ModemParams} {payloadLen : UInt16}

theorem tPacket_eq (p : ModemParams) (payloadLen : UInt16) :
    p.tPacket payloadLen = p.nSymbols payloadLen * p.tSym := by
  rw [tPacket, tPreamble, nSymbols]
  ring

/-- The symbol time, cut down to a microsecond. -/
def wholeSymbolUs (p : ModemParams) : ℕ := ⌊p.tSym⌋₊

theorem wholeSymbolUs_eq (p : ModemParams) :
    p.wholeSymbolUs = 2 ^ p.spreadingFactor.toNat * 1000000 / p.bandwidthHz.toNat := by
  have hexact : p.tSym =
      (2 ^ p.spreadingFactor.toNat * 1000000 : ℕ) / (p.bandwidthHz.toNat : ℚ) := by
    rw [tSym]
    push_cast
    ring
  rw [wholeSymbolUs, hexact, Nat.floor_div_eq_div]

theorem numerator_bounds (p : ModemParams) (payloadLen : UInt16) :
    -1024 ≤ p.numerator payloadLen ∧ p.numerator payloadLen < 2 ^ 20 := by
  have hsf := p.spreadingFactor.toNat_lt
  have hlen := payloadLen.toNat_lt
  have hcrc := p.crc.toNat_le
  have hih := p.implicitHeader.toNat_le
  rw [numerator]
  omega

theorem denominator_bounds (h : p.SymbolInRange) : 20 ≤ p.denominator ∧ p.denominator ≤ 48 := by
  have hde := p.lowDataRateOptimize.toNat_le
  have hsf := h.spreadingFactor
  rw [denominator]
  omega

/-! ## What each part computes -/

theorem exists_symbolTimeUs (h : p.SymbolInRange) :
    ∃ t, p.symbolTimeUs = some t ∧ t.toNat = p.wholeSymbolUs := by
  obtain ⟨hlow, hhigh⟩ := h.spreadingFactor
  have hrange : ¬ (p.spreadingFactor < 7 ∨ 12 < p.spreadingFactor ∨ p.bandwidthHz = 0) := by
    rw [UInt8.lt_iff_toNat_lt, UInt8.lt_iff_toNat_lt, ← UInt32.toNat_inj]
    have hbw := h.bandwidthHz
    change ¬ (p.spreadingFactor.toNat < 7 ∨ 12 < p.spreadingFactor.toNat ∨
      p.bandwidthHz.toNat = 0)
    omega
  have hpow : 2 ^ p.spreadingFactor.toNat ≤ 2 ^ 12 := Nat.pow_le_pow_right two_pos hhigh
  have hchips : (1 : UInt64).checkedShl p.spreadingFactor.toNat =
      some (UInt64.ofNat (2 ^ p.spreadingFactor.toNat)) := by
    rw [UInt64.checkedShl, if_pos (by omega), UInt64.toNat_one, Nat.one_mul]
  have hchipsNat : (UInt64.ofNat (2 ^ p.spreadingFactor.toNat)).toNat =
      2 ^ p.spreadingFactor.toNat := by
    rw [UInt64.toNat_ofNat', Nat.mod_eq_of_lt (by omega)]
  have hmillion : (1000000 : UInt64).toNat = 1000000 := rfl
  obtain ⟨numer, hnumer, hnumerNat⟩ := UInt64.exists_checkedMul
    (a := UInt64.ofNat (2 ^ p.spreadingFactor.toNat)) (b := 1000000)
    (by rw [hchipsNat, hmillion]; omega)
  obtain ⟨us, hus, husNat⟩ := UInt64.exists_checkedDiv (a := numer)
    (b := p.bandwidthHz.toUInt64) (by rw [UInt32.toNat_toUInt64]; exact h.bandwidthHz.ne')
  have hval : us.toNat = p.wholeSymbolUs := by
    rw [husNat, hnumerNat, hchipsNat, hmillion, UInt32.toNat_toUInt64, wholeSymbolUs_eq]
  -- at most `4096 * 10^6`, which the 32 bits of the result hold
  have hlt : us.toNat < 2 ^ 32 := by
    rw [hval, wholeSymbolUs_eq]
    exact (Nat.div_le_self _ _).trans_lt (by omega)
  obtain ⟨t, ht, htNat⟩ := UInt64.exists_tryToUInt32 hlt
  refine ⟨t, ?_, htNat.trans hval⟩
  rw [symbolTimeUs, if_neg hrange, Option.bind_eq_bind, hchips, Option.bind_some, hnumer,
    Option.bind_some, hus, Option.bind_some, ht]

theorem symbolTimeUs_eq_none (h : ¬ p.SymbolInRange) : p.symbolTimeUs = none := by
  have hrange : p.spreadingFactor < 7 ∨ 12 < p.spreadingFactor ∨ p.bandwidthHz = 0 := by
    rw [UInt8.lt_iff_toNat_lt, UInt8.lt_iff_toNat_lt, ← UInt32.toNat_inj]
    change p.spreadingFactor.toNat < 7 ∨ 12 < p.spreadingFactor.toNat ∨ p.bandwidthHz.toNat = 0
    by_contra hnot
    exact h ⟨by omega, by omega⟩
  rw [symbolTimeUs, if_pos hrange]

theorem toInt_ofNat_toNat (n : UInt8) : (Int64.ofNat n.toNat).toInt = n.toNat :=
  Int64.toInt_ofNat_of_lt (n.toNat_lt.trans (by simp))

theorem exists_stepsNumer (p : ModemParams) (payloadLen : UInt16) :
    ∃ numer, p.stepsNumer payloadLen = some numer ∧ numer.toInt = p.numerator payloadLen := by
  have hsf := p.spreadingFactor.toNat_lt
  have hlen := payloadLen.toNat_lt
  have hpl : (Int64.ofNat payloadLen.toNat).toInt = payloadLen.toNat :=
    Int64.toInt_ofNat_of_lt (hlen.trans (by simp))
  have hcrc : (if p.crc then 16 else 0 : Int64).toInt = 16 * p.crc.toNat := by
    cases p.crc <;> rfl
  have hih : (if p.implicitHeader then 20 else 0 : Int64).toInt = 20 * p.implicitHeader.toNat := by
    cases p.implicitHeader <;> rfl
  have hcrcLe := p.crc.toNat_le
  have hihLe := p.implicitHeader.toNat_le
  obtain ⟨bits, hbits, hbitsInt⟩ := Int64.exists_checkedMul
    (a := Int64.ofNat payloadLen.toNat) (b := 8) (by rw [hpl]; change Int64.Fits (_ * 8); omega)
  obtain ⟨chips, hchips, hchipsInt⟩ := Int64.exists_checkedMul
    (a := Int64.ofNat p.spreadingFactor.toNat) (b := 4)
    (by rw [toInt_ofNat_toNat]; change Int64.Fits (_ * 4); omega)
  rw [hpl] at hbitsInt
  rw [toInt_ofNat_toNat] at hchipsInt
  change bits.toInt = _ * 8 at hbitsInt
  change chips.toInt = _ * 4 at hchipsInt
  obtain ⟨first, hfirst, hfirstInt⟩ := Int64.exists_checkedSub (a := bits) (b := chips) (by omega)
  obtain ⟨second, hsecond, hsecondInt⟩ := Int64.exists_checkedAdd (a := first) (b := 28)
    (by change Int64.Fits (_ + 28); omega)
  change second.toInt = _ + 28 at hsecondInt
  obtain ⟨third, hthird, hthirdInt⟩ := Int64.exists_checkedAdd (a := second)
    (b := if p.crc then 16 else 0) (by rw [hcrc]; omega)
  obtain ⟨numer, hnumer, hnumerInt⟩ := Int64.exists_checkedSub (a := third)
    (b := if p.implicitHeader then 20 else 0) (by rw [hih]; omega)
  refine ⟨numer, ?_, ?_⟩
  · simp only [stepsNumer, hbits, hchips, hfirst, hsecond, hthird, hnumer, Option.bind_eq_bind,
      Option.bind_some]
  · rw [numerator]
    omega

theorem exists_stepsDenom (p : ModemParams) :
    ∃ denom, p.stepsDenom = some denom ∧ denom.toInt = p.denominator := by
  have hsf := p.spreadingFactor.toNat_lt
  have hde : (if p.lowDataRateOptimize then 1 else 0 : Int64).toInt =
      p.lowDataRateOptimize.toNat := by
    cases p.lowDataRateOptimize <;> rfl
  have hdeLe := p.lowDataRateOptimize.toNat_le
  obtain ⟨twice, htwice, htwiceInt⟩ := Int64.exists_checkedMul
    (a := if p.lowDataRateOptimize then 1 else 0) (b := 2)
    (by rw [hde]; change Int64.Fits (_ * 2); omega)
  rw [hde] at htwiceInt
  change twice.toInt = _ * 2 at htwiceInt
  obtain ⟨rate, hrate, hrateInt⟩ := Int64.exists_checkedSub
    (a := Int64.ofNat p.spreadingFactor.toNat) (b := twice) (by rw [toInt_ofNat_toNat]; omega)
  rw [toInt_ofNat_toNat] at hrateInt
  obtain ⟨denom, hdenom, hdenomInt⟩ := Int64.exists_checkedMul (a := rate) (b := 4)
    (by change Int64.Fits (_ * 4); omega)
  change denom.toInt = _ * 4 at hdenomInt
  refine ⟨denom, ?_, ?_⟩
  · simp only [stepsDenom, htwice, hrate, hdenom, Option.bind_eq_bind, Option.bind_some]
  · rw [denominator]
    omega

/-- Rounding up is what adding the divisor less one before the division does. -/
theorem ceil_div_eq {n d : ℤ} (hd : 0 < d) : ⌈(n : ℚ) / d⌉ = (n + d - 1) / d := by
  have hdRat : (0 : ℚ) < d := Int.cast_pos.mpr hd
  have hdiv := Int.mul_ediv_add_emod (n + d - 1) d
  have hrem := Int.emod_nonneg (n + d - 1) hd.ne'
  have hremLt := Int.emod_lt_of_pos (n + d - 1) hd
  rw [Int.ceil_eq_iff, lt_div_iff₀ hdRat, div_le_iff₀ hdRat]
  constructor
  · have hlt : ((n + d - 1) / d - 1) * d < n := by linarith [hdiv, hrem, hremLt]
    exact_mod_cast hlt
  · have hle : n ≤ (n + d - 1) / d * d := by linarith [hdiv, hrem, hremLt]
    exact_mod_cast hle

theorem nPayload_of_nonpos (h : p.SymbolInRange) (hnumer : p.numerator payloadLen ≤ 0) :
    p.nPayload payloadLen = 8 := by
  have hdenom := (denominator_bounds h).1
  have hceil : ⌈(p.numerator payloadLen : ℚ) / p.denominator⌉ ≤ 0 := by
    rw [Int.ceil_le, Int.cast_zero]
    exact div_nonpos_of_nonpos_of_nonneg (Int.cast_nonpos.mpr hnumer)
      (Int.cast_nonneg (by omega))
  have hprod := mul_nonpos_of_nonpos_of_nonneg hceil
    (by omega : (0 : ℤ) ≤ p.codingRate.toNat + 4)
  rw [nPayload, max_eq_left hprod, add_zero]

theorem nPayload_of_pos (h : p.SymbolInRange) (hnumer : 0 < p.numerator payloadLen) :
    p.nPayload payloadLen =
      8 + (p.numerator payloadLen + p.denominator - 1) / p.denominator *
        (p.codingRate.toNat + 4) := by
  have hdenom := (denominator_bounds h).1
  have hsteps := Int.ediv_nonneg (a := p.numerator payloadLen + p.denominator - 1)
    (b := p.denominator) (by omega) (by omega)
  rw [nPayload, ceil_div_eq (by omega), max_eq_right (mul_nonneg hsteps (by omega))]

theorem steps_bounds (h : p.SymbolInRange) (hnumer : 0 < p.numerator payloadLen) :
    0 ≤ (p.numerator payloadLen + p.denominator - 1) / p.denominator ∧
      (p.numerator payloadLen + p.denominator - 1) / p.denominator < 2 ^ 21 := by
  have hbound := numerator_bounds p payloadLen
  have hdenom := denominator_bounds h
  refine ⟨Int.ediv_nonneg (by omega) (by omega), ?_⟩
  exact (Int.ediv_le_self _ (by omega)).trans_lt (by omega)

/-- Where it is looked at, the coding rate is of the radio. -/
def RateInRange (p : ModemParams) (payloadLen : UInt16) : Prop :=
  p.numerator payloadLen ≤ 0 ∨ (1 ≤ p.codingRate.toNat ∧ p.codingRate.toNat ≤ 4)

theorem InRange.rate (h : p.InRange) : p.RateInRange payloadLen := .inr h.codingRate

theorem nPayload_bounds (h : p.SymbolInRange) (hrate : p.RateInRange payloadLen) :
    8 ≤ p.nPayload payloadLen ∧ p.nPayload payloadLen < 2 ^ 25 := by
  by_cases hnumer : p.numerator payloadLen ≤ 0
  · rw [nPayload_of_nonpos h hnumer]
    exact ⟨Int.le_refl 8, by norm_num⟩
  · have hcr := hrate.resolve_left hnumer
    rw [not_le] at hnumer
    obtain ⟨hlow, hhigh⟩ := steps_bounds h hnumer
    rw [nPayload_of_pos h hnumer]
    constructor <;> nlinarith

/-- The symbols the payload adds to the eight of every frame. -/
theorem exists_stepsSymbols (h : p.SymbolInRange) (hrate : p.RateInRange payloadLen)
    {numer denom : Int64} (hnumer : numer.toInt = p.numerator payloadLen)
    (hdenom : denom.toInt = p.denominator) :
    ∃ n, p.stepsSymbols numer denom = some n ∧ n.toInt + 8 = p.nPayload payloadLen := by
  by_cases hpos : p.numerator payloadLen ≤ 0
  · have hle : numer ≤ 0 := by
      rw [Int64.le_iff_toInt_le, hnumer]
      exact hpos
    refine ⟨0, if_pos hle, ?_⟩
    rw [nPayload_of_nonpos h hpos]
    rfl
  · have hle : ¬ numer ≤ 0 := by
      rw [Int64.le_iff_toInt_le, hnumer]
      exact hpos
    obtain ⟨hcrLow, hcrHigh⟩ := hrate.resolve_left hpos
    rw [not_le] at hpos
    have hbound := numerator_bounds p payloadLen
    have hdenomBound := denominator_bounds h
    obtain ⟨hlow, hhigh⟩ := steps_bounds h hpos
    have hcr : ¬ ¬ (1 ≤ Int64.ofNat p.codingRate.toNat ∧ Int64.ofNat p.codingRate.toNat ≤ 4) := by
      rw [not_not, Int64.le_iff_toInt_le, Int64.le_iff_toInt_le, toInt_ofNat_toNat]
      change (1 : ℤ) ≤ _ ∧ _ ≤ (4 : ℤ)
      omega
    obtain ⟨sum, hsum, hsumInt⟩ := Int64.exists_checkedAdd (a := numer) (b := denom) (by omega)
    obtain ⟨less, hless, hlessInt⟩ := Int64.exists_checkedSub (a := sum) (b := 1)
      (by change Int64.Fits (_ - 1); omega)
    change less.toInt = _ - 1 at hlessInt
    rw [hsumInt, hnumer, hdenom] at hlessInt
    obtain ⟨steps, hsteps, hstepsInt⟩ := Int64.exists_checkedDiv (a := less) (b := denom)
      (by omega) (by omega)
    rw [hlessInt, hdenom] at hstepsInt
    obtain ⟨rate, hrate, hrateInt⟩ := Int64.exists_checkedAdd
      (a := Int64.ofNat p.codingRate.toNat) (b := 4)
      (by rw [toInt_ofNat_toNat]; change Int64.Fits (_ + 4); omega)
    rw [toInt_ofNat_toNat] at hrateInt
    change rate.toInt = _ + 4 at hrateInt
    obtain ⟨n, hn, hnInt⟩ := Int64.exists_checkedMul (a := steps) (b := rate)
      (by rw [hstepsInt, hrateInt]; constructor <;> nlinarith)
    refine ⟨n, ?_, ?_⟩
    · simp only [stepsSymbols, if_neg hle, hsum, hless, hsteps, if_neg hcr, hrate, hn,
        Option.bind_eq_bind, Option.bind_some]
    · rw [nPayload_of_pos h hpos, hnInt, hstepsInt, hrateInt, add_comm]

theorem stepsSymbols_eq_none (hrate : ¬ p.RateInRange payloadLen) {numer denom : Int64}
    (hnumer : numer.toInt = p.numerator payloadLen) : p.stepsSymbols numer denom = none := by
  rw [RateInRange, not_or, not_le] at hrate
  have hle : ¬ numer ≤ 0 := by
    rw [Int64.le_iff_toInt_le, hnumer]
    exact not_le.mpr hrate.1
  have hcr : ¬ (1 ≤ Int64.ofNat p.codingRate.toNat ∧ Int64.ofNat p.codingRate.toNat ≤ 4) := by
    rw [Int64.le_iff_toInt_le, Int64.le_iff_toInt_le, toInt_ofNat_toNat]
    change ¬ ((1 : ℤ) ≤ _ ∧ _ ≤ (4 : ℤ))
    have hout := hrate.2
    omega
  simp only [stepsSymbols, if_neg hle, if_pos hcr, Option.bind_eq_bind, Option.bind_fun_none]

/-! ## The whole computation -/

/-- The time on air of whole symbol times, cut down to a microsecond. -/
def wholeAirtimeUs (p : ModemParams) (payloadLen : UInt16) : ℕ :=
  ⌊p.nSymbols payloadLen * p.wholeSymbolUs⌋₊

theorem wholeAirtimeUs_eq (hpos : 0 ≤ p.nPayload payloadLen) :
    p.wholeAirtimeUs payloadLen =
      (p.preambleSymbols.toNat * 4 + 17) * p.wholeSymbolUs / 4 +
        (p.nPayload payloadLen).toNat * p.wholeSymbolUs := by
  have hsymbols : ((p.nPayload payloadLen).toNat : ℚ) = p.nPayload payloadLen := by
    exact_mod_cast Int.toNat_of_nonneg hpos
  have hexact : p.nSymbols payloadLen * p.wholeSymbolUs =
      ((p.preambleSymbols.toNat * 4 + 17) * p.wholeSymbolUs : ℕ) / (4 : ℕ) +
        ((p.nPayload payloadLen).toNat * p.wholeSymbolUs : ℕ) := by
    rw [nSymbols, ← hsymbols]
    push_cast
    ring
  rw [wholeAirtimeUs, hexact, Nat.floor_add_natCast (by positivity), Nat.floor_div_eq_div]

theorem exists_preambleUs (p : ModemParams) (tSym : Micros) :
    ∃ t, p.preambleUs tSym.toUInt64 = some t ∧
      t.toNat = (p.preambleSymbols.toNat * 4 + 17) * tSym.toNat / 4 := by
  have hpre := p.preambleSymbols.toNat_lt
  have htLt := tSym.toNat_lt
  have hfour : (4 : UInt64).toNat = 4 := rfl
  have hseventeen : (17 : UInt64).toNat = 17 := rfl
  obtain ⟨pre4, hpre4, hpre4Nat⟩ := UInt64.exists_checkedMul
    (a := p.preambleSymbols.toUInt64) (b := 4) (by rw [UInt16.toNat_toUInt64, hfour]; omega)
  rw [UInt16.toNat_toUInt64, hfour] at hpre4Nat
  obtain ⟨preScaled, hpreScaled, hpreNat⟩ := UInt64.exists_checkedAdd (a := pre4) (b := 17)
    (by rw [hseventeen]; omega)
  rw [hseventeen, hpre4Nat] at hpreNat
  obtain ⟨scaled, hscaled, hscaledNat⟩ := UInt64.exists_checkedMul (a := preScaled)
    (b := tSym.toUInt64) (by rw [UInt32.toNat_toUInt64, hpreNat]; nlinarith)
  rw [UInt32.toNat_toUInt64, hpreNat] at hscaledNat
  obtain ⟨t, ht, htNat⟩ := UInt64.exists_checkedDiv (a := scaled) (b := 4)
    (by rw [hfour]; exact four_ne_zero)
  rw [hfour, hscaledNat] at htNat
  refine ⟨t, ?_, htNat⟩
  simp only [preambleUs, hpre4, hpreScaled, hscaled, ht, Option.bind_eq_bind, Option.bind_some]

theorem exists_payloadUs (h : p.SymbolInRange) (hrate : p.RateInRange payloadLen) (tSym : Micros) :
    ∃ t, p.payloadUs payloadLen tSym.toUInt64 = some t ∧
      t.toNat = (p.nPayload payloadLen).toNat * tSym.toNat := by
  obtain ⟨hlow, hhigh⟩ := nPayload_bounds h hrate
  obtain ⟨numer, hnumer, hnumerInt⟩ := exists_stepsNumer p payloadLen
  obtain ⟨denom, hdenom, hdenomInt⟩ := exists_stepsDenom p
  obtain ⟨n, hn, hnInt⟩ := exists_stepsSymbols h hrate hnumerInt hdenomInt
  have htLt := tSym.toNat_lt
  have hdenomPos : ¬ denom ≤ 0 := by
    have hbound := (denominator_bounds h).1
    rw [Int64.le_iff_toInt_le, hdenomInt]
    change ¬ p.denominator ≤ 0
    omega
  obtain ⟨symbols, hsymbols, hsymbolsInt⟩ := Int64.exists_checkedAdd (a := n) (b := 8)
    (by change Int64.Fits (n.toInt + 8); omega)
  replace hsymbolsInt : symbols.toInt = p.nPayload payloadLen := hsymbolsInt.trans hnInt
  obtain ⟨symbolsU, hsymbolsU, hsymbolsUNat⟩ := Int64.exists_tryToUInt64 (a := symbols) (by omega)
  have hsymbolsNat : symbolsU.toNat = (p.nPayload payloadLen).toNat := by omega
  have hsymbolsLt : symbolsU.toNat < 2 ^ 25 := by omega
  obtain ⟨t, ht, htNat⟩ := UInt64.exists_checkedMul (a := symbolsU) (b := tSym.toUInt64)
    (by rw [UInt32.toNat_toUInt64]; nlinarith)
  rw [UInt32.toNat_toUInt64, hsymbolsNat] at htNat
  refine ⟨t, ?_, htNat⟩
  simp only [payloadUs, hnumer, hdenom, if_neg hdenomPos, hn, hsymbols, hsymbolsU, ht,
    Option.bind_eq_bind, Option.bind_some]

/-- **What is computed**, in 64 bits, of which no step needs more. -/
theorem exists_wideAirtimeUs (h : p.SymbolInRange) (hrate : p.RateInRange payloadLen) :
    ∃ total, p.wideAirtimeUs payloadLen = some total ∧
      total.toNat = p.wholeAirtimeUs payloadLen := by
  obtain ⟨hlow, hhigh⟩ := nPayload_bounds h hrate
  obtain ⟨tSym, htSym, htSymNat⟩ := exists_symbolTimeUs h
  obtain ⟨tPreamble, htPreamble, htPreambleNat⟩ := exists_preambleUs p tSym
  obtain ⟨tPayload, htPayload, htPayloadNat⟩ := exists_payloadUs h hrate tSym
  have htLt := tSym.toNat_lt
  have hpreamble : tPreamble.toNat < 2 ^ 51 := by
    have hpre := p.preambleSymbols.toNat_lt
    rw [htPreambleNat]
    refine (Nat.div_le_self _ 4).trans_lt ?_
    nlinarith
  have hpayload : tPayload.toNat < 2 ^ 57 := by
    have hsymbols : (p.nPayload payloadLen).toNat < 2 ^ 25 := by omega
    rw [htPayloadNat]
    nlinarith
  obtain ⟨total, htotal, htotalNat⟩ := UInt64.exists_checkedAdd (a := tPreamble) (b := tPayload)
    (by omega)
  refine ⟨total, ?_, ?_⟩
  · simp only [wideAirtimeUs, htSym, htPreamble, htPayload, htotal, Option.bind_eq_bind,
      Option.bind_some]
  · rw [htotalNat, wholeAirtimeUs_eq (by omega), htPreambleNat, htPayloadNat, htSymNat]

theorem payloadUs_eq_none (hrate : ¬ p.RateInRange payloadLen) (tSym : UInt64) :
    p.payloadUs payloadLen tSym = none := by
  obtain ⟨numer, hnumer, hnumerInt⟩ := exists_stepsNumer p payloadLen
  simp only [payloadUs, hnumer, stepsSymbols_eq_none hrate hnumerInt, Option.bind_eq_bind,
    Option.bind_some, Option.bind_none, ite_self, Option.bind_fun_none]

theorem wideAirtimeUs_eq_none (h : ¬ (p.SymbolInRange ∧ p.RateInRange payloadLen)) :
    p.wideAirtimeUs payloadLen = none := by
  rw [wideAirtimeUs]
  by_cases hsymbol : p.SymbolInRange
  · have hnone := payloadUs_eq_none fun hrate => h ⟨hsymbol, hrate⟩
    simp only [hnone, Option.bind_eq_bind, Option.bind_none, Option.bind_fun_none]
  · rw [symbolTimeUs_eq_none hsymbol]
    rfl

/-- **The result** is there where the settings that are looked at are of the radio, and 32
bits hold it. -/
theorem airtimeUs_eq_some_iff {v : Micros} : p.airtimeUs payloadLen = some v ↔
    (p.SymbolInRange ∧ p.RateInRange payloadLen) ∧ v.toNat = p.wholeAirtimeUs payloadLen := by
  by_cases h : p.SymbolInRange ∧ p.RateInRange payloadLen
  · obtain ⟨total, htotal, htotalNat⟩ := exists_wideAirtimeUs h.1 h.2
    rw [airtimeUs, htotal, Option.bind_eq_bind, Option.bind_some, and_iff_right h, ← htotalNat,
      UInt64.tryToUInt32]
    have hv := v.toNat_lt
    split_ifs with hlt
    · rw [Option.some_inj, ← UInt32.toNat_inj, UInt64.toNat_toUInt32, Nat.mod_eq_of_lt hlt, eq_comm]
    · refine ⟨fun hnone => hnone.elim, fun heq => ?_⟩
      omega
  · rw [airtimeUs, wideAirtimeUs_eq_none h]
    exact ⟨fun hnone => (Option.some_ne_none _ hnone.symm).elim, fun hin => (h hin.1).elim⟩

theorem airtimeUs_eq_none_iff : p.airtimeUs payloadLen = none ↔
    ¬ (p.SymbolInRange ∧ p.RateInRange payloadLen) ∨ 2 ^ 32 ≤ p.wholeAirtimeUs payloadLen := by
  constructor
  · intro hnone
    by_contra hnot
    rw [not_or, not_not, not_le] at hnot
    have hv := airtimeUs_eq_some_iff.mpr ⟨hnot.1, UInt32.toNat_ofNat_of_lt' hnot.2⟩
    rw [hnone] at hv
    cases hv
  · intro hbad
    rw [Option.eq_none_iff_forall_ne_some]
    intro v hv
    obtain ⟨hin, hvNat⟩ := airtimeUs_eq_some_iff.mp hv
    have hlt := v.toNat_lt
    have hle := hbad.resolve_left (not_not.mpr hin)
    omega

theorem exists_airtimeUs (h : p.SymbolInRange ∧ p.RateInRange payloadLen)
    (hfits : p.wholeAirtimeUs payloadLen < 2 ^ 32) : ∃ v, p.airtimeUs payloadLen = some v ∧
      v.toNat = p.wholeAirtimeUs payloadLen := by
  have hv := UInt32.toNat_ofNat_of_lt' hfits
  exact ⟨_, airtimeUs_eq_some_iff.mpr ⟨h, hv⟩, hv⟩

/-! ## How close it is -/

theorem nSymbols_pos (h : p.SymbolInRange) (hrate : p.RateInRange payloadLen) :
    0 < p.nSymbols payloadLen := by
  have hpayload : (8 : ℚ) ≤ p.nPayload payloadLen := by
    exact_mod_cast (nPayload_bounds h hrate).1
  rw [nSymbols]
  positivity

theorem tSym_nonneg (p : ModemParams) : 0 ≤ p.tSym := by
  rw [tSym]
  positivity

/-- **Short of the formula** by less than a microsecond a symbol, and one more. -/
theorem tPacket_bounds (h : p.SymbolInRange) (hrate : p.RateInRange payloadLen) :
    p.tPacket payloadLen - p.nSymbols payloadLen - 1 < p.wholeAirtimeUs payloadLen ∧
      (p.wholeAirtimeUs payloadLen : ℚ) ≤ p.tPacket payloadLen := by
  have hsymbols := nSymbols_pos h hrate
  have hbelow : (p.wholeSymbolUs : ℚ) ≤ p.tSym := Nat.floor_le p.tSym_nonneg
  have habove : p.tSym < p.wholeSymbolUs + 1 := Nat.lt_floor_add_one p.tSym
  have hfloor := Nat.floor_le (a := p.nSymbols payloadLen * p.wholeSymbolUs) (by positivity)
  have hfloorLt := Nat.lt_floor_add_one (p.nSymbols payloadLen * p.wholeSymbolUs)
  rw [← wholeAirtimeUs] at hfloor hfloorLt
  rw [tPacket_eq]
  have hlow := mul_le_mul_of_nonneg_left hbelow hsymbols.le
  have hhigh := mul_lt_mul_of_pos_left habove hsymbols
  constructor <;> linarith

/-- Where a symbol lasts whole microseconds, by less than one. -/
theorem tPacket_lt_of_dvd (h : p.SymbolInRange)
    (hdvd : p.bandwidthHz.toNat ∣ 2 ^ p.spreadingFactor.toNat * 1000000) :
    p.tPacket payloadLen - 1 < p.wholeAirtimeUs payloadLen := by
  have hexact : p.tSym = p.wholeSymbolUs := by
    have hbw : (p.bandwidthHz.toNat : ℚ) ≠ 0 := Nat.cast_ne_zero.mpr h.bandwidthHz.ne'
    rw [wholeSymbolUs_eq, Nat.cast_div hdvd hbw, tSym]
    push_cast
    ring
  have hfloorLt := Nat.lt_floor_add_one (p.nSymbols payloadLen * p.wholeSymbolUs)
  rw [← wholeAirtimeUs, ← hexact, ← tPacket_eq] at hfloorLt
  linarith

/-- A longer payload is no shorter on air. -/
theorem wholeAirtimeUs_mono (h : p.InRange) {a b : UInt16} (hle : a ≤ b) :
    p.wholeAirtimeUs a ≤ p.wholeAirtimeUs b := by
  have hdenom : (0 : ℚ) ≤ p.denominator :=
    Int.cast_nonneg (by have := (denominator_bounds h.toSymbolInRange).1; omega)
  have hnumer : p.numerator a ≤ p.numerator b := by
    have hlen := UInt16.le_iff_toNat_le.mp hle
    rw [numerator, numerator]
    omega
  have hceil : ⌈(p.numerator a : ℚ) / p.denominator⌉ ≤ ⌈(p.numerator b : ℚ) / p.denominator⌉ :=
    Int.ceil_mono (div_le_div_of_nonneg_right (Int.cast_le.mpr hnumer) hdenom)
  have hpayload : p.nPayload a ≤ p.nPayload b :=
    add_le_add_right (max_le_max (Int.le_refl 0) (mul_le_mul_of_nonneg_right hceil (by omega))) 8
  have hsymbols : p.nSymbols a ≤ p.nSymbols b := by
    rw [nSymbols, nSymbols]
    exact add_le_add_right (Int.cast_le.mpr hpayload) _
  exact Nat.floor_mono (mul_le_mul_of_nonneg_right hsymbols (Nat.cast_nonneg _))

/-- **The airtime tracks the formula.** For settings of the radio and every payload length no
step in 64 bits overflows. The result is there exactly when 32 bits hold it, at most the
formula's, and short of it by less than a microsecond a symbol and one more, or by less than
one where the bandwidth divides the chips of a symbol. A shorter payload has no longer one. -/
theorem airtimeUs_tracks_tPacket (h : p.InRange) :
    (∀ payloadLen,
      (∃ total, p.wideAirtimeUs payloadLen = some total ∧
        total.toNat = p.wholeAirtimeUs payloadLen) ∧
      (p.wholeAirtimeUs payloadLen < 2 ^ 32 → ∃ v, p.airtimeUs payloadLen = some v ∧
        p.tPacket payloadLen - p.nSymbols payloadLen - 1 < v.toNat ∧
        (v.toNat : ℚ) ≤ p.tPacket payloadLen ∧
        (p.bandwidthHz.toNat ∣ 2 ^ p.spreadingFactor.toNat * 1000000 →
          p.tPacket payloadLen - 1 < v.toNat)) ∧
      (2 ^ 32 ≤ p.wholeAirtimeUs payloadLen → p.airtimeUs payloadLen = none)) ∧
    ∀ a b y, a ≤ b → p.airtimeUs b = some y → ∃ x, p.airtimeUs a = some x ∧ x ≤ y := by
  have hsymbol := h.toSymbolInRange
  refine ⟨fun payloadLen => ⟨exists_wideAirtimeUs hsymbol h.rate, fun hfits => ?_,
    fun hbig => airtimeUs_eq_none_iff.mpr (.inr hbig)⟩, fun a b y hle hy => ?_⟩
  · obtain ⟨v, hv, hvNat⟩ := exists_airtimeUs ⟨hsymbol, h.rate⟩ hfits
    obtain ⟨hlow, hhigh⟩ := tPacket_bounds hsymbol (h.rate : p.RateInRange payloadLen)
    refine ⟨v, hv, ?_, ?_, fun hdvd => ?_⟩
    · rwa [hvNat]
    · rwa [hvNat]
    · rw [hvNat]
      exact tPacket_lt_of_dvd hsymbol hdvd
  · have hyNat := (airtimeUs_eq_some_iff.mp hy).2
    have hmono := wholeAirtimeUs_mono h hle
    have hlt := y.toNat_lt
    obtain ⟨x, hx, hxNat⟩ := exists_airtimeUs ⟨hsymbol, (h.rate : p.RateInRange a)⟩ (by omega)
    refine ⟨x, hx, ?_⟩
    rw [UInt32.le_iff_toNat_le]
    omega

theorem longfast_inRange : longfast.InRange := ⟨⟨by decide, by decide⟩, by decide⟩

/-- A packet of 70 bytes with the default preset. A symbol of it lasts 8192 microseconds. -/
theorem airtimeUs_tracks_tPacket_longfast :
    ∃ v, longfast.airtimeUs 70 = some v ∧ longfast.tPacket 70 - 1 < v.toNat ∧
      (v.toNat : ℚ) ≤ longfast.tPacket 70 ∧ ∃ x, longfast.airtimeUs 0 = some x ∧ x ≤ v := by
  have hsome : longfast.airtimeUs 70 = some 763904 := by decide
  have hfits : longfast.wholeAirtimeUs 70 < 2 ^ 32 := by
    rw [← (airtimeUs_eq_some_iff.mp hsome).2]
    exact UInt32.toNat_lt _
  obtain ⟨htracks, hmono⟩ := airtimeUs_tracks_tPacket longfast_inRange
  obtain ⟨v, hv, -, hle, hexact⟩ := (htracks 70).2.1 hfits
  exact ⟨v, hv, hexact (by decide), hle, hmono 0 70 v (by simp) hv⟩

/-! ## Where it refuses -/

/-- Settings the radio does not have are refused, and a frame that is sent costs budget
whenever it is charged to a duty cycle. -/
structure RefusesAndCosts (p : ModemParams) (payloadLen : UInt16) : Prop where
  refuses : ¬ p.InRange → p.airtimeUs payloadLen = none
  pos : ∀ v, p.airtimeUs payloadLen = some v → 0 < v
  costs : ∀ v, p.airtimeUs payloadLen = some v →
    ∀ {limitPermille windowMs startUs nowUs d₀ d d' labels},
      DutyCycle.new limitPermille windowMs startUs = some d₀ → Run DutyCycle.CallStep d₀ labels d →
      d.charge nowUs v = (true, d') → (d.roll nowUs).usedUs < d'.usedUs

/-- A symbol lasts no time when the bandwidth is above its chips in a microsecond. -/
theorem wholeSymbolUs_pos_iff (h : p.SymbolInRange) :
    0 < p.wholeSymbolUs ↔ p.bandwidthHz.toNat ≤ 2 ^ p.spreadingFactor.toNat * 1000000 := by
  rw [wholeSymbolUs_eq]
  exact Nat.div_pos_iff.trans (and_iff_right h.bandwidthHz)

theorem wholeAirtimeUs_pos_iff (h : p.SymbolInRange) (hrate : p.RateInRange payloadLen) :
    0 < p.wholeAirtimeUs payloadLen ↔ 0 < p.wholeSymbolUs := by
  have hpayload := (nPayload_bounds h hrate).1
  rw [wholeAirtimeUs_eq (by omega)]
  constructor
  · intro hpos
    by_contra hzero
    rw [Nat.not_lt, Nat.le_zero] at hzero
    rw [hzero] at hpos
    exact absurd hpos (by norm_num)
  · intro hpos
    have hsymbols : 0 < (p.nPayload payloadLen).toNat := by omega
    exact Nat.add_pos_right _ (Nat.mul_pos hsymbols hpos)

/-- Without steps of the payload, the whole is a quarter of a product. -/
theorem wholeAirtimeUs_of_nonpos (h : p.SymbolInRange) (hnumer : p.numerator payloadLen ≤ 0) :
    p.wholeAirtimeUs payloadLen = (4 * p.preambleSymbols.toNat + 49) * p.wholeSymbolUs / 4 := by
  have hpayload := nPayload_of_nonpos h hnumer
  have height : (8 : ℤ).toNat = 8 := rfl
  rw [wholeAirtimeUs_eq (by omega), hpayload, height,
    ← Nat.add_mul_div_left _ _ (by norm_num : 0 < 4)]
  congr 1
  ring

theorem refusesAndCosts_of (hrefuses : ¬ p.InRange → p.airtimeUs payloadLen = none)
    (hpos : ∀ v, p.airtimeUs payloadLen = some v → 0 < v) : p.RefusesAndCosts payloadLen where
  refuses := hrefuses
  pos := hpos
  costs v hv _ _ _ _ _ _ _ _ hnew run :=
    DutyCycle.usedUs_lt_of_charge hnew run (hpos v hv)

theorem refusesAndCosts_of_none (h : p.airtimeUs payloadLen = none) :
    p.RefusesAndCosts payloadLen :=
  refusesAndCosts_of (fun _ => h) fun _ hv => (Option.some_ne_none _ (hv.symm.trans h)).elim

/-- For settings of the radio it costs when a symbol lasts some time. -/
theorem refusesAndCosts_iff_of_inRange (h : p.InRange) : p.RefusesAndCosts payloadLen ↔
    p.bandwidthHz.toNat ≤ 2 ^ p.spreadingFactor.toNat * 1000000 := by
  have hsymbol := h.toSymbolInRange
  have hrate : p.RateInRange payloadLen := h.rate
  rw [← wholeSymbolUs_pos_iff hsymbol, ← wholeAirtimeUs_pos_iff hsymbol hrate]
  constructor
  · intro hcosts
    by_contra hzero
    obtain ⟨v, hv, hvNat⟩ := exists_airtimeUs ⟨hsymbol, hrate⟩ (by omega)
    have hpos := UInt32.lt_iff_toNat_lt.mp (hcosts.pos v hv)
    rw [UInt32.toNat_zero] at hpos
    omega
  · intro hpos
    refine refusesAndCosts_of (fun hout => (hout h).elim) fun v hv => ?_
    rw [UInt32.lt_iff_toNat_lt, (airtimeUs_eq_some_iff.mp hv).2]
    exact hpos

/-- With a coding rate that the radio does not have it refuses when that is looked at, or the
frame is too long for another reason. -/
theorem refusesAndCosts_iff_of_not_inRange (hsymbol : p.SymbolInRange) (h : ¬ p.InRange) :
    p.RefusesAndCosts payloadLen ↔ 0 < p.numerator payloadLen ∨
      2 ^ 34 ≤ (4 * p.preambleSymbols.toNat + 49) *
        (2 ^ p.spreadingFactor.toNat * 1000000 / p.bandwidthHz.toNat) := by
  have hnone : p.RefusesAndCosts payloadLen ↔ p.airtimeUs payloadLen = none :=
    ⟨fun hrefuses => hrefuses.refuses h, refusesAndCosts_of_none⟩
  rw [hnone, airtimeUs_eq_none_iff, ← wholeSymbolUs_eq]
  by_cases hnumer : p.numerator payloadLen ≤ 0
  · have hin : p.SymbolInRange ∧ p.RateInRange payloadLen := ⟨hsymbol, .inl hnumer⟩
    have hscale : (2 : ℕ) ^ 34 = 2 ^ 32 * 4 := by norm_num
    rw [wholeAirtimeUs_of_nonpos hsymbol hnumer, Nat.le_div_iff_mul_le (by norm_num), hscale,
      or_iff_right (not_not.mpr hin), or_iff_right (not_lt.mpr hnumer)]
  · have hout : ¬ (p.SymbolInRange ∧ p.RateInRange payloadLen) := fun hin =>
      h ⟨hsymbol, hin.2.resolve_left hnumer⟩
    exact iff_of_true (.inl hout) (.inl (not_le.mp hnumer))

/-- **Where the airtime is refused, or costs.** The coding rate is only looked at when the
payload adds symbols, and a symbol may be cut down to no time at all. -/
theorem refusesAndCosts_iff (p : ModemParams) (payloadLen : UInt16) :
    p.RefusesAndCosts payloadLen ↔
      ¬ p.SymbolInRange ∨
      (p.InRange ∧ p.bandwidthHz.toNat ≤ 2 ^ p.spreadingFactor.toNat * 1000000) ∨
      (¬ p.InRange ∧ (0 < p.numerator payloadLen ∨
        2 ^ 34 ≤ (4 * p.preambleSymbols.toNat + 49) *
          (2 ^ p.spreadingFactor.toNat * 1000000 / p.bandwidthHz.toNat))) := by
  by_cases hsymbol : p.SymbolInRange
  · rw [or_iff_right (not_not.mpr hsymbol)]
    by_cases h : p.InRange
    · rw [refusesAndCosts_iff_of_inRange h, and_iff_right h, or_iff_left fun hout => hout.1 h]
    · have hleft : ¬ (p.InRange ∧
          p.bandwidthHz.toNat ≤ 2 ^ p.spreadingFactor.toNat * 1000000) := fun hin => h hin.1
      rw [refusesAndCosts_iff_of_not_inRange hsymbol h, or_iff_right hleft, and_iff_right h]
  · have hnone := airtimeUs_eq_none_iff.mpr (.inl fun hin : _ ∧ p.RateInRange payloadLen =>
      hsymbol hin.1)
    exact iff_of_true (refusesAndCosts_of_none hnone) (.inl hsymbol)

/-- An empty frame with a coding rate of nine, where the default preset adds no symbols and
nobody looks, and symbols shorter than a microsecond. -/
theorem not_refusesAndCosts : ¬ RefusesAndCosts { longfast with codingRate := 9 } 0 ∧
    ¬ RefusesAndCosts { longfast with spreadingFactor := 7, bandwidthHz := 200000000 } 70 := by
  constructor
  · intro h
    have hout : ¬ InRange { longfast with codingRate := 9 } := fun hin =>
      absurd hin.codingRate.2 (by simp)
    exact absurd (h.refuses hout) (by decide)
  · intro h
    exact absurd (h.pos 0 (by decide)) (by simp)

end TetherMesh.Protocol.ModemParams
