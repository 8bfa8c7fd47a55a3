import TetherMesh.Protocol.TimeOnAir

/-!
# The presets of the modem

A preset is slower than another when its symbol lasts at least twice as long, or when its symbol
lasts no less and carries no more. Either way a frame costs no less airtime with it: where the
spreading factor is larger a payload takes fewer symbols, but never fewer than half of them.

So whatever a duty cycle lets through with slower settings it lets through with faster ones, frame
by frame. The nine presets are ranked by this.

## Main definitions

* `ModemParams.NoSlower` — settings with which no frame is longer on air, a preorder
* `ModemParams.sendAll` — frames sent one after another, each charged with its time on air
* `presets` — the nine presets, the fastest first

## Main results

* `slower_costs_no_less`
* `presets_pairwise`, `exists_airtimeUs_of_mem_presets`
-/

namespace TetherMesh.Protocol

namespace ModemParams

/-! ## Slower settings -/

/-- With `p` no frame is longer on air than with `q`. -/
structure NoSlower (p q : ModemParams) : Prop where
  /-- A symbol is at most half as long, or it is no longer and spread no less. -/
  symbol : 2 * p.tSym ≤ q.tSym ∨
    p.tSym ≤ q.tSym ∧ q.spreadingFactor.toNat ≤ p.spreadingFactor.toNat
  /-- As many symbols or fewer make four. -/
  codingRate : p.codingRate.toNat ≤ q.codingRate.toNat
  /-- The preamble is no longer. -/
  preambleSymbols : p.preambleSymbols.toNat ≤ q.preambleSymbols.toNat
  /-- No check is appended that the other leaves out. -/
  crc : p.crc.toNat ≤ q.crc.toNat
  /-- No header is sent that the other leaves out. -/
  implicitHeader : q.implicitHeader.toNat ≤ p.implicitHeader.toNat
  /-- A symbol does not carry less for its length. -/
  lowDataRateOptimize : p.lowDataRateOptimize.toNat ≤ q.lowDataRateOptimize.toNat

namespace NoSlower

variable {p q r : ModemParams}

theorem refl (p : ModemParams) : p.NoSlower p :=
  ⟨.inr ⟨le_rfl, le_rfl⟩, le_rfl, le_rfl, le_rfl, le_rfl, le_rfl⟩

theorem tSym_le (h : p.NoSlower q) : p.tSym ≤ q.tSym := by
  rcases h.symbol with hdouble | ⟨hle, -⟩
  · linarith [p.tSym_nonneg]
  · exact hle

theorem trans (h : p.NoSlower q) (h' : q.NoSlower r) : p.NoSlower r where
  symbol := by
    have hpq := h.tSym_le
    have hqr := h'.tSym_le
    rcases h.symbol with hdouble | ⟨-, hsf⟩
    · exact .inl (hdouble.trans hqr)
    · rcases h'.symbol with hdouble' | ⟨-, hsf'⟩
      · exact .inl (by linarith)
      · exact .inr ⟨hpq.trans hqr, hsf'.trans hsf⟩
  codingRate := h.codingRate.trans h'.codingRate
  preambleSymbols := h.preambleSymbols.trans h'.preambleSymbols
  crc := h.crc.trans h'.crc
  implicitHeader := h'.implicitHeader.trans h.implicitHeader
  lowDataRateOptimize := h.lowDataRateOptimize.trans h'.lowDataRateOptimize

instance : IsTrans ModemParams NoSlower := ⟨fun _ _ _ => trans⟩

end NoSlower

/-! ## The symbols of a payload -/

/-- The steps a payload is cut into, each sent with the coding rate. -/
def steps (p : ModemParams) (payloadLen : UInt16) : ℤ :=
  max 0 ⌈(p.numerator payloadLen : ℚ) / p.denominator⌉

variable {p q : ModemParams} {a b : UInt16}

theorem steps_nonneg (p : ModemParams) (payloadLen : UInt16) : 0 ≤ p.steps payloadLen :=
  le_max_left 0 _

theorem nPayload_eq_steps (p : ModemParams) (payloadLen : UInt16) :
    p.nPayload payloadLen = 8 + p.steps payloadLen * (p.codingRate.toNat + 4) := by
  rw [nPayload, steps, max_mul_of_nonneg 0 _ (by omega), zero_mul]

/-- So many steps are enough exactly when they carry all of the payload. -/
theorem steps_le_iff (h : p.SymbolInRange) {n : ℤ} (hn : 0 ≤ n) :
    p.steps a ≤ n ↔ p.numerator a ≤ n * p.denominator := by
  have hdenom : (0 : ℚ) < p.denominator := by
    have hbound := (denominator_bounds h).1
    exact Int.cast_pos.mpr (by omega)
  rw [steps, max_le_iff, and_iff_right hn, Int.ceil_le, div_le_iff₀ hdenom]
  exact_mod_cast Iff.rfl

/-- **A symbol twice as long** carries the payload in no fewer than half the steps, the one that
is rounded up left out. -/
theorem steps_le_double (hp : p.SymbolInRange) (hq : q.SymbolInRange) (h : p.NoSlower q)
    (hle : a ≤ b) : p.steps a ≤ 2 * q.steps b + 1 := by
  have hsteps := q.steps_nonneg b
  have hcarried := (steps_le_iff (a := b) hq hsteps).mp le_rfl
  have hlen := UInt16.le_iff_toNat_le.mp hle
  obtain ⟨-, -, -, hcrc, hih, hldro⟩ := h
  have hldroLe := q.lowDataRateOptimize.toNat_le
  have hsf := hp.spreadingFactor
  have hsf' := hq.spreadingFactor
  -- the larger spreading factor carries at most twice as much a step
  have hdenom : q.denominator ≤ 2 * p.denominator := by
    rw [denominator, denominator]
    omega
  have hnumer : p.numerator a ≤ q.numerator b + p.denominator := by
    rw [numerator, numerator, denominator]
    omega
  have hscaled := mul_le_mul_of_nonneg_left hdenom hsteps
  rw [steps_le_iff hp (by omega)]
  linarith

/-- **A symbol spread no less** carries the payload in no more steps. -/
theorem steps_le_of_spread (hp : p.SymbolInRange) (hq : q.SymbolInRange) (h : p.NoSlower q)
    (hspread : q.spreadingFactor.toNat ≤ p.spreadingFactor.toNat) (hle : a ≤ b) :
    p.steps a ≤ q.steps b := by
  have hsteps := q.steps_nonneg b
  have hcarried := (steps_le_iff (a := b) hq hsteps).mp le_rfl
  have hlen := UInt16.le_iff_toNat_le.mp hle
  obtain ⟨-, -, -, hcrc, hih, hldro⟩ := h
  have hdenom : q.denominator ≤ p.denominator := by
    rw [denominator, denominator]
    omega
  have hnumer : p.numerator a ≤ q.numerator b := by
    rw [numerator, numerator]
    omega
  have hscaled := mul_le_mul_of_nonneg_left hdenom hsteps
  rw [steps_le_iff hp hsteps]
  linarith

/-! ## The time on air -/

theorem nSymbols_eq_steps (p : ModemParams) (payloadLen : UInt16) :
    p.nSymbols payloadLen = p.preambleSymbols.toNat + 17 / 4 + 8 +
      p.steps payloadLen * (p.codingRate.toNat + 4) := by
  rw [nSymbols, nPayload_eq_steps]
  push_cast
  ring

/-- **A frame costs no more** with settings that are no slower. -/
theorem wholeAirtimeUs_le (hp : p.InRange) (hq : q.SymbolInRange) (h : p.NoSlower q)
    (hle : a ≤ b) : p.wholeAirtimeUs a ≤ q.wholeAirtimeUs b := by
  have hsteps : (0 : ℚ) ≤ q.steps b := by exact_mod_cast q.steps_nonneg b
  have hpre : (p.preambleSymbols.toNat : ℚ) ≤ q.preambleSymbols.toNat := by
    exact_mod_cast h.preambleSymbols
  have hpreNonneg : (0 : ℚ) ≤ p.preambleSymbols.toNat := Nat.cast_nonneg _
  have hrate : (p.codingRate.toNat : ℚ) + 4 ≤ q.codingRate.toNat + 4 := by
    exact_mod_cast Nat.add_le_add_right h.codingRate 4
  have hcarried := mul_le_mul_of_nonneg_left hrate hsteps
  apply Nat.floor_mono
  rcases h.symbol with hdouble | ⟨hsymbol, hspread⟩
  · have hwhole : (2 * p.wholeSymbolUs : ℚ) ≤ q.wholeSymbolUs := by
      have hfloor : 2 * p.wholeSymbolUs ≤ q.wholeSymbolUs := by
        refine Nat.le_floor ?_
        have hbelow : (p.wholeSymbolUs : ℚ) ≤ p.tSym := Nat.floor_le p.tSym_nonneg
        push_cast
        linarith
      exact_mod_cast hfloor
    have hsteps2 : (p.steps a : ℚ) ≤ 2 * q.steps b + 1 := by
      exact_mod_cast steps_le_double hp.toSymbolInRange hq h hle
    -- the step that is rounded up costs no more than the eight symbols that are sent twice
    have hrate8 : (p.codingRate.toNat : ℚ) + 4 ≤ 8 := by
      exact_mod_cast Nat.add_le_add_right hp.codingRate.2 4
    have hstepsRate := mul_le_mul_of_nonneg_right hsteps2
      (by positivity : (0 : ℚ) ≤ p.codingRate.toNat + 4)
    have hsymbols : p.nSymbols a ≤ 2 * q.nSymbols b := by
      rw [nSymbols_eq_steps, nSymbols_eq_steps]
      linarith
    have hnonneg : 0 ≤ q.nSymbols b := by
      rw [nSymbols_eq_steps]
      positivity
    calc p.nSymbols a * p.wholeSymbolUs
        ≤ 2 * q.nSymbols b * p.wholeSymbolUs :=
          mul_le_mul_of_nonneg_right hsymbols (Nat.cast_nonneg _)
      _ = q.nSymbols b * (2 * p.wholeSymbolUs) := by ring
      _ ≤ q.nSymbols b * q.wholeSymbolUs := mul_le_mul_of_nonneg_left hwhole hnonneg
  · have hwhole : (p.wholeSymbolUs : ℚ) ≤ q.wholeSymbolUs := by
      exact_mod_cast Nat.floor_mono hsymbol
    have hstepsLe : (p.steps a : ℚ) ≤ q.steps b := by
      exact_mod_cast steps_le_of_spread hp.toSymbolInRange hq h hspread hle
    have hstepsRate := mul_le_mul_of_nonneg_right hstepsLe
      (by positivity : (0 : ℚ) ≤ p.codingRate.toNat + 4)
    have hsymbols : p.nSymbols a ≤ q.nSymbols b := by
      rw [nSymbols_eq_steps, nSymbols_eq_steps]
      linarith
    have hnonneg : 0 ≤ q.nSymbols b := by
      rw [nSymbols_eq_steps]
      positivity
    exact mul_le_mul hsymbols hwhole (Nat.cast_nonneg _) hnonneg

theorem exists_airtimeUs_le (hp : p.InRange) (h : p.NoSlower q) (hle : a ≤ b) {y : Micros}
    (hy : q.airtimeUs b = some y) : ∃ x, p.airtimeUs a = some x ∧ x ≤ y := by
  obtain ⟨⟨hq, -⟩, hyNat⟩ := airtimeUs_eq_some_iff.mp hy
  have hmono := wholeAirtimeUs_le hp hq h hle
  have hlt := y.toNat_lt
  obtain ⟨x, hx, hxNat⟩ := exists_airtimeUs ⟨hp.toSymbolInRange, (hp.rate : p.RateInRange a)⟩
    (by omega)
  refine ⟨x, hx, ?_⟩
  rw [UInt32.le_iff_toNat_le]
  omega

/-! ## The presets -/

/-- The nine presets, the fastest first. -/
def presets : List ModemParams :=
  [shortturbo, shortfast, shortslow, mediumfast, longturbo, mediumslow, longfast, longmod,
    longslow]

theorem inRange_of_mem_presets (h : p ∈ presets) : p.InRange := by
  have hsettings : ∀ p ∈ presets,
      (7 ≤ p.spreadingFactor.toNat ∧ p.spreadingFactor.toNat ≤ 12) ∧ 0 < p.bandwidthHz.toNat ∧
        1 ≤ p.codingRate.toNat ∧ p.codingRate.toNat ≤ 4 := by decide
  obtain ⟨hsf, hbw, hcr⟩ := hsettings p h
  exact ⟨⟨hsf, hbw⟩, hcr⟩

/-- How long their symbols last. -/
theorem tSym_presets :
    presets.map tSym = [256, 512, 1024, 2048, 4096, 4096, 8192, 16384, 32768] := by
  simp only [presets, List.map_cons, List.map_nil, tSym, shortturbo, shortfast, shortslow,
    mediumfast, longturbo, mediumslow, longfast, longmod, longslow, UInt8.reduceToNat,
    UInt32.reduceToNat]
  norm_num

/-- Presets differ in nothing but the symbol. -/
theorem noSlower_of_symbol (hp : p ∈ presets) (hq : q ∈ presets)
    (symbol : 2 * p.tSym ≤ q.tSym ∨
      p.tSym ≤ q.tSym ∧ q.spreadingFactor.toNat ≤ p.spreadingFactor.toNat)
    (lowDataRateOptimize : p.lowDataRateOptimize.toNat ≤ q.lowDataRateOptimize.toNat) :
    p.NoSlower q := by
  have hsame : ∀ p ∈ presets, p.codingRate = 1 ∧ p.preambleSymbols = 16 ∧ p.crc = true ∧
      p.implicitHeader = false := by decide
  obtain ⟨hcr, hpre, hcrc, hih⟩ := hsame p hp
  obtain ⟨hcr', hpre', hcrc', hih'⟩ := hsame q hq
  exact ⟨symbol, by rw [hcr, hcr'], by rw [hpre, hpre'], by rw [hcrc, hcrc'], by rw [hih, hih'],
    lowDataRateOptimize⟩

/-- The symbol is twice as long from each to the next, but once, where it is spread less. -/
theorem isChain_presets : presets.IsChain NoSlower := by
  have htimes := tSym_presets
  simp only [presets, List.map_cons, List.map_nil, List.cons.injEq, and_true] at htimes
  obtain ⟨h₁, h₂, h₃, h₄, h₅, h₆, h₇, h₈, h₉⟩ := htimes
  rw [presets]
  refine .cons_cons ?_ <| .cons_cons ?_ <| .cons_cons ?_ <| .cons_cons ?_ <| .cons_cons ?_ <|
    .cons_cons ?_ <| .cons_cons ?_ <| .cons_cons ?_ <| .singleton _
  · exact noSlower_of_symbol (by simp [presets]) (by simp [presets]) (.inl (by linarith)) le_rfl
  · exact noSlower_of_symbol (by simp [presets]) (by simp [presets]) (.inl (by linarith)) le_rfl
  · exact noSlower_of_symbol (by simp [presets]) (by simp [presets]) (.inl (by linarith)) le_rfl
  · exact noSlower_of_symbol (by simp [presets]) (by simp [presets]) (.inl (by linarith)) le_rfl
  · exact noSlower_of_symbol (by simp [presets]) (by simp [presets])
      (.inr ⟨by linarith, by decide⟩) le_rfl
  · exact noSlower_of_symbol (by simp [presets]) (by simp [presets]) (.inl (by linarith)) le_rfl
  · exact noSlower_of_symbol (by simp [presets]) (by simp [presets]) (.inl (by linarith))
      (by decide)
  · exact noSlower_of_symbol (by simp [presets]) (by simp [presets]) (.inl (by linarith)) le_rfl

/-- **The presets are ranked**: no frame is longer on air with an earlier one. -/
theorem presets_pairwise : presets.Pairwise NoSlower :=
  List.isChain_iff_pairwise.mp isChain_presets

/-- The last is the slowest. -/
theorem noSlower_longslow (h : p ∈ presets) : p.NoSlower longslow := by
  have hlast : presets = presets.dropLast ++ [longslow] := rfl
  rw [hlast, List.mem_append, List.mem_singleton] at h
  have hranked := presets_pairwise
  rw [hlast, List.pairwise_append] at hranked
  rcases h with hfaster | rfl
  · exact hranked.2.2 p hfaster longslow List.mem_cons_self
  · exact .refl _

/-- The data rate is lowered just where a symbol lasts sixteen milliseconds. -/
theorem lowDataRateOptimize_iff (h : p ∈ presets) :
    p.lowDataRateOptimize = true ↔ 16000 ≤ p.tSym := by
  have hlowered : ∀ p ∈ presets, (p.lowDataRateOptimize = true ↔
      16000 * p.bandwidthHz.toNat ≤ 2 ^ p.spreadingFactor.toNat * 1000000) := by decide
  have hbw : (0 : ℚ) < p.bandwidthHz.toNat :=
    Nat.cast_pos.mpr (inRange_of_mem_presets h).bandwidthHz
  rw [hlowered p h, tSym, div_mul_eq_mul_div, le_div_iff₀ hbw]
  exact_mod_cast Iff.rfl

/-- No payload is too long for any of them. -/
theorem exists_airtimeUs_of_mem_presets (h : p ∈ presets) (payloadLen : UInt16) :
    ∃ x, p.airtimeUs payloadLen = some x := by
  have hlongest : longslow.airtimeUs 65535 = some 2148376576 := by decide
  obtain ⟨x, hx, -⟩ := exists_airtimeUs_le (inRange_of_mem_presets h) (noSlower_longslow h)
    (UInt16.le_iff_toNat_le.mpr (Nat.lt_succ_iff.mp payloadLen.toNat_lt)) hlongest
  exact ⟨x, hx⟩

end ModemParams

/-! ## What a duty cycle lets through -/

namespace DutyCycle

/-- A charge is let through where it fits what is used in the window it rolls to. -/
theorem charge_eq_true_iff {d d' : DutyCycle} {nowUs : UInt64} {airtimeUs : Micros} :
    d.charge nowUs airtimeUs = (true, d') ↔
      (d.roll nowUs).usedUs.saturatingAdd airtimeUs.toUInt64 ≤ (d.roll nowUs).budgetUs ∧
        d' = { d.roll nowUs with
          usedUs := (d.roll nowUs).usedUs.saturatingAdd airtimeUs.toUInt64 } := by
  rw [charge, wouldPermit]
  by_cases hfits : (d.roll nowUs).usedUs.saturatingAdd airtimeUs.toUInt64 ≤
      (d.roll nowUs).budgetUs
  · simp only [decide_eq_true hfits, Prod.mk.injEq, true_and]
    exact eq_comm.trans (and_iff_right hfits).symm
  · simp only [decide_eq_false hfits, Prod.mk.injEq, Bool.false_eq_true, false_and]
    exact ⟨False.elim, fun h => hfits h.1⟩

/-- Two duty cycles of one budget and one window, of which the first has used no more. -/
structure NoFuller (d e : DutyCycle) : Prop where
  limitPermille_eq : d.limitPermille = e.limitPermille
  windowUs_eq : d.windowUs = e.windowUs
  windowStartedUs_eq : d.windowStartedUs = e.windowStartedUs
  usedUs_le : d.usedUs ≤ e.usedUs

namespace NoFuller

variable {d e e' : DutyCycle} {nowUs : UInt64} {x y : Micros}

theorem refl (d : DutyCycle) : d.NoFuller d := ⟨rfl, rfl, rfl, UInt64.le_refl _⟩

theorem budgetUs_eq (h : d.NoFuller e) : d.budgetUs = e.budgetUs := by
  rw [budgetUs, budgetUs, h.limitPermille_eq, h.windowUs_eq]

/-- They roll alike. -/
theorem roll (h : d.NoFuller e) (nowUs : UInt64) : (d.roll nowUs).NoFuller (e.roll nowUs) := by
  obtain ⟨hlimit, hwindow, hstarted, hused⟩ := h
  unfold DutyCycle.roll
  rw [hwindow, hstarted]
  dsimp only
  split_ifs
  · exact ⟨hlimit, rfl, rfl, UInt64.le_refl 0⟩
  · exact ⟨hlimit, hwindow, hstarted, hused⟩

theorem usedUs_add_le (h : d.NoFuller e) (hle : x ≤ y) :
    d.usedUs.saturatingAdd x.toUInt64 ≤ e.usedUs.saturatingAdd y.toUInt64 := by
  have hused := UInt64.le_iff_toNat_le.mp h.usedUs_le
  rw [UInt32.le_iff_toNat_le] at hle
  rw [UInt64.le_iff_toNat_le, UInt64.toNat_saturatingAdd, UInt64.toNat_saturatingAdd,
    UInt32.toNat_toUInt64, UInt32.toNat_toUInt64]
  omega

/-- **What one lets through** the other lets through, and stays no fuller. -/
theorem charge (h : d.NoFuller e) (hle : x ≤ y) (hcharge : e.charge nowUs y = (true, e')) :
    ∃ d', d.charge nowUs x = (true, d') ∧ d'.NoFuller e' := by
  have hrolled := h.roll nowUs
  have hadd := hrolled.usedUs_add_le hle
  obtain ⟨hfits, rfl⟩ := charge_eq_true_iff.mp hcharge
  rw [← hrolled.budgetUs_eq] at hfits
  exact ⟨_, charge_eq_true_iff.mpr ⟨UInt64.le_trans hadd hfits, rfl⟩, hrolled.limitPermille_eq,
    hrolled.windowUs_eq, hrolled.windowStartedUs_eq, hadd⟩

end NoFuller

end DutyCycle

namespace ModemParams

/-- A frame to send: when, and how long its payload is. -/
structure Sending where
  nowUs : UInt64
  payloadLen : UInt16

/-- Send frames one after another, each charged with its time on air. `none` where a frame is
refused. -/
def sendAll (p : ModemParams) (d : DutyCycle) : List Sending → Option DutyCycle
  | [] => some d
  | s :: rest => do
    let airtimeUs ← p.airtimeUs s.payloadLen
    let (charged, d) := d.charge s.nowUs airtimeUs
    if charged then sendAll p d rest else none

variable {p q : ModemParams} {d e e' : DutyCycle} {s : Sending} {rest frames frames' : List Sending}

/-- The first frame is let through, and so are the others after it. -/
theorem sendAll_cons_eq_some_iff : p.sendAll d (s :: rest) = some e ↔
    ∃ x d', p.airtimeUs s.payloadLen = some x ∧ d.charge s.nowUs x = (true, d') ∧
      p.sendAll d' rest = some e := by
  rw [sendAll, Option.bind_eq_bind, Option.bind_eq_some_iff]
  constructor
  · rintro ⟨x, hx, hrest⟩
    cases hcharge : d.charge s.nowUs x with
    | mk charged d' =>
      rw [hcharge] at hrest
      cases charged with
      | false => cases hrest
      | true => exact ⟨x, d', hx, hcharge, hrest⟩
  · rintro ⟨x, d', hx, hcharge, hrest⟩
    refine ⟨x, hx, ?_⟩
    rw [hcharge]
    exact hrest

/-- A frame goes out at the time of another, and is no longer. -/
structure Sending.NoLonger (s t : Sending) : Prop where
  nowUs_eq : s.nowUs = t.nowUs
  payloadLen_le : s.payloadLen ≤ t.payloadLen

/-- **What goes out with slower settings** goes out with settings that are no slower, and so do
shorter frames, from any duty cycle that is no fuller. -/
theorem sendAll_of_noSlower (hp : p.InRange) (h : p.NoSlower q)
    (hframes : List.Forall₂ Sending.NoLonger frames frames') (hduty : d.NoFuller e)
    (hsent : q.sendAll e frames' = some e') :
    ∃ d', p.sendAll d frames = some d' ∧ d'.NoFuller e' := by
  induction hframes generalizing d e with
  | nil =>
    cases hsent
    exact ⟨d, rfl, hduty⟩
  | cons hframe _ ih =>
    obtain ⟨y, e₁, hy, hcharge, hrest⟩ := sendAll_cons_eq_some_iff.mp hsent
    obtain ⟨x, hx, hle⟩ := exists_airtimeUs_le hp h hframe.payloadLen_le hy
    rw [← hframe.nowUs_eq] at hcharge
    obtain ⟨d₁, hcharge', hduty'⟩ := hduty.charge hle hcharge
    obtain ⟨d', hrest', hduty''⟩ := ih hduty' hrest
    exact ⟨d', sendAll_cons_eq_some_iff.mpr ⟨x, d₁, hx, hcharge', hrest'⟩, hduty''⟩

/-- **Slower settings cost no less.** What is computed for a frame with slower settings is also
computed with settings that are no slower and for a shorter frame, and is no more. So a node that
charges every frame it sends is let through with them wherever it was with the slower, and has
used no more of its budget. -/
theorem slower_costs_no_less (hp : p.InRange) (h : p.NoSlower q) :
    (∀ a b y, a ≤ b → q.airtimeUs b = some y → ∃ x, p.airtimeUs a = some x ∧ x ≤ y) ∧
    ∀ d frames frames' e, List.Forall₂ Sending.NoLonger frames frames' →
      q.sendAll d frames' = some e →
        ∃ e', p.sendAll d frames = some e' ∧ e'.usedUs ≤ e.usedUs := by
  refine ⟨fun a b y hle hy => exists_airtimeUs_le hp h hle hy, ?_⟩
  intro d frames frames' e hframes hsent
  obtain ⟨e', hsent', hduty⟩ := sendAll_of_noSlower hp h hframes (.refl d) hsent
  exact ⟨e', hsent', hduty.usedUs_le⟩

/-- Two frames an hour apart, of at most seventy bytes. -/
theorem slower_costs_no_less_longslow : ∃ e', longfast.sendAll ⟨10, 3600000000, 0, 0⟩
    [⟨0, 70⟩, ⟨3600000000, 50⟩] = some e' ∧ e'.usedUs ≤ 3219456 := by
  have hslower := noSlower_longslow (p := longfast) (by simp [presets])
  have hframes : List.Forall₂ Sending.NoLonger [⟨0, 70⟩, ⟨3600000000, 50⟩]
      [⟨0, 70⟩, ⟨3600000000, 70⟩] := .cons ⟨rfl, by simp⟩ (.cons ⟨rfl, by simp⟩ .nil)
  have hsent : longslow.sendAll ⟨10, 3600000000, 0, 0⟩ [⟨0, 70⟩, ⟨3600000000, 70⟩] =
      some ⟨10, 3600000000, 3219456, 3600000000⟩ := by decide
  exact (slower_costs_no_less longfast_inRange hslower).2 _ _ _ _ hframes hsent

end ModemParams

end TetherMesh.Protocol
