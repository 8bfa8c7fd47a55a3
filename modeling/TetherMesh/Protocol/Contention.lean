import TetherMesh.Math.Ramp
import TetherMesh.Protocol.Routing

/-!
# The contention window over the range of signal strengths

Between its floor and its ceiling the window follows a ramp, in whole slots. Distances are
taken in 16 bits and saturate, which shortens the ramp of a range wider than that: it reaches
its upper level before the ceiling, and still never falls.

## Main definitions

* `ContentionWindow.width`, `ContentionWindow.above` — the distances along the ramp

## Main results

* `ContentionWindow.toNat_slotsForSnr` — a range that is not empty: a ramp
* `ContentionWindow.slotsForSnr_of_ceil_le` — one that is: a step
* `ContentionWindow.slotsForSnr_grows`
-/

namespace TetherMesh.Protocol.ContentionWindow

open Math

/-- How wide the range is, as far as 16 bits hold it. -/
def width (w : ContentionWindow) : ℕ :=
  (w.snrCeilQuarterDb.saturatingSub w.snrFloorQuarterDb).toInt.toNat

/-- How far above the floor a signal is, as far as 16 bits hold it. -/
def above (w : ContentionWindow) (snrQuarterDb : Int16) : ℕ :=
  (snrQuarterDb.saturatingSub w.snrFloorQuarterDb).toInt.toNat

variable {w : ContentionWindow} {snr s t : Int16}

theorem width_pos (hrange : w.snrFloorQuarterDb < w.snrCeilQuarterDb) : 0 < w.width := by
  have hlt := Int16.lt_iff_toInt_lt.mp hrange
  rw [width, Int16.toInt_saturatingSub]
  omega

theorem above_eq_zero (hfloor : snr ≤ w.snrFloorQuarterDb) : w.above snr = 0 := by
  have hle := Int16.le_iff_toInt_le.mp hfloor
  rw [above, Int16.toInt_saturatingSub]
  omega

theorem above_mono (hst : s ≤ t) : w.above s ≤ w.above t := by
  have hle := Int16.le_iff_toInt_le.mp hst
  rw [above, above, Int16.toInt_saturatingSub, Int16.toInt_saturatingSub]
  omega

/-- The ceiling is where the ramp ends, saturated or not. -/
theorem width_le_above (hceil : w.snrCeilQuarterDb ≤ snr) : w.width ≤ w.above snr :=
  above_mono hceil

theorem above_le_width (hceil : snr ≤ w.snrCeilQuarterDb) : w.above snr ≤ w.width :=
  above_mono hceil

/-! ## What the window is -/

/-- At the floor and below. -/
theorem slotsForSnr_floor (hfloor : snr ≤ w.snrFloorQuarterDb) :
    w.slotsForSnr snr = w.minSlots := by
  rw [slotsForSnr, if_pos hfloor]

/-- At the ceiling and above, unless that is below the floor. -/
theorem slotsForSnr_ceil (hfloor : ¬ snr ≤ w.snrFloorQuarterDb)
    (hceil : w.snrCeilQuarterDb ≤ snr) : w.slotsForSnr snr = w.maxSlots := by
  rw [slotsForSnr, if_neg hfloor, if_pos hceil]

/-- Above an empty or inverted range the window is at its widest at once. -/
theorem slotsForSnr_of_ceil_le (hrange : w.snrCeilQuarterDb ≤ w.snrFloorQuarterDb) :
    w.slotsForSnr snr = if snr ≤ w.snrFloorQuarterDb then w.minSlots else w.maxSlots := by
  by_cases hfloor : snr ≤ w.snrFloorQuarterDb
  · rw [if_pos hfloor, slotsForSnr_floor hfloor]
  · have habove : w.snrFloorQuarterDb ≤ snr := Int16.le_of_lt (Int16.not_le.mp hfloor)
    rw [if_neg hfloor, slotsForSnr_ceil hfloor (Int16.le_trans hrange habove)]

/-- The arithmetic of the line, on distances of 16 bits: none of it saturates. -/
theorem toNat_line {lo hi : UInt8} {offset span : UInt32} (hslots : lo ≤ hi)
    (hpos : 0 < span.toNat) (hle : offset.toNat ≤ span.toNat) (hspan : span.toNat < 2 ^ 15) :
    ((lo.toUInt32.saturatingAdd (((offset.saturatingMul (hi.saturatingSub lo).toUInt32).checkedDiv
        span).getD 0)).tryToUInt8.getD hi).toNat =
      lo.toNat + offset.toNat * (hi.toNat - lo.toNat) / span.toNat := by
  have hhi := hi.toNat_lt
  have hlevels := UInt8.le_iff_toNat_le.mp hslots
  set rise := hi.toNat - lo.toNat with hrise
  have hproduct : (offset.saturatingMul (hi.saturatingSub lo).toUInt32).toNat =
      offset.toNat * rise := by
    have hsmall : offset.toNat * rise ≤ 2 ^ 15 * 2 ^ 8 :=
      Nat.mul_le_mul (by omega) (by omega)
    rw [UInt32.toNat_saturatingMul, UInt8.toNat_toUInt32, UInt8.toNat_saturatingSub, ← hrise]
    exact Nat.min_eq_left (by omega)
  obtain ⟨scaled, hscaled, hquotient⟩ := UInt32.exists_checkedDiv
    (a := offset.saturatingMul (hi.saturatingSub lo).toUInt32) (b := span) (by omega)
  rw [hproduct] at hquotient
  -- the signal is not above the range, so the quotient does not exceed the rise
  have hshare : offset.toNat * rise / span.toNat ≤ rise :=
    Nat.div_le_of_le_mul (Nat.mul_le_mul_right _ hle)
  have hsum : (lo.toUInt32.saturatingAdd scaled).toNat =
      lo.toNat + offset.toNat * rise / span.toNat := by
    rw [UInt32.toNat_saturatingAdd, UInt8.toNat_toUInt32, hquotient]
    exact Nat.min_eq_left (by omega)
  obtain ⟨slots, hslots, htoNat⟩ := UInt32.exists_tryToUInt8
    (a := lo.toUInt32.saturatingAdd scaled) (by omega)
  rw [hscaled, Option.getD_some, hslots, Option.getD_some, htoNat, hsum]

/-- The line between the floor and the ceiling, along distances that may have saturated. -/
theorem toNat_slotsForSnr_between (hslots : w.minSlots ≤ w.maxSlots)
    (hfloor : ¬ snr ≤ w.snrFloorQuarterDb) (hceil : ¬ w.snrCeilQuarterDb ≤ snr) :
    (w.slotsForSnr snr).toNat =
      w.minSlots.toNat + w.above snr * (w.maxSlots.toNat - w.minSlots.toNat) / w.width := by
  have hlow := Int16.not_le.mp hfloor
  have hhigh := Int16.not_le.mp hceil
  have hpos := width_pos (Int16.lt_trans hlow hhigh)
  have hle := above_le_width (Int16.le_of_lt hhigh)
  have hlt := (w.snrCeilQuarterDb.saturatingSub w.snrFloorQuarterDb).toInt_lt
  rw [above, width] at hle ⊢
  rw [width] at hpos
  have habove : 0 ≤ (snr.saturatingSub w.snrFloorQuarterDb).toInt := by
    have := Int16.lt_iff_toInt_lt.mp hlow
    rw [Int16.toInt_saturatingSub]
    omega
  obtain ⟨offset, hoffset, hoffsetNat⟩ := Int16.exists_tryToUInt32 habove
  obtain ⟨span, hspan, hspanNat⟩ := Int16.exists_tryToUInt32
    (a := w.snrCeilQuarterDb.saturatingSub w.snrFloorQuarterDb) (by omega)
  have hdegenerate : ¬ (w.snrCeilQuarterDb.saturatingSub w.snrFloorQuarterDb ≤ 0 ∨
      w.maxSlots < w.minSlots) := by
    rw [not_or, Int16.not_le, UInt8.not_lt]
    exact ⟨Int16.lt_iff_toInt_lt.mpr (Int.lt_toNat.mp hpos), hslots⟩
  rw [slotsForSnr, if_neg hfloor, if_neg hceil]
  dsimp only
  rw [if_neg hdegenerate, hoffset, hspan, Option.getD_some, Option.getD_some,
    toNat_line hslots (by omega) (by omega) (by omega), hoffsetNat, hspanNat]

/-- **A range that is not empty is a ramp** from the floor to the ceiling. -/
theorem toNat_slotsForSnr (hslots : w.minSlots ≤ w.maxSlots)
    (hrange : w.snrFloorQuarterDb < w.snrCeilQuarterDb) (snr : Int16) :
    (w.slotsForSnr snr).toNat = ramp w.minSlots.toNat w.maxSlots.toNat w.width (w.above snr) := by
  by_cases hfloor : snr ≤ w.snrFloorQuarterDb
  · rw [slotsForSnr_floor hfloor, above_eq_zero hfloor, ramp_zero]
  by_cases hceil : w.snrCeilQuarterDb ≤ snr
  · rw [slotsForSnr_ceil hfloor hceil,
      ramp_eq_hi (UInt8.le_iff_toNat_le.mp hslots) (width_pos hrange) (width_le_above hceil)]
  · have hle := above_le_width (Int16.le_of_lt (Int16.not_le.mp hceil))
    rw [toNat_slotsForSnr_between hslots hfloor hceil, ramp, Nat.min_eq_left hle]

/-! ## Growth -/

/-- Every window is a ramp along something that grows with the signal. -/
theorem exists_ramp (hslots : w.minSlots ≤ w.maxSlots) :
    ∃ (width : ℕ) (along : Int16 → ℕ), (∀ s t, s ≤ t → along s ≤ along t) ∧
      ∀ s, (w.slotsForSnr s).toNat = ramp w.minSlots.toNat w.maxSlots.toNat width (along s) := by
  by_cases hrange : w.snrFloorQuarterDb < w.snrCeilQuarterDb
  · exact ⟨w.width, w.above, fun _ _ => above_mono, toNat_slotsForSnr hslots hrange⟩
  · -- the step of an empty range is a ramp of width one
    refine ⟨1, fun s => if s ≤ w.snrFloorQuarterDb then 0 else 1, fun s t hst => ?_, fun s => ?_⟩
    all_goals dsimp only
    · by_cases ht : t ≤ w.snrFloorQuarterDb
      · rw [if_pos (Int16.le_trans hst ht)]
        exact Nat.zero_le _
      · rw [if_neg ht]
        split_ifs
        · exact Nat.zero_le 1
        · exact Nat.le_refl 1
    · rw [slotsForSnr_of_ceil_le (Int16.not_lt.mp hrange)]
      split_ifs
      · rw [ramp_zero]
      · rw [ramp_eq_hi (UInt8.le_iff_toNat_le.mp hslots) Nat.one_pos (Nat.le_refl 1)]

/-- **The window grows with the signal** and keeps to its bounds. It is at its lower one up to
the floor, and at its upper one from the ceiling on if that is above the floor. -/
theorem slotsForSnr_grows (w : ContentionWindow) (hslots : w.minSlots ≤ w.maxSlots) :
    (∀ s t, s ≤ t → w.minSlots ≤ w.slotsForSnr s ∧ w.slotsForSnr s ≤ w.slotsForSnr t ∧
      w.slotsForSnr t ≤ w.maxSlots) ∧
    (∀ s, s ≤ w.snrFloorQuarterDb → w.slotsForSnr s = w.minSlots) ∧
    (w.snrFloorQuarterDb < w.snrCeilQuarterDb →
      ∀ s, w.snrCeilQuarterDb ≤ s → w.slotsForSnr s = w.maxSlots) := by
  refine ⟨fun s t hst => ?_, fun s => slotsForSnr_floor, fun hrange s hceil => ?_⟩
  · obtain ⟨width, along, hmono, hramp⟩ := exists_ramp hslots
    have hlevels := UInt8.le_iff_toNat_le.mp hslots
    rw [UInt8.le_iff_toNat_le, UInt8.le_iff_toNat_le, UInt8.le_iff_toNat_le, hramp, hramp]
    exact ⟨le_ramp, monotone_ramp _ _ _ (hmono s t hst), ramp_le hlevels⟩
  · exact slotsForSnr_ceil (Int16.not_le.mpr (Int16.lt_of_lt_of_le hrange hceil)) hceil

/-- The window that was measured. -/
theorem meshtasticShape_grows : meshtasticShape.slotsForSnr (-79) ≤ meshtasticShape.slotsForSnr 39 ∧
    meshtasticShape.slotsForSnr 40 = 143 :=
  have h := slotsForSnr_grows meshtasticShape (by decide)
  ⟨(h.1 (-79) 39 (by decide)).2.1, h.2.2 (by decide) 40 (by decide)⟩

end TetherMesh.Protocol.ContentionWindow
