import Galdr.Motion
import Galdr.Trapezoid

/-!
# The trapezoid is the envelope

The classified trapezoid of the generator, with its breakpoints and its
triangle case, is the fastest profile from the entry to the exit under the
cruise speed, as long as the block can brake from its entry to its exit
(`velocitySqAt_planScaled`). It starts at the entry in every case, and ends at
the exit or at what can be reached. The period of a tick falls with the speed
at its midpoint.
-/

namespace Galdr

variable {K : Type} [Field K] [LinearOrder K] [IsStrictOrderedRing K]

/-- The speeds a block is run with: they are squared speeds within the cruise speed,
and the block has a length and can change speed. -/
structure Runnable (block : Block K) (entrySq nominalSq exitSq : K) : Prop where
  /-- The block has a length. -/
  millimeters_pos : 0 < block.millimeters
  /-- The block can change speed. -/
  acceleration_pos : 0 < block.acceleration
  /-- The entry is a squared speed. -/
  entry_nonneg : 0 ≤ entrySq
  /-- The entry is within the cruise speed. -/
  entry_le : entrySq ≤ nominalSq
  /-- The exit is a squared speed. -/
  exit_nonneg : 0 ≤ exitSq
  /-- The exit is within the cruise speed. -/
  exit_le : exitSq ≤ nominalSq

namespace Runnable

variable {block : Block K} {entrySq nominalSq exitSq : K}

theorem slope_pos (h : Runnable block entrySq nominalSq exitSq) :
    0 < 2 * block.acceleration :=
  mul_pos zero_lt_two h.acceleration_pos

/-- The trapezoid of a runnable block, without the cuts that do nothing. -/
theorem planScaled_eq (h : Runnable block entrySq nominalSq exitSq) :
    TrapezoidProfile.planScaled block ⟨entrySq, nominalSq⟩ exitSq
      = if (nominalSq - entrySq) / (2 * block.acceleration)
            + (nominalSq - exitSq) / (2 * block.acceleration) ≤ block.millimeters then
          { entrySq, exitSq
            twoA := 2 * block.acceleration
            length := block.millimeters
            cruiseSq := nominalSq
            accelEnd := (nominalSq - entrySq) / (2 * block.acceleration)
            decelStart := block.millimeters
              - (nominalSq - exitSq) / (2 * block.acceleration) }
        else
          { entrySq, exitSq
            twoA := 2 * block.acceleration
            length := block.millimeters
            cruiseSq := max (entrySq + 2 * block.acceleration
              * max 0 (min (((exitSq - entrySq) / (2 * block.acceleration)
                + block.millimeters) * (1 / 2)) block.millimeters)) (max entrySq exitSq)
            accelEnd := max 0 (min (((exitSq - entrySq) / (2 * block.acceleration)
              + block.millimeters) * (1 / 2)) block.millimeters)
            decelStart := max 0 (min (((exitSq - entrySq) / (2 * block.acceleration)
              + block.millimeters) * (1 / 2)) block.millimeters) } := by
  have hslope := h.slope_pos
  have hnominal : 0 ≤ nominalSq := h.entry_nonneg.trans h.entry_le
  have haccel : 0 ≤ (nominalSq - entrySq) / (2 * block.acceleration) :=
    div_nonneg (sub_nonneg.2 h.entry_le) hslope.le
  have hdecel : 0 ≤ (nominalSq - exitSq) / (2 * block.acceleration) :=
    div_nonneg (sub_nonneg.2 h.exit_le) hslope.le
  unfold TrapezoidProfile.planScaled
  simp only [max_eq_left h.entry_nonneg, max_eq_left h.exit_nonneg, max_eq_left hnominal,
    max_eq_left h.acceleration_pos.le, max_eq_left h.millimeters_pos.le, if_pos hslope,
    max_eq_left haccel, max_eq_left hdecel]

/-- **The trapezoid is the envelope** of the block's speeds, when the block can brake
from its entry to its exit. -/
theorem velocitySqAt_planScaled (h : Runnable block entrySq nominalSq exitSq)
    (hbrake : entrySq ≤ exitSq + 2 * block.acceleration * block.millimeters) {d : K}
    (h0 : 0 ≤ d) (hd : d ≤ block.millimeters) :
    (TrapezoidProfile.planScaled block ⟨entrySq, nominalSq⟩ exitSq).velocitySqAt d
      = Trapezoid.envelope nominalSq entrySq exitSq (2 * block.acceleration)
          block.millimeters d := by
  have hslope := h.slope_pos
  have hentry := h.entry_nonneg
  have hentry' := h.entry_le
  have hexit := h.exit_nonneg
  have hexit' := h.exit_le
  rw [h.planScaled_eq]
  set s := 2 * block.acceleration with hs
  set l := block.millimeters with hl
  have hsd : 0 ≤ s * d := mul_nonneg hslope.le h0
  have hsr : 0 ≤ s * (l - d) := mul_nonneg hslope.le (sub_nonneg.2 hd)
  unfold TrapezoidProfile.velocitySqAt
  split
  · -- A true trapezoid: the ramps leave room for the cruise.
    rename_i hroom
    have haccel : s * ((nominalSq - entrySq) / s) = nominalSq - entrySq :=
      mul_div_cancel₀ _ hslope.ne'
    have hdecel : s * ((nominalSq - exitSq) / s) = nominalSq - exitSq :=
      mul_div_cancel₀ _ hslope.ne'
    dsimp only
    split
    · rename_i hup
      have h1 : s * d ≤ nominalSq - entrySq := by
        rw [← haccel]
        exact mul_le_mul_of_nonneg_left hup hslope.le
      have h2 : nominalSq - exitSq ≤ s * (l - d) := by
        rw [← hdecel]
        exact mul_le_mul_of_nonneg_left (by linarith) hslope.le
      rw [Trapezoid.envelope_eq_up (by linarith) (by linarith), min_eq_left (by linarith),
        max_eq_left (by linarith)]
    · rename_i hup
      have h1 : nominalSq - entrySq ≤ s * d := by
        rw [← haccel]
        exact mul_le_mul_of_nonneg_left (not_le.1 hup).le hslope.le
      split
      · rename_i hcruise
        have h2 : nominalSq - exitSq ≤ s * (l - d) := by
          rw [← hdecel]
          exact mul_le_mul_of_nonneg_left (by linarith) hslope.le
        rw [Trapezoid.envelope_eq_cruise (by linarith) (by linarith)]
      · rename_i hcruise
        have h2 : s * (l - d) ≤ nominalSq - exitSq := by
          rw [← hdecel]
          exact mul_le_mul_of_nonneg_left (by linarith) hslope.le
        rw [Trapezoid.envelope_eq_down (by linarith) (by linarith),
          max_eq_left (sub_nonneg.2 hd), min_eq_left hexit', min_eq_left (by linarith),
          max_eq_left (by linarith)]
  · -- A triangle: the ramps meet before the cruise.
    rename_i hroom
    have hmiddle : s * (((exitSq - entrySq) / s + l) * (1 / 2))
        = (exitSq - entrySq + s * l) / 2 := by
      field_simp
    have hshort : s * l < nominalSq - entrySq + (nominalSq - exitSq) := by
      have hsum := mul_lt_mul_of_pos_left (not_le.1 hroom) hslope
      rw [mul_add, mul_div_cancel₀ _ hslope.ne', mul_div_cancel₀ _ hslope.ne'] at hsum
      exact hsum
    have hrest : s * (l - d) = s * l - s * d := mul_sub s l d
    set q := ((exitSq - entrySq) / s + l) * (1 / 2) with hq
    have hq0 : 0 ≤ q := by
      have hsq : 0 ≤ s * q := by
        rw [hmiddle]
        linarith
      exact nonneg_of_mul_nonneg_right hsq hslope
    have hsq0 : 0 ≤ s * q := mul_nonneg hslope.le hq0
    dsimp only
    rcases le_total q l with hql | hql
    · have hsl : s * q ≤ s * l := mul_le_mul_of_nonneg_left hql hslope.le
      have hpeak : max (entrySq + s * q) (max entrySq exitSq) = entrySq + s * q :=
        max_eq_left (max_le (by linarith) (by linarith))
      rw [min_eq_left hql, max_eq_right hq0, hpeak]
      split
      · rename_i hup
        have h1 : s * d ≤ s * q := mul_le_mul_of_nonneg_left hup hslope.le
        rw [Trapezoid.envelope_eq_up (by linarith) (by linarith), min_eq_left (by linarith),
          max_eq_left (by linarith)]
      · rename_i hup
        have h1 : s * q ≤ s * d := mul_le_mul_of_nonneg_left (not_le.1 hup).le hslope.le
        rw [Trapezoid.envelope_eq_down (by linarith) (by linarith),
          max_eq_left (sub_nonneg.2 hd)]
        have hexitPeak : exitSq ≤ entrySq + s * q := by linarith
        rw [min_eq_left hexitPeak, min_eq_left (by linarith), max_eq_left (by linarith)]
    · have hsl : s * l ≤ s * q := mul_le_mul_of_nonneg_left hql hslope.le
      have hsl0 : 0 ≤ s * l := mul_nonneg hslope.le h.millimeters_pos.le
      have hdl : s * d ≤ s * l := mul_le_mul_of_nonneg_left hd hslope.le
      have hgain : entrySq + s * l ≤ exitSq := by linarith
      have hpeak : max (entrySq + s * l) (max entrySq exitSq) = exitSq := by
        rw [max_eq_right (by linarith : entrySq ≤ exitSq), max_eq_right hgain]
      rw [min_eq_right hql, max_eq_right h.millimeters_pos.le, hpeak, if_pos hd,
        Trapezoid.envelope_eq_up (by linarith) (by linarith), min_eq_left (by linarith),
        max_eq_left (by linarith)]

/-- A block starts at its entry. -/
theorem velocitySqAt_zero (h : Runnable block entrySq nominalSq exitSq) :
    (TrapezoidProfile.planScaled block ⟨entrySq, nominalSq⟩ exitSq).velocitySqAt 0
      = entrySq := by
  rw [h.planScaled_eq]
  unfold TrapezoidProfile.velocitySqAt
  split
  · have hup : 0 ≤ (nominalSq - entrySq) / (2 * block.acceleration) :=
      div_nonneg (sub_nonneg.2 h.entry_le) h.slope_pos.le
    rw [if_pos hup]
    show max (min (entrySq + 2 * block.acceleration * 0) nominalSq) 0 = entrySq
    rw [mul_zero, add_zero, min_eq_left h.entry_le, max_eq_left h.entry_nonneg]
  · rw [if_pos (le_max_left _ _)]
    show max (min (entrySq + 2 * block.acceleration * 0) (max _ (max entrySq exitSq))) 0
      = entrySq
    rw [mul_zero, add_zero, min_eq_left ((le_max_left _ _).trans (le_max_right _ _)),
      max_eq_left h.entry_nonneg]

/-- A block that is too fast to brake jumps to the ramp down right after its start. -/
theorem velocitySqAt_of_fast (h : Runnable block entrySq nominalSq exitSq)
    (hfast : exitSq + 2 * block.acceleration * block.millimeters < entrySq) {d : K}
    (h0 : 0 < d) (hd : d ≤ block.millimeters) :
    (TrapezoidProfile.planScaled block ⟨entrySq, nominalSq⟩ exitSq).velocitySqAt d
      = exitSq + 2 * block.acceleration * (block.millimeters - d) := by
  have hslope := h.slope_pos
  have hentry := h.entry_le
  rw [h.planScaled_eq]
  set s := 2 * block.acceleration with hs
  set l := block.millimeters with hl
  have hsd : 0 ≤ s * d := mul_nonneg hslope.le h0.le
  have hsr : 0 ≤ s * (l - d) := mul_nonneg hslope.le (sub_nonneg.2 hd)
  have hrest : s * (l - d) = s * l - s * d := mul_sub s l d
  have hroom : ¬((nominalSq - entrySq) / s + (nominalSq - exitSq) / s ≤ l) := by
    rw [← add_div, div_le_iff₀ hslope, mul_comm l s, not_le]
    linarith
  have hnone : max 0 (min (((exitSq - entrySq) / s + l) * (1 / 2)) l) = 0 := by
    apply max_eq_left
    refine (min_le_left _ _).trans ?_
    have hneg : (exitSq - entrySq) / s + l ≤ 0 := by
      rw [div_add' _ _ _ hslope.ne', div_nonpos_iff]
      right
      exact ⟨by linarith, hslope.le⟩
    linarith
  rw [if_neg hroom, hnone]
  unfold TrapezoidProfile.velocitySqAt
  rw [if_neg (not_le.2 h0), if_neg (not_le.2 h0)]
  show max (min (exitSq + s * max (l - d) 0) _) (min exitSq _) = exitSq + s * (l - d)
  have hpeak : entrySq ≤ max (entrySq + s * 0) (max entrySq exitSq) :=
    (le_max_left _ _).trans (le_max_right _ _)
  rw [max_eq_left (sub_nonneg.2 hd), min_eq_left (by linarith),
    min_eq_left (by linarith), max_eq_left (by linarith)]

/-- **Behind its start the trapezoid is the envelope**, whether or not the block can
brake. -/
theorem velocitySqAt_of_pos (h : Runnable block entrySq nominalSq exitSq) {d : K}
    (h0 : 0 < d) (hd : d ≤ block.millimeters) :
    (TrapezoidProfile.planScaled block ⟨entrySq, nominalSq⟩ exitSq).velocitySqAt d
      = Trapezoid.envelope nominalSq entrySq exitSq (2 * block.acceleration)
          block.millimeters d := by
  rcases le_or_gt entrySq (exitSq + 2 * block.acceleration * block.millimeters) with
    hbrake | hfast
  · exact h.velocitySqAt_planScaled hbrake h0.le hd
  · have hsd : 0 ≤ 2 * block.acceleration * d := mul_nonneg h.slope_pos.le h0.le
    have hrest := mul_sub (2 * block.acceleration) block.millimeters d
    have hentry := h.entry_le
    rw [h.velocitySqAt_of_fast hfast h0 hd,
      Trapezoid.envelope_eq_down (by linarith) (by linarith)]

/-- **A block ends at its exit, or at what it can gain before it.** -/
theorem velocitySqAt_millimeters (h : Runnable block entrySq nominalSq exitSq) :
    (TrapezoidProfile.planScaled block ⟨entrySq, nominalSq⟩ exitSq).velocitySqAt
        block.millimeters
      = min exitSq (entrySq + 2 * block.acceleration * block.millimeters) := by
  rw [h.velocitySqAt_of_pos h.millimeters_pos le_rfl, Trapezoid.envelope_length h.exit_le]

end Runnable

/-! ## The period of a tick -/

section Period

variable [FloorRing K] [Libm K] [LawfulLibm K]

/-- **The faster, the shorter the tick.** At rest the tick has a period of its own. -/
theorem periodTicks_antitone (timing : StepTiming K) (hrate : 0 < timing.maxRateHz)
    (hz : 0 < timing.tickHz) {u v : K} (hu : 0 < u) (huv : u ≤ v) :
    timing.periodTicks v ≤ timing.periodTicks u := by
  have hroot : sqrtf (max u 0) ≤ sqrtf (max v 0) := by
    rw [max_eq_left hu.le, max_eq_left (hu.le.trans huv)]
    exact sqrtf_le_sqrtf hu.le huv
  have hpos : 0 < sqrtf (max u 0) := by
    rw [max_eq_left hu.le]
    exact sqrtf_pos hu
  unfold StepTiming.periodTicks
  by_cases hdom : 0 < timing.domMmPerStep
  · simp only [if_pos hdom]
    set ru := min (sqrtf (max u 0) / timing.domMmPerStep) timing.maxRateHz with hru
    set rv := min (sqrtf (max v 0) / timing.domMmPerStep) timing.maxRateHz with hrv
    have hru0 : 0 < ru := lt_min (div_pos hpos hdom) hrate
    have hle : ru ≤ rv := min_le_min_right _ (div_le_div_of_nonneg_right hroot hdom.le)
    rw [if_neg (not_le.2 hru0), if_neg (not_le.2 (hru0.trans_le hle))]
    have hperiod : timing.tickHz / rv ≤ timing.tickHz / ru :=
      div_le_div_of_nonneg_left hz.le hru0 hle
    have hround := Int.toNat_le_toNat (roundf_mono hperiod)
    unfold clampTicks
    exact max_le_max_left _ (min_le_min_right _ (min_le_min_right _ hround))
  · simp only [if_neg hdom, min_eq_left hrate.le, le_refl, if_true]

end Period

end Galdr
