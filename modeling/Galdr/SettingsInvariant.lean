import Galdr.Settings
import Galdr.Runs

/-!
# What every write keeps

The settings of a machine are sound when loading them would change nothing. The
checks of a write and the repair of a load are two tables, and this module compares
them: a write of a sound machine leaves it sound, unless it disables the homing cycle
under enabled soft limits or names an axis that cannot be rotary. Neither is checked,
and after either of them a reload gives other settings than those that were in force
(`survives_reload`).
-/

namespace Galdr

open Text Runs

namespace Settings

/-! ## The default settings are in range -/

theorem representable_small : Binary32.Representable (2 ^ (-10 : ℤ)) :=
  Binary32.representable_zpow (by norm_num) (by norm_num)

theorem representable_large : Binary32.Representable (2 ^ (14 : ℤ)) :=
  Binary32.representable_zpow (by norm_num) (by norm_num)

/-- A literal between a thousandth and ten thousand is a positive finite number. -/
theorem accepts_lit {q : NNRat} (hlow : (1 / 1000 : ℚ) ≤ q) (hhigh : (q : ℚ) ≤ 16384) :
    Policy.f32Positive.accepts (lit q) = true := by
  have hpos : (lit q).positive = true :=
    F32.positive_ofRat representable_small (by positivity) (by
      refine le_trans ?_ hlow
      norm_num)
  have hfits : Binary32.round q < 2 ^ (128 : ℤ) := by
    have hnear := Binary32.abs_sub_round_le q.coe_nonneg representable_large
    have hle := (abs_le.1 hnear).1
    have hdist : |(q : ℚ) - 2 ^ (14 : ℤ)| ≤ 16384 := by
      have := q.coe_nonneg
      have hlarge : (2 : ℚ) ^ (14 : ℤ) = 16384 := by norm_num
      rw [hlarge, abs_le]
      exact ⟨by linarith, by linarith⟩
    have hbig : (2 : ℚ) ^ (15 : ℤ) + 1 < 2 ^ (128 : ℤ) := by norm_num
    norm_num at hbig ⊢
    linarith
  show ((lit q).isFinite && (lit q).positive) = true
  rw [hpos, Bool.and_true]
  unfold lit F32.ofRat
  rw [dif_pos hfits]
  rfl

/-! ## Sound settings -/

/-- Every field is in the range a load leaves it in. -/
structure Sane (s : Settings) : Prop where
  /-- `$0`. -/
  stepPulse : Policy.stepPulseUs.accepts s.stepPulseUs = true
  /-- `$11`. -/
  junctionDeviation : Policy.f32NonNegative.accepts s.junctionDeviationMm = true
  /-- `$12`. -/
  arcTolerance : Policy.f32Positive.accepts s.arcToleranceMm = true
  /-- `$20`. -/
  softLimits : s.softLimitsEnable = true → s.homingEnabled = true
  /-- `$24`. -/
  homingFeed : Policy.f32Positive.accepts s.homingFeedMmMin = true
  /-- `$25`. -/
  homingSeek : Policy.f32Positive.accepts s.homingSeekMmMin = true
  /-- `$27`. -/
  homingPulloff : s.homingPulloffMm.nonnegative = true
  /-- `$30`. -/
  spindleRpmMax : Policy.f32Positive.accepts s.spindleRpmMax = true
  /-- `$31`. -/
  spindleRpmMin : s.spindleRpmMin.nonnegative = true
  /-- `$392`. -/
  spindleOnDelay : Policy.f32NonNegative.accepts s.spindleOnDelayS = true
  /-- `$393`. -/
  spindleReverseDwell : Policy.f32NonNegative.accepts s.spindleReverseDwellS = true
  /-- `$481`. -/
  autoReportInterval : Policy.autoReportInterval.accepts s.autoReportIntervalMs = true
  /-- `$100` to `$103`. -/
  stepsPerMm : ∀ axis, Policy.f32Positive.accepts (s.stepsPerMm axis) = true
  /-- `$110` to `$113`. -/
  maxRate : ∀ axis, Policy.f32Positive.accepts (s.maxRateMmMin axis) = true
  /-- `$120` to `$123`. -/
  accel : ∀ axis, Policy.f32Positive.accepts (s.accelMmS2 axis) = true
  /-- `$130` to `$133`. -/
  maxTravel : ∀ axis, Policy.f32Positive.accepts (s.maxTravelMm axis) = true
  /-- `$140` to `$143`. -/
  runCurrent : ∀ axis, Policy.currentMa.accepts (s.runCurrentMa axis) = true
  /-- `$150` to `$153`. -/
  microsteps : ∀ axis, Policy.microsteps.accepts (s.microsteps axis) = true
  /-- The holding current. -/
  holdCurrent : ∀ axis, Policy.currentMa.accepts (s.holdCurrentMa axis) = true
  /-- The driver's send delay. -/
  sendDelay : s.tmcSendDelay ≤ 15
  /-- The driver's hold delay. -/
  iholdDelay : s.tmcIholdDelay ≤ 15
  /-- The driver's sense resistor. -/
  rSense : Policy.f32Positive.accepts s.tmcRSenseOhms = true
  /-- `$376`. -/
  rotaryMask : s.rotaryMask &&& defaultRotaryMask = s.rotaryMask

/-! ## The repair -/

theorem accepts_positiveOr (x : F32) {fallback : F32}
    (h : Policy.f32Positive.accepts fallback = true) :
    Policy.f32Positive.accepts (positiveOr x fallback) = true := by
  unfold positiveOr
  split
  · assumption
  · exact h

theorem positiveOr_eq {x : F32} (h : Policy.f32Positive.accepts x = true) (fallback : F32) :
    positiveOr x fallback = x := if_pos h

theorem accepts_nonNegativeOr (x : F32) {fallback : F32}
    (h : Policy.f32NonNegative.accepts fallback = true) :
    Policy.f32NonNegative.accepts (nonNegativeOr x fallback) = true := by
  unfold nonNegativeOr
  split
  · assumption
  · exact h

theorem nonNegativeOr_eq {x : F32} (h : Policy.f32NonNegative.accepts x = true)
    (fallback : F32) : nonNegativeOr x fallback = x := if_pos h

/-- A positive number is not negative. -/
theorem accepts_nonNegative_of_positive {x : F32}
    (h : Policy.f32Positive.accepts x = true) : Policy.f32NonNegative.accepts x = true := by
  cases x with
  | nan => exact absurd h (by simp [Policy.f32Positive, Policy.f32, F32.isFinite])
  | inf negative => exact absurd h (by simp [Policy.f32Positive, Policy.f32, F32.isFinite])
  | finite negative m =>
    cases negative with
    | false => rfl
    | true =>
      exact absurd h (by simp [Policy.f32Positive, Policy.f32, F32.positive])

theorem accepts_clampStepPulse (v : UInt32) :
    Policy.stepPulseUs.accepts (clampStepPulse v) = true := by
  show (decide (1 ≤ clampStepPulse v) && decide (clampStepPulse v ≤ 1000)) = true
  unfold clampStepPulse
  split_ifs with hlow hhigh
  · decide
  · decide
  · rw [UInt32.not_lt] at hlow hhigh
    simp [hlow, hhigh]

theorem clampStepPulse_eq {v : UInt32} (h : Policy.stepPulseUs.accepts v = true) :
    clampStepPulse v = v := by
  have hrange : (decide (1 ≤ v) && decide (v ≤ 1000)) = true := h
  rw [Bool.and_eq_true, decide_eq_true_eq, decide_eq_true_eq] at hrange
  unfold clampStepPulse
  rw [if_neg (UInt32.not_lt.2 hrange.1), if_neg (UInt32.not_lt.2 hrange.2)]

theorem accepts_clampAutoReportInterval (v : UInt32) :
    Policy.autoReportInterval.accepts (clampAutoReportInterval v) = true := by
  show (decide (clampAutoReportInterval v = 0) || _) = true
  unfold clampAutoReportInterval
  split_ifs with hzero hlow hhigh
  · decide
  · decide
  · decide
  · rw [UInt32.not_lt] at hlow hhigh
    simp [hlow, hhigh]

theorem clampAutoReportInterval_eq {v : UInt32}
    (h : Policy.autoReportInterval.accepts v = true) : clampAutoReportInterval v = v := by
  have hrange : (decide (v = 0) || (decide (Policy.autoReportIntervalMinMs ≤ v)
      && decide (v ≤ Policy.autoReportIntervalMaxMs))) = true := h
  simp only [Bool.or_eq_true, Bool.and_eq_true, decide_eq_true_eq] at hrange
  unfold clampAutoReportInterval
  split_ifs with hzero hlow hhigh
  · exact hzero.symm
  · exact absurd (hrange.resolve_left hzero).1 (UInt32.not_le.2 hlow)
  · exact absurd (hrange.resolve_left hzero).2 (UInt32.not_le.2 hhigh)
  · rfl

theorem accepts_clampMicrosteps (v : UInt16) :
    Policy.microsteps.accepts (clampMicrosteps v) = true := by
  show Policy.microstepValues.contains (clampMicrosteps v) = true
  unfold clampMicrosteps
  split
  · assumption
  · decide

theorem clampMicrosteps_eq {v : UInt16} (h : Policy.microsteps.accepts v = true) :
    clampMicrosteps v = v := if_pos h

theorem accepts_min_current (v : UInt16) :
    Policy.currentMa.accepts (min v Policy.maxMotorCurrentMa) = true := by
  show decide ((if v ≤ Policy.maxMotorCurrentMa then v else Policy.maxMotorCurrentMa)
    ≤ Policy.maxMotorCurrentMa) = true
  split_ifs with hle
  · exact decide_eq_true hle
  · decide

theorem min_current_eq {v : UInt16} (h : Policy.currentMa.accepts v = true) :
    min v Policy.maxMotorCurrentMa = v := if_pos (of_decide_eq_true h)

theorem min_delay_le (v : UInt8) : min v 15 ≤ 15 := by
  show (if v ≤ 15 then v else 15) ≤ 15
  split_ifs with hle
  · exact hle
  · decide

theorem min_delay_eq {v : UInt8} (h : v ≤ 15) : min v 15 = v := if_pos h

theorem and_rotaryMask (mask : UInt8) :
    mask &&& defaultRotaryMask &&& defaultRotaryMask = mask &&& defaultRotaryMask := by
  rw [UInt8.and_assoc, UInt8.and_self]

/-! ## A load -/

/-- The values of the axes of a new machine are in range. -/
theorem accepts_vec {a b c d : NNRat}
    (h : ∀ q ∈ [a, b, c, d], (1 / 1000 : ℚ) ≤ q ∧ (q : ℚ) ≤ 16384) (axis : Fin 4) :
    Policy.f32Positive.accepts (![lit a, lit b, lit c, lit d] axis) = true := by
  have hlit : ∀ q ∈ [a, b, c, d], Policy.f32Positive.accepts (lit q) = true := fun q hq =>
    accepts_lit (h q hq).1 (h q hq).2
  simp only [List.mem_cons, List.not_mem_nil, or_false, forall_eq_or_imp, forall_eq] at hlit
  obtain ⟨ha, hb, hc, hd⟩ := hlit
  fin_cases axis
  · exact ha
  · exact hb
  · exact hc
  · exact hd

/-- **The settings of a new machine are sound.** -/
theorem sane_default : Sane default where
  stepPulse := by decide
  junctionDeviation := accepts_nonNegative_of_positive (accepts_lit (by norm_num) (by norm_num))
  arcTolerance := accepts_lit (by norm_num) (by norm_num)
  softLimits h := absurd h (by simp [default])
  homingFeed := accepts_lit (by norm_num) (by norm_num)
  homingSeek := accepts_lit (by norm_num) (by norm_num)
  homingPulloff := by
    have h := accepts_nonNegative_of_positive
      (accepts_lit (q := 1) (by norm_num) (by norm_num))
    exact (Bool.and_eq_true_iff.1 h).2
  spindleRpmMax := accepts_lit (by norm_num) (by norm_num)
  spindleRpmMin := rfl
  spindleOnDelay := rfl
  spindleReverseDwell :=
    accepts_nonNegative_of_positive (accepts_lit (by norm_num) (by norm_num))
  autoReportInterval := by decide
  stepsPerMm := accepts_vec (by norm_num [div_le_iff₀])
  maxRate := accepts_vec (by norm_num)
  accel := accepts_vec (by norm_num)
  maxTravel _ := accepts_lit (by norm_num) (by norm_num)
  runCurrent _ := (by decide : Policy.currentMa.accepts 800 = true)
  microsteps _ := (by decide : Policy.microsteps.accepts 16 = true)
  holdCurrent _ := (by decide : Policy.currentMa.accepts 400 = true)
  sendDelay := by decide
  iholdDelay := by decide
  rSense := accepts_lit (by norm_num) (by norm_num)
  rotaryMask := by decide

/-- **What is loaded is sound.** -/
theorem sane_sanitized (s : Settings) : Sane s.sanitized where
  stepPulse := accepts_clampStepPulse _
  junctionDeviation := accepts_nonNegativeOr _ sane_default.junctionDeviation
  arcTolerance := accepts_positiveOr _ sane_default.arcTolerance
  softLimits h := (Bool.and_eq_true_iff.1 h).1
  homingFeed := accepts_positiveOr _ sane_default.homingFeed
  homingSeek := accepts_positiveOr _ sane_default.homingSeek
  homingPulloff := F32.nonnegative_maxZero _
  spindleRpmMax := accepts_positiveOr _ sane_default.spindleRpmMax
  spindleRpmMin := F32.nonnegative_maxZero _
  spindleOnDelay := accepts_nonNegativeOr _ sane_default.spindleOnDelay
  spindleReverseDwell := accepts_nonNegativeOr _ sane_default.spindleReverseDwell
  autoReportInterval := accepts_clampAutoReportInterval _
  stepsPerMm axis := accepts_positiveOr _ (sane_default.stepsPerMm axis)
  maxRate axis := accepts_positiveOr _ (sane_default.maxRate axis)
  accel axis := accepts_positiveOr _ (sane_default.accel axis)
  maxTravel axis := accepts_positiveOr _ (sane_default.maxTravel axis)
  runCurrent _ := accepts_min_current _
  microsteps _ := accepts_clampMicrosteps _
  holdCurrent _ := accepts_min_current _
  sendDelay := min_delay_le _
  iholdDelay := min_delay_le _
  rSense := accepts_positiveOr _ sane_default.rSense
  rotaryMask := and_rotaryMask _

/-- **A load leaves sound settings as they are.** -/
theorem Sane.sanitized_eq {s : Settings} (h : Sane s) : s.sanitized = s := by
  have hsoft : (s.homingEnabled && s.softLimitsEnable) = s.softLimitsEnable := by
    cases hon : s.softLimitsEnable with
    | false => rw [Bool.and_false]
    | true => rw [h.softLimits hon, Bool.and_true]
  have hpulloff : s.homingPulloffMm.maxZero = s.homingPulloffMm := if_pos h.homingPulloff
  have hrpmMin : s.spindleRpmMin.maxZero = s.spindleRpmMin := if_pos h.spindleRpmMin
  unfold sanitized
  simp only [clampStepPulse_eq h.stepPulse, nonNegativeOr_eq h.junctionDeviation,
    positiveOr_eq h.arcTolerance, hsoft, positiveOr_eq h.homingFeed,
    positiveOr_eq h.homingSeek, hpulloff, positiveOr_eq h.spindleRpmMax, hrpmMin,
    nonNegativeOr_eq h.spindleOnDelay, nonNegativeOr_eq h.spindleReverseDwell,
    clampAutoReportInterval_eq h.autoReportInterval, positiveOr_eq (h.stepsPerMm _),
    positiveOr_eq (h.maxRate _), positiveOr_eq (h.accel _), positiveOr_eq (h.maxTravel _),
    min_current_eq (h.runCurrent _), min_current_eq (h.holdCurrent _),
    clampMicrosteps_eq (h.microsteps _), min_delay_eq h.sendDelay,
    min_delay_eq h.iholdDelay, positiveOr_eq h.rSense, h.rotaryMask]

/-- **Sound settings are those a load leaves as they are.** -/
theorem sanitized_eq_iff {s : Settings} : s.sanitized = s ↔ Sane s :=
  ⟨fun h => h ▸ sane_sanitized s, Sane.sanitized_eq⟩

/-! ## A write -/

/-- What a number addresses is a row of the table. -/
theorem exists_of_lookup {n : ℕ} {field : SettingField} {axis : Fin 4}
    (h : lookupDescriptor n = some (field, axis)) :
    ∃ number, (number, field) ∈ settingDescriptors ∧ number ≤ n
      ∧ n < number + field.axisSpan := by
  obtain ⟨row, hrow, hfound⟩ := List.exists_of_findSome?_eq_some h
  split_ifs at hfound with hrange
  obtain ⟨rfl, -⟩ := Prod.mk.inj (Option.some.inj hfound)
  exact ⟨row.1, hrow, hrange⟩

theorem lookup_homingFlags {n : ℕ} {axis : Fin 4}
    (h : lookupDescriptor n = some (.homingFlags, axis)) : n = 22 := by
  obtain ⟨number, hrow, hle, hlt⟩ := exists_of_lookup h
  have hnumber : number = 22 := by simpa [settingDescriptors] using hrow
  have hspan : SettingField.homingFlags.axisSpan = 1 := rfl
  omega

theorem lookup_rotaryMask {n : ℕ} {axis : Fin 4}
    (h : lookupDescriptor n = some (.rotaryMask, axis)) : n = 376 := by
  obtain ⟨number, hrow, hle, hlt⟩ := exists_of_lookup h
  have hnumber : number = 376 := by simpa [settingDescriptors] using hrow
  have hspan : SettingField.rotaryMask.axisSpan = 1 := rfl
  omega

/-- The write of a text is rejected, or sets the field to its value. -/
theorem parseAndApply_cases (field : SettingField) (s : Settings) (axis : Fin 4)
    (text : List Char) :
    (∃ e, field.parseAndApply s axis text = (.error e, s))
    ∨ ∃ v, field.slot.policy.parse text = .ok v
        ∧ field.parseAndApply s axis text = (.ok (), field.slot.set s axis v) := by
  unfold SettingField.parseAndApply
  cases field.slot.policy.parse text with
  | error e => exact .inl ⟨e, rfl⟩
  | ok v => exact .inr ⟨v, rfl, rfl⟩

/-- **What a write does**: it is rejected and changes nothing, or it sets the field the
number addresses to the value of the text. -/
theorem setCommand_cases (s : Settings) (n : ℕ) (value : List Char) :
    (∃ e, s.setCommand n value = (.error e, s))
    ∨ ∃ (field : SettingField) (axis : Fin 4) (v : field.slot.Value),
        lookupDescriptor n = some (field, axis)
        ∧ field.slot.policy.parse (trim value) = .ok v
        ∧ s.setCommand n value = (.ok (), field.slot.set s axis v)
        ∧ (field = .softLimitsEnable →
            (field.slot.set s axis v).softLimitsEnable = true → s.homingEnabled = true) := by
  cases hlookup : lookupDescriptor n with
  | none =>
    left
    unfold setCommand
    rw [hlookup]
    exact ⟨_, rfl⟩
  | some row =>
    obtain ⟨field, axis⟩ := row
    by_cases hfield : field = .softLimitsEnable
    · subst hfield
      cases hparse : Policy.bool.parse (trim value) with
      | error e =>
        left
        unfold setCommand
        rw [hlookup]
        simp only [if_true, hparse]
        exact ⟨_, rfl⟩
      | ok enabling =>
        by_cases hrefused : (enabling && !s.homingEnabled) = true
        · left
          unfold setCommand
          rw [hlookup]
          simp only [if_true, hparse, hrefused]
          exact ⟨_, rfl⟩
        · have heq : s.setCommand n value
              = SettingField.softLimitsEnable.parseAndApply s axis (trim value) := by
            unfold setCommand
            rw [hlookup]
            simp only [if_true, hparse, hrefused]
            rfl
          rw [heq]
          refine (parseAndApply_cases _ s axis (trim value)).imp id fun ⟨v, hv, hset⟩ => ?_
          refine ⟨_, axis, v, rfl, hv, hset, fun _ hon => ?_⟩
          obtain rfl : enabling = v := Except.ok.inj (hparse.symm.trans hv)
          obtain rfl : enabling = true := hon
          simpa using hrefused
    · have heq : s.setCommand n value = field.parseAndApply s axis (trim value) := by
        unfold setCommand
        rw [hlookup]
        simp only [hfield, if_false]
      rw [heq]
      refine (parseAndApply_cases _ s axis (trim value)).imp id fun ⟨v, hv, hset⟩ => ?_
      exact ⟨field, axis, v, rfl, hv, hset, fun h => absurd h hfield⟩

/-- **A write in range leaves the settings sound**, but for the two fields whose ranges
the write does not check. -/
theorem Sane.set {s : Settings} (h : Sane s) {field : SettingField} {axis : Fin 4}
    {v : field.slot.Value} (hv : field.slot.policy.accepts v = true)
    (hsoft : field = .softLimitsEnable →
      (field.slot.set s axis v).softLimitsEnable = true → s.homingEnabled = true)
    (hhoming : field ≠ .homingFlags) (hrotary : field ≠ .rotaryMask) :
    Sane (field.slot.set s axis v) := by
  have haxis : ∀ {V : Type} {p : Policy V} {values : Axes V} {w : V},
      (∀ a, p.accepts (values a) = true) → p.accepts w = true →
      ∀ a, p.accepts (Function.update values axis w a) = true := fun hall hw a => by
    rcases eq_or_ne a axis with rfl | hne
    · rw [Function.update_self]
      exact hw
    · rw [Function.update_of_ne hne]
      exact hall a
  cases field with
  | stepPulseUs => exact { h with stepPulse := hv }
  | stepIdleDelayMs | stepInvertMask | dirInvertMask | limitInvert | probeInvert
  | probePullupDisable | statusReportMask | hardLimitFlags | homingDirInvertMask
  | homingDebounceMs => exact { h with }
  | junctionDeviationMm => exact { h with junctionDeviation := hv }
  | arcToleranceMm => exact { h with arcTolerance := hv }
  | softLimitsEnable => exact { h with softLimits := hsoft rfl }
  | homingFlags => exact absurd rfl hhoming
  | homingFeedMmMin => exact { h with homingFeed := hv }
  | homingSeekMmMin => exact { h with homingSeek := hv }
  | homingPulloffMm => exact { h with homingPulloff := (Bool.and_eq_true_iff.1 hv).2 }
  | spindleRpmMax => exact { h with spindleRpmMax := hv }
  | spindleRpmMin => exact { h with spindleRpmMin := (Bool.and_eq_true_iff.1 hv).2 }
  | spindleOnDelayS => exact { h with spindleOnDelay := hv }
  | spindleReverseDwellS => exact { h with spindleReverseDwell := hv }
  | autoReportIntervalMs => exact { h with autoReportInterval := hv }
  | stepsPerMm => exact { h with stepsPerMm := haxis h.stepsPerMm hv }
  | maxRateMmMin => exact { h with maxRate := haxis h.maxRate hv }
  | accelMmS2 => exact { h with accel := haxis h.accel hv }
  | maxTravelMm => exact { h with maxTravel := haxis h.maxTravel hv }
  | runCurrentMa => exact { h with runCurrent := haxis h.runCurrent hv }
  | microsteps => exact { h with microsteps := haxis h.microsteps hv }
  | rotaryMask => exact absurd rfl hrotary

theorem Sane.set_homingFlags_iff {s : Settings} (h : Sane s) (flags : UInt8) :
    Sane { s with homingFlags := flags }
      ↔ (s.softLimitsEnable = true → flags &&& homingFlagEnable ≠ 0) := by
  have henabled : ({ s with homingFlags := flags } : Settings).homingEnabled = true
      ↔ flags &&& homingFlagEnable ≠ 0 := by
    show (flags &&& homingFlagEnable != 0) = true ↔ _
    rw [bne_iff_ne]
  refine ⟨fun hsane hon => henabled.1 (hsane.softLimits hon), fun hflags => ?_⟩
  exact { h with softLimits := fun hon => henabled.2 (hflags hon) }

theorem Sane.set_rotaryMask_iff {s : Settings} (h : Sane s) (mask : UInt8) :
    Sane { s with rotaryMask := mask } ↔ mask &&& defaultRotaryMask = mask :=
  ⟨fun hsane => hsane.rotaryMask, fun hmask => { h with rotaryMask := hmask }⟩

/-- A write nothing checks: it disables the homing cycle while soft limits are on, or
names an axis that cannot be rotary. -/
def Unchecked (s : Settings) (n : ℕ) (value : List Char) : Prop :=
  (n = 22 ∧ s.softLimitsEnable = true
    ∧ ∃ flags, Policy.u8.parse (trim value) = .ok flags ∧ flags &&& homingFlagEnable = 0)
  ∨ (n = 376 ∧ ∃ mask, Policy.u8.parse (trim value) = .ok mask
      ∧ mask &&& defaultRotaryMask ≠ mask)

/-- **A write leaves sound settings sound**, unless nothing checks it. -/
theorem Sane.setCommand_iff {s : Settings} (h : Sane s) (n : ℕ) (value : List Char) :
    Sane (s.setCommand n value).2 ↔ ¬Unchecked s n value := by
  have h22 : lookupDescriptor 22 = some (.homingFlags, 0) := by decide
  have h376 : lookupDescriptor 376 = some (.rotaryMask, 0) := by decide
  rcases setCommand_cases s n value with ⟨e, heq⟩ | ⟨field, axis, v, hlookup, hparse, heq, hsoft⟩
  · -- a rejected write sets neither the flags nor the mask
    rw [heq]
    refine iff_of_true h fun hunchecked => ?_
    rcases hunchecked with ⟨rfl, -, flags, hparse, -⟩ | ⟨rfl, mask, hparse, -⟩
    · unfold setCommand SettingField.parseAndApply at heq
      rw [h22] at heq
      have hparse' : SettingField.homingFlags.slot.policy.parse (trim value) = .ok flags := hparse
      simp [hparse'] at heq
    · unfold setCommand SettingField.parseAndApply at heq
      rw [h376] at heq
      have hparse' : SettingField.rotaryMask.slot.policy.parse (trim value) = .ok mask := hparse
      simp [hparse'] at heq
  · rw [heq]
    by_cases hhoming : field = .homingFlags
    · subst hhoming
      obtain rfl := lookup_homingFlags hlookup
      refine (h.set_homingFlags_iff v).trans ⟨fun hflags hunchecked => ?_, fun hnot hon hzero => ?_⟩
      · rcases hunchecked with ⟨-, hon, flags, hflags', hzero⟩ | ⟨h376, -⟩
        · obtain rfl : v = flags := Except.ok.inj (hparse.symm.trans hflags')
          exact hflags hon hzero
        · exact absurd h376 (by norm_num)
      · exact hnot (.inl ⟨rfl, hon, v, hparse, hzero⟩)
    by_cases hrotary : field = .rotaryMask
    · subst hrotary
      obtain rfl := lookup_rotaryMask hlookup
      refine (h.set_rotaryMask_iff v).trans ⟨fun hmask hunchecked => ?_, fun hnot => ?_⟩
      · rcases hunchecked with ⟨h22, -⟩ | ⟨-, mask, hmask', hne⟩
        · exact absurd h22 (by norm_num)
        · obtain rfl : v = mask := Except.ok.inj (hparse.symm.trans hmask')
          exact hne hmask
      · by_contra hne
        exact hnot (.inr ⟨rfl, v, hparse, hne⟩)
    · have haccepts := (Policy.parse_eq_ok_iff.1 hparse).2
      refine iff_of_true (h.set haccepts hsoft hhoming hrotary) fun hunchecked => ?_
      rcases hunchecked with ⟨rfl, -⟩ | ⟨rfl, -⟩
      · rw [h22] at hlookup
        exact hhoming (Prod.mk.inj (Option.some.inj hlookup)).1.symm
      · rw [h376] at hlookup
        exact hrotary (Prod.mk.inj (Option.some.inj hlookup)).1.symm

/-- A rejected write changes nothing. -/
theorem setCommand_error {s : Settings} {n : ℕ} {value : List Char} {e : SettingError}
    (h : (s.setCommand n value).1 = .error e) : (s.setCommand n value).2 = s := by
  rcases setCommand_cases s n value with ⟨e', heq⟩ | ⟨field, axis, v, -, -, heq, -⟩
  · rw [heq]
  · rw [heq] at h
    exact absurd h (by simp)

/-- The state after a write. -/
def write (s : Settings) (op : ℕ × List Char) : Settings := (s.setCommand op.1 op.2).2

/-- **What every write keeps.** For settings a load has left, a write that nothing
checks is what breaks them, and nothing else does: after every other write a load
would change nothing, a rejected write changes nothing, and so every run of writes
that are checked survives a reload. -/
theorem survives_reload (s : Settings) (n : ℕ) (value : List Char)
    (writes : List (ℕ × List Char)) :
    ((s.sanitized.setCommand n value).2.sanitized = (s.sanitized.setCommand n value).2
        ∧ (∀ e, (s.sanitized.setCommand n value).1 = .error e →
            (s.sanitized.setCommand n value).2 = s.sanitized)
      ↔ ¬Unchecked s.sanitized n value)
    ∧ (Allowed write (fun t op => ¬Unchecked t op.1 op.2) s.sanitized writes →
        (writes.foldl write s.sanitized).sanitized = writes.foldl write s.sanitized) := by
  have hsane := sane_sanitized s
  constructor
  · rw [sanitized_eq_iff, ← hsane.setCommand_iff]
    exact and_iff_left fun e => setCommand_error
  · intro hallowed
    rw [sanitized_eq_iff]
    refine hallowed.invariant (fun t op ht hop => ?_) hsane
    exact (ht.setCommand_iff op.1 op.2).2 hop

/-- Homing and soft limits are on. -/
def homed : Settings := { default with homingFlags := 1, softLimitsEnable := true }

/-- **Homing can be disabled under soft limits**, which a reload then disables. -/
theorem not_survives_reload :
    ¬∀ (s : Settings) (n : ℕ) (value : List Char),
      (s.sanitized.setCommand n value).2.sanitized = (s.sanitized.setCommand n value).2 := by
  intro h
  have hsane : Sane homed :=
    { sane_default with softLimits := fun _ => by decide }
  have hreload := h homed 22 ['0']
  rw [hsane.sanitized_eq, sanitized_eq_iff, hsane.setCommand_iff] at hreload
  refine hreload (.inl ⟨rfl, rfl, 0, ?_, by decide⟩)
  rw [Policy.parse_eq_ok_iff]
  exact ⟨rfl, rfl⟩

end Settings

end Galdr
