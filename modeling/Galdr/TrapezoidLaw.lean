import Galdr.MotionProfile
import Galdr.Rmt
import Galdr.SettingsInvariant

/-!
# The law of the trapezoid

A block that can get from its entry speed to its exit speed at its acceleration is planned as a
profile that starts at the entry and ends at the exit, keeps to the nominal speed, gains and
loses squared speed at no more than twice the acceleration, and attains the nominal speed if the
ramps leave room for it (`trapezoid_law`). The profile is the envelope of three lines, so each
of these is a fact about the envelope.

The period of a tick is cut to what the pulse and the rest of a symbol can hold, for every
timing that the settings make.
-/

namespace Galdr

variable {K : Type} [Field K] [LinearOrder K]

/-! ## The timing of the settings -/

section Timing

variable [FloorRing K]

/-- Microseconds in ticks of the timer. -/
def usToTicks (us : UInt32) (tickHz : K) : ℕ :=
  -- `roundf(ticks) as u32` saturates.
  min (roundf ((us.toNat : K) * tickHz / ((1000000 : ℕ) : K))).toNat 4294967295

/-- The frequency of the timer of the firmware. -/
def motionTickHz : K := ((1000000 : ℕ) : K)

/-- The timing that the settings make. The rest between two pulses is no setting. -/
def Settings.motionConfig (s : Settings) (tickHz : K) : MotionConfig K where
  tickHz := tickHz
  stepPulseTicks := usToTicks s.stepPulseUs tickHz
  minLowTicks := 2

/-- A period that a symbol can hold: the pulse and the rest fit their fields, and are not
empty. -/
structure PeriodFits (config : MotionConfig K) (period : ℕ) : Prop where
  /-- There is a pulse. -/
  pulse_pos : 1 ≤ config.stepPulseTicks
  /-- The pulse fits. -/
  pulse_le : config.stepPulseTicks ≤ rmtMaxFieldLen
  /-- The rest is no shorter than the driver wants it. -/
  rest_pos : config.stepPulseTicks + config.minLowTicks ≤ period
  /-- The rest fits. -/
  rest_le : period - config.stepPulseTicks ≤ rmtMaxFieldLen

variable [IsStrictOrderedRing K]

theorem roundf_natCast (n : ℕ) : roundf (n : K) = n := by
  have hhalf : (1 : K) / 2 < 1 := half_lt_self one_pos
  unfold roundf
  rw [if_pos n.cast_nonneg, Int.floor_natCast_add, Int.floor_eq_zero_iff.2 ⟨by positivity, hhalf⟩,
    add_zero]

/-- A tick of the firmware is a microsecond. -/
theorem usToTicks_motionTickHz (us : UInt32) : usToTicks us (motionTickHz : K) = us.toNat := by
  have hmillion : ((1000000 : ℕ) : K) ≠ 0 := Nat.cast_ne_zero.2 (by decide)
  have hlt : us.toNat < 4294967296 := us.toNat_lt
  unfold usToTicks motionTickHz
  rw [mul_div_cancel_right₀ _ hmillion, roundf_natCast, Int.toNat_natCast]
  omega

variable [Libm K]

/-- A period of the generator fits, for every timing that sound settings make. -/
theorem periodFits (s : Settings) (hpulse : Policy.stepPulseUs.accepts s.stepPulseUs = true)
    (block : Block K) (dominant : Fin 4) (vSq : K) :
    PeriodFits (s.motionConfig (motionTickHz : K))
      ((StepTiming.forBlock (s.motionConfig motionTickHz) block dominant).periodTicks vSq) := by
  have hticks : (s.motionConfig (motionTickHz : K)).stepPulseTicks = s.stepPulseUs.toNat :=
    usToTicks_motionTickHz _
  have hrange : 1 ≤ s.stepPulseUs.toNat ∧ s.stepPulseUs.toNat ≤ 1000 := by
    have hboth : (decide (1 ≤ s.stepPulseUs) && decide (s.stepPulseUs ≤ 1000)) = true := hpulse
    rw [Bool.and_eq_true, decide_eq_true_eq, decide_eq_true_eq] at hboth
    exact hboth
  obtain ⟨hmin, hmax⟩ := periodTicks_mem (s.motionConfig (motionTickHz : K)) block dominant vSq
  have hlow : (s.motionConfig (motionTickHz : K)).minLowTicks = 2 := rfl
  unfold MotionConfig.minPeriodTicks at hmin
  unfold MotionConfig.maxPeriodTicks MotionConfig.minPeriodTicks rmtMaxFieldLen at hmax
  constructor
  · omega
  · unfold rmtMaxFieldLen
    omega
  · omega
  · unfold rmtMaxFieldLen
    omega

end Timing

/-! ## The law -/

variable [IsStrictOrderedRing K]

/-- What a profile of a length, with squared speeds and an acceleration, should do. -/
structure LawfulProfile (profile : TrapezoidProfile K) (length acceleration entry nominal exit : K) :
    Prop where
  /-- It starts at the entry speed. -/
  start : profile.velocitySqAt 0 = entry * entry
  /-- It ends at the exit speed. -/
  finish : profile.velocitySqAt length = exit * exit
  /-- It never exceeds the nominal speed. -/
  below : ∀ d, 0 ≤ d → d ≤ length → profile.velocitySqAt d ≤ nominal * nominal
  /-- Squared speed changes by no more than the acceleration allows. -/
  slope : ∀ x y, 0 ≤ x → x ≤ length → 0 ≤ y → y ≤ length →
    |profile.velocitySqAt x - profile.velocitySqAt y| ≤ 2 * acceleration * |x - y|
  /-- It attains the nominal speed if the ramps fit. -/
  peak : (nominal * nominal - entry * entry) / (2 * acceleration)
      + (nominal * nominal - exit * exit) / (2 * acceleration) ≤ length →
    ∃ d, 0 ≤ d ∧ d ≤ length ∧ profile.velocitySqAt d = nominal * nominal

variable {block : Block K} {entry nominal exit : K}

/-- Speeds below the nominal speed make a block that can be run. -/
theorem runnable_of_speeds (hlength : 0 < block.millimeters) (haccel : 0 < block.acceleration)
    (hentry : 0 ≤ entry) (hentry' : entry ≤ nominal) (hexit : 0 ≤ exit)
    (hexit' : exit ≤ nominal) :
    Runnable block (entry * entry) (nominal * nominal) (exit * exit) where
  millimeters_pos := hlength
  acceleration_pos := haccel
  entry_nonneg := mul_self_nonneg entry
  entry_le := mul_self_le_mul_self hentry hentry'
  exit_nonneg := mul_self_nonneg exit
  exit_le := mul_self_le_mul_self hexit hexit'

/-- A block that can get from its entry to its exit is planned as a lawful profile. -/
theorem lawfulProfile (h : Runnable block (entry * entry) (nominal * nominal) (exit * exit))
    (hreach : |exit * exit - entry * entry| ≤ 2 * block.acceleration * block.millimeters) :
    LawfulProfile (.planScaled block ⟨entry * entry, nominal * nominal⟩ (exit * exit))
      block.millimeters block.acceleration entry nominal exit := by
  have hslope := h.slope_pos
  obtain ⟨hbrake, hgain⟩ := abs_le.1 hreach
  have henvelope {d : K} (h0 : 0 ≤ d) (hd : d ≤ block.millimeters) :=
    h.velocitySqAt_planScaled (by linarith) h0 hd
  constructor
  · exact h.velocitySqAt_zero
  · rw [h.velocitySqAt_millimeters]
    exact min_eq_left (by linarith)
  · intro d h0 hd
    rw [henvelope h0 hd]
    exact min_le_left _ _
  · intro x y hx hx' hy hy'
    rw [henvelope hx hx', henvelope hy hy']
    exact Trapezoid.abs_envelope_sub_le hslope.le x y
  · intro hroom
    set s := 2 * block.acceleration with hs
    set up := (nominal * nominal - entry * entry) / s with hup
    set down := (nominal * nominal - exit * exit) / s with hdown
    have hup0 : 0 ≤ up := div_nonneg (sub_nonneg.2 h.entry_le) hslope.le
    have hdown0 : 0 ≤ down := div_nonneg (sub_nonneg.2 h.exit_le) hslope.le
    have hsup : s * up = nominal * nominal - entry * entry := mul_div_cancel₀ _ hslope.ne'
    have hsdown : s * down = nominal * nominal - exit * exit := mul_div_cancel₀ _ hslope.ne'
    have hrest : s * down ≤ s * (block.millimeters - up) :=
      mul_le_mul_of_nonneg_left (by linarith) hslope.le
    refine ⟨up, hup0, by linarith, ?_⟩
    rw [henvelope hup0 (by linarith)]
    exact Trapezoid.envelope_eq_cruise (by linarith) (by linarith)

/-- A profile between speeds below the nominal speed obeys the law, and each period that is
computed from it fits the symbol that it is sent in, for every timing of sound settings. -/
theorem trapezoid_law [FloorRing K] [Libm K] (hlength : 0 < block.millimeters)
    (haccel : 0 < block.acceleration) (hentry : 0 ≤ entry) (hentry' : entry ≤ nominal)
    (hexit : 0 ≤ exit) (hexit' : exit ≤ nominal)
    (hreach : |exit * exit - entry * entry| ≤ 2 * block.acceleration * block.millimeters) :
    LawfulProfile (.planScaled block ⟨entry * entry, nominal * nominal⟩ (exit * exit))
        block.millimeters block.acceleration entry nominal exit ∧
      ∀ s : Settings, Policy.stepPulseUs.accepts s.stepPulseUs = true → ∀ dominant d,
        PeriodFits (s.motionConfig (motionTickHz : K))
          ((StepTiming.forBlock (s.motionConfig motionTickHz) block dominant).periodTicks
            ((TrapezoidProfile.planScaled block ⟨entry * entry, nominal * nominal⟩
              (exit * exit)).velocitySqAt d)) :=
  ⟨lawfulProfile (runnable_of_speeds hlength haccel hentry hentry' hexit hexit') hreach,
    fun s hpulse dominant _ => periodFits s hpulse block dominant _⟩

/-- A move of ten millimetres. -/
def tenMillimetres : Block ℚ :=
  { (Block.placeholder ![1000, 0, 0, 0] : Block ℚ) with millimeters := 10, acceleration := 100 }

/-- From rest, up to twenty millimetres a second, and out at ten. -/
theorem trapezoid_law_tenMillimetres :
    LawfulProfile (.planScaled tenMillimetres ⟨0 * 0, 20 * 20⟩ (10 * 10)) 10 100 0 20 10 := by
  have hlength : 0 < tenMillimetres.millimeters := by decide
  have hreach : |(10 : ℚ) * 10 - 0 * 0|
      ≤ 2 * tenMillimetres.acceleration * tenMillimetres.millimeters := by
    norm_num [tenMillimetres]
  exact (trapezoid_law hlength (by decide) le_rfl (by norm_num) (by norm_num) (by norm_num)
    hreach).1

end Galdr
