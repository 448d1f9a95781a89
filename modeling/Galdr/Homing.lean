import Galdr.SettingsInvariant
import Galdr.PlannerCommands

/-!
# The homing cycle

A homing cycle drives each of its axes into the limit switch, backs off, finds the
switch again slowly and backs off a last time. What it leaves is the position the axes
are set to, which depends on the settings alone; whether it gets there depends on the
switches. The planner takes the position over, and its soft limits hold from then on.

The numbers of the settings are read as elements of the ordered field of the planner.
-/

namespace Galdr

open Settings

/-- Which end of an axis its switch is at. -/
inductive HomeDirection
  | positive
  | negative
  deriving DecidableEq, Repr

/-- The axes that home together, in the order of the groups. -/
def homingGroups : List (List (Fin 4)) := [[zAxis], [xAxis, yAxis]]

/-- The axes a cycle homes. -/
def homedAxes : List (Fin 4) := homingGroups.flatten

/-- Why a homing cycle fails. -/
inductive HomingError
  /-- A search ended without the switch. -/
  | noContact (axis : Fin 4)
  /-- No search can be computed. -/
  | invalidConfig (axis : Fin 4)
  /-- The step output failed. -/
  | sink
  deriving DecidableEq, Repr

/-- The settings of a homing cycle. -/
structure HomingConfig (K : Type) where
  /-- Steps per millimetre. -/
  stepsPerMm : Axes K
  /-- The travel of each axis. -/
  maxTravelMm : Axes K
  /-- How far an axis backs off its switch. -/
  pulloffMm : K
  /-- Where the switches are. -/
  direction : Fin 4 → HomeDirection
  /-- The homed position is the origin. -/
  forceSetOrigin : Bool

section Cycle

variable {K : Type} [Field K] [LinearOrder K] [FloorRing K]

/-- `HOMING_SEARCH_SCALAR`. -/
def homingSearchScalar : K := 3 / 2

/-- A distance in steps: nothing for a distance that is not positive, and at most the
greatest signed value. -/
def mmToStepsSafe (mm stepsPerMm : K) : ℕ :=
  let steps := roundf (mm * stepsPerMm)
  if 0 < steps then (min steps i32Max).toNat else 0

namespace HomingConfig

/-- How far a search goes. -/
def searchSteps (config : HomingConfig K) (axis : Fin 4) : ℕ :=
  mmToStepsSafe (homingSearchScalar * config.maxTravelMm axis) (config.stepsPerMm axis)

/-- How far an axis backs off its switch. -/
def pulloffSteps (config : HomingConfig K) (axis : Fin 4) : ℕ :=
  mmToStepsSafe config.pulloffMm (config.stepsPerMm axis)

/-- The position an axis is set to. -/
def machineZeroSteps (config : HomingConfig K) (axis : Fin 4) : Int32 :=
  if config.forceSetOrigin then 0
  else match config.direction axis with
    | .positive => satI32 (-config.pulloffSteps axis)
    | .negative =>
      satAdd (satI32 (mmToStepsSafe (config.maxTravelMm axis) (config.stepsPerMm axis)))
        (config.pulloffSteps axis)

/-- How a stretch of steps ended. -/
inductive StretchEnd
  /-- The switch tripped. -/
  | tripped
  /-- All steps were made. -/
  | finished
  /-- The step output failed. -/
  | failed
  deriving DecidableEq, Repr

/-- How the four stretches of an axis end. -/
structure AxisRun where
  /-- The fast search. -/
  seek : StretchEnd
  /-- The first way back. -/
  pullOff : StretchEnd
  /-- The slow search. -/
  locate : StretchEnd
  /-- The last way back. -/
  finalPullOff : StretchEnd
  deriving DecidableEq

/-- A search for the switch. -/
def seekIntoSwitch (axis : Fin 4) : StretchEnd → Except HomingError Unit
  | .tripped => .ok ()
  | .finished => .error (.noContact axis)
  | .failed => .error .sink

/-- A way back off the switch, which does not watch it. -/
def pullOff (pulloff : ℕ) (stretch : StretchEnd) : Except HomingError Unit :=
  if pulloff = 0 then .ok ()
  else match stretch with
    | .failed => .error .sink
    | _ => .ok ()

/-- The homing of one axis: the position it is set to. -/
def homeAxis (config : HomingConfig K) (axis : Fin 4) (run : AxisRun) :
    Except HomingError Int32 :=
  if config.searchSteps axis = 0 then .error (.invalidConfig axis)
  else do
    seekIntoSwitch axis run.seek
    pullOff (config.pulloffSteps axis) run.pullOff
    seekIntoSwitch axis run.locate
    pullOff (config.pulloffSteps axis) run.finalPullOff
    return config.machineZeroSteps axis

/-- The homing of some axes, one after the other, from the position before. -/
def homeAxes (config : HomingConfig K) (runs : Fin 4 → AxisRun) :
    List (Fin 4) → Axes Int32 → Except HomingError (Axes Int32)
  | [], zeroSteps => .ok zeroSteps
  | axis :: axes, zeroSteps =>
    match config.homeAxis axis (runs axis) with
    | .error e => .error e
    | .ok steps => config.homeAxes runs axes (Function.update zeroSteps axis steps)

/-- A homing cycle: the position the machine is set to. -/
def runHoming (config : HomingConfig K) (runs : Fin 4 → AxisRun) (position : Axes Int32) :
    Except HomingError (Axes Int32) :=
  config.homeAxes runs homedAxes position

end HomingConfig

end Cycle

/-! ## The configurations of the settings -/

namespace Settings

/-- The number of an axis, of the field. -/
def axisValue {K : Type} [Field K] (values : Axes F32) : Axes K := fun axis =>
  ((values axis).toRat : K)

variable {K : Type} [Field K] [LinearOrder K]

/-- A number that must be positive is positive in the field. -/
theorem toRat_pos_of_accepts {x : F32} (h : Policy.f32Positive.accepts x = true) :
    0 < x.toRat := by
  cases x with
  | nan => exact absurd h (by simp [Policy.f32Positive, Policy.f32, F32.isFinite])
  | inf negative => exact absurd h (by simp [Policy.f32Positive, Policy.f32, F32.isFinite])
  | finite negative m =>
    cases negative with
    | true => exact absurd h (by simp [Policy.f32Positive, Policy.f32, F32.positive])
    | false =>
      have hne : m.value ≠ 0 := by
        simpa [Policy.f32Positive, Policy.f32, F32.isFinite, F32.positive] using h
      exact lt_of_le_of_ne m.representable.nonneg hne.symm

theorem toRat_nonneg {x : F32} (h : x.nonnegative = true) : 0 ≤ x.toRat := by
  cases x with
  | nan => exact le_rfl
  | inf negative => exact le_rfl
  | finite negative m =>
    cases negative with
    | false => exact m.representable.nonneg
    | true =>
      have hzero : m.value = 0 := by simpa [F32.nonnegative] using h
      show 0 ≤ -m.value
      rw [hzero, neg_zero]

variable [IsStrictOrderedRing K]

theorem axisValue_pos {values : Axes F32}
    (h : ∀ axis, Policy.f32Positive.accepts (values axis) = true) (axis : Fin 4) :
    (0 : K) < axisValue values axis :=
  Rat.cast_pos.2 (toRat_pos_of_accepts (h axis))

/-- **Sound settings configure the planner**: what it relies on is what a load leaves. -/
def plannerConfig (s : Settings) (h : Sane s) : PlannerConfig K where
  stepsPerMm := axisValue s.stepsPerMm
  maxRateMmMin := axisValue s.maxRateMmMin
  accelMmS2 := axisValue s.accelMmS2
  junctionDeviationMm := (s.junctionDeviationMm.toRat : K)
  arcToleranceMm := (s.arcToleranceMm.toRat : K)
  rotaryMask := s.rotaryMask
  stepsPerMm_pos := axisValue_pos h.stepsPerMm
  maxRateMmMin_pos := axisValue_pos h.maxRate
  accelMmS2_pos := axisValue_pos h.accel
  junctionDeviationMm_nonneg :=
    Rat.cast_nonneg.2 (toRat_nonneg (Bool.and_eq_true_iff.1 h.junctionDeviation).2)
  arcToleranceMm_pos := Rat.cast_pos.2 (toRat_pos_of_accepts h.arcTolerance)

omit [LinearOrder K] [IsStrictOrderedRing K] in
/-- The direction of an axis, by its bit of `$23`. -/
def homeDirection (s : Settings) (axis : Fin 4) : HomeDirection :=
  if s.homingDirInvertMask &&& (1 <<< UInt8.ofNat axis) != 0 then .negative else .positive

/-- The settings of the homing cycle. -/
def homingConfig (s : Settings) : HomingConfig K where
  stepsPerMm := axisValue s.stepsPerMm
  maxTravelMm := axisValue s.maxTravelMm
  pulloffMm := (s.homingPulloffMm.toRat : K)
  direction := s.homeDirection
  forceSetOrigin := s.homingForceSetOrigin

/-- The envelope of the soft limits: there is one when they are enabled and the machine
is homed. -/
def currentSoftLimits (s : Settings) (homed : Bool) : Option (SoftLimits K) :=
  if homed && s.softLimitsEnable then some ⟨axisValue s.maxTravelMm⟩ else none

/-- Sound settings make no axis that is homed angular. -/
theorem isRotary_of_mem_homedAxes {s : Settings} (h : Sane s) :
    ∀ axis ∈ homedAxes, (s.plannerConfig h : PlannerConfig K).isRotary axis = false := by
  intro axis haxis
  have hbit : ∀ mask : UInt8, mask &&& defaultRotaryMask = mask →
      rotaryBit mask axis = false := by
    intro mask hmask
    have hclear : defaultRotaryMask &&& (1 <<< UInt8.ofNat axis) = 0 := by
      revert axis
      decide
    unfold rotaryBit
    rw [← hmask, UInt8.and_assoc, hclear, UInt8.and_zero]
    rfl
  exact hbit s.rotaryMask h.rotaryMask

end Settings

end Galdr
