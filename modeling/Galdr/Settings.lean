import Galdr.SettingsPolicy
import Galdr.Planner

/-!
# The settings

The settings of the machine, the table that names them by number, the write of one
setting, the dump of all of them, and the repair that is made of a record that was
loaded. The table is the one authority: the write, the dump and its order all come
from it.

A slot of the table names a field of the settings, for each axis where the field has
one value an axis, and the policy of its values.
-/

namespace Galdr

open Text

/-- The settings that are kept. -/
structure Settings where
  /-- `$0`. -/
  stepPulseUs : UInt32
  /-- `$1`. -/
  stepIdleDelayMs : UInt32
  /-- `$2`. -/
  stepInvertMask : UInt8
  /-- `$3`. -/
  dirInvertMask : UInt8
  /-- `$5`. -/
  limitInvert : Bool
  /-- `$6`. -/
  probeInvert : Bool
  /-- `$19`. -/
  probePullupDisable : Bool
  /-- `$10`. -/
  statusReportMask : UInt8
  /-- `$11`. -/
  junctionDeviationMm : F32
  /-- `$12`. -/
  arcToleranceMm : F32
  /-- `$20`. -/
  softLimitsEnable : Bool
  /-- `$21`. -/
  hardLimitFlags : UInt8
  /-- `$22`. -/
  homingFlags : UInt8
  /-- `$23`. -/
  homingDirInvertMask : UInt8
  /-- `$24`. -/
  homingFeedMmMin : F32
  /-- `$25`. -/
  homingSeekMmMin : F32
  /-- `$26`. -/
  homingDebounceMs : UInt32
  /-- `$27`. -/
  homingPulloffMm : F32
  /-- `$30`. -/
  spindleRpmMax : F32
  /-- `$31`. -/
  spindleRpmMin : F32
  /-- `$392`. -/
  spindleOnDelayS : F32
  /-- `$393`. -/
  spindleReverseDwellS : F32
  /-- `$481`. -/
  autoReportIntervalMs : UInt32
  /-- `$100` to `$103`. -/
  stepsPerMm : Axes F32
  /-- `$110` to `$113`. -/
  maxRateMmMin : Axes F32
  /-- `$120` to `$123`. -/
  accelMmS2 : Axes F32
  /-- `$130` to `$133`. -/
  maxTravelMm : Axes F32
  /-- `$140` to `$143`. -/
  runCurrentMa : Axes UInt16
  /-- `$150` to `$153`. -/
  microsteps : Axes UInt16
  /-- The holding current, which no number writes. -/
  holdCurrentMa : Axes UInt16
  /-- `IHOLDDELAY` of the stepper drivers. -/
  tmcIholdDelay : UInt8
  /-- `TPOWERDOWN` of the stepper drivers. -/
  tmcTpowerdown : UInt8
  /-- `TPWMTHRS` of the stepper drivers. -/
  tmcTpwmthrs : UInt32
  /-- `SENDDELAY` of the stepper drivers. -/
  tmcSendDelay : UInt8
  /-- The sense resistor of the stepper drivers. -/
  tmcRSenseOhms : F32
  /-- `$376`. -/
  rotaryMask : UInt8

/-- A literal of the source. -/
def lit (q : NNRat) : F32 := F32.ofRat false q

/-- `DEFAULT_ROTARY_MASK`: the A axis. -/
def defaultRotaryMask : UInt8 := 8

namespace Settings

/-- `HOMING_FLAG_ENABLE`. -/
def homingFlagEnable : UInt8 := 1

/-- `HOMING_FLAG_FORCE_SET_ORIGIN`. -/
def homingFlagForceSetOrigin : UInt8 := 8

/-- The settings of a new machine. -/
def default : Settings where
  stepPulseUs := 10
  stepIdleDelayMs := 25
  stepInvertMask := 0
  dirInvertMask := 0
  limitInvert := false
  probeInvert := false
  probePullupDisable := false
  statusReportMask := 0
  junctionDeviationMm := lit (1 / 100)
  arcToleranceMm := lit (2 / 1000)
  softLimitsEnable := false
  hardLimitFlags := 0
  homingFlags := 0
  homingDirInvertMask := 0
  homingFeedMmMin := lit 100
  homingSeekMmMin := lit 500
  homingDebounceMs := 25
  homingPulloffMm := lit 1
  spindleRpmMax := lit 12000
  spindleRpmMin := F32.zero
  spindleOnDelayS := F32.zero
  spindleReverseDwellS := lit (3 / 2)
  autoReportIntervalMs := 0
  stepsPerMm := ![lit 800, lit 800, lit 3200, lit (8889 / 1000)]
  maxRateMmMin := ![lit 2400, lit 2400, lit 600, lit 3600]
  accelMmS2 := ![lit 100, lit 100, lit 50, lit 360]
  maxTravelMm := fun _ => lit 200
  runCurrentMa := fun _ => 800
  microsteps := fun _ => 16
  holdCurrentMa := fun _ => 400
  tmcIholdDelay := 7
  tmcTpowerdown := 20
  tmcTpwmthrs := 0
  tmcSendDelay := 2
  tmcRSenseOhms := lit (5 / 100)
  rotaryMask := defaultRotaryMask

/-- `$22` enables the homing cycle. -/
def homingEnabled (s : Settings) : Bool := s.homingFlags &&& homingFlagEnable != 0

/-- `$22` sets the machine origin where the homing cycle ends. -/
def homingForceSetOrigin (s : Settings) : Bool :=
  s.homingFlags &&& homingFlagForceSetOrigin != 0

/-! ## The repair of a record -/

/-- The value if it is positive and finite, and otherwise the fallback. -/
def positiveOr (x fallback : F32) : F32 := if x.isFinite && x.positive then x else fallback

/-- The value if it is finite and not negative, and otherwise the fallback. -/
def nonNegativeOr (x fallback : F32) : F32 :=
  if x.isFinite && x.nonnegative then x else fallback

/-- An interval of reports pulled into its range; zero is kept. -/
def clampAutoReportInterval (value : UInt32) : UInt32 :=
  if value = 0 then 0
  else if value < Policy.autoReportIntervalMinMs then Policy.autoReportIntervalMinMs
  else if Policy.autoReportIntervalMaxMs < value then Policy.autoReportIntervalMaxMs
  else value

/-- A resolution the stepper driver has. -/
def clampMicrosteps (value : UInt16) : UInt16 :=
  if Policy.microstepValues.contains value then value else 16

/-- A step pulse within its range. -/
def clampStepPulse (value : UInt32) : UInt32 :=
  if value < 1 then 1 else if 1000 < value then 1000 else value

/-- The settings with every field in a range the machine can run with. -/
def sanitized (s : Settings) : Settings :=
  { s with
    stepPulseUs := clampStepPulse s.stepPulseUs
    junctionDeviationMm := nonNegativeOr s.junctionDeviationMm default.junctionDeviationMm
    arcToleranceMm := positiveOr s.arcToleranceMm default.arcToleranceMm
    homingFeedMmMin := positiveOr s.homingFeedMmMin default.homingFeedMmMin
    homingSeekMmMin := positiveOr s.homingSeekMmMin default.homingSeekMmMin
    homingPulloffMm := s.homingPulloffMm.maxZero
    spindleRpmMax := positiveOr s.spindleRpmMax default.spindleRpmMax
    spindleRpmMin := s.spindleRpmMin.maxZero
    spindleOnDelayS := nonNegativeOr s.spindleOnDelayS default.spindleOnDelayS
    spindleReverseDwellS := nonNegativeOr s.spindleReverseDwellS default.spindleReverseDwellS
    autoReportIntervalMs := clampAutoReportInterval s.autoReportIntervalMs
    softLimitsEnable := s.homingEnabled && s.softLimitsEnable
    stepsPerMm := fun axis => positiveOr (s.stepsPerMm axis) (default.stepsPerMm axis)
    maxRateMmMin := fun axis => positiveOr (s.maxRateMmMin axis) (default.maxRateMmMin axis)
    accelMmS2 := fun axis => positiveOr (s.accelMmS2 axis) (default.accelMmS2 axis)
    maxTravelMm := fun axis => positiveOr (s.maxTravelMm axis) (default.maxTravelMm axis)
    runCurrentMa := fun axis => min (s.runCurrentMa axis) Policy.maxMotorCurrentMa
    holdCurrentMa := fun axis => min (s.holdCurrentMa axis) Policy.maxMotorCurrentMa
    microsteps := fun axis => clampMicrosteps (s.microsteps axis)
    tmcSendDelay := min s.tmcSendDelay 15
    tmcIholdDelay := min s.tmcIholdDelay 15
    tmcRSenseOhms := positiveOr s.tmcRSenseOhms default.tmcRSenseOhms
    rotaryMask := s.rotaryMask &&& defaultRotaryMask }

/-! ## The table -/

/-- The field a row of the table drives. -/
inductive SettingField
  | stepPulseUs
  | stepIdleDelayMs
  | stepInvertMask
  | dirInvertMask
  | limitInvert
  | probeInvert
  | probePullupDisable
  | statusReportMask
  | junctionDeviationMm
  | arcToleranceMm
  | softLimitsEnable
  | hardLimitFlags
  | homingFlags
  | homingDirInvertMask
  | homingFeedMmMin
  | homingSeekMmMin
  | homingDebounceMs
  | homingPulloffMm
  | spindleRpmMax
  | spindleRpmMin
  | spindleOnDelayS
  | spindleReverseDwellS
  | autoReportIntervalMs
  | stepsPerMm
  | maxRateMmMin
  | accelMmS2
  | maxTravelMm
  | runCurrentMa
  | microsteps
  | rotaryMask
  deriving DecidableEq, Repr

/-- Where the values of a field are, and their policy. -/
structure Slot where
  /-- The type of the values. -/
  Value : Type
  /-- How they are read and printed. -/
  policy : Policy Value
  /-- The value of an axis; a field with one value has it for every axis. -/
  get : Settings → Fin 4 → Value
  /-- A write of the value of an axis. -/
  set : Settings → Fin 4 → Value → Settings

namespace SettingField

/-- How many numbers the field has. -/
def axisSpan : SettingField → ℕ
  | stepsPerMm | maxRateMmMin | accelMmS2 | maxTravelMm | runCurrentMa | microsteps => 4
  | _ => 1

/-- The slot of a field. -/
def slot : SettingField → Slot
  | stepPulseUs => ⟨_, Policy.stepPulseUs, fun s _ => s.stepPulseUs,
      fun s _ v => { s with stepPulseUs := v }⟩
  | stepIdleDelayMs => ⟨_, Policy.u32, fun s _ => s.stepIdleDelayMs,
      fun s _ v => { s with stepIdleDelayMs := v }⟩
  | stepInvertMask => ⟨_, Policy.u8, fun s _ => s.stepInvertMask,
      fun s _ v => { s with stepInvertMask := v }⟩
  | dirInvertMask => ⟨_, Policy.u8, fun s _ => s.dirInvertMask,
      fun s _ v => { s with dirInvertMask := v }⟩
  | limitInvert => ⟨_, Policy.bool, fun s _ => s.limitInvert,
      fun s _ v => { s with limitInvert := v }⟩
  | probeInvert => ⟨_, Policy.bool, fun s _ => s.probeInvert,
      fun s _ v => { s with probeInvert := v }⟩
  | probePullupDisable => ⟨_, Policy.bool, fun s _ => s.probePullupDisable,
      fun s _ v => { s with probePullupDisable := v }⟩
  | statusReportMask => ⟨_, Policy.u8, fun s _ => s.statusReportMask,
      fun s _ v => { s with statusReportMask := v }⟩
  | junctionDeviationMm => ⟨_, Policy.f32NonNegative, fun s _ => s.junctionDeviationMm,
      fun s _ v => { s with junctionDeviationMm := v }⟩
  | arcToleranceMm => ⟨_, Policy.f32Positive, fun s _ => s.arcToleranceMm,
      fun s _ v => { s with arcToleranceMm := v }⟩
  | softLimitsEnable => ⟨_, Policy.bool, fun s _ => s.softLimitsEnable,
      fun s _ v => { s with softLimitsEnable := v }⟩
  | hardLimitFlags => ⟨_, Policy.u8, fun s _ => s.hardLimitFlags,
      fun s _ v => { s with hardLimitFlags := v }⟩
  | homingFlags => ⟨_, Policy.u8, fun s _ => s.homingFlags,
      fun s _ v => { s with homingFlags := v }⟩
  | homingDirInvertMask => ⟨_, Policy.u8, fun s _ => s.homingDirInvertMask,
      fun s _ v => { s with homingDirInvertMask := v }⟩
  | homingFeedMmMin => ⟨_, Policy.f32Positive, fun s _ => s.homingFeedMmMin,
      fun s _ v => { s with homingFeedMmMin := v }⟩
  | homingSeekMmMin => ⟨_, Policy.f32Positive, fun s _ => s.homingSeekMmMin,
      fun s _ v => { s with homingSeekMmMin := v }⟩
  | homingDebounceMs => ⟨_, Policy.u32, fun s _ => s.homingDebounceMs,
      fun s _ v => { s with homingDebounceMs := v }⟩
  | homingPulloffMm => ⟨_, Policy.f32NonNegative, fun s _ => s.homingPulloffMm,
      fun s _ v => { s with homingPulloffMm := v }⟩
  | spindleRpmMax => ⟨_, Policy.f32Positive, fun s _ => s.spindleRpmMax,
      fun s _ v => { s with spindleRpmMax := v }⟩
  | spindleRpmMin => ⟨_, Policy.f32NonNegative, fun s _ => s.spindleRpmMin,
      fun s _ v => { s with spindleRpmMin := v }⟩
  | spindleOnDelayS => ⟨_, Policy.f32NonNegative, fun s _ => s.spindleOnDelayS,
      fun s _ v => { s with spindleOnDelayS := v }⟩
  | spindleReverseDwellS => ⟨_, Policy.f32NonNegative, fun s _ => s.spindleReverseDwellS,
      fun s _ v => { s with spindleReverseDwellS := v }⟩
  | autoReportIntervalMs => ⟨_, Policy.autoReportInterval, fun s _ => s.autoReportIntervalMs,
      fun s _ v => { s with autoReportIntervalMs := v }⟩
  | stepsPerMm => ⟨_, Policy.f32Positive, fun s => s.stepsPerMm,
      fun s axis v => { s with stepsPerMm := Function.update s.stepsPerMm axis v }⟩
  | maxRateMmMin => ⟨_, Policy.f32Positive, fun s => s.maxRateMmMin,
      fun s axis v => { s with maxRateMmMin := Function.update s.maxRateMmMin axis v }⟩
  | accelMmS2 => ⟨_, Policy.f32Positive, fun s => s.accelMmS2,
      fun s axis v => { s with accelMmS2 := Function.update s.accelMmS2 axis v }⟩
  | maxTravelMm => ⟨_, Policy.f32Positive, fun s => s.maxTravelMm,
      fun s axis v => { s with maxTravelMm := Function.update s.maxTravelMm axis v }⟩
  | runCurrentMa => ⟨_, Policy.currentMa, fun s => s.runCurrentMa,
      fun s axis v => { s with runCurrentMa := Function.update s.runCurrentMa axis v }⟩
  | microsteps => ⟨_, Policy.microsteps, fun s => s.microsteps,
      fun s axis v => { s with microsteps := Function.update s.microsteps axis v }⟩
  | rotaryMask => ⟨_, Policy.u8, fun s _ => s.rotaryMask,
      fun s _ v => { s with rotaryMask := v }⟩

/-- The write of a text; a text that is rejected leaves the settings as they are. -/
def parseAndApply (field : SettingField) (s : Settings) (axis : Fin 4) (value : List Char) :
    Except SettingError Unit × Settings :=
  match field.slot.policy.parse value with
  | .ok v => (.ok (), field.slot.set s axis v)
  | .error e => (.error e, s)

/-- The printed value. -/
def format (field : SettingField) (s : Settings) (axis : Fin 4) : List Char :=
  field.slot.policy.print (field.slot.get s axis)

end SettingField

/-- The table, in the order of the dump. -/
def settingDescriptors : List (ℕ × SettingField) :=
  [(0, .stepPulseUs), (1, .stepIdleDelayMs), (2, .stepInvertMask), (3, .dirInvertMask),
    (5, .limitInvert), (6, .probeInvert), (10, .statusReportMask),
    (11, .junctionDeviationMm), (12, .arcToleranceMm), (19, .probePullupDisable),
    (20, .softLimitsEnable), (21, .hardLimitFlags), (22, .homingFlags),
    (23, .homingDirInvertMask), (24, .homingFeedMmMin), (25, .homingSeekMmMin),
    (26, .homingDebounceMs), (27, .homingPulloffMm), (30, .spindleRpmMax),
    (31, .spindleRpmMin), (392, .spindleOnDelayS), (393, .spindleReverseDwellS),
    (481, .autoReportIntervalMs), (100, .stepsPerMm), (110, .maxRateMmMin),
    (120, .accelMmS2), (130, .maxTravelMm), (140, .runCurrentMa), (150, .microsteps),
    (376, .rotaryMask)]

/-- The numbers of a row of the table. -/
def rowNumbers (row : ℕ × SettingField) : List ℕ := (List.range row.2.axisSpan).map (row.1 + ·)

/-- The numbers of the settings, in the order of the dump. -/
def settingNumbers : List ℕ := settingDescriptors.flatMap rowNumbers

/-- The field a number addresses, and the axis of it. -/
def lookupDescriptor (n : ℕ) : Option (SettingField × Fin 4) :=
  settingDescriptors.findSome? fun row =>
    if row.1 ≤ n ∧ n < row.1 + row.2.axisSpan then some (row.2, ⟨(n - row.1) % 4, Nat.mod_lt _ (Nat.succ_pos 3)⟩)
    else none

/-! ## The write and the dump -/

/-- A write of the setting with the number `n`. -/
def setCommand (s : Settings) (n : ℕ) (value : List Char) :
    Except SettingError Unit × Settings :=
  match lookupDescriptor n with
  | none => (.error .unknownSetting, s)
  | some (field, axis) =>
    if field = .softLimitsEnable then
      -- soft limits are enabled with the homing cycle only
      match Policy.bool.parse (trim value) with
      | .error e => (.error e, s)
      | .ok enabling =>
        if enabling && !s.homingEnabled then (.error .softLimitsNeedHoming, s)
        else field.parseAndApply s axis (trim value)
    else field.parseAndApply s axis (trim value)

/-- The line of a setting. -/
def writeSettingLine (s : Settings) (n : ℕ) : Option (List Char) :=
  (lookupDescriptor n).map fun (field, axis) =>
    '$' :: Nat.toDigits 10 n ++ '=' :: field.format s axis

/-- The lines of `$$`. -/
def dumpSettings (s : Settings) : List (List Char) :=
  settingNumbers.filterMap s.writeSettingLine

/-- `str::split_once`, at an equals sign. -/
def splitOnce (text : List Char) : Option (List Char × List Char) :=
  match text.dropWhile (· ≠ '=') with
  | [] => none
  | _ :: value => some (text.takeWhile (· ≠ '='), value)

/-- The write a line asks for, by its text after the `$`. -/
def writeSettingCommand (s : Settings) (body : List Char) :
    Except SettingError Unit × Settings :=
  match splitOnce body with
  | none => (.error .badValue, s)
  | some (number, value) =>
    match parseUnsigned 65535 (trim number) with
    | none => (.error .badValue, s)
    | some n => s.setCommand n (trim value)

/-- The write of a line, if it is one. -/
def writeLine (s : Settings) (line : List Char) : Except SettingError Unit × Settings :=
  match line with
  | '$' :: body => s.writeSettingCommand body
  | _ => (.error .badValue, s)

end Settings

end Galdr
