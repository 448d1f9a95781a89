import Galdr.Bresenham
import Galdr.Step

/-!
# The segment generator

A block is run as a list of ticks, one for each step of its dominant axis. The
other axes step when their accumulator says so, and the period of a tick comes
from the speed of the block's trapezoid at the midpoint of the step. Ticks go
to the sink in bursts. The estimator sums the same periods without emitting,
and the probe stepper walks a block at a fixed period, a tick at a time,
looking at the probe before each.

The trapezoid is planned from the entry, cruise and exit speeds of the block,
scaled by the override in force and cut to a ceiling.
-/

namespace Galdr

/-- The greatest value of a pulse length field. -/
def rmtMaxFieldLen : ℕ := 32767

/-- The period of a tick at rest. -/
def slowestPeriodTicks : ℕ := 30000

/-- `u32::clamp`, for a lower bound that is not above the upper one. -/
def clampTicks (lo hi ticks : ℕ) : ℕ := max lo (min ticks hi)

/-- The timing of the generator. -/
structure MotionConfig (K : Type) where
  /-- The frequency of the timer. -/
  tickHz : K
  /-- The width of a step pulse, `$0`. -/
  stepPulseTicks : ℕ
  /-- The least time between two pulses. -/
  minLowTicks : ℕ

/-- The errors of the generator. -/
inductive MotionError
  /-- The timing is unusable. -/
  | invalidConfig
  /-- The sink failed. -/
  | sink (e : StepError)
  deriving DecidableEq, Repr

/-- The longest axis of a move; ties go to the first. -/
def dominantAxis (steps : Axes Int32) : Fin 4 :=
  [yAxis, zAxis, aAxis].foldl (fun best axis =>
    if (steps best).toInt.natAbs < (steps axis).toInt.natAbs then axis else best) xAxis

/-- Split the period of a silent tick in two parts that are not zero. -/
def silentSymbolHalves (period : ℕ) : ℕ × ℕ :=
  let p := max period 2
  let a := max (p / 2) 1
  (a, p - a)

/-! ## Accumulators -/

/-- The accumulators after a tick, and the axes that step on it. -/
def ddaTick (absSteps : Axes ℤ) (dominant : Fin 4) (error : Axes ℤ) :
    Axes ℤ × Axes Bool :=
  (fun axis =>
      if axis = dominant then error axis
      else (Bresenham.tick (absSteps axis) (absSteps dominant) (error axis)).1,
    fun axis =>
      if axis = dominant then absSteps axis != 0
      else (Bresenham.tick (absSteps axis) (absSteps dominant) (error axis)).2)

/-- The magnitudes of the steps of a move. -/
def absSteps (steps : Axes Int32) : Axes ℤ := fun axis => ((steps axis).toInt.natAbs : ℤ)

section Profile

variable {K : Type} [Field K] [LinearOrder K]

namespace MotionConfig

/-- The least period of a tick. -/
def minPeriodTicks (config : MotionConfig K) : ℕ :=
  config.stepPulseTicks + config.minLowTicks

/-- The greatest step rate. -/
def maxStepRateHz (config : MotionConfig K) : K :=
  config.tickHz / (config.minPeriodTicks : K)

/-- The slowest period that the hardware can be given. -/
def maxPeriodTicks (config : MotionConfig K) : ℕ :=
  max (rmtMaxFieldLen + config.stepPulseTicks) config.minPeriodTicks

/-- The timing cannot be used. -/
def Unusable (config : MotionConfig K) : Prop :=
  config.tickHz ≤ 0 ∨ config.minPeriodTicks = 0

instance (config : MotionConfig K) : Decidable config.Unusable :=
  inferInstanceAs (Decidable (_ ∨ _))

end MotionConfig

/-- What the periods of a block depend on. -/
structure StepTiming (K : Type) where
  /-- The travel of one step of the dominant axis. -/
  domMmPerStep : K
  /-- The frequency of the timer. -/
  tickHz : K
  /-- The greatest step rate. -/
  maxRateHz : K
  /-- The least period. -/
  minPeriodTicks : ℕ
  /-- The greatest period. -/
  maxPeriodTicks : ℕ
  /-- The period at rest. -/
  floorPeriodTicks : ℕ

namespace StepTiming

/-- The timing of a block. -/
def forBlock (config : MotionConfig K) (block : Block K) (dominant : Fin 4) :
    StepTiming K where
  domMmPerStep := block.millimeters / ((block.steps dominant).toInt.natAbs : K)
  tickHz := config.tickHz
  maxRateHz := config.maxStepRateHz
  minPeriodTicks := config.minPeriodTicks
  maxPeriodTicks := config.maxPeriodTicks
  floorPeriodTicks :=
    clampTicks config.minPeriodTicks config.maxPeriodTicks slowestPeriodTicks

/-- The period of a tick at a squared speed. -/
def periodTicks [FloorRing K] [Libm K] (timing : StepTiming K) (vSq : K) : ℕ :=
  let v := sqrtf (max vSq 0)
  let stepRate := if 0 < timing.domMmPerStep then v / timing.domMmPerStep else 0
  let clamped := min stepRate timing.maxRateHz
  if clamped ≤ 0 then timing.floorPeriodTicks
  else
    -- `roundf(period) as u32` saturates.
    let rounded := min (roundf (timing.tickHz / clamped)).toNat 4294967295
    clampTicks timing.minPeriodTicks timing.maxPeriodTicks rounded

end StepTiming

/-! ## The trapezoid -/

/-- The speeds of a block under an override. -/
structure ScaledBlock (K : Type) where
  /-- The entry speed. -/
  entrySpeedSq : K
  /-- The cruise speed. -/
  nominalSpeedSq : K

/-- A squared speed cut to `[0, ceiling]`. -/
def clampSpeedSq (speedSq : K) (ceilingSq : WithTop K) : K := capBy ceilingSq (max speedSq 0)

/-- The speed along a block: a ramp up, a plateau, a ramp down. -/
structure TrapezoidProfile (K : Type) where
  /-- The squared entry speed. -/
  entrySq : K
  /-- The squared speed of the plateau. -/
  cruiseSq : K
  /-- The squared exit speed. -/
  exitSq : K
  /-- Twice the acceleration. -/
  twoA : K
  /-- The length. -/
  length : K
  /-- Where the ramp up ends. -/
  accelEnd : K
  /-- Where the ramp down begins. -/
  decelStart : K

namespace TrapezoidProfile

/-- The trapezoid of a block: a true one when the ramps leave room for the cruise
speed, and a triangle otherwise. -/
def planScaled (block : Block K) (scaled : ScaledBlock K) (exitSpeedSq : K) :
    TrapezoidProfile K :=
  let entrySq := max scaled.entrySpeedSq 0
  let nominalSq := max scaled.nominalSpeedSq 0
  let exitSq := max exitSpeedSq 0
  let accel := max block.acceleration 0
  let length := max block.millimeters 0
  let twoA := 2 * accel
  let accelDist := if 0 < twoA then max ((nominalSq - entrySq) / twoA) 0 else 0
  let decelDist := if 0 < twoA then max ((nominalSq - exitSq) / twoA) 0 else 0
  if accelDist + decelDist ≤ length then
    { entrySq, exitSq, twoA, length
      cruiseSq := nominalSq
      accelEnd := accelDist
      decelStart := length - decelDist }
  else
    let accelEnd :=
      if 0 < twoA then max 0 (min (((exitSq - entrySq) / twoA + length) * (1 / 2)) length)
      else 0
    let peakSq := max (entrySq + twoA * accelEnd) (max entrySq exitSq)
    { entrySq, exitSq, twoA, length, accelEnd
      cruiseSq := peakSq
      decelStart := accelEnd }

/-- Where the midpoint of a step is along the block. -/
def travelAtStep (profile : TrapezoidProfile K) (tick total : ℕ) : K :=
  ((tick : K) + 1 / 2) / (total : K) * profile.length

/-- The squared speed at a distance from the start. -/
def velocitySqAt (profile : TrapezoidProfile K) (d : K) : K :=
  if d ≤ profile.accelEnd then
    max (min (profile.entrySq + profile.twoA * d) profile.cruiseSq) 0
  else if d ≤ profile.decelStart then profile.cruiseSq
  else
    let remaining := max (profile.length - d) 0
    max (min (profile.exitSq + profile.twoA * remaining) profile.cruiseSq)
      (min profile.exitSq profile.cruiseSq)

end TrapezoidProfile

variable [FloorRing K] [Libm K]

/-- The period of a tick of a block. -/
def tickPeriod (timing : StepTiming K) (profile : TrapezoidProfile K) (tick total : ℕ) : ℕ :=
  timing.periodTicks (profile.velocitySqAt (profile.travelAtStep tick total))

/-- The time of a block at full override and without a ceiling, in seconds. -/
def estimateBlockTime (block : Block K) (exitSpeedSq : K) (config : MotionConfig K) : K :=
  if config.Unusable then 0
  else if block.stepEventCount = 0 then 0
  else
    let dominant := dominantAxis block.steps
    let scaled : ScaledBlock K := ⟨max block.entrySpeedSq 0, max block.nominalSpeedSq 0⟩
    let profile := TrapezoidProfile.planScaled block scaled (max exitSpeedSq 0)
    let timing := StepTiming.forBlock config block dominant
    let ticks := ((List.range block.stepEventCount).map fun tick =>
      tickPeriod timing profile tick block.stepEventCount).sum
    (ticks : K) / config.tickHz

end Profile

/-! ## The generator -/

namespace SegmentGenerator

variable {K : Type} [Field K] [LinearOrder K] [FloorRing K] [Libm K]
variable {S : Type} [StepSink S]

/-- Walk the ticks that remain of a block: decide the axes that step, and push the
tick to the burst, which is flushed when it is full and at the end. -/
def emitFrom (block : Block K) (profile : TrapezoidProfile K) (timing : StepTiming K) :
    ℕ → ℕ → Axes ℤ → List StepEvent → ℕ → S → Except MotionError ℕ × S
  | 0, _, _, burst, emitted, sink =>
    if burst = [] then (.ok emitted, sink)
    else
      match StepSink.emitBurst burst sink with
      | (.error e, sink) => (.error (.sink e), sink)
      | (.ok (), sink) => (.ok emitted, sink)
  | remaining + 1, tick, error, burst, emitted, sink =>
    let (error, step) := ddaTick (absSteps block.steps) (dominantAxis block.steps) error
    let event : StepEvent :=
      ⟨step, tickPeriod timing profile tick block.stepEventCount⟩
    if burst.length = maxSymbolsPerBurst then
      match StepSink.emitBurst burst sink with
      | (.error e, sink) => (.error (.sink e), sink)
      | (.ok (), sink) =>
        emitFrom block profile timing remaining (tick + 1) error [event] (emitted + 1) sink
    else
      emitFrom block profile timing remaining (tick + 1) error (burst ++ [event])
        (emitted + 1) sink

/-- Walk a block along a profile. -/
def emitProfile (config : MotionConfig K) (block : Block K)
    (profile : TrapezoidProfile K) (sink : S) : Except MotionError ℕ × S :=
  emitFrom block profile (.forBlock config block (dominantAxis block.steps))
    block.stepEventCount 0 (fun _ => 0) [] 0 sink

/-- The profile of a block under an override and a ceiling. A scale that is not
positive counts as one. -/
def scaledProfile (block : Block K) (exitSpeedSq overrideScale : K)
    (maxSpeedSq : WithTop K) : TrapezoidProfile K :=
  let scale := if 0 < overrideScale then overrideScale else 1
  let scaleSq := scale * scale
  let ceilingSq := maxSpeedSq.map (max · 0)
  let scaled : ScaledBlock K :=
    ⟨clampSpeedSq (block.entrySpeedSq * scaleSq) ceilingSq,
      clampSpeedSq (block.nominalSpeedSq * scaleSq) ceilingSq⟩
  .planScaled block scaled (clampSpeedSq (exitSpeedSq * scaleSq) ceilingSq)

/-- Run a block under an override and a ceiling. -/
def runBlockScaled (config : MotionConfig K) (block : Block K)
    (exitSpeedSq overrideScale : K) (maxSpeedSq : WithTop K) (sink : S) :
    Except MotionError ℕ × S :=
  if config.Unusable then (.error .invalidConfig, sink)
  else if block.stepEventCount = 0 then (.ok 0, sink)
  else
    match StepSink.setDirection (.ofSteps block.steps) sink with
    | (.error e, sink) => (.error (.sink e), sink)
    | (.ok (), sink) =>
      emitProfile config block (scaledProfile block exitSpeedSq overrideScale maxSpeedSq) sink

/-- Run a block at full override and without a ceiling. -/
def runBlock (config : MotionConfig K) (block : Block K) (exitSpeedSq : K) (sink : S) :
    Except MotionError ℕ × S :=
  runBlockScaled config block exitSpeedSq 1 ⊤ sink

end SegmentGenerator

/-! ## The probe stepper -/

/-- How a probe ended. -/
structure ProbeOutcome where
  /-- The edge was seen. -/
  triggered : Bool
  /-- The ticks emitted. -/
  stepsEmitted : ℕ
  deriving DecidableEq

namespace ProbeStepper

variable {K : Type} [Field K] [LinearOrder K] {S : Type} [StepSink S]

/-- Walk the ticks that remain of a probe. The probe is sampled before each, and
once more at the end; `atStopEdge n` is what the sample with number `n` says. -/
def probeFrom (steps : Axes Int32) (period : ℕ) (atStopEdge : ℕ → Bool) :
    ℕ → Axes ℤ → ℕ → S → Except MotionError ProbeOutcome × S
  | 0, _, emitted, sink => (.ok ⟨atStopEdge emitted, emitted⟩, sink)
  | remaining + 1, error, emitted, sink =>
    if atStopEdge emitted then (.ok ⟨true, emitted⟩, sink)
    else
      let (error, step) := ddaTick (absSteps steps) (dominantAxis steps) error
      match StepSink.emitBurst [⟨step, period⟩] sink with
      | (.error e, sink) => (.error (.sink e), sink)
      | (.ok (), sink) => probeFrom steps period atStopEdge remaining error (emitted + 1) sink

/-- Walk a probe block, a tick at a time, until the probe is at the edge. -/
def runProbe (config : MotionConfig K) (block : Block K) (stepPeriodTicks : ℕ)
    (atStopEdge : ℕ → Bool) (sink : S) : Except MotionError ProbeOutcome × S :=
  if config.Unusable then (.error .invalidConfig, sink)
  else if block.stepEventCount = 0 then (.ok ⟨atStopEdge 0, 0⟩, sink)
  else
    match StepSink.setDirection (.ofSteps block.steps) sink with
    | (.error e, sink) => (.error (.sink e), sink)
    | (.ok (), sink) =>
      probeFrom block.steps
        (clampTicks config.minPeriodTicks config.maxPeriodTicks stepPeriodTicks)
        atStopEdge block.stepEventCount (fun _ => 0) 0 sink

end ProbeStepper

end Galdr
