import Galdr.Planner
import Galdr.Saturate

/-!
# Step output

The contract between the segment generator and the hardware: a tick carries the
axes that step on it and its period, and a sink takes a direction for a block
and then bursts of ticks. The step counter follows the ticks and knows where
the machine is. A sink that records what it is given is the one the generator
is studied with.
-/

namespace Galdr

/-- The greatest number of ticks in a burst: with its end marker a burst leaves one
of the 48 slots of a hardware block free. -/
def maxSymbolsPerBurst : ℕ := 46

/-- The direction of each axis: `true` is positive. -/
structure DirState where
  /-- The directions. -/
  dir : Axes Bool
  deriving DecidableEq

/-- The direction of a block, from the signs of its steps. -/
def DirState.ofSteps (steps : Axes Int32) : DirState := ⟨fun axis => decide (0 ≤ steps axis)⟩

/-- One tick: the axes that step, and the period in timer ticks. -/
structure StepEvent where
  /-- The axes that step. -/
  step : Axes Bool
  /-- The period. -/
  periodTicks : ℕ
  deriving DecidableEq

/-- The errors of a sink. -/
inductive StepError
  /-- A burst has too many ticks. -/
  | burstTooLong
  /-- The transport failed. -/
  | transport
  deriving DecidableEq, Repr

/-- A sink for bursts of ticks. -/
class StepSink (S : Type) where
  /-- Latch the directions ahead of the next burst. -/
  setDirection : DirState → S → Except StepError Unit × S
  /-- Emit one burst. -/
  emitBurst : List StepEvent → S → Except StepError Unit × S

/-- The number of ticks on which an axis steps. -/
def stepCount (ticks : List StepEvent) (axis : Fin 4) : ℕ :=
  ticks.countP fun tick => tick.step axis

theorem stepCount_cons (tick : StepEvent) (ticks : List StepEvent) (axis : Fin 4) :
    stepCount (tick :: ticks) axis = stepCount ticks axis + (tick.step axis).toNat := by
  unfold stepCount
  rw [List.countP_cons]
  cases tick.step axis <;> rfl

/-! ## The recording sink -/

/-- A sink that keeps what it is given and never fails. -/
structure RecordingSink where
  /-- The directions, in order. -/
  directions : List DirState
  /-- The bursts, in order. -/
  bursts : List (List StepEvent)

namespace RecordingSink

/-- Nothing recorded. -/
def new : RecordingSink := ⟨[], []⟩

instance : StepSink RecordingSink where
  setDirection dir sink := (.ok (), { sink with directions := sink.directions ++ [dir] })
  emitBurst ticks sink := (.ok (), { sink with bursts := sink.bursts ++ [ticks] })

/-- Every tick recorded, in order. -/
def allTicks (sink : RecordingSink) : List StepEvent := sink.bursts.flatten

end RecordingSink

/-! ## The step counter -/

/-- The live position of the machine in steps. -/
structure StepCounter where
  /-- The position. -/
  position : Axes Int32
  /-- The latched direction of each axis. -/
  dir : Axes Bool

/-- A step position in millimetres; an axis without resolution reads zero. -/
def stepsToMm {K : Type} [Field K] [LinearOrder K] (position : Axes Int32)
    (stepsPerMm : Axes K) : Axes K :=
  fun axis => if 0 < stepsPerMm axis then ((position axis).toInt : K) / stepsPerMm axis else 0

/-- The displacement of a number of steps in a direction. -/
def signedCount (positive : Bool) (count : ℕ) : ℤ := if positive then count else -count

namespace StepCounter

/-- A counter at the origin. -/
def new : StepCounter := ⟨fun _ => 0, fun _ => true⟩

/-- Latch the directions of a block. -/
def setDirection (counter : StepCounter) (dir : DirState) : StepCounter :=
  { counter with dir := dir.dir }

/-- Follow one tick: each axis that steps moves by one, and stays at the end of the
32-bit range when it is there. -/
def advance (counter : StepCounter) (event : StepEvent) : StepCounter :=
  { counter with
    position := fun axis =>
      if event.step axis then
        satAdd (counter.position axis) (if counter.dir axis then 1 else -1)
      else counter.position axis }

/-- The position in millimetres. -/
def positionMm {K : Type} [Field K] [LinearOrder K] (counter : StepCounter)
    (stepsPerMm : Axes K) : Axes K :=
  stepsToMm counter.position stepsPerMm

/-- Back to the origin. -/
def reset (counter : StepCounter) : StepCounter := { counter with position := fun _ => 0 }

/-- Put the counter at a position. -/
def syncTo (counter : StepCounter) (position : Axes Int32) : StepCounter :=
  { counter with position := position }

/-- Follow a list of ticks. -/
def follow (counter : StepCounter) (ticks : List StepEvent) : StepCounter :=
  ticks.foldl advance counter

@[simp] theorem dir_advance (counter : StepCounter) (event : StepEvent) :
    (counter.advance event).dir = counter.dir := rfl

/-- An axis moves by as many saturating steps as there are ticks on which it
steps. -/
theorem position_follow (counter : StepCounter) (ticks : List StepEvent) (axis : Fin 4) :
    (counter.follow ticks).position axis
      = (satAdd · (if counter.dir axis then 1 else -1))^[stepCount ticks axis]
          (counter.position axis) := by
  induction ticks generalizing counter with
  | nil => rfl
  | cons tick ticks ih =>
    show ((counter.advance tick).follow ticks).position axis = _
    have hpos : (counter.advance tick).position axis
        = if tick.step axis then
            satAdd (counter.position axis) (if counter.dir axis then 1 else -1)
          else counter.position axis := rfl
    rw [ih, dir_advance, stepCount_cons, hpos]
    cases tick.step axis with
    | false => rfl
    | true =>
      rw [Bool.toNat_true, Function.iterate_succ_apply]
      rfl

/-- **The counter ends at the signed count of the ticks**, cut to the 32-bit
range. -/
theorem toInt_follow (counter : StepCounter) (ticks : List StepEvent) (axis : Fin 4) :
    ((counter.follow ticks).position axis).toInt
      = clampI32 ((counter.position axis).toInt
          + signedCount (counter.dir axis) (stepCount ticks axis)) := by
  rw [position_follow]
  unfold signedCount
  cases counter.dir axis with
  | true =>
    have h := iterate_satAdd (u := 1) (Or.inl rfl) (counter.position axis)
      (stepCount ticks axis)
    simpa using h
  | false =>
    have h := iterate_satAdd (u := -1) (Or.inr rfl) (counter.position axis)
      (stepCount ticks axis)
    simpa using h

end StepCounter

end Galdr
