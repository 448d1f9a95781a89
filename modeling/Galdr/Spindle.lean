import Galdr.Gcode
import Galdr.Interlock
import Galdr.Runs

/-!
# The spindle controller

The controller drives three outputs: the speed line, the enable output and the
direction output. Each call writes some of them, in an order of its own, and any
write may fail. What the outputs show is kept as a log of timed samples, so that
a run can be asked when the spindle was energised and in which direction.

A reversal of a running spindle is not driven in one call: the controller stops
the spindle, answers with the time to wait, and the caller completes the
reversal afterwards. `apply` decides between the two on the state it drove last,
`lastState`, not on the direction the spindle last turned in.
-/

namespace Galdr

variable {K : Type} [Field K] [LinearOrder K]

/-- The direction level of a clockwise spindle. -/
def dirClockwise : Bool := true

/-- The enable level of a running spindle. -/
def enableRun : Bool := true

/-- The coast-down a reversal waits at least, whatever `$393` says. -/
def minReverseDwellS : K := 1 / 2

/-- An output that could not be driven. -/
inductive SpindleError
  /-- The speed line. -/
  | pwm
  /-- The enable output. -/
  | enable
  /-- The direction output. -/
  | direction
  deriving DecidableEq, Repr

/-- What a command did, and what its caller still has to do. -/
inductive SpindleAction (K : Type)
  /-- All of it. -/
  | applied
  /-- The spindle was stopped; wait, then call `completeReverse`. -/
  | spinDownThenReverse (dwellS : K)
  deriving DecidableEq

/-- The writes of one call that fail. -/
structure Faults where
  /-- The speed line's. -/
  pwm : Bool
  /-- The enable output's. -/
  enable : Bool
  /-- The direction output's. -/
  direction : Bool

/-- No write fails. -/
def Faults.none : Faults := ⟨false, false, false⟩

/-- What the outputs show. -/
structure SpindleOutputs (K : Type) where
  /-- The speed line. -/
  duty : K
  /-- The enable output. -/
  enable : Bool
  /-- The direction output. -/
  direction : Bool
  deriving DecidableEq

/-- The direction the spindle is energised in, if it is. -/
def SpindleOutputs.energised (o : SpindleOutputs K) : Option Bool :=
  if o.enable = enableRun then some o.direction else none

/-- The controller, with its outputs and the log of what they showed: one timed
sample for each write. -/
structure SpindleController (K : Type) where
  /-- What the outputs show now. -/
  outputs : SpindleOutputs K
  /-- What they showed after each write so far. -/
  log : List (K × SpindleOutputs K)
  /-- The state driven last. -/
  lastState : SpindleState
  /-- The duty driven last. -/
  lastDuty : K

namespace SpindleController

/-- The controller at power-on, its outputs de-asserted. -/
def new : SpindleController K where
  outputs := ⟨0, !enableRun, false⟩
  log := []
  lastState := .stop
  lastDuty := 0

/-- One write: the outputs change, at a time. -/
def write (c : SpindleController K) (now : K) (o : SpindleOutputs K) : SpindleController K :=
  { c with outputs := o, log := c.log ++ [(now, o)] }

/-- The log as the interlock reads it. -/
def levels (c : SpindleController K) : List (K × Option Bool) :=
  c.log.map fun s => (s.1, s.2.energised)

/-- The duty of a speed: its place between `$31` and `$30`, and none where they
are the wrong way round. -/
def rpmToDuty (rpm rpmMin rpmMax : K) : K :=
  let span := rpmMax - rpmMin
  if span > 0 then max 0 (min 1 ((rpm - rpmMin) / span)) else 0

/-- Drive to a full stop: enable off first, then the speed line. -/
def driveStop (c : SpindleController K) (f : Faults) (now : K) :
    SpindleController K × Except SpindleError Unit :=
  if f.enable then (c, .error .enable) else
  let c := c.write now { c.outputs with enable := !enableRun }
  if f.pwm then (c, .error .pwm) else
  let c := c.write now { c.outputs with duty := 0 }
  ({ c with lastState := .stop, lastDuty := 0 }, .ok ())

/-- The direction output's level in a state. -/
def dirLevel (state : SpindleState) : Bool :=
  decide (state = .clockwise) == dirClockwise

/-- Drive to a run: direction and speed first, then enable. -/
def driveRun (c : SpindleController K) (f : Faults) (now : K) (state : SpindleState)
    (duty : K) : SpindleController K × Except SpindleError Unit :=
  if f.direction then (c, .error .direction) else
  let c := c.write now { c.outputs with direction := dirLevel state }
  if f.pwm then (c, .error .pwm) else
  let c := c.write now { c.outputs with duty := duty }
  if f.enable then (c, .error .enable) else
  let c := c.write now { c.outputs with enable := enableRun }
  ({ c with lastState := state, lastDuty := duty }, .ok ())

/-- What a command means: a speed of zero is a stop, whatever the direction. -/
def effective (state : SpindleState) (rpm : K) : SpindleState :=
  if rpm ≤ 0 then .stop else state

/-- Apply `M3`, `M4` or `M5` with a speed. -/
def apply (c : SpindleController K) (f : Faults) (now : K) (state : SpindleState)
    (rpm rpmMin rpmMax reverseDwellS : K) :
    SpindleController K × Except SpindleError (SpindleAction K) :=
  match effective state rpm with
  | .stop =>
    let (c, r) := c.driveStop f now
    (c, r.map fun _ => .applied)
  | e =>
    let running := c.lastState ≠ .stop
    let reversing := running ∧ c.lastState ≠ e
    if reversing then
      let (c, r) := c.driveStop f now
      (c, r.map fun _ => .spinDownThenReverse (max reverseDwellS minReverseDwellS))
    else
      let (c, r) := c.driveRun f now e (rpmToDuty rpm rpmMin rpmMax)
      (c, r.map fun _ => .applied)

/-- Bring the spindle up after the dwell of a reversal. -/
def completeReverse (c : SpindleController K) (f : Faults) (now : K) (state : SpindleState)
    (rpm rpmMin rpmMax : K) : SpindleController K × Except SpindleError Unit :=
  match effective state rpm with
  | .stop => c.driveStop f now
  | e => c.driveRun f now e (rpmToDuty rpm rpmMin rpmMax)

/-- Stop, whatever was commanded. -/
def emergencyStop (c : SpindleController K) (f : Faults) (now : K) :
    SpindleController K × Except SpindleError Unit :=
  c.driveStop f now

end SpindleController
end Galdr
