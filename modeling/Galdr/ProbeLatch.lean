import Galdr.HostProbe
import Galdr.ProbeSequences

/-!
# The latch of a touch, and the wizards that share it

A push `[PRB:]` does not say which line it answers. The host has one latch for all that
probe: arming it for a kind of touch says how many contacts the touch makes, every contact
is kept over the one before, and the last one resolves the latch. A probe that makes no
contact, an alarm and an error resolve it as failed.

Four wizards and the touch-off of the spindle axis arm the latch. A wizard is a machine
that says which touch is due, and folds the outcome of the touch in. The pump that takes
the outcome from the latch to the wizard is one for all of them, with the fallback for a
push that does not come: `$#` is sent once, whose answer repeats the last push, and the
touch is given up after that.

Outcomes carry the line they are of: the touch, and whether the line is the last probe of
the touch. The host does not see that.
-/

namespace Galdr.Host.Latch

open Eitri

/-! ## The latch -/

/-- What a touch is for. -/
inductive ProbeKind
  | zeroZ
  | rotaryCenter
  | datum
  | mesh
  | flipVerify
  | runout
  deriving DecidableEq, Repr

/-- The contacts a touch makes: a touch in two stages makes two. -/
def ProbeKind.expectedPushes : ProbeKind → ℕ
  | datum | mesh => 2
  | _ => 1

/-- Where a probe made contact, and the line it was. -/
structure Reading where
  /-- The position of the machine. -/
  position : List ℚ
  /-- The touch of the line. -/
  touch : ℕ
  /-- The line is the last probe of its touch. -/
  final : Bool
  deriving DecidableEq

/-- What came of a touch. -/
inductive Outcome
  | success (reading : Reading)
  | failure (reason : List Char)
  deriving DecidableEq

/-- The outcome as a wizard sees it. -/
def Outcome.seen : Outcome → ProbeOutcome
  | success reading => .success reading.position
  | failure reason => .failure reason

/-- A latch. -/
structure ProbeOp where
  /-- What the touch is for. -/
  kind : ProbeKind
  /-- A contact is still expected. -/
  awaiting : Bool
  /-- The last outcome. -/
  last : Option Outcome
  /-- The contacts still expected. -/
  remaining : ℕ
  deriving DecidableEq

namespace ProbeOp

/-- A latch that was just armed. -/
def issued (kind : ProbeKind) : ProbeOp := ⟨kind, true, none, kind.expectedPushes⟩

/-- A push, or what is as good as one. -/
def resolve (op : ProbeOp) (outcome : Outcome) : ProbeOp :=
  if op.awaiting then
    match outcome with
    | .failure _ => { op with awaiting := false, last := some outcome }
    | .success _ =>
      { op with
        last := some outcome
        remaining := op.remaining - 1
        awaiting := op.remaining - 1 ≠ 0 }
  else op

/-- The touch failed for a reason of its own. -/
def fail (op : ProbeOp) (reason : List Char) : ProbeOp := op.resolve (.failure reason)

/-- The outcome of a latch that is resolved. -/
def resolved (op : ProbeOp) : Option Outcome := if op.awaiting then none else op.last

end ProbeOp

/-! ## A push that does not come -/

/-- What to do while a push is awaited. -/
inductive AwaitAction
  | wait
  | poll
  | giveUp (reason : List Char)
  deriving DecidableEq

/-- `PUSH_TIMEOUT`, in milliseconds. -/
def pushTimeout : ℕ := 15000

/-- `POLL_TIMEOUT`. -/
def pollTimeout : ℕ := 2000

/-- `ABSOLUTE_GIVE_UP`. -/
def absoluteGiveUp : ℕ := 30000

/-- `await_action`. -/
def awaitAction (polled probeFinished : Bool) (sinceIssue sincePoll : ℕ) : AwaitAction :=
  if sinceIssue ≥ absoluteGiveUp then .giveUp "probe result never arrived (timed out)".toList
  else if polled then
    if sincePoll ≥ pollTimeout then
      .giveUp "probe result never arrived (no push, $# poll timed out)".toList
    else .wait
  else if probeFinished && decide (sinceIssue ≥ pushTimeout) then .poll
  else .wait

/-- The fallback of a touch. -/
structure TouchFallback where
  /-- When the lines were sent. -/
  issuedAt : ℕ
  /-- `$#` was sent. -/
  polled : Bool
  /-- When it was. -/
  polledAt : Option ℕ
  /-- The machine was seen at work. -/
  seenCycle : Bool

namespace TouchFallback

/-- The fallback of a touch that was just sent. -/
def issued (now : ℕ) : TouchFallback := ⟨now, false, none, false⟩

/-- The machine is seen at work. -/
def observe (f : TouchFallback) (busy : Bool) : TouchFallback :=
  { f with seenCycle := f.seenCycle || busy }

/-- `$#` is sent. -/
def poll (f : TouchFallback) (now : ℕ) : TouchFallback :=
  { f with polled := true, polledAt := some now }

/-- What to do now. -/
def action (f : TouchFallback) (now : ℕ) (busy : Bool) : AwaitAction :=
  awaitAction f.polled (f.seenCycle && !busy) (now - f.issuedAt)
    (f.polledAt.elim 0 fun polledAt => now - polledAt)

end TouchFallback

/-! ## The wizards -/

/-- What the pump wants of a wizard. -/
class ProbeWizard (W : Type) where
  /-- A touch is in flight. -/
  isProbing : W → Bool
  /-- The kind of its touches. -/
  probeKind : W → ProbeKind
  /-- The touch that is due, if one is. -/
  begin : W → Option (ProbeSequence × W)
  /-- The outcome of the touch. -/
  onProbeResult : W → ProbeOutcome → W
  /-- Give up. -/
  abort : W → List Char → W

/-- A centre finder, and what its touches are tuned to. -/
structure RotaryCenterRun where
  /-- The wizard. -/
  state : WizardState
  /-- What its touches are tuned to. -/
  params : RotaryProbeParams

namespace RotaryCenterRun

/-- The touch that is due, with the wizard behind it. -/
def beginTouch (run : RotaryCenterRun) : Option (RotaryTouch × WizardStep) :=
  match run.state.step with
  | .enterDowel => some (⟨run.state.indexAngleDeg, .y, .pos⟩, .probeYLeft)
  | .readyYRight => some (⟨run.state.indexAngleDeg, .y, .neg⟩, .probeYRight)
  | .movedToYc => some (⟨run.state.indexAngleDeg, .z, .neg⟩, .probeZTop)
  | _ => none

/-- The lines of the move to the middle, once both sides are found. -/
def moveToYcLines (run : RotaryCenterRun) : Option (List (List Char)) :=
  run.state.yCenter.map fun yc =>
    [['G', '5', '3', ' ', 'G', '0'] ++ word3 .z run.params.clearanceMm,
      ['G', '5', '3', ' ', 'G', '0'] ++ word3 .y yc]

/-- `mark_moved_to_yc`. -/
def markMovedToYc (run : RotaryCenterRun) : RotaryCenterRun :=
  if run.state.step = .moveToYc then { run with state := { run.state with step := .movedToYc } }
  else run

end RotaryCenterRun

instance : ProbeWizard RotaryCenterRun where
  isProbing run := run.state.isProbing
  probeKind _ := .rotaryCenter
  begin run := run.beginTouch.map fun (touch, step) =>
    (.rotary touch run.params, { run with state := { run.state with step := step } })
  onProbeResult run outcome := { run with state := run.state.onProbeResult outcome }
  abort run reason := { run with state := run.state.abort reason }

/-- A datum finder, and what its touches are tuned to. -/
structure DatumRun where
  /-- The wizard. -/
  state : DatumState
  /-- What its touches are tuned to. -/
  params : ProbeParams

instance : ProbeWizard DatumRun where
  isProbing run := run.state.isProbing
  probeKind _ := .datum
  begin run := run.state.beginProbe.1.map fun touch =>
    (.datum touch run.params, { run with state := run.state.beginProbe.2 })
  onProbeResult run outcome := { run with state := run.state.onProbeResult outcome }
  abort run reason := { run with state := run.state.abort reason }

/-! ### The height map -/

/-- A height map: heights over the nodes of a grid, from the height of the first one. -/
structure Mesh where
  /-- The corner of the grid. -/
  min : ℚ × ℚ
  /-- The corner opposite. -/
  maxXy : ℚ × ℚ
  /-- The distance of the nodes. -/
  grid : ℚ × ℚ
  /-- The nodes along the first axis. -/
  nx : ℕ
  /-- The nodes along the second axis. -/
  ny : ℕ
  /-- The heights, one row after the other. -/
  z : List ℚ
  /-- No height is greater. -/
  maxHeight : ℚ
  deriving DecidableEq

namespace Mesh

/-- `axis_count`. -/
def axisCount (range spacing : ℚ) : ℕ :=
  if spacing ≤ 0 ∨ range ≤ 0 then 2 else max (⌈range / spacing⌉.toNat + 1) 2

/-- `effective_spacing`. -/
def effectiveSpacing (range : ℚ) (count : ℕ) : ℚ := range / ((count - 1 : ℕ) : ℚ)

/-- `from_spacing`: nodes on the bounds, and no further than the spacing from each other. -/
def fromSpacing (lower upper spacing : ℚ × ℚ) : Mesh :=
  let nx := axisCount (upper.1 - lower.1) spacing.1
  let ny := axisCount (upper.2 - lower.2) spacing.2
  { min := lower
    maxXy := upper
    grid := (effectiveSpacing (upper.1 - lower.1) nx, effectiveSpacing (upper.2 - lower.2) ny)
    nx := nx
    ny := ny
    z := List.replicate (nx * ny) 0
    maxHeight := 0 }

/-- Where a node is. -/
def pointXy (m : Mesh) (node : ℕ × ℕ) : ℚ × ℚ :=
  (m.min.1 + node.1 * m.grid.1, m.min.2 + node.2 * m.grid.2)

/-- The height of a node is stored. -/
def setDelta (m : Mesh) (node : ℕ × ℕ) (delta : ℚ) : Mesh :=
  if node.1 ≥ m.nx ∨ node.2 ≥ m.ny then m
  else { m with z := m.z.set (node.2 * m.nx + node.1) delta, maxHeight := max m.maxHeight delta }

/-- `grid_points_serpentine`: column by column, every second one backwards. -/
def serpentine (m : Mesh) : List (ℕ × ℕ) :=
  (List.range m.nx).flatMap fun ix =>
    (if ix % 2 = 0 then List.range m.ny else (List.range m.ny).reverse).map fun iy => (ix, iy)

end Mesh

/-- How far an acquisition or a sweep is. -/
inductive SweepStep
  | ready
  | probing
  | done
  | aborted
  deriving DecidableEq, Repr

/-- The acquisition of a height map. -/
structure MeshProbeState where
  /-- The map so far. -/
  mesh : Mesh
  /-- What its points are probed with. -/
  params : GridProbeParams
  /-- Where the probe is, from the tool. -/
  probeOffset : ℚ × ℚ
  /-- The nodes in their order. -/
  order : List (ℕ × ℕ)
  /-- The nodes behind. -/
  cursor : ℕ
  /-- The height of the first node. -/
  z0 : Option ℚ
  /-- How far it is. -/
  step : SweepStep
  /-- Why it was given up. -/
  abortReason : Option (List Char)

namespace MeshProbeState

/-- An acquisition that has not begun. -/
def new (mesh : Mesh) (params : GridProbeParams) (probeOffset : ℚ × ℚ) : MeshProbeState where
  mesh := { mesh with z := mesh.z.map fun _ => 0, maxHeight := 0 }
  params := params
  probeOffset := probeOffset
  order := mesh.serpentine
  cursor := 0
  z0 := none
  step := if mesh.serpentine.isEmpty then .done else .ready
  abortReason := none

/-- Give up. -/
def abort (s : MeshProbeState) (reason : List Char) : MeshProbeState :=
  { s with step := .aborted, abortReason := some reason }

/-- Begin the point that is due. -/
def beginNextPoint (s : MeshProbeState) : Option (ProbeSequence × MeshProbeState) :=
  if s.step ≠ .ready then none
  else
    s.order[s.cursor]?.map fun node =>
      (.meshPoint ((s.mesh.pointXy node).1 - s.probeOffset.1,
          (s.mesh.pointXy node).2 - s.probeOffset.2) s.params,
        { s with step := .probing })

/-- The height of a point is stored, from the height of the first one. -/
def record (s : MeshProbeState) (z : ℚ) : MeshProbeState :=
  { s with
    z0 := some (s.z0.getD z)
    mesh := match s.order[s.cursor]? with
      | some node => s.mesh.setDelta node (z - s.z0.getD z)
      | none => s.mesh
    cursor := s.cursor + 1
    step := if s.cursor + 1 ≥ s.order.length then .done else .ready }

/-- Take the result of a point. -/
def onProbeResult (s : MeshProbeState) (outcome : ProbeOutcome) : MeshProbeState :=
  if s.step ≠ .probing then s
  else
    match outcome with
    | .failure reason => s.abort ("probe failed: ".toList ++ reason)
    | .success position =>
      match position[Axis.z.index.val]? with
      | none => s.abort "probe result has no Z axis".toList
      | some z => s.record z

end MeshProbeState

instance : ProbeWizard MeshProbeState where
  isProbing s := decide (s.step = .probing)
  probeKind _ := .mesh
  begin := MeshProbeState.beginNextPoint
  onProbeResult := MeshProbeState.onProbeResult
  abort := MeshProbeState.abort

/-! ### The sweep -/

/-- One touch at each of some angles. -/
structure AngleSweep where
  /-- The angles. -/
  angles : List ℚ
  /-- The axis that is touched. -/
  axis : Axis
  /-- The direction of the touches. -/
  dir : Dir
  /-- The contacts so far. -/
  readings : List ℚ
  /-- How far it is. -/
  step : SweepStep
  /-- Why it was given up. -/
  abortReason : Option (List Char)

namespace AngleSweep

/-- A sweep that has not begun. -/
def new (angles : List ℚ) (axis : Axis) (dir : Dir) : AngleSweep :=
  ⟨angles, axis, dir, [], if angles.isEmpty then .done else .ready, none⟩

/-- Give up. -/
def abort (s : AngleSweep) (reason : List Char) : AngleSweep :=
  { s with step := .aborted, abortReason := some reason }

/-- Begin the touch that is due. -/
def beginNextTouch (s : AngleSweep) : Option (RotaryTouch × AngleSweep) :=
  if s.step ≠ .ready then none
  else
    s.angles[s.readings.length]?.map fun angle => (⟨angle, s.axis, s.dir⟩, { s with step := .probing })

/-- Take the result of a touch. -/
def onProbeResult (s : AngleSweep) (outcome : ProbeOutcome) : AngleSweep :=
  if s.step ≠ .probing then s
  else
    match outcome with
    | .failure reason => s.abort ("probe failed: ".toList ++ reason)
    | .success position =>
      match position[s.axis.index.val]? with
      | none => s.abort ("probe result has no ".toList ++ s.axis.letter :: " axis".toList)
      | some reading =>
        { s with
          readings := s.readings ++ [reading]
          step := if s.readings.length + 1 = s.angles.length then .done else .ready }

end AngleSweep

/-- `evenly_spaced_angles`. -/
def evenlySpacedAngles (n : ℕ) (start : ℚ) : List ℚ :=
  (List.range n).map fun (i : ℕ) => start + 360 / (n : ℚ) * (i : ℚ)

/-- A sweep, what it is for, and what its touches are tuned to. -/
structure SweepRun where
  /-- What it is for: the check of a flip, or the report of a runout. -/
  kind : ProbeKind
  /-- The sweep. -/
  sweep : AngleSweep
  /-- What its touches are tuned to. -/
  params : RotaryProbeParams
  /-- It is for one of the two. -/
  kind_eq : kind = .flipVerify ∨ kind = .runout

instance : ProbeWizard SweepRun where
  isProbing run := decide (run.sweep.step = .probing)
  probeKind run := run.kind
  begin run := run.sweep.beginNextTouch.map fun (touch, sweep) =>
    (.rotary touch run.params, { run with sweep := sweep })
  onProbeResult run outcome := { run with sweep := run.sweep.onProbeResult outcome }
  abort run reason := { run with sweep := run.sweep.abort reason }

end Galdr.Host.Latch
