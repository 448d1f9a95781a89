import Galdr.Planner
import Galdr.Postprocessor

/-!
# What the host makes of a probe's contact

A probe reports where the machine was when it made contact. From that the host computes where a
work coordinate system is to have its zero: on a plate of known thickness, on an edge that the tip
touched from the side, on the axis of a dowel between two touches, or moved by the eccentricity of
a part that was turned over. The zero goes to the machine as one `G10 L2` line.
-/

namespace Galdr.Host

open Eitri

/-! ## Axes -/

/-- An axis. -/
inductive Axis
  | x
  | y
  | z
  | a
  deriving DecidableEq, Repr

namespace Axis

/-- The letter of an axis. -/
def letter : Axis → Char
  | x => 'X'
  | y => 'Y'
  | z => 'Z'
  | a => 'A'

/-- Its place in a position. -/
def index : Axis → Fin 4
  | x => xAxis
  | y => yAxis
  | z => zAxis
  | a => aAxis

theorem index_injective : Function.Injective index := by
  intro i j h
  cases i <;> cases j <;> first | rfl | exact absurd h (by decide)

end Axis

/-- A direction along an axis. -/
inductive Dir
  | pos
  | neg
  deriving DecidableEq, Repr

/-- The sign of a direction. -/
def Dir.sign : Dir → ℚ
  | pos => 1
  | neg => -1

/-- What came of a probe. -/
inductive ProbeOutcome
  /-- It made contact at a position of the machine. -/
  | success (position : List ℚ)
  /-- It did not, and why. -/
  | failure (reason : List Char)
  deriving DecidableEq

/-! ## Lines -/

/-- A word with three decimals. -/
def word3 (axis : Axis) (value : ℚ) : List Char := ' ' :: axis.letter :: formatFixed value 3

/-- `machine_offset_line`: the zero of the active system goes to a machine position. -/
def machineOffsetLine (values : List (Axis × ℚ)) : List Char :=
  ['G', '1', '0', ' ', 'L', '2', ' ', 'P', '0'] ++ values.flatMap fun v => word3 v.1 v.2

/-- `zero_z_line`, from the contact with a plate. -/
def zeroZLine (position : List ℚ) (plateThickness : ℚ) : Option (List Char) :=
  position[2]?.map fun contactZ => machineOffsetLine [(.z, contactZ - plateThickness)]

/-! ## The datum finder -/

/-- `edge_coord`: the edge is half a tip further than the tip. -/
def edgeCoord (contact af probeDiameter : ℚ) : ℚ := contact + probeDiameter / 2 * af

/-- A corner, by the signs that its faces are approached with from outside. -/
structure Corner where
  /-- Along the first axis. -/
  afX : ℚ
  /-- Along the second axis. -/
  afY : ℚ
  /-- It is approached from inside. -/
  inside : Bool
  deriving DecidableEq

namespace Corner

/-- The sign of the approach along the first axis. -/
def approachX (c : Corner) : ℚ := if c.inside then -c.afX else c.afX

/-- The sign of the approach along the second axis. -/
def approachY (c : Corner) : ℚ := if c.inside then -c.afY else c.afY

end Corner

/-- What a datum is found on. -/
inductive DatumTarget
  /-- One edge, approached in a direction. -/
  | edge (axis : Axis) (dir : Dir)
  /-- A corner. -/
  | corner (corner : Corner)
  deriving DecidableEq

/-- How far a datum finder is. -/
inductive DatumStep
  | enterParams
  | probeEdge
  | probeFaceX
  | readyFaceY
  | probeFaceY
  | review
  | aborted
  deriving DecidableEq, Repr

/-- A touch: an axis, and a direction along it. -/
structure Touch where
  /-- The axis. -/
  axis : Axis
  /-- The direction. -/
  dir : Dir
  deriving DecidableEq, Repr

/-- A datum finder. -/
structure DatumState where
  /-- How far it is. -/
  step : DatumStep
  /-- What it finds. -/
  target : DatumTarget
  /-- The diameter of the tip. -/
  probeDiameter : ℚ
  /-- The contact with the edge. -/
  edgeContact : Option ℚ
  /-- The contact with the first face of a corner. -/
  xContact : Option ℚ
  /-- The contact with the second one. -/
  yContact : Option ℚ
  /-- Why it was given up. -/
  abortReason : Option (List Char)
  deriving DecidableEq

/-- The direction of a sign. -/
def dirOf (sign : ℚ) : Dir := if 0 ≤ sign then .pos else .neg

namespace DatumState

/-- A run that has not begun. -/
def new (target : DatumTarget) (probeDiameter : ℚ) : DatumState :=
  ⟨.enterParams, target, probeDiameter, none, none, none, none⟩

/-- A touch awaits its result. -/
def isProbing (s : DatumState) : Bool :=
  decide (s.step = .probeEdge) || decide (s.step = .probeFaceX) || decide (s.step = .probeFaceY)

/-- Begin the touch that is due. -/
def beginProbe (s : DatumState) : Option Touch × DatumState :=
  match s.step, s.target with
  | .enterParams, .edge axis dir => (some ⟨axis, dir⟩, { s with step := .probeEdge })
  | .enterParams, .corner corner =>
    (some ⟨.x, dirOf corner.approachX⟩, { s with step := .probeFaceX })
  | .readyFaceY, .corner corner =>
    (some ⟨.y, dirOf corner.approachY⟩, { s with step := .probeFaceY })
  | _, _ => (none, s)

/-- Give up. -/
def abort (s : DatumState) (reason : List Char) : DatumState :=
  { s with step := .aborted, abortReason := some reason }

/-- Take the result of a touch. -/
def onProbeResult (s : DatumState) : ProbeOutcome → DatumState
  | .failure reason => s.abort ("probe failed: ".toList ++ reason)
  | .success position =>
    match s.step, s.target with
    | .probeEdge, .edge axis _ =>
      match position[axis.index.val]? with
      | some contact => { s with edgeContact := some contact, step := .review }
      | none => s.abort ("probe result has no ".toList ++ axis.letter :: " axis".toList)
    | .probeFaceX, .corner _ =>
      match position[Axis.x.index.val]? with
      | some x => { s with xContact := some x, step := .readyFaceY }
      | none => s.abort "probe result has no X axis".toList
    | .probeFaceY, .corner _ =>
      match position[Axis.y.index.val]? with
      | some y => { s with yContact := some y, step := .review }
      | none => s.abort "probe result has no Y axis".toList
    | _, _ => s

/-- The edge: where the tip was, and from the side half a tip further. -/
def edgeValue (s : DatumState) : Option ℚ :=
  match s.target with
  | .edge axis dir =>
    s.edgeContact.map fun contact =>
      if axis = .z then contact else edgeCoord contact dir.sign s.probeDiameter
  | .corner _ => none

/-- The corner. -/
def cornerXy (s : DatumState) : Option (ℚ × ℚ) :=
  match s.target with
  | .edge _ _ => none
  | .corner corner =>
    s.xContact.bind fun x => s.yContact.map fun y =>
      (edgeCoord x corner.approachX s.probeDiameter, edgeCoord y corner.approachY s.probeDiameter)

/-- The line that writes the datum, once there is one. -/
def offerG10 (s : DatumState) : Option (List Char) :=
  match s.target with
  | .edge axis _ => s.edgeValue.map fun value => machineOffsetLine [(axis, value)]
  | .corner _ => s.cornerXy.map fun xy => machineOffsetLine [(.x, xy.1), (.y, xy.2)]

end DatumState

/-! ## The rotary centre -/

/-- What the zero of the spindle axis is put on. -/
inductive ZDatum
  /-- The axis of the rotary. -/
  | axisCenterline
  /-- The top of the dowel. -/
  | topSurface
  deriving DecidableEq, Repr

/-- The system that a centre is written to: only the active one. -/
inductive Wcs
  | active
  deriving DecidableEq, Repr

/-- The number of a system in a `P` word. -/
def Wcs.selectorDigit : Wcs → ℕ
  | active => 0

/-- How far a centre finder is. -/
inductive WizardStep
  | enterDowel
  | probeYLeft
  | readyYRight
  | probeYRight
  | moveToYc
  | movedToYc
  | probeZTop
  | review
  | aborted
  deriving DecidableEq, Repr

/-- A centre finder. -/
structure WizardState where
  /-- How far it is. -/
  step : WizardStep
  /-- The diameter of the dowel. -/
  dowelDiameter : ℚ
  /-- The angle that the touches are made at. -/
  indexAngleDeg : ℚ
  /-- The contact from the left. -/
  yLeft : Option ℚ
  /-- The contact from the right. -/
  yRight : Option ℚ
  /-- The contact from above. -/
  zTop : Option ℚ
  /-- What the zero of the spindle axis is put on. -/
  zDatum : ZDatum
  /-- Why it was given up. -/
  abortReason : Option (List Char)
  deriving DecidableEq

namespace WizardState

/-- A touch awaits its result. -/
def isProbing (s : WizardState) : Bool :=
  decide (s.step = .probeYLeft) || decide (s.step = .probeYRight) || decide (s.step = .probeZTop)

/-- Give up. -/
def abort (s : WizardState) (reason : List Char) : WizardState :=
  { s with step := .aborted, abortReason := some reason }

/-- Take the result of a touch. -/
def onProbeResult (s : WizardState) : ProbeOutcome → WizardState
  | .failure reason => s.abort ("probe failed: ".toList ++ reason)
  | .success position =>
    match s.step with
    | .probeYLeft =>
      match position[Axis.y.index.val]? with
      | some y => { s with yLeft := some y, step := .readyYRight }
      | none => s.abort "probe result has no Y axis".toList
    | .probeYRight =>
      match position[Axis.y.index.val]? with
      | some y => { s with yRight := some y, step := .moveToYc }
      | none => s.abort "probe result has no Y axis".toList
    | .probeZTop =>
      match position[Axis.z.index.val]? with
      | some z => { s with zTop := some z, step := .review }
      | none => s.abort "probe result has no Z axis".toList
    | _ => s

/-- The middle between the two sides. -/
def yCenter (s : WizardState) : Option ℚ :=
  s.yLeft.bind fun l => s.yRight.map fun r => (l + r) / 2

/-- Half a dowel below its top. -/
def zCenter (s : WizardState) : Option ℚ := s.zTop.map fun z => z - s.dowelDiameter / 2

/-- Where the zero of the spindle axis is put. -/
def zDatumValue (s : WizardState) : Option ℚ :=
  match s.zDatum with
  | .axisCenterline => s.zCenter
  | .topSurface => s.zTop

/-- The line that writes the centre, once there is one. -/
def offerG10 (s : WizardState) (wcs : Wcs) : Option (List Char) :=
  s.yCenter.bind fun yc => s.zDatumValue.map fun z =>
    ['G', '1', '0', ' ', 'L', '2', ' ', 'P'] ++ Nat.toDigits 10 wcs.selectorDigit
      ++ word3 .y yc ++ word3 .z z

end WizardState

/-- A centre that was saved. -/
structure RotarySetup where
  /-- The middle between the two sides. -/
  yCenter : ℚ
  /-- The axis of the rotary. -/
  zCenter : ℚ
  /-- The diameter of the dowel. -/
  dowelDiameter : ℚ
  /-- What the zero of the spindle axis is put on. -/
  zDatum : ZDatum
  deriving DecidableEq

namespace RotarySetup

/-- Where the zero of the spindle axis is put. -/
def zDatumValue (s : RotarySetup) : ℚ :=
  match s.zDatum with
  | .axisCenterline => s.zCenter
  | .topSurface => s.zCenter + s.dowelDiameter / 2

/-- The line that writes the centre again. -/
def offerG10 (s : RotarySetup) : List Char :=
  ['G', '1', '0', ' ', 'L', '2', ' ', 'P', '0'] ++ word3 .y s.yCenter ++ word3 .z s.zDatumValue

end RotarySetup

/-! ## The flip -/

/-- The two readings of a part that was turned over in between. -/
structure FlipResult where
  /-- The axis they were taken along. -/
  axis : Axis
  /-- The first reading. -/
  r1 : ℚ
  /-- The second reading. -/
  r2 : ℚ
  deriving DecidableEq

namespace FlipResult

/-- Of two readings, and no other number of them. -/
def fromReadings (axis : Axis) : List ℚ → Option FlipResult
  | [r1, r2] => some ⟨axis, r1, r2⟩
  | _ => none

/-- The eccentricity that is left. -/
def error (f : FlipResult) : ℚ := (f.r2 - f.r1) / 2

/-- The zero, moved by it. -/
def correctedOrigin (f : FlipResult) (currentOrigin : ℚ) : ℚ := currentOrigin + f.error

/-- The line that moves the zero. -/
def offerG10 (f : FlipResult) (wcs : Wcs) (currentOrigin : ℚ) : List Char :=
  ['G', '1', '0', ' ', 'L', '2', ' ', 'P'] ++ Nat.toDigits 10 wcs.selectorDigit
    ++ word3 f.axis (f.correctedOrigin currentOrigin)

end FlipResult

end Galdr.Host
