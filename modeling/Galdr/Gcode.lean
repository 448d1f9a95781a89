import Galdr.Libm

/-!
# G-code words, modal state and planner commands

The data the parser reads and emits: the words of a line, the modal state
carried from line to line, and the command a line becomes. Nothing here does
any geometry; units, distance modes and offsets travel with the words and are
resolved by the planner.
-/

namespace Galdr

/-- The number of work coordinate systems, `G54` to `G59`. -/
def wcsCount : ℕ := 6

/-- The errors a line can be rejected with. -/
inductive GcodeError
  | expectedCommandLetterValue
  | badNumberFormat
  | modalGroupViolation
  | unsupportedCommand
  | probeNoAxis
  | feedRateUndefined
  | jogNoAxis
  | probeInverseTimeUnsupported
  | probeRotaryAxisWord
  | badToolNumber
  deriving DecidableEq, Repr

/-- The status code of an error, as the host sees it in `error:N`. -/
def GcodeError.code : GcodeError → UInt8
  | expectedCommandLetterValue => 1
  | badNumberFormat => 2
  | modalGroupViolation => 21
  | unsupportedCommand => 20
  | probeNoAxis => 26
  | feedRateUndefined => 22
  | jogNoAxis => 26
  | probeInverseTimeUnsupported => 22
  | probeRotaryAxisWord => 33
  | badToolNumber => 23

/-- One lexed word: an upper-case command letter and its value. -/
structure Word (K : Type) where
  /-- The command letter. -/
  letter : Char
  /-- The number after it. -/
  value : K
  deriving DecidableEq

/-- Modal group 1. -/
inductive MotionMode
  /-- `G0`. -/
  | rapid
  /-- `G1`. -/
  | linear
  /-- `G2`. -/
  | arcCw
  /-- `G3`. -/
  | arcCcw
  deriving DecidableEq, Repr

/-- Modal group 3. -/
inductive DistanceMode
  /-- `G90`. -/
  | absolute
  /-- `G91`. -/
  | incremental
  deriving DecidableEq, Repr

/-- Modal group 6. -/
inductive Units
  /-- `G20`. -/
  | inch
  /-- `G21`. -/
  | millimeter
  deriving DecidableEq, Repr

/-- Modal group 5. -/
inductive FeedMode
  /-- `G94`: units per minute. -/
  | unitsPerMin
  /-- `G93`: one over the duration in minutes. -/
  | inverseTime
  deriving DecidableEq, Repr

/-- Modal group 2, the plane of an arc. -/
inductive Plane
  /-- `G17`. -/
  | xy
  /-- `G18`. -/
  | zx
  /-- `G19`. -/
  | yz
  deriving DecidableEq, Repr

/-- The coolant outputs; both may be on. -/
structure CoolantState where
  /-- Mist, `M7`. -/
  mist : Bool
  /-- Flood, `M8`. -/
  flood : Bool
  deriving DecidableEq, Repr

/-- Both coolants off. -/
def CoolantState.off : CoolantState := ⟨false, false⟩

/-- The modes of a `G38.x` probe. -/
structure ProbeKind where
  /-- Stop on contact rather than on release. -/
  toward : Bool
  /-- Alarm when the edge never comes. -/
  alarmOnFail : Bool
  deriving DecidableEq, Repr

namespace ProbeKind

/-- `G38.2`. -/
def g38_2 : ProbeKind := ⟨true, true⟩

/-- `G38.3`. -/
def g38_3 : ProbeKind := ⟨true, false⟩

/-- `G38.4`. -/
def g38_4 : ProbeKind := ⟨false, true⟩

/-- `G38.5`. -/
def g38_5 : ProbeKind := ⟨false, false⟩

end ProbeKind

/-- Modal group 7. -/
inductive SpindleState
  /-- `M3`. -/
  | clockwise
  /-- `M4`. -/
  | counterClockwise
  /-- `M5`. -/
  | stop
  deriving DecidableEq, Repr

/-- The modal state carried from line to line. -/
structure ModalState (K : Type) where
  /-- The active motion mode. -/
  motion : MotionMode
  /-- The active distance mode. -/
  distance : DistanceMode
  /-- The active units. -/
  units : Units
  /-- The active feed mode. -/
  feedMode : FeedMode
  /-- The active work coordinate system, `0` for `G54`. -/
  wcs : ℕ
  /-- A dynamic tool-length offset is in effect. -/
  tloActive : Bool
  /-- The last `F` word. -/
  feed : K
  /-- The last `S` word. -/
  spindleSpeed : K
  /-- The last spindle command. -/
  spindle : SpindleState
  /-- The active plane. -/
  plane : Plane
  /-- The active coolants. -/
  coolant : CoolantState
  /-- The tool of the last `T` word, until an `M6` commits it. -/
  pendingTool : ℕ
  /-- The tool in the spindle. -/
  currentTool : ℕ
  deriving DecidableEq

/-- The power-on modal state. -/
def ModalState.default {K : Type} [Zero K] : ModalState K where
  motion := .rapid
  distance := .absolute
  units := .millimeter
  feedMode := .unitsPerMin
  wcs := 0
  tloActive := false
  feed := 0
  spindleSpeed := 0
  spindle := .stop
  plane := .xy
  coolant := .off
  pendingTool := 0
  currentTool := 0

/-- The axis words of a line; an absent word keeps the axis where it is. -/
structure AxisWords (K : Type) where
  /-- The `X` word. -/
  x : Option K
  /-- The `Y` word. -/
  y : Option K
  /-- The `Z` word. -/
  z : Option K
  /-- The `A` word. -/
  a : Option K
  deriving DecidableEq

namespace AxisWords

variable {K : Type}

/-- No axis word. -/
def none : AxisWords K := ⟨.none, .none, .none, .none⟩

/-- Some axis word is present. -/
def any (words : AxisWords K) : Bool :=
  words.x.isSome || words.y.isSome || words.z.isSome || words.a.isSome

/-- The words in axis order. -/
def word (words : AxisWords K) : Fin 4 → Option K :=
  ![words.x, words.y, words.z, words.a]

end AxisWords

/-- A coordinate-system or offset operation, passed through to the owner of the
coordinate model. -/
inductive CoordinateOp (K : Type)
  /-- `G54` to `G59`. -/
  | selectWcs (index : ℕ)
  /-- `G10 L2`. -/
  | setWcsOffset (index : ℕ) (axes : AxisWords K) (units : Units)
  /-- `G10 L20`. -/
  | setWcsOffsetToPosition (index : ℕ) (axes : AxisWords K) (units : Units)
  /-- `G92`. -/
  | setG92ToPosition (axes : AxisWords K) (units : Units)
  /-- `G92.1`. -/
  | clearG92
  /-- `G28.1` and `G30.1`. -/
  | storePredefined (index : ℕ)
  /-- `G43.1`. -/
  | applyTlo (z : K) (units : Units)
  /-- `G49`. -/
  | cancelTlo
  deriving DecidableEq

/-- A `$J=` jog. -/
structure JogCommand (K : Type) where
  /-- The target words. -/
  axes : AxisWords K
  /-- Absolute or incremental. -/
  distanceMode : DistanceMode
  /-- Inches or millimetres. -/
  units : Units
  /-- The feed in units per minute. -/
  feed : K
  /-- The words are machine coordinates. -/
  machineCoords : Bool
  deriving DecidableEq

/-- What a line asks of the planner, with the raw words and the modal context
needed to resolve them. -/
inductive PlannerCommand (K : Type)
  /-- `G0` and `G1`. -/
  | move (rapid : Bool) (axes : AxisWords K) (units : Units)
      (distance : DistanceMode) (feed : K) (feedMode : FeedMode)
      (machineCoords : Bool)
  /-- `G2` and `G3`. -/
  | arc (cw : Bool) (axes : AxisWords K) (i j k : Option K) (plane : Plane)
      (units : Units) (distance : DistanceMode) (feed : K) (feedMode : FeedMode)
      (machineCoords : Bool)
  /-- `G38.2` to `G38.5`. -/
  | probe (kind : ProbeKind) (axes : AxisWords K) (units : Units)
      (distance : DistanceMode) (feed : K)
  /-- `G4`. -/
  | dwell (seconds : K)
  /-- `G28` and `G30`. -/
  | goToPredefined (isG28 : Bool) (intermediate : AxisWords K) (units : Units)
      (distance : DistanceMode)
  /-- A coordinate operation. -/
  | coordinate (op : CoordinateOp K)
  /-- `M3`, `M4` and `M5`. -/
  | spindle (state : SpindleState) (speed : K)
  /-- `M2` and `M30`. -/
  | programEnd
  /-- `M0`, `M1` and `M6`. -/
  | programPause (optional toolChange : Bool)
  /-- `M7`, `M8` and `M9`. -/
  | coolant (state : CoolantState)
  deriving DecidableEq

end Galdr
