import Galdr.SoftLimits
import Galdr.GcodeParser
import Galdr.PlannerRetry

/-!
# The path of a program

What the parser and the planner make of a program, line by line: the straight moves, each
to a position in steps. An arc is the chords that the planner cuts it into. The work offset
stays what it is.

The moves of a command are those of the blocks that the planner appends for it
(`planCommand_appends`), but for a move that goes nowhere, for which it appends none.
-/

namespace Galdr

variable {K : Type} [Field K] [LinearOrder K] [FloorRing K] [Libm K]

/-- A straight move of the machine. -/
structure MachineMove where
  /-- A rapid, not a cut. -/
  rapid : Bool
  /-- Where it begins. -/
  start : Axes Int32
  /-- Where it ends. -/
  target : Axes Int32

/-- Moves through the given positions. -/
def movesThrough (rapid : Bool) : Axes Int32 → List (Axes Int32) → List MachineMove
  | _, [] => []
  | start, target :: rest => ⟨rapid, start, target⟩ :: movesThrough rapid target rest

/-- The ends of the chords of an arc. -/
def ArcInProgress.chordEnds (arc : ArcInProgress K) (config : PlannerConfig K) :
    List (Axes Int32) :=
  (List.range arc.segments).map fun n => ({ arc with nextSeg := n + 1 }).segTarget config

/-- The parser and the planner, and the two stored positions. -/
structure Interpreter (K : Type) [Field K] [LinearOrder K] where
  /-- The modal state. -/
  modal : ModalState K
  /-- The planner. -/
  planner : Planner K
  /-- The position of `G28`, and that of `G30`. -/
  predefined : Bool → Axes K

namespace Interpreter

/-- Where a command takes the machine. A probe that touches nothing runs to its target. -/
def commandEnds (s : Interpreter K) : PlannerCommand K → Bool × List (Axes Int32)
  | .move rapid axes units distance _ _ machineCoords =>
    (rapid, [s.planner.resolveTarget axes units distance machineCoords])
  | .arc cw axes i j k plane units distance feed feedMode machineCoords =>
    match s.planner.arcGeometry cw axes i j k plane units distance feed feedMode machineCoords with
    | none => (false, [])
    | some arc => (false, arc.chordEnds s.planner.config)
  | .probe _ axes units distance _ => (false, [s.planner.resolveTarget axes units distance false])
  | .goToPredefined isG28 intermediate units distance =>
    (true, (s.planner.intermediateTarget intermediate units distance).toList
      ++ [s.planner.recallTarget (s.predefined isG28)])
  | _ => (false, [])

/-- Carry a command out: its moves, and the machine where they end. A program end takes the
modes back to the defaults, but not the tool. -/
def command (s : Interpreter K) (command : PlannerCommand K) : List MachineMove × Interpreter K :=
  let (rapid, ends) := s.commandEnds command
  let position := ends.getLast?.getD s.planner.positionSteps
  let modal := match command with
    | .programEnd => { ModalState.default with currentTool := s.modal.currentTool }
    | _ => s.modal
  (movesThrough rapid s.planner.positionSteps ends,
    { s with modal := modal, planner := { s.planner with positionSteps := position } })

/-- A line, if the parser accepts it. -/
def line (s : Interpreter K) (bytes : List UInt8) : Option (List MachineMove × Interpreter K) :=
  match parseLine s.modal bytes with
  | (.error _, _) => none
  | (.ok none, modal) => some ([], { s with modal := modal })
  | (.ok (some command), modal) => some (({ s with modal := modal }).command command)

/-- The moves of the lines of a program, if the parser accepts them all. -/
def program : Interpreter K → List (List UInt8) → Option (List MachineMove)
  | _, [] => some []
  | s, bytes :: rest =>
    match s.line bytes with
    | none => none
    | some (moves, s) => (s.program rest).map (moves ++ ·)

end Interpreter

end Galdr
