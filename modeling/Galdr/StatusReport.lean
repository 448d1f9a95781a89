import Galdr.Binary64
import Galdr.Planner
import Galdr.RefreshCadence

/-!
# The status report

The firmware prints a snapshot of the machine as one line between angle brackets: the run
state, one of the two positions, the feed and the spindle speed, the free buffers, and the
elements that come only when there is something to say. Every number is printed with a fixed
count of decimals. The line goes to a buffer of a fixed capacity, and a report that does not
fit is not sent (`statusReport_eq`).
-/

namespace F32

open Binary32 Text

/-- The difference of two numbers: of two finite ones, the exact difference rounded. -/
def sub : F32 → F32 → F32
  | nan, _ | _, nan => nan
  | inf a, inf b => if a = b then nan else inf a
  | inf a, finite _ _ => inf a
  | finite _ _, inf b => inf !b
  | finite a m, finite b n =>
    let d := (finite a m).toRat - (finite b n).toRat
    if d = 0 then finite (a && !b) Magnitude.zero else ofRat (decide (d < 0)) (Rat.nnabs d)

/-- `==`: not a number is equal to nothing, and the two zeros are equal. -/
def eq : F32 → F32 → Bool
  | nan, _ | _, nan => false
  | inf a, inf b => a = b
  | inf _, finite _ _ | finite _ _, inf _ => false
  | finite a m, finite b n => (finite a m).toRat = (finite b n).toRat

/-- `format!` with no decimals. -/
def formatWhole : F32 → List Char
  | nan => ['N', 'a', 'N']
  | inf negative => sign negative ++ ['i', 'n', 'f']
  | finite negative m => sign negative ++ Nat.toDigits 10 (scaled 0 m)

end F32

namespace Galdr.Status

/-! ## The snapshot -/

/-- The run state of the machine. -/
inductive MachineState
  | idle
  | run
  /-- A feed hold; the flag says that it is still in progress. -/
  | hold (inProgress : Bool)
  | jog
  /-- An alarm, by its code. -/
  | alarm (code : UInt8)
  | door
  | check
  | home
  | sleep
  | tool
  deriving DecidableEq

/-- The token of a run state. -/
def MachineState.token : MachineState → List Char
  | idle => "Idle".toList
  | run => "Run".toList
  | hold _ => "Hold".toList
  | jog => "Jog".toList
  | alarm _ => "Alarm".toList
  | door => "Door".toList
  | check => "Check".toList
  | home => "Home".toList
  | sleep => "Sleep".toList
  | tool => "Tool".toList

/-- The number printed after the token, if there is one. -/
def MachineState.substate : MachineState → Option ℕ
  | hold inProgress => some inProgress.toNat
  | alarm code => some code.toNat
  | _ => none

/-- The position that is reported. -/
inductive PositionReport
  | machine
  | work
  deriving DecidableEq

/-- The input pins, asserted or not. -/
structure PinReport where
  probe : Bool
  limits : Fin 4 → Bool
  door : Bool
  hold : Bool
  reset : Bool
  cycleStart : Bool

/-- A pin is asserted. -/
def PinReport.any (pins : PinReport) : Bool :=
  pins.probe || (List.finRange 4).any pins.limits || pins.door || pins.hold || pins.reset
    || pins.cycleStart

/-- The letters of the axes. -/
def axisLetters : Fin 4 → Char := ![ 'X', 'Y', 'Z', 'A']

/-- The letter of a pin, if it is asserted. -/
def pinLetter (letter : Char) (asserted : Bool) : List Char := if asserted then [letter] else []

/-- The letters of the asserted pins, in their order. -/
def PinReport.letters (pins : PinReport) : List Char :=
  pinLetter 'P' pins.probe
    ++ (List.finRange 4).flatMap (fun axis => pinLetter (axisLetters axis) (pins.limits axis))
    ++ pinLetter 'D' pins.door ++ pinLetter 'H' pins.hold ++ pinLetter 'R' pins.reset
    ++ pinLetter 'S' pins.cycleStart

theorem mem_pinLetter {letter c : Char} {asserted : Bool} :
    c ∈ pinLetter letter asserted ↔ asserted = true ∧ c = letter := by
  unfold pinLetter
  cases asserted <;> simp

/-- **The letters are those of the asserted pins.** -/
theorem PinReport.mem_letters {pins : PinReport} {c : Char} :
    c ∈ pins.letters ↔ (pins.probe = true ∧ c = 'P')
      ∨ (∃ axis, pins.limits axis = true ∧ c = axisLetters axis) ∨ (pins.door = true ∧ c = 'D')
      ∨ (pins.hold = true ∧ c = 'H') ∨ (pins.reset = true ∧ c = 'R')
      ∨ (pins.cycleStart = true ∧ c = 'S') := by
  simp only [letters, List.mem_append, List.mem_flatMap, List.mem_finRange, true_and,
    mem_pinLetter, or_assoc]

/-- The overrides that are reported, in percent. -/
structure OverridePercents where
  feed : UInt8
  rapid : UInt8
  spindle : UInt8

/-- What a report is made from. -/
structure MachineSnapshot where
  state : MachineState
  mposMm : Axes F32
  wcoMm : Axes F32
  positionReport : PositionReport
  includeWco : Bool
  feedMmMin : F32
  spindleRpm : UInt16
  plannerBlocksFree : UInt8
  rxBytesFree : UInt16
  pins : PinReport
  overrides : OverridePercents
  includeOv : Bool

namespace MachineSnapshot

/-- The tag of the reported position. -/
def label (snap : MachineSnapshot) : List Char :=
  match snap.positionReport with
  | .machine => "MPos".toList
  | .work => "WPos".toList

/-- The reported position: the machine's, or what is left of it without the offset. -/
def position (snap : MachineSnapshot) : Axes F32 :=
  match snap.positionReport with
  | .machine => snap.mposMm
  | .work => fun axis => (snap.mposMm axis).sub (snap.wcoMm axis)

end MachineSnapshot

/-! ## The line -/

/-- The writes of one number for each axis. -/
def writeAxesCsv (values : Axes F32) : List (List Char) :=
  [(values xAxis).format 3, ',' :: (values yAxis).format 3, ',' :: (values zAxis).format 3,
    ',' :: (values aAxis).format 3]

/-- A natural number as it is printed. -/
abbrev printNat (n : ℕ) : List Char := Nat.toDigits 10 n

/-- The writes that make the line of a report, in their order. -/
def writes (snap : MachineSnapshot) : List (List Char) :=
  [['<'], snap.state.token]
    ++ (match snap.state.substate with
      | some code => [':' :: printNat code]
      | none => [])
    ++ ['|' :: snap.label ++ [':']] ++ writeAxesCsv snap.position
    ++ ["|FS:".toList ++ snap.feedMmMin.formatWhole ++ ',' :: printNat snap.spindleRpm.toNat
      ++ "|Bf:".toList ++ printNat snap.plannerBlocksFree.toNat
      ++ ',' :: printNat snap.rxBytesFree.toNat]
    ++ (if snap.pins.any then ["|Pn:".toList, snap.pins.letters] else [])
    ++ (if snap.includeWco then "|WCO:".toList :: writeAxesCsv snap.wcoMm else [])
    ++ (if snap.includeOv then
      ["|Ov:".toList ++ printNat snap.overrides.feed.toNat
        ++ ',' :: printNat snap.overrides.rapid.toNat
        ++ ',' :: printNat snap.overrides.spindle.toNat]
      else [])
    ++ [">\r\n".toList]

/-- Writes to a buffer of a capacity, each refused if it does not fit. -/
def writeAll (capacity : ℕ) : List Char → List (List Char) → Option (List Char)
  | out, [] => some out
  | out, piece :: rest =>
    if (out ++ piece).length ≤ capacity then writeAll capacity (out ++ piece) rest else none

/-- `ResponseWriter::status_report`. Every character it writes is one byte. -/
def statusReport (capacity : ℕ) (snap : MachineSnapshot) : Option (List Char) :=
  writeAll capacity [] (writes snap)

/-- Writes succeed when all of them fit. -/
theorem writeAll_eq (capacity : ℕ) (out : List Char) (pieces : List (List Char))
    (h : out.length ≤ capacity) :
    writeAll capacity out pieces
      = if (out ++ pieces.flatten).length ≤ capacity then some (out ++ pieces.flatten)
        else none := by
  induction pieces generalizing out with
  | nil =>
    rw [List.flatten_nil, List.append_nil, if_pos h]
    rfl
  | cons piece rest ih =>
    rw [writeAll, List.flatten_cons, ← List.append_assoc]
    split
    next hfits => exact ih (out ++ piece) hfits
    next hfull =>
      rw [if_neg]
      intro hall
      rw [List.length_append] at hall
      exact hfull ((Nat.le_add_right _ _).trans hall)

/-- **A report is its writes, one after the other, if they fit.** -/
theorem statusReport_eq (capacity : ℕ) (snap : MachineSnapshot) :
    statusReport capacity snap
      = if (writes snap).flatten.length ≤ capacity then some (writes snap).flatten else none :=
  writeAll_eq capacity [] (writes snap) (Nat.zero_le _)

/-! ## The elements of a report -/

/-- Numbers with a comma between them. -/
def csv (numbers : List (List Char)) : List Char := [','].intercalate numbers

/-- One number for each axis. -/
def axesText (values : Axes F32) : List Char :=
  csv [(values xAxis).format 3, (values yAxis).format 3, (values zAxis).format 3,
    (values aAxis).format 3]

/-- The first element: the token, and the substate after a colon. -/
def stateText (state : MachineState) : List Char :=
  state.token ++ match state.substate with
    | some code => ':' :: printNat code
    | none => []

/-- The elements of a report. -/
def fields (snap : MachineSnapshot) : List (List Char) :=
  [stateText snap.state, snap.label ++ ':' :: axesText snap.position,
    "FS:".toList ++ csv [snap.feedMmMin.formatWhole, printNat snap.spindleRpm.toNat],
    "Bf:".toList ++ csv [printNat snap.plannerBlocksFree.toNat, printNat snap.rxBytesFree.toNat]]
    ++ (if snap.pins.any then ["Pn:".toList ++ snap.pins.letters] else [])
    ++ (if snap.includeWco then ["WCO:".toList ++ axesText snap.wcoMm] else [])
    ++ (if snap.includeOv then
      ["Ov:".toList ++ csv [printNat snap.overrides.feed.toNat,
        printNat snap.overrides.rapid.toNat, printNat snap.overrides.spindle.toNat]]
      else [])

/-- What stands between the angle brackets. -/
def body (snap : MachineSnapshot) : List Char := ['|'].intercalate (fields snap)

/-- **The line of a report is its elements between angle brackets.** -/
theorem flatten_writes (snap : MachineSnapshot) :
    (writes snap).flatten = '<' :: body snap ++ ">\r\n".toList := by
  unfold writes body fields stateText axesText csv writeAxesCsv
  cases snap.state.substate <;> cases snap.pins.any <;> cases snap.includeWco
    <;> cases snap.includeOv <;> simp [List.intercalate]

end Galdr.Status
