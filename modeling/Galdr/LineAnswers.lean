import Galdr.Control
import Galdr.GcodeParser
import Galdr.ProgramText
import Galdr.Runs
import Galdr.SettingsUpload

/-!
# The answers to the lines

The consumer takes the lines from the queue, one at a time, and its handlers answer them: a
system command, a jog, or a line of the program, which goes through the parser and the planner
and may wait for the motion, for the spindle, for the operator or for a probe. The host counts
the answers to know how much room the firmware has.

A line is *answered* by an `ok` or an `error`. A soft reset, a program stop and the banner of a
rebuilt pipeline *supersede* it, since the host begins to count anew. A line that leaves the soft
limits *waits*: its alarm is locked, and the reset that leaves it supersedes the line. `Balanced`
says that there is nothing else, and `balanced_iff` that this is so exactly while no line is
*silent*: a probe that ends in its alarm, which `$X` clears, and a homing cycle that the operator
holds.

What the planner, the executor and the operator do with a line is a parameter, the
`Surroundings` of the line.
-/

namespace Galdr.Comms.Lines

open Storage Text

variable {K : Type}

/-- What the consumer puts out. -/
inductive Reply
  | ok
  | error (code : ℕ)
  | alarm (code : AlarmCode)
  /-- The readiness banner of a rebuilt pipeline. -/
  | banner
  /-- `[MSG:...]`. -/
  | message
  /-- The lines of a report. -/
  | report
  deriving DecidableEq

/-- The host counts the reply. -/
def Reply.terminal : Reply → Bool
  | .ok | .error _ => true
  | _ => false

/-- What came of a line. -/
structure Answer where
  replies : List Reply
  /-- A program stop was taken for the line. -/
  stopped : Bool
  /-- The lines that were taken from the queue. -/
  consumed : ℕ
  deriving DecidableEq

namespace Answer

/-- The replies to one line. -/
def single (replies : List Reply) : Answer := ⟨replies, false, 1⟩

/-- The replies that the host counts. -/
def terminals (a : Answer) : ℕ := a.replies.countP Reply.terminal

/-- The host begins to count anew. -/
def superseded (a : Answer) : Bool := a.stopped || a.replies.contains .banner

/-- The line left the soft limits. -/
def waits (a : Answer) : Bool := !a.superseded && a.replies.contains (.alarm .softLimit)

/-- Every line of the answer is answered once, superseded, or waits. -/
def Settled (a : Answer) : Prop :=
  a.terminals + (if a.superseded then 1 else 0) + (if a.waits then 1 else 0) = a.consumed

end Answer

/-! ## The system commands -/

/-- The bytes of ASCII characters. -/
def ascii (text : List Char) : List UInt8 := text.map Char.toUInt8

/-- `str::from_utf8`. -/
def fromUtf8 (bytes : List UInt8) : Option (List Char) :=
  (String.fromUTF8? ⟨bytes.toArray⟩).map String.toList

/-- Drop the blanks at both ends. -/
def trimAscii (line : List UInt8) : List UInt8 :=
  (line.dropWhile fun b => b = 32 || b = 9).rdropWhile fun b => b = 32 || b = 9

/-- The commands that begin with a `$`. -/
inductive SystemCommand
  | help
  | settingsDump
  | buildInfo (extended : Bool)
  | parserState
  | ngcParams
  | unlock
  | toggleCheck
  | sleep
  | home
  | startupQuery
  | startupSet (index : ℕ) (gcode : List UInt8)
  | restoreSettings
  | restoreParams
  | restoreAll
  | enumSettings
  | enumSettingGroups
  | enumErrorCodes
  | enumAlarmCodes
  | settingDescription (id : ℕ)
  | setSetting (body : List UInt8)
  | pbExport
  | pbImport (hex : List UInt8)
  | unknown
  deriving DecidableEq

namespace SystemCommand

/-- The commands that carry something. -/
def classifyWithPayload (rest : List UInt8) : SystemCommand :=
  match (ascii ['N', '0', '=']).isPrefixOf? rest with
  | some gcode => startupSet 0 gcode
  | none =>
    match (ascii ['N', '1', '=']).isPrefixOf? rest with
    | some gcode => startupSet 1 gcode
    | none =>
      match (ascii ['P', 'B', 'X', '=']).isPrefixOf? rest with
      | some hex => pbImport hex
      | none =>
        match (ascii ['S', 'E', 'D', '=']).isPrefixOf? rest with
        | some id =>
          match (fromUtf8 id).bind fun text => parseUnsigned 65535 (trim text) with
          | some id => settingDescription id
          | none => unknown
        | none =>
          let head := rest.takeWhile (· ≠ '='.toUInt8)
          if head.length < rest.length ∧ head ≠ [] ∧ head.all Lexer.isAsciiDigit then
            setSetting rest
          else unknown

/-- The command behind a `$`. -/
def classify (rest : List UInt8) : SystemCommand :=
  if rest = [] then help
  else if rest = ascii ['$'] then settingsDump
  else if rest = ascii ['I'] then buildInfo false
  else if rest = ascii ['I', '+'] then buildInfo true
  else if rest = ascii ['G'] then parserState
  else if rest = ascii ['#'] then ngcParams
  else if rest = ascii ['X'] then unlock
  else if rest = ascii ['C'] then toggleCheck
  else if rest = ascii ['S', 'L', 'P'] then sleep
  else if rest = ascii ['H'] then home
  else if rest = ascii ['N'] then startupQuery
  else if rest = ascii ['R', 'S', 'T', '=', '$'] then restoreSettings
  else if rest = ascii ['R', 'S', 'T', '=', '#'] then restoreParams
  else if rest = ascii ['R', 'S', 'T', '=', '*'] then restoreAll
  else if rest = ascii ['E', 'S'] then enumSettings
  else if rest = ascii ['E', 'G'] then enumSettingGroups
  else if rest = ascii ['E', 'E'] then enumErrorCodes
  else if rest = ascii ['E', 'A'] then enumAlarmCodes
  else if rest = ascii ['P', 'B', 'X'] then pbExport
  else classifyWithPayload rest

/-- The command only reports. -/
def isReadonlyQuery : SystemCommand → Bool
  | help | settingsDump | buildInfo _ | parserState | ngcParams | startupQuery | enumSettings
  | enumSettingGroups | enumErrorCodes | enumAlarmCodes | settingDescription _ | pbExport => true
  | _ => false

end SystemCommand

/-- What a line is. -/
inductive LineKind
  | blank
  | jog (body : List UInt8)
  | system (rest : List UInt8)
  | gcode (line : List UInt8)
  deriving DecidableEq

/-- What a line is, by its beginning. A jog begins with `$J=` or `$j=`. -/
def lineKind (line : List UInt8) : LineKind :=
  match trimAscii line with
  | [] => .blank
  | first :: rest =>
    if first = '$'.toUInt8 then
      match rest with
      | c :: eq :: body =>
        if Lexer.toAsciiUppercase c = 'J' ∧ eq = '='.toUInt8 then .jog body else .system rest
      | _ => .system rest
    else .gcode (first :: rest)

/-! ## What the handlers wait for -/

/-- How the wait for the spindle ended. -/
inductive SpinUpInjection
  | goOn
  | aborted
  | stopped
  deriving DecidableEq

/-- What the planner made of a command. -/
inductive PlanResult
  | accepted
  | coordinate
  | error (code : ℕ)
  /-- The move leaves the soft limits. -/
  | softLimitAlarm
  /-- A soft reset came while the planner was full. -/
  | aborted
  /-- A program stop came while the planner was full. -/
  | stopped
  | spindle
  | dwell
  | programEnd
  | programPause (optional toolChange : Bool)
  | coolant
  | probe (alarmOnFail : Bool)
  deriving DecidableEq

/-- How a pause of the program ended. -/
inductive PauseOutcome
  | resumed
  | skipped
  | aborted
  | stopped
  deriving DecidableEq

/-- What the probe saw. -/
structure ProbeResult where
  /-- It saw the edge. -/
  triggered : Bool
  /-- It was at the edge before any motion. -/
  alreadyAtEdge : Bool
  deriving DecidableEq

/-- The answer to a probe. -/
def probeResponse (r : ProbeResult) (alarmOnFail : Bool) : Reply :=
  if r.triggered || !alarmOnFail then .ok
  else if r.alreadyAtEdge then .alarm .probeFailInitial
  else .alarm .probeFailContact

/-- What happens around a line while it is handled. -/
structure Surroundings where
  /-- Motion is queued or executed when the line is taken. -/
  running : Bool
  /-- How the wait for the spindle ends. -/
  spinUp : SpinUpInjection
  /-- What the planner makes of the command. -/
  plan : PlanResult
  /-- The planner takes a jog, and the number of its blocks, or the code of its error. -/
  jog : Except ℕ ℕ
  /-- A dwell goes by, and no soft reset comes. -/
  dwell : Bool
  /-- The motion comes to an end, and no soft reset comes. -/
  drain : Bool
  /-- The switch of the optional stops. -/
  optionalStop : Bool
  /-- How a pause ends that has begun. -/
  pause : PauseOutcome
  /-- The lines at the head of the queue in the pause. -/
  queued : List (List UInt8)
  /-- What the probe sees, if no soft reset comes. -/
  probe : Option ProbeResult
  /-- The homing cycle succeeds, if no soft reset comes. -/
  homing : Option Bool
  /-- The operator has held the machine when the homing cycle is over. -/
  held : Bool
  /-- A soft reset breaks off a motion. -/
  wasInCycle : Bool

/-! ## The handlers -/

/-- The consumer, and the modes and settings that its handlers ask for. -/
structure LineSession (K : Type) where
  /-- The control state. -/
  control : ControlState
  /-- The modal state of the parser. -/
  parser : ModalState K
  /-- A line of the program was wrong, and nothing has cleared that. -/
  errorHold : Bool
  /-- The receiver of an upload of settings. -/
  pb : PbReceiver
  /-- The startup lines. -/
  startupLines : List (Option (List UInt8))
  /-- The settings. -/
  settings : Settings

/-- The code of a line that is refused since a line before it was wrong. -/
def errorHoldCode : ℕ := 1

/-- The code of an unsupported command. -/
def errorUnsupportedCommand : ℕ := 3

/-- The code of `$H` when homing is off. -/
def errorHomingDisabled : ℕ := 5

/-- The code of a write while the machine is not idle. -/
def errorNotIdle : ℕ := 8

/-- The code of a line that is locked out. -/
def errorLocked : ℕ := 9

/-- The length of a startup line. -/
def startupLineMax : ℕ := 160 - 8

namespace LineSession

/-- Enter a mode. -/
def inMode (s : LineSession K) (c : ControlState) : LineSession K := { s with control := c }

/-- The parser has accepted a line. -/
def parsed (s : LineSession K) (modal : ModalState K) : LineSession K := { s with parser := modal }

/-- A line of the program was wrong, or something has cleared that. -/
def holding (s : LineSession K) (errorHold : Bool) : LineSession K :=
  { s with errorHold := errorHold }

/-- A settings write is refused. -/
def settingsWriteBlocked (s : LineSession K) (running : Bool) : Bool :=
  !s.control.settingsWriteAllowed || (s.control = .normal && running)

/-- Drop a jog that is over. -/
def refreshJogState (s : LineSession K) (running : Bool) : LineSession K :=
  if s.control = .jog && !running then s.inMode s.control.cancelJog else s

/-- The parser starts again, with the tool it has. -/
def freshParser [Zero K] (s : LineSession K) : LineSession K :=
  s.parsed { ModalState.default with currentTool := s.parser.currentTool }

/-- Rebuild the pipeline; the banner says that it is ready. -/
def resetPipeline [Zero K] (s : LineSession K) : LineSession K :=
  { s.freshParser with errorHold := false, pb := s.pb.reset }

/-- A soft reset. -/
def applySoftReset [Zero K] (s : LineSession K) (wasInCycle : Bool) :
    LineSession K × List Reply :=
  let next := s.control.softReset wasInCycle s.settings.homingEnabled
  ((s.inMode next).resetPipeline,
    match next with
    | .alarm code => [.banner, .alarm code, .message]
    | _ => [.banner])

/-- A program stop, in the modes that it has something to stop in. -/
def programStopCycle [Zero K] (s : LineSession K) : LineSession K :=
  if s.control.programStopQuiesces then s.freshParser.inMode s.control.programStop else s

/-- A soft reset takes the place of the answer. -/
def aborted [Zero K] (s : LineSession K) (wasInCycle : Bool) : LineSession K × Answer :=
  let reset := s.applySoftReset wasInCycle
  (reset.1, .single reset.2)

/-- A program stop takes the place of the answer. -/
def stopped [Zero K] (s : LineSession K) : LineSession K × Answer :=
  (s.programStopCycle, ⟨[], true, 1⟩)

/-- `$X`. -/
def handleUnlock (s : LineSession K) : LineSession K × Answer :=
  let (next, outcome) := s.control.unlock
  (s.inMode next, match outcome with
    | .unlocked => .single [.message, .ok]
    | .notAlarmed => .single [.ok]
    | .locked => .single [.message, .error errorUnsupportedCommand])

/-- `$C`. -/
def handleToggleCheck [Zero K] (s : LineSession K) : LineSession K × Answer :=
  let (next, toggle) := s.control.toggleCheck s.settings.homingEnabled
  match toggle with
  | .enabled => (s.inMode next, .single [.message, .ok])
  | .disabled => ((s.inMode next).resetPipeline, .single [.message, .banner])
  | .rejected => (s, .single [.message, .error errorUnsupportedCommand])

/-- `$SLP`. -/
def handleSleep (s : LineSession K) : LineSession K × Answer :=
  let (next, entered) := s.control.enterSleep
  if entered then (s.inMode next, .single [.ok])
  else (s, .single [.message, .error errorUnsupportedCommand])

/-- `$H`. A cycle that succeeds is answered only in the mode that it leads to. -/
def handleHome [Zero K] (s : LineSession K) (env : Surroundings) : LineSession K × Answer :=
  if !s.settings.homingEnabled then (s, .single [.message, .error errorHomingDisabled])
  else if !s.control.homingAllowed then (s, .single [.message, .error errorLocked])
  else
    match env.homing with
    | none => s.aborted env.wasInCycle
    | some false =>
      ((s.inMode (.alarm .homingFail)).resetPipeline,
        .single [.alarm .homingFail, .message, .banner])
    | some true =>
      let before := if env.held then s.control.feedHold else s.control
      if before.homeComplete = .normal then (s.inMode before.homeComplete, .single [.ok])
      else (s.inMode before, .single [])

/-- `$N0=` and `$N1=`. -/
def handleStartupSet (s : LineSession K) (env : Surroundings) (index : ℕ) (gcode : List UInt8) :
    LineSession K × Answer :=
  if s.settingsWriteBlocked env.running then (s, .single [.message, .error errorNotIdle])
  else if s.startupLines.length ≤ index then
    (s, .single [.message, .error errorUnsupportedCommand])
  else if gcode = [] then
    ({ s with startupLines := s.startupLines.set index none }, .single [.ok])
  else if startupLineMax < gcode.length then
    (s, .single [.message, .error errorUnsupportedCommand])
  else ({ s with startupLines := s.startupLines.set index (some gcode) }, .single [.ok])

/-- `$RST=$`; the banner is the answer. -/
def handleRestoreSettings [Zero K] (s : LineSession K) (env : Surroundings) :
    LineSession K × Answer :=
  if s.settingsWriteBlocked env.running then (s, .single [.message, .error errorNotIdle])
  else
    (({ s with settings := Settings.default, startupLines := [none, none] }.inMode
      (.boot Settings.default.homingEnabled)).resetPipeline, .single [.banner])

/-- `$RST=#`. -/
def handleRestoreParams (s : LineSession K) (env : Surroundings) : LineSession K × Answer :=
  if s.settingsWriteBlocked env.running then (s, .single [.message, .error errorNotIdle])
  else (s, .single [.ok])

/-- `$n=value`. -/
def writeSettingCommand (s : LineSession K) (env : Surroundings) (body : List UInt8) :
    LineSession K × Answer :=
  if s.settingsWriteBlocked env.running then (s, .single [.message, .error errorNotIdle])
  else
    match fromUtf8 body with
    | none => (s, .single [.message, .error SettingError.badValue.code])
    | some text =>
      match s.settings.writeSettingCommand text with
      | (.error e, _) => (s, .single [.message, .error e.code])
      | (.ok (), settings) => ({ s with settings := settings }, .single [.ok])

/-- `$PBX=`. -/
def handlePbWrite (codec : Codec) (s : LineSession K) (env : Surroundings) (hex : List UInt8) :
    LineSession K × Answer :=
  if s.settingsWriteBlocked env.running then
    ({ s with pb := s.pb.reset }, .single [.message, .error errorNotIdle])
  else
    match fromUtf8 hex with
    | none => ({ s with pb := s.pb.reset }, .single [.message, .error SettingError.badValue.code])
    | some text =>
      match s.pb.acceptHex codec (utf8 (trim text)) with
      | (pb, .needMore) => ({ s with pb := pb }, .single [.ok])
      | (pb, .complete settings) => ({ s with pb := pb, settings := settings }, .single [.ok])
      | (pb, .error) => ({ s with pb := pb }, .single [.message, .error SettingError.badValue.code])

/-- The system commands. -/
def handleSystemCommand [Zero K] (codec : Codec) (s : LineSession K) (env : Surroundings)
    (rest : List UInt8) : LineSession K × Answer :=
  match SystemCommand.classify rest with
  | .help | .settingsDump | .buildInfo _ | .parserState | .ngcParams | .startupQuery
  | .enumSettings | .enumSettingGroups | .enumErrorCodes | .enumAlarmCodes
  | .settingDescription _ | .pbExport => (s, .single [.report, .ok])
  | .unlock => s.handleUnlock
  | .toggleCheck => s.handleToggleCheck
  | .sleep => s.handleSleep
  | .home => s.handleHome env
  | .startupSet index gcode => s.handleStartupSet env index gcode
  | .restoreSettings | .restoreAll => s.handleRestoreSettings env
  | .restoreParams => s.handleRestoreParams env
  | .setSetting body => s.writeSettingCommand env body
  | .pbImport hex => s.handlePbWrite codec env hex
  | .unknown => (s, .single [.message, .error errorUnsupportedCommand])

/-! ## The pauses -/

/-- A line at the head of the queue is answered in a pause. -/
def peekedLineIsHoldableQuery (line : List UInt8) : Bool :=
  match lineKind line with
  | .system rest => (SystemCommand.classify rest).isReadonlyQuery
  | _ => false

/-- Answer a line in a pause. -/
def serviceHeldQuery [Zero K] (codec : Codec) (env : Surroundings) (s : LineSession K)
    (line : List UInt8) : LineSession K × Answer :=
  match lineKind line with
  | .system rest => (s.holding false).handleSystemCommand codec env rest
  | _ => (s, .single [])

/-- The queries that are answered in a pause: the others stay in the queue. -/
def heldQueries (env : Surroundings) : List (List UInt8) :=
  env.queued.takeWhile peekedLineIsHoldableQuery

/-- Answer the queries of a pause, one after the other. -/
def serviceHeldQueries [Zero K] (codec : Codec) (env : Surroundings) :
    LineSession K → List (List UInt8) → LineSession K × List Reply
  | s, [] => (s, [])
  | s, line :: lines =>
    let first := s.serviceHeldQuery codec env line
    let rest := serviceHeldQueries codec env first.1 lines
    (rest.1, first.2.replies ++ rest.2)

/-- Take the queries of the pause in front of an answer. -/
def behind (queries : List (List UInt8)) (replies : List Reply) (a : Answer) : Answer :=
  ⟨replies ++ a.replies, a.stopped, queries.length + a.consumed⟩

/-- The end of a pause. -/
def resolvePause [Zero K] (s : LineSession K) (env : Surroundings) : LineSession K × Answer :=
  match env.pause with
  | .resumed => (s.inMode s.control.cycleStart, .single [.ok])
  | .skipped => (s, .single [.ok])
  | .aborted => s.aborted env.wasInCycle
  | .stopped => s.stopped

/-- A pause of the program. -/
def runProgramPause [Zero K] (codec : Codec) (s : LineSession K) (env : Surroundings)
    (optional toolChange : Bool) : LineSession K × Answer :=
  if optional && !env.optionalStop then (s, .single [.ok])
  else if !env.drain then s.aborted env.wasInCycle
  else
    let prompt := if toolChange then [Reply.message] else []
    let paused := s.inMode (if toolChange then .toolChange else s.control.feedHold)
    let held := serviceHeldQueries codec env paused (heldQueries env)
    let outcome := held.1.resolvePause env
    (outcome.1, behind (heldQueries env) (prompt ++ held.2) outcome.2)

/-! ## The lines of the program -/

/-- A probe. -/
def handleProbe [Zero K] (s : LineSession K) (env : Surroundings) (alarmOnFail : Bool) :
    LineSession K × Answer :=
  match env.probe with
  | none => s.aborted env.wasInCycle
  | some result =>
    match probeResponse result alarmOnFail with
    | .alarm code => (s.inMode (.alarm code), .single [.report, .alarm code, .message])
    | reply => (s, .single [.report, reply])

/-- What the planner made of the command of a line. -/
def dispatchPlanResult [Zero K] (codec : Codec) (s : LineSession K) (env : Surroundings) :
    LineSession K × Answer :=
  match env.plan with
  | .accepted | .coordinate | .spindle | .coolant => (s, .single [.ok])
  | .error code => (s.holding true, .single [.message, .error code])
  | .softLimitAlarm => (s.inMode (.alarm .softLimit), .single [.alarm .softLimit, .message])
  | .aborted => s.aborted env.wasInCycle
  | .stopped => s.stopped
  | .dwell => if env.dwell then (s, .single [.ok]) else s.aborted env.wasInCycle
  | .programEnd => if env.drain then (s.freshParser, .single [.ok]) else s.aborted env.wasInCycle
  | .programPause optional toolChange => s.runProgramPause codec env optional toolChange
  | .probe alarmOnFail => s.handleProbe env alarmOnFail

/-- The command cuts, so that the spindle must be up to speed. -/
def cuts : PlannerCommand K → Bool
  | .move rapid .. => !rapid
  | .arc .. => true
  | _ => false

/-- The wait for the spindle in front of a command. -/
def injectSpinUpDwell (env : Surroundings) (command : PlannerCommand K) : SpinUpInjection :=
  if cuts command then env.spinUp else .goOn

variable [Field K] [LinearOrder K] [FloorRing K]

/-- Why a line of the program is refused before it is parsed. -/
def gateLine (s : LineSession K) : Option (List Reply) :=
  if s.errorHold then some [.error errorHoldCode]
  else
    match s.control with
    | .alarm _ | .sleep | .jog => some [.message, .error errorLocked]
    | _ => none

/-- A line of the program. -/
def planGcodeLine (codec : Codec) (s : LineSession K) (env : Surroundings) (line : List UInt8) :
    LineSession K × Answer :=
  let s := if s.errorHold then s else s.refreshJogState env.running
  match s.gateLine with
  | some replies => (s, .single replies)
  | none =>
    match parseLine s.parser line with
    | (.error e, _) => (s.holding true, .single [.message, .error e.code.toNat])
    | (.ok none, modal) => (s.parsed modal, .single [.ok])
    | (.ok (some command), modal) =>
      if s.control = .check then (s.parsed modal, .single [.ok])
      else
        match injectSpinUpDwell env command with
        | .goOn => (s.parsed modal).dispatchPlanResult codec env
        | .aborted => (s.parsed modal).aborted env.wasInCycle
        | .stopped => (s.parsed modal).stopped

/-- A jog. -/
def handleJog (s : LineSession K) (env : Surroundings) (body : List UInt8) :
    LineSession K × Answer :=
  let s := s.refreshJogState env.running
  if s.errorHold then (s, .single [.error errorHoldCode])
  else if !s.control.jogAllowed || (s.control = .normal && env.running) then
    (s, .single [.message, .error errorUnsupportedCommand])
  else
    match parseJog s.parser body with
    | .error e => (s, .single [.message, .error e.code.toNat])
    | .ok _ =>
      match env.jog with
      | .error code => (s, .single [.message, .error code])
      | .ok blocks =>
        (if 0 < blocks then s.inMode s.control.beginJog else s, .single [.ok])

/-- A line. -/
def handleLine (codec : Codec) (s : LineSession K) (env : Surroundings) (line : List UInt8) :
    LineSession K × Answer :=
  match lineKind line with
  | .blank => (s.holding false, .single [.ok])
  | .jog body => s.handleJog env body
  | .system rest => (s.holding false).handleSystemCommand codec env rest
  | .gcode line => s.planGcodeLine codec env line

/-! ## The lines that nothing answers -/

/-- The command that a line of the program brings to the planner. -/
def planned (s : LineSession K) (env : Surroundings) (line : List UInt8) :
    Option (PlannerCommand K) :=
  let s := if s.errorHold then s else s.refreshJogState env.running
  if s.gateLine.isSome || s.control = .check then none
  else (parseLine s.parser line).1.toOption.join

/-- A probe that raises its alarm, and a homing cycle that succeeds while the operator holds the
machine. -/
def Silent (s : LineSession K) (env : Surroundings) (line : List UInt8) : Prop :=
  match lineKind line with
  | .system rest =>
    SystemCommand.classify rest = .home ∧ s.settings.homingEnabled = true ∧
      s.control = .normal ∧ env.homing = some true ∧ env.held = true
  | .gcode line =>
    (∃ command, s.planned env line = some command ∧
      injectSpinUpDwell env command = .goOn) ∧
      env.plan = .probe true ∧ ∃ result, env.probe = some result ∧ result.triggered = false
  | _ => False

end LineSession

/-! ## The answers settle the lines -/

/-- What came of a line is accounted for, and a line that waits waits for a reset. -/
structure Sound (s : LineSession K) (r : LineSession K × Answer) : Prop where
  settled : r.2.Settled
  waits : r.2.waits = true → r.1.control = .alarm .softLimit
  locked : s.control = .alarm .softLimit → r.2.superseded = false →
    r.1.control = .alarm .softLimit

/-- An answer that leaves the mode. -/
theorem sound_of_control {s next : LineSession K} {a : Answer} (hsettled : a.Settled)
    (hwaits : a.waits = false) (hcontrol : next.control = s.control) : Sound s (next, a) where
  settled := hsettled
  waits h := by rw [hwaits] at h; cases h
  locked h _ := hcontrol.trans h

/-- An answer that supersedes. -/
theorem sound_of_superseded {s next : LineSession K} {a : Answer} (hsettled : a.Settled)
    (hsuperseded : a.superseded = true) : Sound s (next, a) where
  settled := hsettled
  waits h := by
    unfold Answer.waits at h
    rw [hsuperseded] at h
    cases h
  locked _ h := by rw [hsuperseded] at h; cases h

/-- An answer in a mode that is not the one in which lines wait. -/
theorem sound_of_ne {s next : LineSession K} {a : Answer} (hsettled : a.Settled)
    (hwaits : a.waits = false) (hcontrol : s.control ≠ .alarm .softLimit) :
    Sound s (next, a) where
  settled := hsettled
  waits h := by rw [hwaits] at h; cases h
  locked h := absurd h hcontrol

theorem sound_handleUnlock (s : LineSession K) : Sound s s.handleUnlock := by
  unfold LineSession.handleUnlock
  cases hcontrol : s.control with
  | alarm code =>
    cases hlocked : code.isLocked with
    | true =>
      simp only [ControlState.unlock, hlocked, if_true]
      exact sound_of_control rfl rfl hcontrol.symm
    | false =>
      simp only [ControlState.unlock, hlocked, Bool.false_eq_true, if_false]
      refine sound_of_ne rfl rfl fun h => ?_
      rw [hcontrol] at h
      cases h
      cases hlocked
  | _ => exact sound_of_control rfl rfl hcontrol.symm

section Zero

variable [Zero K]

theorem sound_aborted (s s' : LineSession K) (wasInCycle : Bool) :
    Sound s (s'.aborted wasInCycle) := by
  unfold LineSession.aborted LineSession.applySoftReset
  dsimp only
  split
  · exact sound_of_superseded rfl rfl
  · exact sound_of_superseded rfl rfl

theorem sound_stopped (s s' : LineSession K) : Sound s s'.stopped := sound_of_superseded rfl rfl

theorem sound_handleToggleCheck (s : LineSession K) : Sound s s.handleToggleCheck := by
  unfold LineSession.handleToggleCheck
  cases hcontrol : s.control with
  | normal => exact sound_of_ne rfl rfl (by rw [hcontrol]; simp)
  | check => exact sound_of_superseded rfl rfl
  | _ => exact sound_of_control rfl rfl rfl

omit [Zero K] in
theorem sound_handleSleep (s : LineSession K) : Sound s s.handleSleep := by
  unfold LineSession.handleSleep
  cases hcontrol : s.control with
  | normal => exact sound_of_ne rfl rfl (by rw [hcontrol]; simp)
  | _ => exact sound_of_control rfl rfl rfl

omit [Zero K] in
theorem sound_handleStartupSet (s : LineSession K) (env : Surroundings) (index : ℕ)
    (gcode : List UInt8) : Sound s (s.handleStartupSet env index gcode) := by
  unfold LineSession.handleStartupSet
  split_ifs <;> exact sound_of_control rfl rfl rfl

theorem sound_handleRestoreSettings (s : LineSession K) (env : Surroundings) :
    Sound s (s.handleRestoreSettings env) := by
  unfold LineSession.handleRestoreSettings
  split_ifs
  · exact sound_of_control rfl rfl rfl
  · exact sound_of_superseded rfl rfl

omit [Zero K] in
theorem sound_handleRestoreParams (s : LineSession K) (env : Surroundings) :
    Sound s (s.handleRestoreParams env) := by
  unfold LineSession.handleRestoreParams
  split_ifs <;> exact sound_of_control rfl rfl rfl

omit [Zero K] in
theorem sound_writeSettingCommand (s : LineSession K) (env : Surroundings)
    (body : List UInt8) : Sound s (s.writeSettingCommand env body) := by
  unfold LineSession.writeSettingCommand
  split_ifs
  · exact sound_of_control rfl rfl rfl
  · cases fromUtf8 body with
    | none => exact sound_of_control rfl rfl rfl
    | some text =>
      dsimp only
      split <;> exact sound_of_control rfl rfl rfl

omit [Zero K] in
theorem sound_handlePbWrite (codec : Codec) (s : LineSession K) (env : Surroundings)
    (hex : List UInt8) : Sound s (s.handlePbWrite codec env hex) := by
  unfold LineSession.handlePbWrite
  split_ifs
  · exact sound_of_control rfl rfl rfl
  · cases fromUtf8 hex with
    | none => exact sound_of_control rfl rfl rfl
    | some text =>
      dsimp only
      split <;> exact sound_of_control rfl rfl rfl

/-- A homing cycle is answered, but for one that the operator holds. -/
theorem sound_handleHome_iff (s : LineSession K) (env : Surroundings) :
    Sound s (s.handleHome env) ↔
      ¬(s.settings.homingEnabled = true ∧ s.control = .normal ∧ env.homing = some true ∧
        env.held = true) := by
  unfold LineSession.handleHome
  cases henabled : s.settings.homingEnabled with
  | false => exact iff_of_true (sound_of_control rfl rfl rfl) (by simp)
  | true =>
    cases hallowed : s.control.homingAllowed with
    | false =>
      refine iff_of_true (sound_of_control rfl rfl rfl) fun ⟨_, hnormal, _⟩ => ?_
      rw [hnormal] at hallowed
      cases hallowed
    | true =>
      have hne : s.control ≠ .alarm .softLimit := fun h => by rw [h] at hallowed; cases hallowed
      cases hhoming : env.homing with
      | none => exact iff_of_true (sound_aborted s s _) (by simp)
      | some success =>
        cases success with
        | false => exact iff_of_true (sound_of_superseded rfl rfl) (by simp)
        | true =>
          cases hheld : env.held with
          | false =>
            have hcomplete : s.control.homeComplete = .normal := by
              unfold ControlState.homeComplete
              rw [if_pos hallowed]
            simp only [Bool.not_true, Bool.false_eq_true, if_false, hcomplete, if_true]
            exact iff_of_true (sound_of_ne rfl rfl hne) (by simp)
          | true =>
            by_cases hnormal : s.control = .normal
            · rw [hnormal]
              refine iff_of_false (fun h => ?_) (by simp)
              have hsettled := h.settled
              cases hsettled
            · have hhold : s.control.feedHold.homeComplete = .normal := by
                cases hcontrol : s.control with
                | normal => exact absurd hcontrol hnormal
                | alarm code =>
                  rw [hcontrol] at hallowed
                  exact if_pos hallowed
                | _ => rw [hcontrol] at hallowed; cases hallowed
              simp only [Bool.not_true, Bool.false_eq_true, if_false, if_true, hhold]
              exact iff_of_true (sound_of_ne rfl rfl hne) (by simp [hnormal])

/-- A system command is answered, but for a homing cycle that the operator holds. -/
theorem sound_handleSystemCommand_iff (codec : Codec) (s : LineSession K) (env : Surroundings)
    (rest : List UInt8) :
    Sound s (s.handleSystemCommand codec env rest) ↔
      ¬(SystemCommand.classify rest = .home ∧ s.settings.homingEnabled = true ∧
        s.control = .normal ∧ env.homing = some true ∧ env.held = true) := by
  unfold LineSession.handleSystemCommand
  cases SystemCommand.classify rest with
  | home => exact (sound_handleHome_iff s env).trans (by simp)
  | unlock => exact iff_of_true (sound_handleUnlock s) (by simp)
  | toggleCheck => exact iff_of_true (sound_handleToggleCheck s) (by simp)
  | sleep => exact iff_of_true (sound_handleSleep s) (by simp)
  | startupSet index gcode => exact iff_of_true (sound_handleStartupSet s env index gcode) (by simp)
  | restoreSettings | restoreAll =>
    exact iff_of_true (sound_handleRestoreSettings s env) (by simp)
  | restoreParams => exact iff_of_true (sound_handleRestoreParams s env) (by simp)
  | setSetting body => exact iff_of_true (sound_writeSettingCommand s env body) (by simp)
  | pbImport hex => exact iff_of_true (sound_handlePbWrite codec s env hex) (by simp)
  | _ => exact iff_of_true (sound_of_control rfl rfl rfl) (by simp)

/-! ## The pauses -/

/-- A query of a pause is answered by its report. -/
theorem serviceHeldQuery_of_holdable (codec : Codec) (env : Surroundings) (s : LineSession K)
    {line : List UInt8} (h : LineSession.peekedLineIsHoldableQuery line = true) :
    s.serviceHeldQuery codec env line = (s.holding false, .single [.report, .ok]) := by
  unfold LineSession.peekedLineIsHoldableQuery at h
  unfold LineSession.serviceHeldQuery
  cases hkind : lineKind line with
  | system rest =>
    simp only [hkind] at h ⊢
    unfold LineSession.handleSystemCommand
    cases hcommand : SystemCommand.classify rest <;> rw [hcommand] at h <;>
      first | rfl | cases h
  | _ => rw [hkind] at h; cases h

/-- The queries of a pause are answered by their reports, in the mode of the pause. -/
theorem serviceHeldQueries_eq (codec : Codec) (env : Surroundings) (s : LineSession K)
    {lines : List (List UInt8)}
    (h : ∀ line ∈ lines, LineSession.peekedLineIsHoldableQuery line = true) :
    (LineSession.serviceHeldQueries codec env s lines).2 =
      lines.flatMap fun _ => [.report, .ok] := by
  induction lines generalizing s with
  | nil => rfl
  | cons line lines ih =>
    obtain ⟨hline, hlines⟩ := List.forall_mem_cons.mp h
    rw [LineSession.serviceHeldQueries, serviceHeldQuery_of_holdable codec env s hline]
    dsimp only
    rw [ih _ hlines]
    rfl

omit [Zero K] in
theorem countP_reports (queries : List (List UInt8)) :
    (queries.flatMap fun _ => [Reply.report, .ok]).countP Reply.terminal = queries.length := by
  induction queries with
  | nil => rfl
  | cons query queries ih =>
    rw [List.flatMap_cons, List.countP_append, ih, Nat.add_comm]
    rfl

omit [Zero K] in
/-- The queries of a pause change nothing in the account of the line that pauses. -/
theorem behind_account (queries : List (List UInt8)) {prompt : List Reply} (a : Answer)
    (hprompt : ∀ r ∈ prompt, r = .message) :
    let held := LineSession.behind queries (prompt ++ queries.flatMap fun _ => [.report, .ok]) a
    held.terminals = queries.length + a.terminals ∧ held.superseded = a.superseded ∧
      held.waits = a.waits := by
  have hcount : prompt.countP Reply.terminal = 0 :=
    List.countP_eq_zero.mpr fun r hr => by rw [hprompt r hr]; decide
  have hbanner : Reply.banner ∉ prompt := fun h => by cases hprompt _ h
  have halarm : Reply.alarm .softLimit ∉ prompt := fun h => by cases hprompt _ h
  have hsuperseded : (LineSession.behind queries
      (prompt ++ queries.flatMap fun _ => [.report, .ok]) a).superseded = a.superseded := by
    simp [Answer.superseded, LineSession.behind, hbanner]
  refine ⟨?_, hsuperseded, ?_⟩
  · simp [Answer.terminals, LineSession.behind, hcount, countP_reports]
  · unfold Answer.waits
    rw [hsuperseded]
    simp [LineSession.behind, halarm]

omit [Zero K] in
theorem sound_behind {s next : LineSession K} {queries : List (List UInt8)} {prompt : List Reply}
    {a : Answer} (h : Sound s (next, a)) (hprompt : ∀ r ∈ prompt, r = .message) :
    Sound s (next, LineSession.behind queries
      (prompt ++ queries.flatMap fun _ => [.report, .ok]) a) := by
  obtain ⟨hterminals, hsuperseded, hwaits⟩ := behind_account queries a hprompt
  refine ⟨?_, fun hw => h.waits (hwaits.symm.trans hw),
    fun hc hs => h.locked hc (hsuperseded.symm.trans hs)⟩
  have hsettled := h.settled
  unfold Answer.Settled at hsettled ⊢
  dsimp only at hsettled ⊢
  rw [hterminals, hsuperseded, hwaits]
  show _ = queries.length + a.consumed
  omega

theorem heldQueries_replies (codec : Codec) (env : Surroundings) (s : LineSession K) :
    (LineSession.serviceHeldQueries codec env s (LineSession.heldQueries env)).2 =
      (LineSession.heldQueries env).flatMap fun _ => [.report, .ok] :=
  serviceHeldQueries_eq codec env s fun _ hline => List.mem_takeWhile_imp hline

theorem sound_resolvePause {s s' : LineSession K} (env : Surroundings)
    (hne : s.control ≠ .alarm .softLimit) : Sound s (s'.resolvePause env) := by
  unfold LineSession.resolvePause
  cases env.pause with
  | resumed => exact sound_of_ne rfl rfl hne
  | skipped => exact sound_of_ne rfl rfl hne
  | aborted => exact sound_aborted s s' _
  | stopped => exact sound_stopped s s'

theorem sound_runProgramPause (codec : Codec) {s : LineSession K} (env : Surroundings)
    (optional toolChange : Bool) (hne : s.control ≠ .alarm .softLimit) :
    Sound s (s.runProgramPause codec env optional toolChange) := by
  unfold LineSession.runProgramPause
  split_ifs
  · exact sound_of_control rfl rfl rfl
  · exact sound_aborted s s _
  all_goals
    dsimp only
    rw [heldQueries_replies]
    exact sound_behind (sound_resolvePause env hne) (by simp)

/-! ## The lines of the program -/

/-- A probe is answered, but for one that raises its alarm. -/
theorem sound_handleProbe_iff {s : LineSession K} (env : Surroundings) (alarmOnFail : Bool)
    (hne : s.control ≠ .alarm .softLimit) :
    Sound s (s.handleProbe env alarmOnFail) ↔
      ¬(alarmOnFail = true ∧ ∃ result, env.probe = some result ∧ result.triggered = false) := by
  unfold LineSession.handleProbe
  cases hprobe : env.probe with
  | none => exact iff_of_true (sound_aborted s s _) (by simp)
  | some result =>
    obtain ⟨triggered, alreadyAtEdge⟩ := result
    cases triggered with
    | true => exact iff_of_true (sound_of_ne rfl rfl hne) (by simp)
    | false =>
      cases alarmOnFail with
      | false => exact iff_of_true (sound_of_ne rfl rfl hne) (by simp)
      | true =>
        refine iff_of_false (fun h => ?_) (by simp)
        have hsettled := h.settled
        cases alreadyAtEdge <;> cases hsettled

/-- What the planner made of a command is answered, but for a probe that raises its alarm. -/
theorem sound_dispatchPlanResult_iff (codec : Codec) {s : LineSession K} (env : Surroundings)
    (hne : s.control ≠ .alarm .softLimit) :
    Sound s (s.dispatchPlanResult codec env) ↔
      ¬(env.plan = .probe true ∧ ∃ result, env.probe = some result ∧
        result.triggered = false) := by
  unfold LineSession.dispatchPlanResult
  cases env.plan with
  | softLimitAlarm =>
    refine iff_of_true ⟨rfl, fun _ => rfl, fun h => absurd h hne⟩ (by simp)
  | aborted => exact iff_of_true (sound_aborted s s _) (by simp)
  | stopped => exact iff_of_true (sound_stopped s s) (by simp)
  | dwell =>
    cases env.dwell with
    | true => exact iff_of_true (sound_of_ne rfl rfl hne) (by simp)
    | false => exact iff_of_true (sound_aborted s s _) (by simp)
  | programEnd =>
    cases env.drain with
    | true => exact iff_of_true (sound_of_ne rfl rfl hne) (by simp)
    | false => exact iff_of_true (sound_aborted s s _) (by simp)
  | programPause optional toolChange =>
    exact iff_of_true (sound_runProgramPause codec env optional toolChange hne) (by simp)
  | probe alarmOnFail => exact (sound_handleProbe_iff env alarmOnFail hne).trans (by simp)
  | _ => exact iff_of_true (sound_of_ne rfl rfl hne) (by simp)

end Zero

variable [Field K] [LinearOrder K] [FloorRing K]

omit [Field K] [LinearOrder K] [FloorRing K] in
/-- Only the mode matters, and of that only whether lines wait in it. -/
theorem sound_congr (s s' : LineSession K) {r : LineSession K × Answer}
    (h : s.control = .alarm .softLimit ↔ s'.control = .alarm .softLimit) :
    Sound s r ↔ Sound s' r :=
  ⟨fun hr => ⟨hr.settled, hr.waits, fun hc => hr.locked (h.mpr hc)⟩,
    fun hr => ⟨hr.settled, hr.waits, fun hc => hr.locked (h.mp hc)⟩⟩

omit [Field K] [LinearOrder K] [FloorRing K] in
/-- A jog that is over was not in the mode in which lines wait. -/
theorem refreshJogState_control (s : LineSession K) (running : Bool) :
    (s.refreshJogState running).control = .alarm .softLimit ↔ s.control = .alarm .softLimit := by
  unfold LineSession.refreshJogState
  split_ifs with h
  · have hjog : s.control = .jog := by simpa using (Bool.and_eq_true_iff.mp h).1
    simp [LineSession.inMode, hjog, ControlState.cancelJog]
  · rfl

theorem sound_handleJog (s : LineSession K) (env : Surroundings) (body : List UInt8) :
    Sound s (s.handleJog env body) := by
  refine (sound_congr _ s (refreshJogState_control s env.running)).mp ?_
  unfold LineSession.handleJog
  generalize s.refreshJogState env.running = s
  dsimp only
  split_ifs with herror hbusy
  · exact sound_of_control rfl rfl rfl
  · exact sound_of_control rfl rfl rfl
  · cases parseJog s.parser body with
    | error e => exact sound_of_control rfl rfl rfl
    | ok command =>
      cases env.jog with
      | error code => exact sound_of_control rfl rfl rfl
      | ok blocks =>
        refine sound_of_ne rfl rfl fun h => hbusy ?_
        rw [h]
        rfl

omit [Field K] [LinearOrder K] [FloorRing K] in
/-- A refused line is refused with one error. -/
theorem gateLine_eq_some {s : LineSession K} {replies : List Reply}
    (h : s.gateLine = some replies) :
    replies = [.error errorHoldCode] ∨ replies = [.message, .error errorLocked] := by
  unfold LineSession.gateLine at h
  split_ifs at h
  · exact .inl (Option.some.inj h).symm
  · cases hcontrol : s.control <;> rw [hcontrol] at h <;>
      first | exact .inr (Option.some.inj h).symm | cases h

omit [Field K] [LinearOrder K] [FloorRing K] in
/-- A line that is not refused does not come in the mode in which lines wait. -/
theorem control_of_gateLine {s : LineSession K} (h : s.gateLine = none) :
    s.control ≠ .alarm .softLimit := by
  intro hcontrol
  unfold LineSession.gateLine at h
  rw [hcontrol] at h
  split_ifs at h

/-- A line of the program is answered, but for a probe that raises its alarm. -/
theorem sound_planGcodeLine_iff (codec : Codec) (s : LineSession K) (env : Surroundings)
    (line : List UInt8) :
    Sound s (s.planGcodeLine codec env line) ↔
      ¬((∃ command, s.planned env line = some command ∧
          LineSession.injectSpinUpDwell env command = .goOn) ∧
        env.plan = .probe true ∧ ∃ result, env.probe = some result ∧
          result.triggered = false) := by
  unfold LineSession.planGcodeLine LineSession.planned
  have hrefreshed : s.control = .alarm .softLimit ↔
      (if s.errorHold then s else s.refreshJogState env.running).control = .alarm .softLimit := by
    split_ifs
    · rfl
    · exact (refreshJogState_control s env.running).symm
  rw [sound_congr s _ hrefreshed]
  generalize (if s.errorHold then s else s.refreshJogState env.running) = s
  dsimp only
  cases hgate : s.gateLine with
  | some replies =>
    refine iff_of_true ?_ (by simp)
    obtain rfl | rfl := gateLine_eq_some hgate
    · exact sound_of_control rfl rfl rfl
    · exact sound_of_control rfl rfl rfl
  | none =>
    have hne := control_of_gateLine hgate
    cases hparse : parseLine s.parser line with
    | mk result modal =>
      cases result with
      | error e => exact iff_of_true (sound_of_control rfl rfl rfl) (by simp [Except.toOption])
      | ok command =>
        cases command with
        | none => exact iff_of_true (sound_of_control rfl rfl rfl) (by simp [Except.toOption])
        | some command =>
          by_cases hcheck : s.control = .check
          · simp only [hcheck, if_true]
            exact iff_of_true (sound_of_control rfl rfl rfl) (by simp)
          · simp only [hcheck, if_false, Option.isSome_none, decide_false, Bool.or_self,
              Bool.false_eq_true, Except.toOption, Option.join_some, Option.some.injEq,
              exists_eq_left']
            cases LineSession.injectSpinUpDwell env command with
            | goOn =>
              simp only [true_and]
              exact (sound_congr s (s.parsed modal) Iff.rfl).trans
                (sound_dispatchPlanResult_iff codec env hne)
            | aborted => exact iff_of_true (sound_aborted s _ _) (by simp)
            | stopped => exact iff_of_true (sound_stopped s _) (by simp)

/-- **A line is answered once, superseded or waits for a reset, if and only if it is not
silent.** -/
theorem sound_handleLine_iff (codec : Codec) (s : LineSession K) (env : Surroundings)
    (line : List UInt8) :
    Sound s (s.handleLine codec env line) ↔ ¬s.Silent env line := by
  unfold LineSession.handleLine LineSession.Silent
  cases lineKind line with
  | blank => exact iff_of_true (sound_of_control rfl rfl rfl) (by simp)
  | jog body => exact iff_of_true (sound_handleJog s env body) (by simp)
  | system rest =>
    exact (sound_congr s (s.holding false) Iff.rfl).trans
      (sound_handleSystemCommand_iff codec (s.holding false) env rest)
  | gcode line => exact sound_planGcodeLine_iff codec s env line

/-! ## The account of a session -/

omit [Field K] [LinearOrder K] [FloorRing K] in
theorem control_of_refreshed {s : LineSession K} (running : Bool)
    (h : (if s.errorHold then s else s.refreshJogState running).gateLine = none) :
    s.control ≠ .alarm .softLimit := by
  intro hcontrol
  refine control_of_gateLine h ?_
  split_ifs
  · exact hcontrol
  · exact (refreshJogState_control s running).mpr hcontrol

/-- A silent line does not come in the mode in which lines wait. -/
theorem control_of_silent {s : LineSession K} {env : Surroundings} {line : List UInt8}
    (h : s.Silent env line) : s.control ≠ .alarm .softLimit := by
  unfold LineSession.Silent at h
  cases hkind : lineKind line with
  | system rest =>
    simp only [hkind] at h
    rw [h.2.2.1]
    simp
  | gcode text =>
    simp only [hkind] at h
    obtain ⟨⟨command, hplanned, -⟩, -⟩ := h
    unfold LineSession.planned at hplanned
    refine control_of_refreshed env.running ?_
    by_contra hgate
    rw [← Ne, Option.ne_none_iff_isSome] at hgate
    simp [hgate] at hplanned
  | _ => simp only [hkind] at h

/-- The lines that were taken, and what became of them. -/
structure Tally where
  consumed : ℕ
  terminals : ℕ
  superseded : ℕ
  waiting : ℕ

namespace Tally

/-- Nothing was taken. -/
def start : Tally := ⟨0, 0, 0, 0⟩

/-- The lines that wait are superseded. -/
def reset (t : Tally) : Tally :=
  { t with superseded := t.superseded + t.waiting, waiting := 0 }

/-- Add an answer. -/
def count (t : Tally) (a : Answer) : Tally :=
  let t := if a.superseded then t.reset else t
  { consumed := t.consumed + a.consumed
    terminals := t.terminals + a.terminals
    superseded := t.superseded + if a.superseded then 1 else 0
    waiting := t.waiting + if a.waits then 1 else 0 }

/-- Every line that was taken is answered, superseded or waits. -/
def Accounted (t : Tally) : Prop := t.terminals + t.superseded + t.waiting = t.consumed

theorem Accounted.reset {t : Tally} (h : t.Accounted) : t.reset.Accounted := by
  unfold Accounted Tally.reset at *
  dsimp only
  omega

theorem accounted_count_iff {t : Tally} (h : t.Accounted) (a : Answer) :
    (t.count a).Accounted ↔ a.Settled := by
  unfold Tally.count Accounted Answer.Settled at *
  dsimp only
  cases a.superseded with
  | true =>
    simp only [if_true, Tally.reset]
    omega
  | false =>
    simp only [Bool.false_eq_true, if_false]
    omega

end Tally

/-- The consumer, and the account of its lines. -/
structure LineRun (K : Type) where
  session : LineSession K
  tally : Tally

/-- What may happen to the consumer. -/
inductive LineEvent
  /-- A line is taken from the queue. -/
  | line (bytes : List UInt8) (env : Surroundings)
  /-- A soft reset between the lines. -/
  | softReset (wasInCycle : Bool)
  /-- A limit switch trips, or a motor fails. -/
  | halt (motorFault : Bool)
  | programStop
  | cancelJog
  | feedHold
  | cycleStart

namespace LineRun

/-- The mode alone changes. -/
def inMode (r : LineRun K) (c : ControlState) : LineRun K := ⟨r.session.inMode c, r.tally⟩

/-- An alarm that loses the position, in a mode with motion. -/
def halt (r : LineRun K) (code : AlarmCode) : LineRun K :=
  if r.session.control.hardLimitAlarmApplies then
    ⟨(r.session.inMode (.alarm code)).resetPipeline, r.tally.reset⟩
  else r

/-- A program stop, in the modes that it has something to stop in. -/
def programStop (r : LineRun K) : LineRun K :=
  if r.session.control.programStopQuiesces then ⟨r.session.programStopCycle, r.tally.reset⟩
  else r

/-- The change of an event. -/
def step (codec : Codec) (r : LineRun K) : LineEvent → LineRun K
  | .line bytes env =>
    let handled := r.session.handleLine codec env bytes
    ⟨handled.1, r.tally.count handled.2⟩
  | .softReset wasInCycle => ⟨(r.session.applySoftReset wasInCycle).1, r.tally.reset⟩
  | .halt motorFault => r.halt (if motorFault then .motorFault else .hardLimit)
  | .programStop => r.programStop
  | .cancelJog => r.inMode r.session.control.cancelJog
  | .feedHold => r.inMode r.session.control.feedHold
  | .cycleStart => r.inMode r.session.control.cycleStart

/-- At power on. -/
def powerOn (settings : Settings) : LineRun K :=
  ⟨⟨.boot settings.homingEnabled, .default, false, .new, [none, none], settings⟩, .start⟩

/-- No line that was taken is without an answer, unless a reset has superseded it or the machine
is in the locked alarm that only a reset leaves. -/
structure Balanced (r : LineRun K) : Prop where
  accounted : r.tally.Accounted
  locked : r.tally.waiting ≠ 0 → r.session.control = .alarm .softLimit

/-- The event is not a silent line. -/
def Answered (r : LineRun K) : LineEvent → Prop
  | .line bytes env => ¬r.session.Silent env bytes
  | _ => True

omit [LinearOrder K] [FloorRing K] in
theorem balanced_powerOn (settings : Settings) : (powerOn settings : LineRun K).Balanced :=
  ⟨rfl, fun h => absurd rfl h⟩

omit [Field K] [LinearOrder K] [FloorRing K] in
/-- No line waits after a reset. -/
theorem Balanced.reset {r : LineRun K} (h : r.Balanced) (s : LineSession K) :
    (⟨s, r.tally.reset⟩ : LineRun K).Balanced :=
  ⟨h.accounted.reset, fun hw => absurd rfl hw⟩

omit [Field K] [LinearOrder K] [FloorRing K] in
/-- The mode in which lines wait is left by a reset only. -/
theorem Balanced.inMode {r : LineRun K} (h : r.Balanced) {c : ControlState}
    (hc : r.session.control = .alarm .softLimit → c = .alarm .softLimit) :
    (r.inMode c).Balanced :=
  ⟨h.accounted, fun hw => hc (h.locked hw)⟩

omit [LinearOrder K] [FloorRing K] in
theorem Balanced.halt {r : LineRun K} (h : r.Balanced) (code : AlarmCode) :
    (r.halt code).Balanced := by
  unfold LineRun.halt
  split_ifs
  · exact h.reset _
  · exact h

omit [LinearOrder K] [FloorRing K] in
theorem Balanced.programStop {r : LineRun K} (h : r.Balanced) : r.programStop.Balanced := by
  unfold LineRun.programStop
  split_ifs
  · exact h.reset _
  · exact h

/-- A line keeps the account if and only if it is not silent. -/
theorem balanced_line_iff (codec : Codec) {r : LineRun K} (h : r.Balanced) (bytes : List UInt8)
    (env : Surroundings) :
    (r.step codec (.line bytes env)).Balanced ↔ ¬r.session.Silent env bytes := by
  rw [← sound_handleLine_iff codec]
  constructor
  · intro hnext
    by_contra hsound
    have hne := control_of_silent (not_not.mp (mt (sound_handleLine_iff codec _ _ _).mpr hsound))
    refine hsound ⟨(Tally.accounted_count_iff h.accounted _).mp hnext.accounted, fun hwaits => ?_,
      fun hlocked => absurd hlocked hne⟩
    refine hnext.locked ?_
    show _ + (if _ then 1 else 0) ≠ 0
    rw [if_pos hwaits]
    exact Nat.succ_ne_zero _
  · intro hsound
    refine ⟨(Tally.accounted_count_iff h.accounted _).mpr hsound.settled, fun hwaiting => ?_⟩
    cases hwaits : (r.session.handleLine codec env bytes).2.waits with
    | true => exact hsound.waits hwaits
    | false =>
      cases hsuperseded : (r.session.handleLine codec env bytes).2.superseded with
      | true =>
        unfold step Tally.count at hwaiting
        simp [hwaits, hsuperseded, Tally.reset] at hwaiting
      | false =>
        unfold step Tally.count at hwaiting
        simp only [hwaits, hsuperseded, Bool.false_eq_true, if_false, add_zero] at hwaiting
        exact hsound.locked (h.locked hwaiting) hsuperseded

/-- An event keeps the account if and only if it is not a silent line. -/
theorem balanced_step_iff (codec : Codec) (r : LineRun K) (event : LineEvent)
    (h : r.Balanced) : (r.step codec event).Balanced ↔ r.Answered event := by
  cases event with
  | line bytes env => exact balanced_line_iff codec h bytes env
  | softReset wasInCycle => exact iff_of_true (h.reset _) trivial
  | halt motorFault => exact iff_of_true (h.halt _) trivial
  | programStop => exact iff_of_true h.programStop trivial
  | cancelJog | feedHold | cycleStart =>
    exact iff_of_true (h.inMode fun hc => by rw [hc]; rfl) trivial

/-- **In a session every line that was taken is answered once, unless a reset supersedes it, if
and only if no line is silent.** -/
theorem balanced_iff (codec : Codec) (settings : Settings) (events : List LineEvent) :
    (∀ n, ((events.take n).foldl (step codec) (powerOn settings : LineRun K)).Balanced) ↔
      Runs.Allowed (step codec) Answered (powerOn settings : LineRun K) events :=
  (Runs.allowed_iff_forall_take (balanced_step_iff codec) (balanced_powerOn settings) events).symm

/-- A probe that does not see its edge. -/
def missedProbe : Surroundings where
  running := false
  spinUp := .goOn
  plan := .probe true
  jog := .ok 0
  dwell := true
  drain := true
  optionalStop := false
  pause := .resumed
  queued := []
  probe := some ⟨false, false⟩
  homing := none
  held := false
  wasInCycle := false

/-- A codec that reads nothing. -/
def noCodec : Codec := ⟨fun _ => 0, fun _ => [], fun _ => none⟩

/-- `G38.2 Z-1 F10` without contact, and `$X`: two lines, and one answer. -/
theorem not_balanced :
    ¬∀ (codec : Codec) (settings : Settings) (events : List LineEvent) (n : ℕ),
      ((events.take n).foldl (step codec) (powerOn settings : LineRun ℚ)).Balanced := by
  intro hall
  have haccounted := (hall noCodec Settings.default
    [.line (ascii ['G', '3', '8', '.', '2', 'Z', '-', '1', 'F', '1', '0']) missedProbe,
      .line (ascii ['$', 'X']) missedProbe] 2).accounted
  revert haccounted
  unfold Tally.Accounted
  decide +kernel

end LineRun

end Galdr.Comms.Lines
