import Galdr.Text

/-!
# The host's streaming core

The host counts the bytes of every line it has sent and not yet seen answered,
and sends the next line of a program only while the sum fits the firmware's
receive buffer. Answers carry no number: each frees the oldest line in flight.
The core is a state machine without time or transport; every input returns the
effects its driver must carry out.
-/

namespace Galdr.Host

/-- A line on the wire, terminator included. -/
abbrev Line := List UInt8

/-! ## The lifecycle, the commands and the responses -/

/-- Where the host is in its connection and streaming lifecycle. -/
inductive ConnectionState
  | disconnected
  | connecting
  | idle
  | streaming
  | hold
  | alarm
  | error
  deriving DecidableEq, Repr

/-- The link is up and ready. -/
def ConnectionState.isConnected : ConnectionState → Bool
  | .disconnected | .connecting => false
  | _ => true

/-- The real-time commands, one byte each. -/
inductive RealtimeCommand
  | softReset
  | programStop
  | statusReport
  | cycleStart
  | feedHold
  | safetyDoor
  | jogCancel
  | fullReport
  | feedOverrideReset
  | feedOverridePlus10
  | feedOverrideMinus10
  | feedOverridePlus1
  | feedOverrideMinus1
  | rapidOverrideReset
  | rapidOverride50
  | rapidOverride25
  | spindleOverrideReset
  | spindleOverridePlus10
  | spindleOverrideMinus10
  | spindleOverridePlus1
  | spindleOverrideMinus1
  | spindleStopToggle
  | coolantFloodToggle
  | coolantMistToggle
  deriving DecidableEq, Repr

/-- The byte of a real-time command. -/
def RealtimeCommand.byte : RealtimeCommand → UInt8
  | softReset => 0x18
  | programStop => 0x86
  | statusReport => 0x3F
  | cycleStart => 0x7E
  | feedHold => 0x21
  | safetyDoor => 0x84
  | jogCancel => 0x85
  | fullReport => 0x87
  | feedOverrideReset => 0x90
  | feedOverridePlus10 => 0x91
  | feedOverrideMinus10 => 0x92
  | feedOverridePlus1 => 0x93
  | feedOverrideMinus1 => 0x94
  | rapidOverrideReset => 0x95
  | rapidOverride50 => 0x96
  | rapidOverride25 => 0x97
  | spindleOverrideReset => 0x99
  | spindleOverridePlus10 => 0x9A
  | spindleOverrideMinus10 => 0x9B
  | spindleOverridePlus1 => 0x9C
  | spindleOverrideMinus1 => 0x9D
  | spindleStopToggle => 0x9E
  | coolantFloodToggle => 0xA0
  | coolantMistToggle => 0xA1

/-- One line of firmware output. Only `ok` and `error` move the window. The
position of a probe result is the text it was read from. -/
inductive Response
  | ok
  | error (code : ℕ)
  | alarm (code : ℕ)
  | status (body : List Char)
  | probeResult (position : List (List Char)) (success : Bool)
  | message (body : List Char)
  | banner (text : List Char)
  | startupEcho (text : List Char)
  | setting (number : ℕ) (value : List Char)
  | unknown (text : List Char)
  deriving DecidableEq

/-- The response answers a line. -/
def Response.isAnswer : Response → Bool
  | ok | error _ => true
  | _ => false

/-- `usize::MAX`. -/
def usizeMax : ℕ := 2 ^ 64 - 1

/-- The receive buffer advertised in an `[OPT:]` message: its third field. -/
def rxBufferFromOpt (body : List Char) : Option ℕ :=
  match Text.stripPrefix "OPT:".toList body with
  | none => none
  | some rest =>
    match (rest.splitOn ',')[2]? with
    | none => none
    | some field => Text.parseUnsigned usizeMax (Text.trim field)

/-- The response shows that there is a controller. -/
def isGrblEvidence (response : Response) (acceptAcks : Bool) : Bool :=
  match response with
  | .status _ | .banner _ => true
  | .message body =>
    "VER:".toList.isPrefixOf body || "OPT:".toList.isPrefixOf body
  | .ok | .error _ | .alarm _ => acceptAcks
  | .probeResult _ _ => acceptAcks
  | .setting _ _ => acceptAcks
  | .startupEcho _ | .unknown _ => false

/-- The run state of a status report. -/
inductive RunState
  | idle
  | run
  | hold
  | jog
  | alarm
  | door
  | check
  | home
  | sleep
  | tool
  | unknown
  deriving DecidableEq, Repr

/-- The run state of a token. -/
def RunState.fromToken (token : List Char) : RunState :=
  if token = "Idle".toList then .idle
  else if token = "Run".toList then .run
  else if token = "Hold".toList then .hold
  else if token = "Jog".toList then .jog
  else if token = "Alarm".toList then .alarm
  else if token = "Door".toList then .door
  else if token = "Check".toList then .check
  else if token = "Home".toList then .home
  else if token = "Sleep".toList then .sleep
  else if token = "Tool".toList then .tool
  else .unknown

/-- The run state a status body begins with, up to its substate. -/
def statusRunState (body : List Char) : RunState :=
  .fromToken ((body.takeWhile (· ≠ '|')).takeWhile (· ≠ ':'))

/-- The state to adopt when the handshake ends with a response. -/
def adoptedStateFor : Response → ConnectionState
  | .status body =>
    match statusRunState body with
    | .hold => .hold
    | .alarm => .alarm
    | _ => .idle
  | .alarm _ => .alarm
  | _ => .idle

/-- The state a later status report may adopt. -/
def lifecycleFromStatusRunstate : RunState → Option ConnectionState
  | .idle => some .idle
  | .hold => some .hold
  | .alarm => some .alarm
  | _ => none

/-! ## The send-ahead window -/

/-- The faults the core surfaces. -/
inductive EngineError
  /-- An answer with nothing in flight. -/
  | unexpectedAck
  /-- A line that can never fit. -/
  | lineTooLong (len rxBuffer : ℕ)
  deriving DecidableEq, Repr

/-- The default receive buffer. -/
def defaultRxBuffer : ℕ := 1024

/-- The lengths of the lines sent and not yet answered, against the receive
buffer. -/
structure FlowWindow where
  /-- The bytes the lines in flight may not exceed. -/
  rxBuffer : ℕ
  /-- The lengths, the oldest first. -/
  inflight : List ℕ
  /-- Their sum, kept as lines come and go. -/
  inflightBytes : ℕ
  deriving DecidableEq

namespace FlowWindow

/-- An empty window. -/
def new (rxBuffer : ℕ) : FlowWindow := ⟨max rxBuffer 1, [], 0⟩

/-- Resize the window. -/
def setRxBuffer (w : FlowWindow) (rxBuffer : ℕ) : FlowWindow :=
  { w with rxBuffer := max rxBuffer 1 }

/-- The free space of the firmware's buffer, by the host's count. The subtraction
is checked: where it underflows there is none. -/
def remaining (w : FlowWindow) : Option ℕ :=
  if w.inflightBytes ≤ w.rxBuffer then some (w.rxBuffer - w.inflightBytes) else none

/-- Whether a line fits now; a line longer than the buffer never does. -/
def fits (w : FlowWindow) (len : ℕ) : Except EngineError Bool :=
  if len > w.rxBuffer then .error (.lineTooLong len w.rxBuffer)
  else .ok (w.inflightBytes + len ≤ w.rxBuffer)

/-- A line was sent. -/
def onLineSent (w : FlowWindow) (len : ℕ) : FlowWindow :=
  { w with inflight := w.inflight ++ [len], inflightBytes := w.inflightBytes + len }

/-- A line was answered: the oldest one is freed. -/
def onAck (w : FlowWindow) : Except EngineError (ℕ × FlowWindow) :=
  match w.inflight with
  | [] => .error .unexpectedAck
  | len :: rest => .ok (len, { w with inflight := rest, inflightBytes := w.inflightBytes - len })

end FlowWindow

/-! ## The core -/

/-- What the driver must do. -/
inductive Effect
  | writeLine (line : Line)
  | writeRealtime (bytes : List UInt8)
  | abortQueued
  | stateChanged (state : ConnectionState)
  | response (response : Response)
  | progress (sent acked total : ℕ)
  | fault (error : EngineError)
  deriving DecidableEq

/-- Where a line in flight came from. -/
inductive InflightKind
  /-- The program. -/
  | program
  /-- The console. -/
  | other
  deriving DecidableEq, Repr

/-- The streaming state machine. -/
structure ProtocolCore where
  /-- Where the host is in its lifecycle. -/
  state : ConnectionState
  /-- The window. -/
  flow : FlowWindow
  /-- The lines of the program still to send. -/
  program : List Line
  /-- Where each line in flight came from. -/
  inflightKinds : List InflightKind
  /-- The lines of the program. -/
  programTotal : ℕ
  /-- Those sent. -/
  programSent : ℕ
  /-- Those answered. -/
  programAcked : ℕ
  /-- Answers to tolerate after a banner. -/
  trailingAcks : ℕ
  /-- A reset was sent, and no line since. -/
  ignoreStrayAcks : Bool
  /-- The window the operator has fixed. -/
  pinnedRxWindow : Option ℕ
  deriving DecidableEq

/-- The core in the middle of a call, with the effects so far. -/
structure Turn where
  /-- The core. -/
  core : ProtocolCore
  /-- The effects. -/
  out : List Effect

namespace ProtocolCore

/-- A new core. -/
def new : ProtocolCore where
  state := .disconnected
  flow := .new defaultRxBuffer
  program := []
  inflightKinds := []
  programTotal := 0
  programSent := 0
  programAcked := 0
  trailingAcks := 0
  ignoreStrayAcks := false
  pinnedRxWindow := none

/-- Fix the window. -/
def pinRxWindow (c : ProtocolCore) (bytes : ℕ) : ProtocolCore :=
  { c with pinnedRxWindow := some bytes, flow := c.flow.setRxBuffer bytes }

/-- A core as the engine builds it, from the window the operator has fixed. -/
def start (pinned : Option ℕ) : ProtocolCore :=
  match pinned with
  | none => new
  | some bytes => new.pinRxWindow bytes

/-- Drop the program and its counters. The lines in flight stay. -/
def clearProgram (c : ProtocolCore) : ProtocolCore :=
  { c with program := [], programTotal := 0, programSent := 0, programAcked := 0 }

/-- Empty the window, and where a banner did it, tolerate the answers still to
come. -/
def resetWindow (c : ProtocolCore) (tolerateTrailingAcks : Bool) : ProtocolCore :=
  { c with
    trailingAcks :=
      if tolerateTrailingAcks then min (c.trailingAcks + c.inflightKinds.length) usizeMax
      else c.trailingAcks
    flow := .new (c.pinnedRxWindow.getD c.flow.rxBuffer)
    inflightKinds := [] }

/-- A line of the program is in flight. -/
def hasProgramInflight (c : ProtocolCore) : Bool :=
  c.inflightKinds.any fun k => k = .program

/-- A line joins those in flight. -/
def lineSent (c : ProtocolCore) (len : ℕ) (kind : InflightKind) : ProtocolCore :=
  { c with
    flow := c.flow.onLineSent len
    ignoreStrayAcks := false
    inflightKinds := c.inflightKinds ++ [kind] }

end ProtocolCore

/-- Encode a line: exactly one terminator. -/
def encodeLine (line : List UInt8) : Line :=
  line.rdropWhile (fun b => b = 13 || b = 10) ++ [10]

namespace Turn

/-- One more effect. -/
def push (t : Turn) (e : Effect) : Turn := { t with out := t.out ++ [e] }

/-- Change the core. -/
def update (t : Turn) (f : ProtocolCore → ProtocolCore) : Turn := { t with core := f t.core }

/-- Move to a state, and say so if it is another. -/
def transition (t : Turn) (next : ConnectionState) : Turn :=
  if t.core.state ≠ next then
    (t.update fun c => { c with state := next }).push (.stateChanged next)
  else t

/-- Say how far the program is. -/
def emitProgress (t : Turn) : Turn :=
  t.push (.progress t.core.programSent t.core.programAcked t.core.programTotal)

/-- Send the next line of the program. -/
def releaseLine (t : Turn) (line : Line) (rest : List Line) : Turn :=
  (t.update fun c =>
    { c.lineSent line.length .program with
      program := rest
      programSent := c.programSent + 1 }).push (.writeLine line)

/-- Send lines while they fit. -/
def releaseLines : List Line → Turn → Turn
  | [], t => t
  | next :: rest, t =>
    match t.core.flow.fits next.length with
    | .ok true => releaseLines rest (t.releaseLine next rest)
    | _ => t

/-- Send as many lines of the program as fit. -/
def releaseReadyLines (t : Turn) : Turn := releaseLines t.core.program t

/-- Move to idle when the program is done. -/
def completeIfDrained (t : Turn) : Turn :=
  if t.core.program = [] ∧ t.core.hasProgramInflight = false then t.transition .idle else t

/-- What follows an answer while streaming. -/
def streamOn (t : Turn) : Turn :=
  if t.core.state = .streaming then t.releaseReadyLines.emitProgress.completeIfDrained else t

/-- One answer. -/
def onAck (t : Turn) (isError : Bool) : Turn :=
  match t.core.flow.onAck with
  | .error err =>
    if t.core.trailingAcks > 0 then
      t.update fun c => { c with trailingAcks := c.trailingAcks - 1 }
    else if t.core.ignoreStrayAcks then t
    else t.push (.fault err)
  | .ok (_, flow) =>
    let kind := t.core.inflightKinds.headD .other
    let t := t.update fun c => { c with flow := flow, inflightKinds := c.inflightKinds.tail }
    if kind = .other then t.streamOn
    else
      let t := t.update fun c =>
        if c.programAcked < c.programTotal then { c with programAcked := c.programAcked + 1 }
        else c
      if isError then (t.update .clearProgram).transition .error
      else t.streamOn

end Turn

namespace ProtocolCore

/-- The transport is attached. -/
def onConnected (c : ProtocolCore) : Turn :=
  (Turn.mk { c with trailingAcks := 0, ignoreStrayAcks := false } []).transition .connecting

/-- The transport has dropped. -/
def onDisconnected (c : ProtocolCore) : Turn :=
  (Turn.mk { c.clearProgram.resetWindow false with ignoreStrayAcks := false } []).transition
    .disconnected

/-- Send one line outside the program, if it fits now. -/
def onSendLine (c : ProtocolCore) (line : List UInt8) : Turn :=
  let encoded := encodeLine line
  match c.flow.fits encoded.length with
  | .error err => ⟨c, [.fault err]⟩
  | .ok true => ⟨c.lineSent encoded.length .other, [.writeLine encoded]⟩
  | .ok false => ⟨c, [.fault (.lineTooLong encoded.length c.flow.rxBuffer)]⟩

/-- Begin the handshake: two real-time probes, and a counted `$I`. -/
def beginHandshake (c : ProtocolCore) : Turn :=
  let sent := c.onSendLine [0x24, 0x49]
  ⟨sent.core, .writeRealtime [RealtimeCommand.byte .statusReport, RealtimeCommand.byte .fullReport]
    :: sent.out⟩

/-- The encoded lines of a program, or the fault of the first that can never fit. -/
def encodeProgram (flow : FlowWindow) : List (List UInt8) → Except EngineError (List Line)
  | [] => .ok []
  | line :: rest =>
    match flow.fits (encodeLine line).length with
    | .error err => .error err
    | .ok _ => (encodeProgram flow rest).map (encodeLine line :: ·)

/-- Load a program and begin to stream it. -/
def onStreamProgram (c : ProtocolCore) (lines : List (List UInt8)) : Turn :=
  let c := c.clearProgram
  match encodeProgram c.flow lines with
  | .error err => ⟨c, [.fault err]⟩
  | .ok program =>
    let t : Turn := ⟨{ c with program := program, programTotal := program.length }, []⟩
    if program = [] then
      if c.state.isConnected then t.transition .idle else t
    else (t.transition .streaming).releaseReadyLines.emitProgress

/-- What a stop and a reset have in common: the program and the window go. -/
def abort (t : Turn) : Turn :=
  let t := (t.update clearProgram).emitProgress
  let t := (t.update fun c =>
    { c.resetWindow false with ignoreStrayAcks := true }).push .abortQueued
  if t.core.state.isConnected then t.transition .idle else t

/-- A real-time command: its byte, out of band, and what the host knows of its
effect. -/
def onRealtime (c : ProtocolCore) (cmd : RealtimeCommand) : Turn :=
  let t : Turn := ⟨c, [.writeRealtime [cmd.byte]]⟩
  match cmd with
  | .feedHold => if c.state = .streaming then t.transition .hold else t
  | .cycleStart => if c.state = .hold then t.transition .streaming else t
  | .programStop => abort t
  | .softReset => abort t
  | _ => t

/-- Learn the window from an `[OPT:]` message, unless it is fixed. -/
def learnRxBuffer (c : ProtocolCore) (response : Response) : ProtocolCore :=
  match c.pinnedRxWindow, response with
  | none, .message body =>
    match rxBufferFromOpt body with
    | some rx => { c with flow := c.flow.setRxBuffer rx }
    | none => c
  | _, _ => c

/-- Leave the handshake, or follow a status report. -/
def adoptState (t : Turn) (response : Response) : Turn :=
  if t.core.state = .connecting ∧ isGrblEvidence response true then
    t.transition (adoptedStateFor response)
  else
    match response with
    | .status body =>
      if t.core.state = .alarm ∨ t.core.state = .hold ∨ t.core.state = .idle then
        match lifecycleFromStatusRunstate (statusRunState body) with
        | some adopted => t.transition adopted
        | none => t
      else t
    | _ => t

/-- React to a response. -/
def react (t : Turn) (response : Response) : Turn :=
  match response with
  | .ok => t.onAck false
  | .error _ => t.onAck true
  | .alarm _ => (t.update clearProgram).transition .alarm
  | .banner _ =>
    let t := t.update fun c =>
      { c.clearProgram.resetWindow true with ignoreStrayAcks := false }
    (t.push .abortQueued).transition .idle
  | _ => t

/-- One response of the firmware. -/
def onResponse (c : ProtocolCore) (response : Response) : Turn :=
  react (adoptState ⟨c.learnRxBuffer response, [.response response]⟩ response) response

end ProtocolCore

/-! ## Runs of the core -/

/-- One input of the core. -/
inductive Event
  | connected
  | disconnected
  | beginHandshake
  | streamProgram (lines : List (List UInt8))
  | sendLine (line : List UInt8)
  | realtime (cmd : RealtimeCommand)
  | response (response : Response)
  deriving DecidableEq

/-- One input: the core after it, and the effects. -/
def ProtocolCore.handle (c : ProtocolCore) : Event → Turn
  | .connected => c.onConnected
  | .disconnected => c.onDisconnected
  | .beginHandshake => c.beginHandshake
  | .streamProgram lines => c.onStreamProgram lines
  | .sendLine line => c.onSendLine line
  | .realtime cmd => c.onRealtime cmd
  | .response response => c.onResponse response

/-- The core after one input. -/
def ProtocolCore.step (c : ProtocolCore) (ev : Event) : ProtocolCore := (c.handle ev).core

end Galdr.Host
