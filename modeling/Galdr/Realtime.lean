import Galdr.Control

/-!
# Real-time bytes

A real-time byte is taken out of the stream as it arrives, ahead of the lines. The
reader that finds one never waits: it changes the control state where the byte means
something in it, and signals the tasks that must act.
-/

namespace Galdr.Comms

/-- The real-time commands of the firmware. -/
inductive RealtimeCommand
  | statusReport
  | cycleStart
  | feedHold
  | softReset
  | stop
  | parserStateReport
  | safetyDoor
  | jogCancel
  | programStop
  | fullStatusReport
  | toggleAutoReport
  | toggleOptionalStop
  | override (byte : UInt8)
  deriving DecidableEq, Repr

/-- The command of a byte; an ordinary byte has none. -/
def classifyRealtime (byte : UInt8) : Option RealtimeCommand :=
  if byte = 0x3F ∨ byte = 0x80 then some .statusReport
  else if byte = 0x7E ∨ byte = 0x81 then some .cycleStart
  else if byte = 0x21 ∨ byte = 0x82 then some .feedHold
  else if byte = 0x18 then some .softReset
  else if byte = 0x19 then some .stop
  else if byte = 0x83 then some .parserStateReport
  else if byte = 0x84 then some .safetyDoor
  else if byte = 0x85 then some .jogCancel
  else if byte = 0x86 then some .programStop
  else if byte = 0x87 then some .fullStatusReport
  else if byte = 0x8C then some .toggleAutoReport
  else if byte = 0x88 then some .toggleOptionalStop
  else if (0x90 ≤ byte ∧ byte ≤ 0x9E) ∨ (0xA0 ≤ byte ∧ byte ≤ 0xA4) then some (.override byte)
  else none

/-- The real-time commands that a stream of bytes is stripped of. -/
def captured (bytes : List UInt8) : List RealtimeCommand := bytes.filterMap classifyRealtime

namespace RealtimeCommand

/-- The command aborts the cycle and rebuilds the pipeline. -/
def resets : RealtimeCommand → Bool
  | softReset | stop => true
  | _ => false

/-- The control state after the reader has dispatched the command. -/
def control (cmd : RealtimeCommand) (c : ControlState) : ControlState :=
  match cmd with
  | feedHold => c.feedHold
  | cycleStart => if c.resumesOnCycleStart then c.cycleStart else c
  | _ => c

end RealtimeCommand

end Galdr.Comms
