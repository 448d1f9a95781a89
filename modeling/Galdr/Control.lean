import Mathlib

/-!
# The control state of the machine

The control state is the mode of the machine as its tasks share it: it is smaller
than the state a status report shows, which depends on what is executing too. The
operator's bytes and the commands that change the mode are total functions on it; in
a mode where they mean nothing they leave it as it is.
-/

namespace Galdr

/-- The alarms the firmware raises. -/
inductive AlarmCode
  | hardLimit
  | softLimit
  | abortDuringCycle
  | probeFailInitial
  | probeFailContact
  | homingFail
  | eStop
  | homingRequired
  | motorFault
  deriving DecidableEq, Repr

namespace AlarmCode

/-- The number of an alarm. -/
def code : AlarmCode → ℕ
  | hardLimit => 1
  | softLimit => 2
  | abortDuringCycle => 3
  | probeFailInitial => 4
  | probeFailContact => 5
  | homingFail => 8
  | eStop => 10
  | homingRequired => 11
  | motorFault => 17

/-- Only a soft reset clears the alarm. -/
def isLocked : AlarmCode → Bool
  | hardLimit | softLimit | eStop | motorFault => true
  | _ => false

end AlarmCode

/-- The mode of the machine. -/
inductive ControlState
  | normal
  /-- A feed hold; the flag says that it is still decelerating. -/
  | hold (inProgress : Bool)
  | jog
  | alarm (code : AlarmCode)
  | check
  | sleep
  /-- A manual tool change waits for a cycle start. -/
  | tool
  deriving DecidableEq, Repr

/-- What an unlock did. -/
inductive UnlockOutcome
  | unlocked
  | notAlarmed
  | locked
  deriving DecidableEq, Repr

/-- What a toggle of the check mode did. -/
inductive CheckToggle
  | enabled
  | disabled
  | rejected
  deriving DecidableEq, Repr

namespace ControlState

/-- The mode at power on. -/
def boot (homingEnabled : Bool) : ControlState :=
  if homingEnabled then alarm .homingRequired else normal

/-- The mode of a manual tool change. -/
def toolChange : ControlState := tool

/-- A feed hold. -/
def feedHold : ControlState → ControlState
  | normal | hold _ => hold false
  | other => other

/-- A cycle start. -/
def cycleStart : ControlState → ControlState
  | hold _ | tool => normal
  | other => other

/-- A cycle start releases the mode. -/
def resumesOnCycleStart : ControlState → Bool
  | hold _ | tool => true
  | _ => false

/-- A limit switch or a motion fault raises an alarm in the mode. -/
def hardLimitAlarmApplies : ControlState → Bool
  | normal | hold _ | jog | check => true
  | _ => false

/-- A soft reset. -/
def softReset (_ : ControlState) (wasInCycle homingEnabled : Bool) : ControlState :=
  if wasInCycle then alarm .abortDuringCycle else boot homingEnabled

/-- An unlock (`$X`). -/
def unlock : ControlState → ControlState × UnlockOutcome
  | alarm code => if code.isLocked then (alarm code, .locked) else (normal, .unlocked)
  | other => (other, .notAlarmed)

/-- A toggle of the check mode (`$C`). -/
def toggleCheck (homingEnabled : Bool) : ControlState → ControlState × CheckToggle
  | normal => (check, .enabled)
  | check => (boot homingEnabled, .disabled)
  | other => (other, .rejected)

/-- Sleep (`$SLP`). -/
def enterSleep : ControlState → ControlState × Bool
  | normal => (sleep, true)
  | other => (other, false)

/-- A jog may begin in the mode. -/
def jogAllowed : ControlState → Bool
  | normal | jog => true
  | _ => false

/-- A setting may be written in the mode. -/
def settingsWriteAllowed : ControlState → Bool
  | normal | alarm _ => true
  | _ => false

/-- A jog begins. -/
def beginJog : ControlState → ControlState
  | normal | jog => jog
  | other => other

/-- A jog ends. -/
def cancelJog : ControlState → ControlState
  | jog => normal
  | other => other

/-- A graceful program stop. -/
def programStop : ControlState → ControlState
  | normal | hold _ => normal
  | other => other

/-- A program stop has something to stop in the mode. -/
def programStopQuiesces : ControlState → Bool
  | normal | hold _ => true
  | _ => false

/-- A homing cycle may begin in the mode. -/
def homingAllowed : ControlState → Bool
  | normal => true
  | alarm code => code = .homingRequired
  | _ => false

/-- A homing cycle has succeeded. -/
def homeComplete (c : ControlState) : ControlState :=
  if c.homingAllowed then normal else c

/-! ## The modes a program runs in -/

end ControlState

end Galdr
