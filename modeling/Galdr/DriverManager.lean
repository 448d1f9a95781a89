import Galdr.DriverRegisters

/-!
# The manager of the drivers

The drivers share one wire. At an exchange a driver answers or does not, what it answers may be
lost, and before it any driver may have lost and regained its power, with all its registers back at
their reset values. At the start the manager initializes every driver, and then once a second it
reads the status of each that is present and initializes again each that is not. After every round
it publishes which axes are online.
-/

namespace Galdr.Tmc

/-- Why an exchange failed. -/
inductive TmcError
  | badLength | badSync | badAddress | registerMismatch | badCrc | timeout | io
  deriving DecidableEq

/-- Why an axis could not be initialized. -/
inductive TmcManagerError
  /-- An exchange failed. -/
  | bus (error : TmcError)
  /-- Not every write was accepted. -/
  | writeVerification (node : Fin axisCount) (expected actual : UInt8)
  /-- The microstep resolution is not one of the driver's. -/
  | invalidMicrosteps (node : Fin axisCount) (microsteps : UInt16)
  deriving DecidableEq

/-- How the initialization of an axis ended. -/
structure AxisReport where
  /-- The node. -/
  node : Fin axisCount
  /-- The driver answered and was configured. -/
  present : Bool
  /-- The version it answered with. -/
  version : UInt8
  /-- The current scale. -/
  current : CurrentScaling

/-! ## The wire -/

/-- What happens at one exchange. -/
structure Exchange where
  /-- The drivers that have lost and regained power since the last one. -/
  lost : Fin axisCount → Bool
  /-- The driver takes part: it accepts the write, or answers the read. -/
  heard : Bool
  /-- The master finds the exchange failed. -/
  failed : Option TmcError
  /-- The pins and the status of the driver. -/
  raw : UInt32

/-- A wire: what the registers of a driver are after a reset, and what happens. -/
structure Wire where
  /-- The registers after a reset. -/
  reset : Registers
  /-- What happens at each exchange. -/
  exchange : ℕ → Exchange

/-- The state of the bus, with what each driver held at the last exchange it took part in. -/
structure Bus where
  /-- The drivers. -/
  drivers : Fin axisCount → Driver
  /-- The exchanges so far. -/
  exchanges : ℕ
  /-- What each driver held when it last took part. -/
  answered : Fin axisCount → Registers
  /-- The exchanges until then. -/
  answeredAt : Fin axisCount → ℕ

section Wire

variable (wire : Wire)

/-- The drivers at an exchange. -/
def powered (bus : Bus) (node : Fin axisCount) : Driver :=
  if (wire.exchange bus.exchanges).lost node then ⟨wire.reset, 0⟩ else bus.drivers node

/-- The bus after an exchange that leaves a driver so. -/
def exchanged (bus : Bus) (node : Fin axisCount) (driver : Driver) : Bus :=
  let heard := (wire.exchange bus.exchanges).heard
  { drivers := Function.update (powered wire bus) node driver
    exchanges := bus.exchanges + 1
    answered := if heard then Function.update bus.answered node driver.regs else bus.answered
    answeredAt := if heard then Function.update bus.answeredAt node (bus.exchanges + 1)
      else bus.answeredAt }

/-- A write. The driver does not answer it. -/
def writeReg (node : Fin axisCount) (reg : Reg) (val : UInt32) (bus : Bus) :
    Except TmcError Unit × Bus :=
  let event := wire.exchange bus.exchanges
  let driver := powered wire bus node
  (match event.failed with
    | some error => .error error
    | none => .ok (),
    exchanged wire bus node
      (if event.heard then ⟨driver.regs.write reg val, driver.ifcnt + 1⟩ else driver))

/-- A read. -/
def readReg (node : Fin axisCount) (reg : Reg) (bus : Bus) : Except TmcError UInt32 × Bus :=
  let event := wire.exchange bus.exchanges
  let driver := powered wire bus node
  (match event.failed with
    | some error => .error error
    | none =>
      if event.heard then
        .ok (if reg = .ifcnt then driver.ifcnt.toUInt32 else (driver.regs.get reg).getD event.raw)
      else .error .timeout,
    exchanged wire bus node driver)

end Wire

/-! ## Initialization -/

section Manager

variable {K : Type} [Field K] [LinearOrder K] [FloorRing K] (wire : Wire)

/-- The writes of a table, until one fails. -/
def writeAll (node : Fin axisCount) : List (Reg × UInt32) → Bus → Except TmcError Unit × Bus
  | [], bus => (.ok (), bus)
  | entry :: rest, bus =>
    match writeReg wire node entry.1 entry.2 bus with
    | (.ok (), bus) => writeAll node rest bus
    | (.error error, bus) => (.error error, bus)

/-- The writes that configure the driver of an axis, and how many they are. -/
def writeConfig (config : TmcConfig K) (axis : Fin axisCount) (bus : Bus) :
    Except TmcManagerError UInt8 × Bus :=
  let node := (config.axes axis).node
  match writeTable config axis with
  | none => (.error (.invalidMicrosteps node (config.axes axis).microsteps), bus)
  | some writes =>
    match writeAll wire node writes bus with
    | (.ok (), bus) => (.ok (UInt8.ofNat writes.length), bus)
    | (.error error, bus) => (.error (.bus error), bus)

/-- The writes of a driver that has answered, between two readings of its counter. -/
def programAxis (config : TmcConfig K) (axis : Fin axisCount) (bus : Bus) :
    Except TmcManagerError Unit × Bus :=
  let node := (config.axes axis).node
  match readReg wire node .ifcnt bus with
  | (.error error, bus) => (.error (.bus error), bus)
  | (.ok before, bus) =>
    match writeConfig wire config axis bus with
    | (.error error, bus) => (.error error, bus)
    | (.ok writes, bus) =>
      match readReg wire node .ifcnt bus with
      | (.error error, bus) => (.error (.bus error), bus)
      | (.ok after, bus) =>
        let delta := ifcnt after - ifcnt before
        if delta ≠ writes then (.error (.writeVerification node writes delta), bus)
        else (.ok (), bus)

/-- The initialization of an axis. -/
def initAxis (config : TmcConfig K) (axis : Fin axisCount) (bus : Bus) :
    Except TmcManagerError AxisReport × Bus :=
  let node := (config.axes axis).node
  let current := rmsCurrentToCs (config.axes axis).runCurrentMa config.rSenseOhms
  match readReg wire node .ioin bus with
  | (.error .timeout, bus) => (.ok ⟨node, false, 0, current⟩, bus)
  | (.error error, bus) => (.error (.bus error), bus)
  | (.ok raw, bus) =>
    let version := ioinVersion raw
    if version ≠ expectedVersion then (.ok ⟨node, false, version, current⟩, bus)
    else
      match programAxis wire config axis bus with
      | (.error error, bus) => (.error error, bus)
      | (.ok (), bus) => (.ok ⟨node, true, version, current⟩, bus)

/-! ## The task -/

/-- The state of the task. -/
structure Manager where
  /-- The bus. -/
  bus : Bus
  /-- The drivers that have been configured. -/
  present : Fin axisCount → Bool
  /-- The mask of the axes that are online. -/
  onlineMask : Fin axisCount → Bool
  /-- Whether each initialization of an axis found a driver and configured it, in their order. -/
  reports : Fin axisCount → List Bool
  /-- The exchanges until the end of the last one that did. -/
  programmedAt : Fin axisCount → ℕ

/-- An axis whose driver is not present is initialized. -/
def probe (config : TmcConfig K) (s : Manager) (axis : Fin axisCount) : Manager :=
  let (report, bus) := initAxis wire config axis s.bus
  let found := match report with
    | .ok report => report.present
    | .error _ => false
  { bus := bus
    present := if found then Function.update s.present axis true else s.present
    onlineMask := if found then Function.update s.onlineMask axis true else s.onlineMask
    reports := Function.update s.reports axis (s.reports axis ++ [found])
    programmedAt :=
      if found then Function.update s.programmedAt axis bus.exchanges else s.programmedAt }

/-- One axis in a round. -/
def poll (config : TmcConfig K) (s : Manager) (axis : Fin axisCount) : Manager :=
  if s.present axis then
    match readReg wire (config.axes axis).node .drvStatus s.bus with
    | (.ok status, bus) =>
      { s with bus := bus, onlineMask := Function.update s.onlineMask axis (!hasFault status) }
    | (.error _, bus) => { s with bus := bus, onlineMask := Function.update s.onlineMask axis false }
  else probe wire config s axis

/-- The task before it initializes the drivers. -/
def poweredOn (drivers : Fin axisCount → Driver) : Manager where
  bus := ⟨drivers, 0, fun node => (drivers node).regs, fun _ => 0⟩
  present _ := false
  onlineMask _ := false
  reports _ := []
  programmedAt _ := 0

/-- The task when it publishes the mask after so many rounds: it initializes every driver and
then polls each in every round. -/
def runTmcManager (config : TmcConfig K) (drivers : Fin axisCount → Driver) : ℕ → Manager
  | 0 => (List.finRange axisCount).foldl (probe wire config) (poweredOn drivers)
  | rounds + 1 =>
    (List.finRange axisCount).foldl (poll wire config) (runTmcManager config drivers rounds)

end Manager

end Galdr.Tmc
