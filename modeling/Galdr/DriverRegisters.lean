import Galdr.Libm

/-!
# The registers of a stepper driver

What the manager of the drivers programs: the fields of each register, the current scale of a
motor current, and the table of writes that configures one driver. Of a driver's own registers
those that are programmed and the counter of the writes it has accepted are kept. Which of them
hold the values of a table can be decided (`Registers.Holds`), and after the table has been written
they all do, whatever they held before (`holds_writeAll`).
-/

namespace Galdr.Tmc

/-! ## Register addresses and fields -/

/-- The registers that are read or written. -/
inductive Reg
  | gconf | gstat | ifcnt | slaveconf | ioin | iholdIrun | tpowerdown | tpwmthrs | chopconf
  | drvStatus | pwmconf
  deriving DecidableEq

/-- One bit of a register. -/
def bit (n : UInt32) : UInt32 := (1 : UInt32) <<< n

/-- The `GCONF` of a driver under control of the bus: no power-down pin, microsteps from the
register, the step filter. -/
def gconfUartControl : UInt32 := bit 6 ||| bit 7 ||| bit 8

/-- What clears the three latched bits of `GSTAT`. -/
def gstatClearAll : UInt32 := 7

/-- `SLAVECONF` with a send delay. -/
def slaveconf (sendDelay : UInt8) : UInt32 := (sendDelay.toUInt32 &&& 0x0F) <<< (8 : UInt32)

/-- `IHOLD_IRUN` with the two current scales and the delay. -/
def iholdIrun (irunCs iholdCs iholdDelay : UInt8) : UInt32 :=
  (iholdCs.toUInt32 &&& 0x1F) ||| ((irunCs.toUInt32 &&& 0x1F) <<< (8 : UInt32))
    ||| ((iholdDelay.toUInt32 &&& 0x0F) <<< (16 : UInt32))

/-- The field of a microstep resolution. -/
def mresCode (microsteps : UInt16) : Option UInt8 :=
  if microsteps = 256 then some 0
  else if microsteps = 128 then some 1
  else if microsteps = 64 then some 2
  else if microsteps = 32 then some 3
  else if microsteps = 16 then some 4
  else if microsteps = 8 then some 5
  else if microsteps = 4 then some 6
  else if microsteps = 2 then some 7
  else if microsteps = 1 then some 8
  else none

/-- The off-time of the chopper. -/
def chopconfToff : UInt32 := 3

/-- The start of its hysteresis. -/
def chopconfHstrt : UInt32 := (5 : UInt32) <<< (4 : UInt32)

/-- The end of its hysteresis. -/
def chopconfHend : UInt32 := (0 : UInt32) <<< (7 : UInt32)

/-- Its blank time. -/
def chopconfTbl : UInt32 := (2 : UInt32) <<< (15 : UInt32)

/-- The sense voltage. -/
def chopconfVsense : UInt32 := bit 17

/-- The interpolation of microsteps. -/
def chopconfIntpol : UInt32 := bit 28

/-- `CHOPCONF` for a microstep resolution and a sense voltage. -/
def chopconf (microsteps : UInt16) (vsense : Bool) : Option UInt32 :=
  (mresCode microsteps).map fun mres =>
    let value := chopconfToff ||| chopconfHstrt ||| chopconfHend ||| chopconfTbl
      ||| chopconfIntpol ||| ((mres.toUInt32 &&& 0x0F) <<< (24 : UInt32))
    if vsense then value ||| chopconfVsense else value

/-- `PWMCONF` for automatic tuning. -/
def pwmconfStealthchop : UInt32 := 0xC10D0024 ||| bit 18 ||| bit 19

/-- The version of a genuine driver. -/
def expectedVersion : UInt8 := 0x21

/-- The version field of `IOIN`. -/
def ioinVersion (raw : UInt32) : UInt8 := (raw >>> (24 : UInt32)).toUInt8

/-- The counter field of `IFCNT`. -/
def ifcnt (raw : UInt32) : UInt8 := raw.toUInt8

/-- `DRV_STATUS` reports a fault that must stop motion: too hot, or a short. -/
def hasFault (raw : UInt32) : Bool :=
  raw &&& bit 1 != 0 || raw &&& (bit 2 ||| bit 3) != 0 || raw &&& (bit 4 ||| bit 5) != 0

/-! ## Current scale -/

/-- A current scale and the sense voltage it is for. -/
structure CurrentScaling where
  /-- The current scale. -/
  cs : UInt8
  /-- High sensitivity. -/
  vsense : Bool
  deriving DecidableEq

section Scale

variable {K : Type} [Field K]

/-- The full-scale voltage. -/
def vfs (vsense : Bool) : K :=
  if vsense then ((180 : ℕ) : K) / ((1000 : ℕ) : K) else ((325 : ℕ) : K) / ((1000 : ℕ) : K)

variable [LinearOrder K] [FloorRing K]

/-- The current scale for a current at a sense voltage. -/
def csForCurrent (rmsMa : UInt16) (rSenseOhms : K) (vsense : Bool) : UInt8 :=
  let iRms := (rmsMa.toNat : K) / ((1000 : ℕ) : K)
  let csPlusOne := iRms * ((32 : ℕ) : K) * (((11863283 : ℕ) : K) / ((8388608 : ℕ) : K))
    * (rSenseOhms + ((2 : ℕ) : K) / ((100 : ℕ) : K)) / vfs vsense
  let cs := roundf csPlusOne - 1
  if cs ≤ 0 then 0 else if 31 ≤ cs then 31 else UInt8.ofNat cs.toNat

/-- The current scale for a current, at high sensitivity where it would be small. -/
def rmsCurrentToCs (rmsMa : UInt16) (rSenseOhms : K) : CurrentScaling :=
  let csLowSensitivity := csForCurrent rmsMa rSenseOhms false
  if 16 ≤ csLowSensitivity then ⟨csLowSensitivity, false⟩
  else ⟨csForCurrent rmsMa rSenseOhms true, true⟩

end Scale

/-! ## Configuration -/

/-- The axes, each with a driver of its own. -/
def axisCount : ℕ := 4

/-- The configuration of one driver. -/
structure AxisConfig where
  /-- The address of the driver on the bus. -/
  node : Fin axisCount
  /-- The current of a motor that moves. -/
  runCurrentMa : UInt16
  /-- The current of a motor that stands still. -/
  holdCurrentMa : UInt16
  /-- Microsteps to a full step. -/
  microsteps : UInt16

/-- The configuration of the bus. -/
structure TmcConfig (K : Type) where
  /-- The configuration of each driver. -/
  axes : Fin axisCount → AxisConfig
  /-- The sense resistor. -/
  rSenseOhms : K
  /-- How slowly the current goes down to the hold current. -/
  iholdDelay : UInt8
  /-- The delay before it does. -/
  tpowerdown : UInt8
  /-- Where the chopper changes its mode. -/
  tpwmthrs : UInt32
  /-- The send delay. -/
  sendDelay : UInt8
  /-- The settings give every axis a node of its own. -/
  node_injective : Function.Injective fun axis => (axes axis).node

/-- The configuration that stands until the settings are loaded. -/
def TmcConfig.default {K : Type} [Field K] : TmcConfig K where
  axes axis := ⟨axis, 800, 400, 16⟩
  rSenseOhms := ((5 : ℕ) : K) / ((100 : ℕ) : K)
  iholdDelay := 7
  tpowerdown := 20
  tpwmthrs := 0
  sendDelay := 2
  node_injective _ _ h := h

section Table

variable {K : Type} [Field K] [LinearOrder K] [FloorRing K]

/-- The writes that configure the driver of an axis, in their order. There are none when the
microstep resolution is not one of the driver's. -/
def writeTable (config : TmcConfig K) (axis : Fin axisCount) : Option (List (Reg × UInt32)) :=
  let current := rmsCurrentToCs (config.axes axis).runCurrentMa config.rSenseOhms
  let holdCs := csForCurrent (config.axes axis).holdCurrentMa config.rSenseOhms current.vsense
  (chopconf (config.axes axis).microsteps current.vsense).map fun chop =>
    [(.gstat, gstatClearAll),
      (.slaveconf, slaveconf config.sendDelay),
      (.gconf, gconfUartControl),
      (.chopconf, chop),
      (.iholdIrun, iholdIrun current.cs holdCs config.iholdDelay),
      (.tpowerdown, config.tpowerdown.toUInt32),
      (.tpwmthrs, config.tpwmthrs),
      (.pwmconf, pwmconfStealthchop)]

end Table

/-! ## Drivers -/

/-- The registers of a driver that are programmed. -/
structure Registers where
  gconf : UInt32
  slaveconf : UInt32
  iholdIrun : UInt32
  tpowerdown : UInt32
  tpwmthrs : UInt32
  chopconf : UInt32
  pwmconf : UInt32
  deriving DecidableEq

/-- The registers after a write. The bits of `GSTAT` are cleared, and the others cannot be
written. -/
def Registers.write (regs : Registers) (reg : Reg) (val : UInt32) : Registers :=
  match reg with
  | .gconf => { regs with gconf := val }
  | .slaveconf => { regs with slaveconf := val }
  | .iholdIrun => { regs with iholdIrun := val }
  | .tpowerdown => { regs with tpowerdown := val }
  | .tpwmthrs => { regs with tpwmthrs := val }
  | .chopconf => { regs with chopconf := val }
  | .pwmconf => { regs with pwmconf := val }
  | .gstat | .ifcnt | .ioin | .drvStatus => regs

/-- What a register that is programmed holds. -/
def Registers.get (regs : Registers) (reg : Reg) : Option UInt32 :=
  match reg with
  | .gconf => some regs.gconf
  | .slaveconf => some regs.slaveconf
  | .iholdIrun => some regs.iholdIrun
  | .tpowerdown => some regs.tpowerdown
  | .tpwmthrs => some regs.tpwmthrs
  | .chopconf => some regs.chopconf
  | .pwmconf => some regs.pwmconf
  | .gstat | .ifcnt | .ioin | .drvStatus => none

/-- Every register of a table that is programmed holds the value of the table. -/
def Registers.Holds (regs : Registers) (table : List (Reg × UInt32)) : Prop :=
  ∀ entry ∈ table, ∀ val ∈ regs.get entry.1, val = entry.2

instance (regs : Registers) (table : List (Reg × UInt32)) : Decidable (regs.Holds table) :=
  inferInstanceAs (Decidable (∀ entry ∈ table, ∀ val ∈ regs.get entry.1, val = entry.2))

/-- A driver: its registers and the counter of the writes it has accepted. -/
structure Driver where
  regs : Registers
  ifcnt : UInt8
  deriving DecidableEq

/-- The registers after a table has been written. -/
def Registers.writeAll (regs : Registers) (table : List (Reg × UInt32)) : Registers :=
  table.foldl (fun regs entry => regs.write entry.1 entry.2) regs

section Table

variable {K : Type} [Field K] [LinearOrder K] [FloorRing K]

/-- A table has eight writes. -/
theorem length_writeTable {config : TmcConfig K} {axis : Fin axisCount}
    {table : List (Reg × UInt32)} (h : writeTable config axis = some table) :
    table.length = 8 := by
  obtain ⟨chop, -, rfl⟩ := Option.map_eq_some_iff.1 h
  rfl

/-- **After a table has been written the registers hold its values.** -/
theorem holds_writeAll {config : TmcConfig K} {axis : Fin axisCount}
    {table : List (Reg × UInt32)} (h : writeTable config axis = some table) (regs : Registers) :
    (regs.writeAll table).Holds table := by
  obtain ⟨chop, -, rfl⟩ := Option.map_eq_some_iff.1 h
  unfold Registers.Holds
  simp only [Registers.writeAll, List.foldl_cons, List.foldl_nil, Registers.write,
    Registers.get, List.forall_mem_cons, List.not_mem_nil, false_implies, implies_true, and_true,
    Option.mem_def, Option.some.injEq, forall_eq', reduceCtorEq]

/-- A table programs `GCONF`. -/
theorem gconf_of_holds {config : TmcConfig K} {axis : Fin axisCount}
    {table : List (Reg × UInt32)} (h : writeTable config axis = some table) {regs : Registers}
    (hholds : regs.Holds table) : regs.gconf = gconfUartControl := by
  obtain ⟨chop, -, rfl⟩ := Option.map_eq_some_iff.1 h
  exact hholds (.gconf, gconfUartControl) (by simp) regs.gconf rfl

end Table

end Galdr.Tmc
