import Galdr.GcodeParser
import Galdr.PlannerCommands

/-!
# The coordinate model of the machine

The work coordinate systems and the offsets on top of them. A work position is a machine position
less one combined offset, that of the active system with the `G92` offset and, along the spindle,
the tool length. A line of a program changes the model through the operation that it is parsed as.
-/

namespace Galdr

/-- The positions that `G28` and `G30` go to. -/
def predefinedCount : ℕ := 2

/-- The axis of the tool length. -/
def tloAxis : Fin 4 := zAxis

/-- The work coordinate systems and the offsets. -/
structure CoordinateSystems (K : Type) where
  /-- The offsets of `G54` to `G59`. -/
  offsets : Fin wcsCount → Axes K
  /-- The system in force. -/
  active : Fin wcsCount
  /-- The `G92` offset. -/
  g92 : Axes K
  /-- The tool length. -/
  tlo : K
  /-- The positions of `G28` and `G30`, in the machine's coordinates. -/
  predefined : Fin predefinedCount → Axes K

section Words

variable {K : Type} [Field K] [LinearOrder K]

/-- The factor from a word of an axis to millimetres: an angle has none. -/
def axisScale (units : Units) (rotaryMask : UInt8) (axis : Fin 4) : K :=
  if rotaryBit rotaryMask axis then 1 else unitsScale units

/-- The words of a line in millimetres, and which there are. -/
def axisValuesMm (axes : AxisWords K) (units : Units) (rotaryMask : UInt8) :
    Axes K × (Fin 4 → Bool) :=
  (fun axis => match axes.word axis with
    | some value => value * axisScale units rotaryMask axis
    | none => 0,
  fun axis => (axes.word axis).isSome)

variable {axes : AxisWords K} {axis : Fin 4} {value : K}

omit [LinearOrder K] in
/-- A word is read in the units in force. -/
theorem axisValuesMm_of_some (h : axes.word axis = some value) (units : Units) (rotaryMask : UInt8) :
    (axisValuesMm axes units rotaryMask).1 axis = value * axisScale units rotaryMask axis
      ∧ (axisValuesMm axes units rotaryMask).2 axis = true := by
  unfold axisValuesMm
  dsimp only
  rw [h]
  exact ⟨rfl, rfl⟩

omit [LinearOrder K] in
/-- An axis without a word is not written. -/
theorem axisValuesMm_of_none (h : axes.word axis = none) (units : Units) (rotaryMask : UInt8) :
    (axisValuesMm axes units rotaryMask).2 axis = false := by
  unfold axisValuesMm
  dsimp only
  rw [h]
  rfl

end Words

namespace CoordinateSystems

variable {K : Type} [Field K] [LinearOrder K]

omit [LinearOrder K] in
/-- The combined offset. -/
def wco (s : CoordinateSystems K) : Axes K := fun axis =>
  s.offsets s.active axis + s.g92 axis + if axis = tloAxis then s.tlo else 0

omit [LinearOrder K] in
/-- A work position in the machine's coordinates. -/
def workToMachine (s : CoordinateSystems K) (work : Axes K) : Axes K := fun axis =>
  work axis + s.wco axis

omit [LinearOrder K] in
/-- A machine position in work coordinates. -/
def machineToWork (s : CoordinateSystems K) (machine : Axes K) : Axes K := fun axis =>
  machine axis - s.wco axis

omit [Field K] [LinearOrder K] in
/-- Make a system the active one. There is none of another number. -/
def selectWcs (s : CoordinateSystems K) (index : ℕ) : CoordinateSystems K :=
  if h : index < wcsCount then { s with active := ⟨index, h⟩ } else s

omit [Field K] [LinearOrder K] in
/-- The offset of a system, on the axes that are present. -/
def updateOffset (s : CoordinateSystems K) (index : ℕ) (present : Fin 4 → Bool) (value : Axes K) :
    CoordinateSystems K :=
  { s with offsets := fun i axis =>
      if (i : ℕ) = index ∧ present axis then value axis else s.offsets i axis }

section Update

variable {s : CoordinateSystems K} {index : ℕ} {present : Fin 4 → Bool} {value : Axes K}
  {i : Fin wcsCount} {axis : Fin 4}

omit [Field K] [LinearOrder K] in
theorem offsets_updateOffset (hi : (i : ℕ) = index) (hpresent : present axis = true) :
    (s.updateOffset index present value).offsets i axis = value axis :=
  if_pos ⟨hi, hpresent⟩

omit [Field K] [LinearOrder K] in
theorem offsets_updateOffset_of_not (h : (i : ℕ) = index → present axis = false) :
    (s.updateOffset index present value).offsets i axis = s.offsets i axis :=
  if_neg fun hset => Bool.false_ne_true ((h hset.1).symm.trans hset.2)

end Update

omit [Field K] [LinearOrder K] in
/-- `G10 L2`. -/
def setWcsOffset (s : CoordinateSystems K) (index : ℕ) (offset : Axes K) (present : Fin 4 → Bool) :
    CoordinateSystems K :=
  s.updateOffset index present offset

omit [LinearOrder K] in
/-- `G10 L20`: the machine position comes to read as the work position. -/
def setWcsOffsetToPosition (s : CoordinateSystems K) (index : ℕ) (machine work : Axes K)
    (present : Fin 4 → Bool) : CoordinateSystems K :=
  s.updateOffset index present fun axis =>
    machine axis - work axis - s.g92 axis - if axis = tloAxis then s.tlo else 0

omit [LinearOrder K] in
/-- `G92`. -/
def setG92ToPosition (s : CoordinateSystems K) (machine work : Axes K) (present : Fin 4 → Bool) :
    CoordinateSystems K :=
  { s with g92 := fun axis =>
      if present axis then machine axis - s.offsets s.active axis - work axis else s.g92 axis }

omit [LinearOrder K] in
/-- `G92.1`. -/
def clearG92 (s : CoordinateSystems K) : CoordinateSystems K := { s with g92 := fun _ => 0 }

omit [Field K] [LinearOrder K] in
/-- `G43.1`. -/
def applyTlo (s : CoordinateSystems K) (value : K) : CoordinateSystems K := { s with tlo := value }

omit [LinearOrder K] in
/-- `G49`. -/
def cancelTlo (s : CoordinateSystems K) : CoordinateSystems K := { s with tlo := 0 }

omit [Field K] [LinearOrder K] in
/-- `G28.1` and `G30.1`. -/
def storePredefined (s : CoordinateSystems K) (index : ℕ) (machine : Axes K) : CoordinateSystems K :=
  { s with predefined := fun i => if (i : ℕ) = index then machine else s.predefined i }

/-- `apply_coordinate_op`, with the commanded position of the machine. -/
def applyCoordinateOp (s : CoordinateSystems K) (rotaryMask : UInt8) (machine : Axes K) :
    CoordinateOp K → CoordinateSystems K
  | .selectWcs index => s.selectWcs index
  | .setWcsOffset index axes units =>
    s.setWcsOffset index (axisValuesMm axes units rotaryMask).1 (axisValuesMm axes units rotaryMask).2
  | .setWcsOffsetToPosition index axes units =>
    s.setWcsOffsetToPosition index machine (axisValuesMm axes units rotaryMask).1
      (axisValuesMm axes units rotaryMask).2
  | .setG92ToPosition axes units =>
    s.setG92ToPosition machine (axisValuesMm axes units rotaryMask).1
      (axisValuesMm axes units rotaryMask).2
  | .clearG92 => s.clearG92
  | .storePredefined index => s.storePredefined index machine
  | .applyTlo z units => s.applyTlo (z * unitsScale units)
  | .cancelTlo => s.cancelTlo

/-- `sync_active_wcs`: the system that the parser has selected is the active one. -/
def syncActiveWcs (s : CoordinateSystems K) (parserWcs : ℕ) : CoordinateSystems K :=
  if (s.active : ℕ) = parserWcs then s else s.selectWcs parserWcs

/-- What a line of a program makes of the model, when it is not only checked. A line that is refused
changes nothing; the end of a program selects the first system. -/
def processLine [FloorRing K] (s : CoordinateSystems K) (parser : ModalState K) (rotaryMask : UInt8)
    (machine : Axes K) (line : List UInt8) : CoordinateSystems K :=
  match parseLine parser line with
  | (.ok (some (.coordinate op)), next) =>
    (s.syncActiveWcs next.wcs).applyCoordinateOp rotaryMask machine op
  | (.ok (some .programEnd), next) => (s.syncActiveWcs next.wcs).syncActiveWcs 0
  | (.ok (some _), next) => s.syncActiveWcs next.wcs
  | _ => s

end CoordinateSystems

end Galdr
