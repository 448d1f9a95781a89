import Galdr.GcodeParser

/-!
# What a word does

Every word of a line that is accepted has an effect: it uses a modal group or none, and writes
to certain slots of the line, which are fields of the accumulator or of the staged modal state.
Which effect it is depends on the word alone (`applyWord_eq`). Effects on different slots can be
exchanged (`WordEffect.run_comm`), and a slot is left as it is by the effects that do not write it.
-/

namespace Galdr

/-- The words that only put down their number. -/
inductive NumberWord
  | x | y | z | a | i | j | k | p | l
  deriving DecidableEq, Repr

/-- What a word does to a line. -/
inductive WordEffect (K : Type)
  /-- `G0` to `G3`. -/
  | motion (mode : MotionMode)
  /-- `G4`. -/
  | dwell
  /-- `G28` and `G30`. -/
  | predefined (isG28 : Bool)
  /-- `G38.x`. -/
  | probe (kind : ProbeKind)
  /-- `G10`, `G92`, `G92.1`, `G28.1` and `G30.1`. -/
  | coordinate (pending : PendingCoordinate)
  /-- `G43.1` and `G49`. -/
  | toolOffset (pending : PendingCoordinate) (active : Bool)
  /-- `G17` to `G19`. -/
  | plane (plane : Plane)
  /-- `G20` and `G21`. -/
  | units (units : Units)
  /-- `G93` and `G94`. -/
  | feedMode (mode : FeedMode)
  /-- `G90` and `G91`. -/
  | distance (mode : DistanceMode)
  /-- `G54` to `G59`. -/
  | wcs (index : ℕ)
  /-- `G53`. -/
  | machineCoords
  /-- `M0` and `M1`. -/
  | pause (optional : Bool)
  /-- `M6`. -/
  | toolChange
  /-- `M2` and `M30`. -/
  | programEnd
  /-- `M7` to `M9`. -/
  | coolant (f : CoolantState → CoolantState)
  /-- `M3` to `M5`. -/
  | spindle (state : SpindleState)
  /-- The words that put down their number. -/
  | parameter (name : NumberWord) (value : K)
  /-- `F`. -/
  | feed (value : K)
  /-- `S`. -/
  | speed (value : K)
  /-- `T`. -/
  | tool (tool : ℕ)
  /-- `N`. -/
  | lineNumber

variable {K : Type}

/-- Put down a number. -/
def LineAccumulator.set (acc : LineAccumulator K) (name : NumberWord) (value : K) :
    LineAccumulator K :=
  match name with
  | .x => { acc with axes := { acc.axes with x := some value } }
  | .y => { acc with axes := { acc.axes with y := some value } }
  | .z => { acc with axes := { acc.axes with z := some value } }
  | .a => { acc with axes := { acc.axes with a := some value } }
  | .i => { acc with i := some value }
  | .j => { acc with j := some value }
  | .k => { acc with k := some value }
  | .p => { acc with p := some value }
  | .l => { acc with l := some value }

namespace WordEffect

/-- The modal group that an effect uses. -/
def group : WordEffect K → Option Group
  | motion _ | dwell | predefined _ | probe _ => some .motion
  | coordinate _ => some .nonModal
  | toolOffset _ _ => some .toolOffset
  | plane _ => some .plane
  | units _ => some .units
  | feedMode _ => some .feedMode
  | distance _ => some .distance
  | wcs _ => some .coordinate
  | pause _ | toolChange | programEnd => some .stop
  | coolant _ => some .coolant
  | spindle _ => some .spindle
  | machineCoords | parameter _ _ | feed _ | speed _ | tool _ | lineNumber => none

/-- What an effect writes. -/
def run : WordEffect K → LineState K → LineState K
  | motion mode, s => s.modal fun m => { m with motion := mode }
  | dwell, s => s.fold fun acc => { acc with pendingDwell := true }
  | predefined isG28, s => s.fold fun acc => { acc with pendingPredefined := some isG28 }
  | probe kind, s => s.fold fun acc => { acc with pendingProbe := some kind }
  | coordinate pending, s => s.fold fun acc => { acc with pendingCoordinate := some pending }
  | toolOffset pending active, s =>
    (s.fold fun acc => { acc with pendingCoordinate := some pending }).modal
      fun m => { m with tloActive := active }
  | plane active, s => s.modal fun m => { m with plane := active }
  | units active, s => s.modal fun m => { m with units := active }
  | feedMode mode, s => s.modal fun m => { m with feedMode := mode }
  | distance mode, s => s.modal fun m => { m with distance := mode }
  | wcs index, s =>
    (s.modal fun m => { m with wcs := index }).fold fun acc => { acc with selectedWcs := true }
  | machineCoords, s => s.fold fun acc => { acc with machineCoords := true }
  | pause optional, s => s.fold fun acc => { acc with pendingPause := some ⟨optional, false⟩ }
  | toolChange, s =>
    (s.modal fun m => { m with currentTool := m.pendingTool, pendingTool := 0 }).fold
      fun acc => { acc with pendingPause := some ⟨false, true⟩ }
  | programEnd, s => s.fold fun acc => { acc with pendingProgramEnd := true }
  | coolant f, s => s.setCoolant f
  | spindle state, s => s.setSpindle state
  | parameter name value, s => s.fold fun acc => acc.set name value
  | feed value, s =>
    (s.modal fun m => { m with feed := value }).fold fun acc => { acc with sawFeed := true }
  | speed value, s => s.modal fun m => { m with spindleSpeed := value }
  | tool n, s => s.modal fun m => { m with pendingTool := n }
  | lineNumber, s => s

end WordEffect

/-- Have an effect on a line, if its group has not been used. -/
def LineState.perform (s : LineState K) (e : WordEffect K) : Except GcodeError (LineState K) :=
  match e.group with
  | none => .ok (e.run s)
  | some group => s.claim group e.run

/-! ## The effects of the words -/

/-- The effects of the `G` words that are not whole numbers. -/
def fractionalEffect (code : ℤ) : Option (WordEffect K) :=
  if code = 281 then some (.coordinate (.storePredefined 0))
  else if code = 301 then some (.coordinate (.storePredefined 1))
  else if code = 431 then some (.toolOffset .applyTlo true)
  else if code = 921 then some (.coordinate .g92Clear)
  else if code = 382 then some (.probe .g38_2)
  else if code = 383 then some (.probe .g38_3)
  else if code = 384 then some (.probe .g38_4)
  else if code = 385 then some (.probe .g38_5)
  else none

/-- The effects of the `G` words that are whole numbers. -/
def wholeEffect (code : ℕ) : Option (WordEffect K) :=
  if code = 0 then some (.motion .rapid)
  else if code = 1 then some (.motion .linear)
  else if code = 2 then some (.motion .arcCw)
  else if code = 3 then some (.motion .arcCcw)
  else if code = 4 then some .dwell
  else if code = 10 then some (.coordinate .g10)
  else if code = 17 then some (.plane .xy)
  else if code = 18 then some (.plane .zx)
  else if code = 19 then some (.plane .yz)
  else if code = 20 then some (.units .inch)
  else if code = 21 then some (.units .millimeter)
  else if code = 93 then some (.feedMode .inverseTime)
  else if code = 94 then some (.feedMode .unitsPerMin)
  else if code = 28 then some (.predefined true)
  else if code = 30 then some (.predefined false)
  else if code = 53 then some .machineCoords
  else if code = 49 then some (.toolOffset .cancelTlo false)
  else if 54 ≤ code ∧ code ≤ 59 then some (.wcs (code - 54))
  else if code = 90 then some (.distance .absolute)
  else if code = 91 then some (.distance .incremental)
  else if code = 92 then some (.coordinate .g92Set)
  else none

/-- The effects of the `M` words. -/
def mEffect (code : ℕ) : Option (WordEffect K) :=
  if code = 0 then some (.pause false)
  else if code = 1 then some (.pause true)
  else if code = 6 then some .toolChange
  else if code = 7 then some (.coolant fun c => { c with mist := true })
  else if code = 8 then some (.coolant fun c => { c with flood := true })
  else if code = 9 then some (.coolant fun _ => .off)
  else if code = 3 then some (.spindle .clockwise)
  else if code = 4 then some (.spindle .counterClockwise)
  else if code = 5 then some (.spindle .stop)
  else if code = 2 ∨ code = 30 then some .programEnd
  else none

/-- A code without an effect is not supported. -/
def effectOr (effect : Option (WordEffect K)) : Except GcodeError (WordEffect K) :=
  match effect with
  | none => .error .unsupportedCommand
  | some e => .ok e

/-- Have the effect of a word, if it has one. -/
def LineState.performOr (s : LineState K) (effect : Except GcodeError (WordEffect K)) :
    Except GcodeError (LineState K) :=
  match effect with
  | .error e => .error e
  | .ok e => s.perform e

theorem applyFractionalGWord_eq (s : LineState K) (code : ℤ) :
    s.applyFractionalGWord code = s.performOr (effectOr (fractionalEffect code)) := by
  unfold fractionalEffect
  simp only [apply_ite effectOr, apply_ite s.performOr]
  rfl

theorem applyWholeGWord_eq (s : LineState K) (code : ℕ) :
    s.applyWholeGWord code = s.performOr (effectOr (wholeEffect code)) := by
  unfold wholeEffect
  simp only [apply_ite effectOr, apply_ite s.performOr]
  rfl

theorem applyMCode_eq (s : LineState K) (code : ℕ) :
    s.applyMCode code = s.performOr (effectOr (mEffect code)) := by
  unfold mEffect
  simp only [apply_ite effectOr, apply_ite s.performOr]
  rfl

section Words

variable [Field K] [LinearOrder K] [FloorRing K]

/-- The effect of a `G` word. -/
def gEffect (value : K) : Except GcodeError (WordEffect K) :=
  match fractionalCode value with
  | some code => effectOr (fractionalEffect code)
  | none =>
    match gCode value with
    | .error e => .error e
    | .ok code => effectOr (wholeEffect code)

theorem applyGWord_eq (s : LineState K) (value : K) :
    s.applyGWord value = s.performOr (gEffect value) := by
  unfold LineState.applyGWord gEffect
  cases fractionalCode value with
  | some code => exact applyFractionalGWord_eq s code
  | none =>
    cases gCode value with
    | error e => rfl
    | ok code => exact applyWholeGWord_eq s code

/-- The effect of an `M` word. -/
def mWordEffect (value : K) : Except GcodeError (WordEffect K) :=
  match gCode value with
  | .error e => .error e
  | .ok code => effectOr (mEffect code)

theorem applyMWord_eq (s : LineState K) (value : K) :
    s.applyMWord value = s.performOr (mWordEffect value) := by
  unfold LineState.applyMWord mWordEffect
  cases gCode value with
  | error e => rfl
  | ok code => exact applyMCode_eq s code

/-- The effect of a `T` word. -/
def toolEffect (value : K) : Except GcodeError (WordEffect K) :=
  match toolNumber value with
  | .error e => .error e
  | .ok n => .ok (.tool n)

/-- The effect of a word. -/
def effectOf (word : Word K) : Except GcodeError (WordEffect K) :=
  match word.letter with
  | 'G' => gEffect word.value
  | 'M' => mWordEffect word.value
  | 'X' => .ok (.parameter .x word.value)
  | 'Y' => .ok (.parameter .y word.value)
  | 'Z' => .ok (.parameter .z word.value)
  | 'A' => .ok (.parameter .a word.value)
  | 'I' => .ok (.parameter .i word.value)
  | 'J' => .ok (.parameter .j word.value)
  | 'K' => .ok (.parameter .k word.value)
  | 'P' => .ok (.parameter .p word.value)
  | 'L' => .ok (.parameter .l word.value)
  | 'F' => .ok (.feed word.value)
  | 'S' => .ok (.speed word.value)
  | 'T' => toolEffect word.value
  | 'N' => .ok .lineNumber
  | _ => .error .unsupportedCommand

/-- A word does to every line what its effect does. -/
theorem applyWord_eq (s : LineState K) (word : Word K) :
    s.applyWord word = s.performOr (effectOf word) := by
  obtain ⟨letter, value⟩ := word
  unfold LineState.applyWord effectOf
  dsimp only
  split
  case h_1 => exact applyGWord_eq s value
  case h_2 => exact applyMWord_eq s value
  case h_14 =>
    unfold toolEffect
    cases toolNumber value with
    | error e => rfl
    | ok n => rfl
  case h_16 => first | rfl | (split <;> first | rfl | simp_all)
  all_goals rfl

end Words

/-! ## Slots -/

/-- What an effect may write. -/
inductive LineSlot
  | motion | dwell | predefined | probe | coordinate | tlo | plane | units | feedMode | distance
  | wcs | machineCoords | pause | programEnd | coolant | spindle | feed | speed | tools
  | parameter (name : NumberWord)
  deriving DecidableEq, Repr

namespace WordEffect

/-- The slots that an effect writes. -/
def slots : WordEffect K → List LineSlot
  | motion _ => [.motion]
  | dwell => [.dwell]
  | predefined _ => [.predefined]
  | probe _ => [.probe]
  | coordinate _ => [.coordinate]
  | toolOffset _ _ => [.coordinate, .tlo]
  | plane _ => [.plane]
  | units _ => [.units]
  | feedMode _ => [.feedMode]
  | distance _ => [.distance]
  | wcs _ => [.wcs]
  | machineCoords => [.machineCoords]
  | pause _ => [.pause]
  | toolChange => [.pause, .tools]
  | programEnd => [.programEnd]
  | coolant _ => [.coolant]
  | spindle _ => [.spindle]
  | parameter name _ => [.parameter name]
  | feed _ => [.feed]
  | speed _ => [.speed]
  | tool _ => [.tools]
  | lineNumber => []

/-- Numbers of different names are put down in any order. -/
theorem set_comm (acc : LineAccumulator K) {name name' : NumberWord} (h : name ≠ name')
    (value value' : K) :
    (acc.set name value).set name' value' = (acc.set name' value').set name value := by
  cases name <;> cases name' <;> first | rfl | exact absurd rfl h

/-- A number can be put down before or after an effect that does not put it down. -/
theorem run_parameter_comm {e : WordEffect K} {name : NumberWord} (h : .parameter name ∉ e.slots)
    (value : K) (s : LineState K) :
    e.run ((parameter name value).run s) = (parameter name value).run (e.run s) := by
  cases e with
  | parameter name' value' =>
    have hne : name ≠ name' := fun hname => h (hname ▸ List.mem_cons_self)
    exact congrArg (fun acc => { s with acc }) (set_comm s.acc hne value value')
  | _ => cases name <;> rfl

/-- Effects on different slots can be exchanged. -/
theorem run_comm {e e' : WordEffect K} (h : e.slots.Disjoint e'.slots) (s : LineState K) :
    e'.run (e.run s) = e.run (e'.run s) := by
  cases e with
  | parameter name value => exact run_parameter_comm (h List.mem_cons_self) value s
  | _ =>
    cases e' with
    | parameter name value => exact (run_parameter_comm (h.symm List.mem_cons_self) value s).symm
    | _ =>
      first
        | rfl
        | exact absurd List.mem_cons_self (h List.mem_cons_self)
        | exact absurd (List.mem_cons_of_mem _ List.mem_cons_self) (h List.mem_cons_self)
        | exact absurd List.mem_cons_self (h (List.mem_cons_of_mem _ List.mem_cons_self))

/-! ## What is left as it is -/

/-- The tools are left by the effects that do not write them. -/
theorem run_tools {e : WordEffect K} (h : .tools ∉ e.slots) (s : LineState K) :
    (e.run s).next.pendingTool = s.next.pendingTool ∧
      (e.run s).next.currentTool = s.next.currentTool := by
  cases e with
  | tool n => exact absurd List.mem_cons_self h
  | toolChange => exact absurd (List.mem_cons_of_mem _ List.mem_cons_self) h
  | _ => exact ⟨rfl, rfl⟩

/-- The coordinate operation is left by the effects that do not write it. -/
theorem run_pendingCoordinate {e : WordEffect K} (h : .coordinate ∉ e.slots) (s : LineState K) :
    (e.run s).acc.pendingCoordinate = s.acc.pendingCoordinate := by
  cases e with
  | coordinate pending => exact absurd List.mem_cons_self h
  | toolOffset pending active => exact absurd List.mem_cons_self h
  | parameter name value => cases name <;> rfl
  | _ => rfl

end WordEffect

end Galdr
