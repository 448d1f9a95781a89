import Galdr.Coordinates
import Galdr.HostProbe
import Galdr.WireWords

/-!
# The zero of a touch-off

The line of a touch-off, as the machine takes it. It writes the offset of the active system, and
nothing else. Where the zero comes to be is another matter: the machine reads the words of the
line in the units in force, and adds the `G92` offset and the tool length to what it has written.
-/

namespace Galdr

open Eitri Text Host

namespace Host

/-! ## The words of a line -/

/-- The words of a line, as the machine reads them. -/
def g10Words (values : List (Axis × ℚ)) : List (Word ℚ) :=
  ⟨'G', (10 : ℕ)⟩ :: ⟨'L', (2 : ℕ)⟩ :: ⟨'P', (0 : ℕ)⟩
    :: values.map fun v => ⟨v.1.letter, printedEven 3 v.2⟩

theorem spells_values (values : List (Axis × ℚ)) :
    Spells (values.flatMap fun v => word3 v.1 v.2)
      (values.map fun v => ⟨v.1.letter, printedEven 3 v.2⟩) := by
  induction values with
  | nil => exact .nil
  | cons v values ih =>
    have hletter : v.1.letter.isUpper = true := by cases v.1 <;> rfl
    exact (spells_fixed hletter v.2 3).append ih

/-- **The machine reads the words that the host has printed.** -/
theorem words_machineOffsetLine (values : List (Axis × ℚ)) :
    Lexer.words (utf8 (machineOffsetLine values)) = (g10Words values).map .ok :=
  ((((@spells_code 'G' (by decide) 10).append (@spells_code 'L' (by decide) 2)).append
    (@spells_code 'P' (by decide) 0)).append (spells_values values)).words_tail

end Host

/-! ## The line as an operation -/

/-- An axis word on top of others. -/
def AxisWords.set (words : AxisWords ℚ) (axis : Axis) (value : ℚ) : AxisWords ℚ :=
  match axis with
  | .x => { words with x := some value }
  | .y => { words with y := some value }
  | .z => { words with z := some value }
  | .a => { words with a := some value }

theorem AxisWords.word_set (words : AxisWords ℚ) (axis : Axis) (value : ℚ) (i : Fin 4) :
    (words.set axis value).word i = if i = axis.index then some value else words.word i := by
  cases axis <;> fin_cases i <;> rfl

/-- The axis words of a line. -/
def writtenWords (values : List (Axis × ℚ)) : AxisWords ℚ :=
  values.foldl (fun words v => words.set v.1 (printedEven 3 v.2)) .none

theorem word_foldl_of_not_mem {values : List (Axis × ℚ)} {i : Fin 4}
    (h : ∀ v ∈ values, v.1.index ≠ i) (words : AxisWords ℚ) :
    (values.foldl (fun words v => words.set v.1 (printedEven 3 v.2)) words).word i = words.word i := by
  induction values generalizing words with
  | nil => rfl
  | cons v values ih =>
    rw [List.foldl_cons, ih (fun v hv => h v (List.mem_cons_of_mem _ hv)), AxisWords.word_set,
      if_neg (Ne.symm (h v (List.mem_cons_self ..)))]

theorem word_foldl_of_mem {values : List (Axis × ℚ)} (hnodup : (values.map Prod.fst).Nodup)
    {v : Axis × ℚ} (hv : v ∈ values) (words : AxisWords ℚ) :
    (values.foldl (fun words v => words.set v.1 (printedEven 3 v.2)) words).word v.1.index
      = some (printedEven 3 v.2) := by
  induction values generalizing words with
  | nil => exact absurd hv List.not_mem_nil
  | cons first values ih =>
    obtain ⟨hfirst, hrest⟩ := List.nodup_cons.1 hnodup
    rcases List.mem_cons.1 hv with rfl | hv
    · rw [List.foldl_cons, word_foldl_of_not_mem, AxisWords.word_set, if_pos rfl]
      intro w hw hindex
      exact hfirst (Axis.index_injective hindex ▸ List.mem_map_of_mem hw)
    · exact ih hrest hv _

/-- An axis word. -/
theorem LineState.applyWord_axis (s : LineState ℚ) (axis : Axis) (value : ℚ) :
    s.applyWord ⟨axis.letter, value⟩
      = .ok { s with acc := { s.acc with axes := s.acc.axes.set axis value } } := by
  cases axis <;> rfl

theorem LineState.applyWords_values (values : List (Axis × ℚ)) (s : LineState ℚ) :
    s.applyWords ((values.map fun v => (⟨v.1.letter, printedEven 3 v.2⟩ : Word ℚ)).map .ok)
      = .ok { s with acc := { s.acc with
          axes := values.foldl (fun words v => words.set v.1 (printedEven 3 v.2)) s.acc.axes } } := by
  induction values generalizing s with
  | nil => rfl
  | cons v values ih =>
    rw [List.map_cons, List.map_cons, LineState.applyWords, LineState.applyWord_axis]
    exact ih _

/-- **The line of a touch-off sets the offset of the system in force before it**, and leaves the
modes as they were. -/
theorem parseLine_machineOffsetLine (state : ModalState ℚ) (values : List (Axis × ℚ)) :
    parseLine state (utf8 (machineOffsetLine values))
      = (.ok (some (.coordinate (.setWcsOffset state.wcs (writtenWords values) state.units))), state) := by
  have hg : (LineState.start state).applyWord ⟨'G', (10 : ℕ)⟩
      = .ok ⟨fun g => g = .nonModal || false,
        { LineAccumulator.empty with pendingCoordinate := some .g10 }, state⟩ := by
    rw [applyWord_G _ (by norm_num)]
    rfl
  have hwords : (LineState.start state).applyWords ((g10Words values).map .ok)
      = .ok ⟨fun g => g = .nonModal || false, { LineAccumulator.empty with
          pendingCoordinate := some .g10, l := some (2 : ℕ), p := some (0 : ℕ),
          axes := writtenWords values }, state⟩ := by
    unfold g10Words
    rw [List.map_cons, LineState.applyWords, hg]
    exact LineState.applyWords_values values _
  have hindex : wcsIndexFromP (some ((0 : ℕ) : ℚ)) state.wcs = state.wcs := by
    have hzero : clampI32 (roundf ((0 : ℕ) : ℚ)) = 0 := by decide +kernel
    unfold wcsIndexFromP
    dsimp only
    rw [hzero, if_neg (by decide)]
  have hl : ¬(some ((2 : ℕ) : ℚ)).any (fun l => decide (clampI32 (roundf l) = 20)) = true := by
    decide +kernel
  have hop : resolveCoordinate .g10 { LineAccumulator.empty with
        pendingCoordinate := some .g10, l := some ((2 : ℕ) : ℚ), p := some ((0 : ℕ) : ℚ),
        axes := writtenWords values } state state.wcs
      = .setWcsOffset state.wcs (writtenWords values) state.units := by
    unfold resolveCoordinate
    dsimp only
    rw [if_neg hl, hindex]
  unfold parseLine
  rw [words_machineOffsetLine, hwords, ← hop]
  rfl

/-- The line sets the offset of the parser's system, on the axes that it writes. -/
theorem CoordinateSystems.processLine_machineOffsetLine (s : CoordinateSystems ℚ)
    (state : ModalState ℚ) (rotaryMask : UInt8) (machine : Galdr.Axes ℚ) (values : List (Axis × ℚ)) :
    s.processLine state rotaryMask machine (utf8 (machineOffsetLine values))
      = (s.syncActiveWcs state.wcs).setWcsOffset state.wcs
        (axisValuesMm (writtenWords values) state.units rotaryMask).1
        (axisValuesMm (writtenWords values) state.units rotaryMask).2 := by
  unfold processLine
  rw [parseLine_machineOffsetLine]
  rfl

/-! ## Promises -/

namespace Host

/-- What a touch-off promises of an axis. -/
structure Promise where
  /-- The axis. -/
  axis : Axis
  /-- What the host writes for it. -/
  written : ℚ
  /-- A point of the machine. -/
  point : ℚ
  /-- What the point is to read as. -/
  reads : ℚ
  deriving DecidableEq

/-- A touch-off, with what the host knows when it writes the line. -/
inductive TouchOff
  /-- A plate of a thickness was touched. -/
  | zeroZ (position : List ℚ) (plateThickness : ℚ)
  /-- A datum was found. -/
  | datum (state : DatumState)
  /-- A rotary centre was found. -/
  | rotaryCenter (state : WizardState)
  /-- A rotary centre was found before. -/
  | rotarySetup (setup : RotarySetup)
  /-- A part was turned over. The origin is where the host takes the zero to be. -/
  | flipVerify (result : FlipResult) (currentOrigin : ℚ)

namespace TouchOff

/-- The line, if there is something to write. -/
def line : TouchOff → Option (List Char)
  | zeroZ position plateThickness => zeroZLine position plateThickness
  | datum state => state.offerG10
  | rotaryCenter state => state.offerG10 .active
  | rotarySetup setup => some setup.offerG10
  | flipVerify result currentOrigin => some (result.offerG10 .active currentOrigin)

/-- A point that is to read as zero. -/
def zeroAt (axis : Axis) (point : ℚ) : Promise := ⟨axis, point, point, 0⟩

/-- What it promises: the contact reads as the thickness of the plate, an edge or a centre as zero,
and behind a flip the zero is further by the eccentricity. -/
def promises (before : CoordinateSystems ℚ) : TouchOff → Option (List Promise)
  | zeroZ position plateThickness =>
    position[2]?.map fun contactZ => [⟨.z, contactZ - plateThickness, contactZ, plateThickness⟩]
  | datum state =>
    match state.target with
    | .edge axis _ => state.edgeValue.map fun value => [zeroAt axis value]
    | .corner _ => state.cornerXy.map fun xy => [zeroAt .x xy.1, zeroAt .y xy.2]
  | rotaryCenter state =>
    state.yCenter.bind fun yc => state.zDatumValue.map fun z => [zeroAt .y yc, zeroAt .z z]
  | rotarySetup setup => some [zeroAt .y setup.yCenter, zeroAt .z setup.zDatumValue]
  | flipVerify result currentOrigin =>
    some [⟨result.axis, result.correctedOrigin currentOrigin,
      before.wco result.axis.index + result.error, 0⟩]

/-- The line of promises. -/
def lineOf (promises : List Promise) : List Char :=
  machineOffsetLine (promises.map fun p => (p.axis, p.written))

theorem machineOffsetLine_pair (y z : ℚ) :
    machineOffsetLine [(.y, y), (.z, z)]
      = ['G', '1', '0', ' ', 'L', '2', ' ', 'P', '0'] ++ word3 .y y ++ word3 .z z := by
  unfold machineOffsetLine
  rw [List.flatMap_cons, List.flatMap_singleton, List.append_assoc]

/-- The line writes what is promised. -/
theorem line_eq (t : TouchOff) (before : CoordinateSystems ℚ) :
    t.line = (t.promises before).map lineOf := by
  cases t with
  | zeroZ position plateThickness =>
    unfold promises
    rw [Option.map_map]
    rfl
  | datum state =>
    obtain ⟨step, target, probeDiameter, edgeContact, xContact, yContact, abortReason⟩ := state
    cases target with
    | edge axis dir =>
      unfold promises
      rw [Option.map_map]
      rfl
    | corner corner =>
      unfold promises
      rw [Option.map_map]
      rfl
  | rotaryCenter state =>
    unfold promises
    rw [Option.map_bind]
    show state.offerG10 .active = _
    unfold WizardState.offerG10
    congr 1
    funext yc
    rw [Function.comp_apply, Option.map_map]
    congr 1
    funext z
    exact (machineOffsetLine_pair yc z).symm
  | rotarySetup setup =>
    exact congrArg some (machineOffsetLine_pair setup.yCenter setup.zDatumValue).symm
  | flipVerify result currentOrigin =>
    have hsingle : machineOffsetLine [(result.axis, result.correctedOrigin currentOrigin)]
        = result.offerG10 .active currentOrigin := by
      unfold machineOffsetLine
      rw [List.flatMap_singleton]
      rfl
    exact congrArg some hsingle.symm

/-- Every axis is written once. -/
theorem nodup_promises {t : TouchOff} {before : CoordinateSystems ℚ} {promises : List Promise}
    (h : t.promises before = some promises) : (promises.map Promise.axis).Nodup := by
  cases t with
  | zeroZ position plateThickness =>
    obtain ⟨contactZ, -, rfl⟩ := Option.map_eq_some_iff.1 h
    exact List.nodup_singleton _
  | datum state =>
    obtain ⟨step, target, probeDiameter, edgeContact, xContact, yContact, abortReason⟩ := state
    cases target with
    | edge axis dir =>
      obtain ⟨value, -, rfl⟩ := Option.map_eq_some_iff.1 h
      exact List.nodup_singleton _
    | corner corner =>
      obtain ⟨xy, -, rfl⟩ := Option.map_eq_some_iff.1 h
      exact (by decide : [Axis.x, Axis.y].Nodup)
  | rotaryCenter state =>
    obtain ⟨yc, -, hz⟩ := Option.bind_eq_some_iff.1 h
    obtain ⟨z, -, rfl⟩ := Option.map_eq_some_iff.1 hz
    exact (by decide : [Axis.y, Axis.z].Nodup)
  | rotarySetup setup =>
    obtain rfl := Option.some.inj h
    exact (by decide : [Axis.y, Axis.z].Nodup)
  | flipVerify result currentOrigin =>
    obtain rfl := Option.some.inj h
    exact List.nodup_singleton _

end TouchOff

end Host

/-! ## The law -/

open Host

/-- The part of the machine that a line of a touch-off meets. -/
structure OffsetState where
  /-- The modes. -/
  parser : ModalState ℚ
  /-- The coordinate model. -/
  coords : CoordinateSystems ℚ
  /-- The axes that turn. -/
  rotaryMask : UInt8
  /-- The commanded position. -/
  position : Galdr.Axes ℚ
  /-- The parser has selected one of the systems. -/
  wcs_lt : parser.wcs < wcsCount

namespace OffsetState

/-- The coordinate model behind a line. -/
def after (s : OffsetState) (line : List Char) : CoordinateSystems ℚ :=
  s.coords.processLine s.parser s.rotaryMask s.position (utf8 line)

/-- What the machine reads an axis word of the line as, in millimetres. -/
def writtenMm (s : OffsetState) (axis : Axis) (written : ℚ) : ℚ :=
  printedEven 3 written * axisScale s.parser.units s.rotaryMask axis.index

/-- What the machine adds to the offset of a system. -/
def addedMm (s : OffsetState) (axis : Axis) : ℚ :=
  s.coords.g92 axis.index + if axis.index = tloAxis then s.coords.tlo else 0

/-- The promise is kept: what is written, in the units in force and with the offsets on top of it,
is where the zero is to be. -/
def Keeps (s : OffsetState) (p : Promise) : Prop :=
  |p.point - p.reads - (s.writtenMm p.axis p.written + s.addedMm p.axis)| ≤ 1 / 2000

end OffsetState

/-- **The zero law.** Every point reads as it is promised to, and nothing else has changed. -/
structure ZeroLaw (before after : CoordinateSystems ℚ) (promises : List Promise) : Prop where
  zero : ∀ p ∈ promises, ∀ machine : Galdr.Axes ℚ, machine p.axis.index = p.point →
    |after.machineToWork machine p.axis.index - p.reads| ≤ 1 / 2000
  offsets : ∀ i axis, (i = before.active → ∀ p ∈ promises, p.axis.index ≠ axis) →
    after.offsets i axis = before.offsets i axis
  active : after.active = before.active
  g92 : after.g92 = before.g92
  tlo : after.tlo = before.tlo
  predefined : after.predefined = before.predefined

namespace OffsetState

variable (s : OffsetState) {promises : List Promise}

theorem word_writtenWords (hnodup : (promises.map Promise.axis).Nodup) {p : Promise}
    (hp : p ∈ promises) :
    (writtenWords (promises.map fun p => (p.axis, p.written))).word p.axis.index
      = some (printedEven 3 p.written) := by
  refine word_foldl_of_mem ?_ (List.mem_map.2 ⟨p, hp, rfl⟩) _
  rw [List.map_map]
  exact hnodup

theorem word_writtenWords_of_not {axis : Fin 4} (h : ∀ p ∈ promises, p.axis.index ≠ axis) :
    (writtenWords (promises.map fun p => (p.axis, p.written))).word axis = none := by
  refine (word_foldl_of_not_mem (fun v hv => ?_) _).trans ?_
  · obtain ⟨p, hp, rfl⟩ := List.mem_map.1 hv
    exact h p hp
  · fin_cases axis <;> rfl

/-- When the parser and the coordinate model agree on the system in force, its offset is set. -/
theorem after_eq (hsync : (s.coords.active : ℕ) = s.parser.wcs) (values : List (Axis × ℚ)) :
    s.after (machineOffsetLine values) = s.coords.setWcsOffset s.parser.wcs
      (axisValuesMm (writtenWords values) s.parser.units s.rotaryMask).1
      (axisValuesMm (writtenWords values) s.parser.units s.rotaryMask).2 := by
  unfold after
  rw [CoordinateSystems.processLine_machineOffsetLine]
  unfold CoordinateSystems.syncActiveWcs
  rw [if_pos hsync]

/-- When they do not, another system comes into force. -/
theorem active_after_ne (hsync : (s.coords.active : ℕ) ≠ s.parser.wcs) (values : List (Axis × ℚ)) :
    (s.after (machineOffsetLine values)).active ≠ s.coords.active := by
  unfold after
  rw [CoordinateSystems.processLine_machineOffsetLine]
  unfold CoordinateSystems.syncActiveWcs CoordinateSystems.selectWcs
  rw [if_neg hsync, dif_pos s.wcs_lt]
  intro h
  exact hsync (congrArg Fin.val h).symm

/-- **When the zero law holds of promises.** -/
theorem zeroLaw_lineOf_iff (hnodup : (promises.map Promise.axis).Nodup) :
    ZeroLaw s.coords (s.after (TouchOff.lineOf promises)) promises
      ↔ (s.coords.active : ℕ) = s.parser.wcs ∧ ∀ p ∈ promises, s.Keeps p := by
  by_cases hsync : (s.coords.active : ℕ) = s.parser.wcs
  · have hafter : s.after (TouchOff.lineOf promises) = _ := s.after_eq hsync _
    have hkept : ∀ i axis, (i = s.coords.active → ∀ p ∈ promises, p.axis.index ≠ axis) →
        (s.after (TouchOff.lineOf promises)).offsets i axis = s.coords.offsets i axis := by
      intro i axis hother
      rw [hafter]
      refine CoordinateSystems.offsets_updateOffset_of_not fun hi => axisValuesMm_of_none ?_ _ _
      exact word_writtenWords_of_not (hother (Fin.ext (hi.trans hsync.symm)))
    have hzero : ∀ p ∈ promises, ∀ machine : Galdr.Axes ℚ, machine p.axis.index = p.point →
        (s.after (TouchOff.lineOf promises)).machineToWork machine p.axis.index - p.reads
          = p.point - p.reads - (s.writtenMm p.axis p.written + s.addedMm p.axis) := by
      intro p hp machine hmachine
      obtain ⟨hvalue, hpresent⟩ := axisValuesMm_of_some (word_writtenWords hnodup hp) s.parser.units
        s.rotaryMask
      have hoffset : (s.after (TouchOff.lineOf promises)).offsets s.coords.active p.axis.index
          = s.writtenMm p.axis p.written := by
        rw [hafter]
        exact (CoordinateSystems.offsets_updateOffset hsync hpresent).trans hvalue
      have hwco : (s.after (TouchOff.lineOf promises)).wco p.axis.index
          = s.writtenMm p.axis p.written + s.addedMm p.axis := by
        rw [← hoffset, hafter]
        exact add_assoc _ _ _
      unfold CoordinateSystems.machineToWork
      rw [hmachine, hwco]
      ring
    constructor
    · intro h
      refine ⟨hsync, fun p hp => ?_⟩
      have hp' := h.zero p hp (fun _ => p.point) rfl
      rwa [hzero p hp _ rfl] at hp'
    · rintro ⟨-, hkeeps⟩
      refine ⟨fun p hp machine hmachine => ?_, hkept, ?_, ?_, ?_, ?_⟩
      · rw [hzero p hp machine hmachine]
        exact hkeeps p hp
      all_goals rw [hafter]; rfl
  · exact iff_of_false (fun h => s.active_after_ne hsync _ h.active) fun h => hsync h.1

/-- In millimetres, and with no offset on top of the system, a promise is kept. -/
theorem keeps_of_millimeter {p : Promise} (hunits : s.parser.units = .millimeter)
    (hadded : s.addedMm p.axis = 0) (hwritten : p.written = p.point - p.reads) : s.Keeps p := by
  have hscale : axisScale s.parser.units s.rotaryMask p.axis.index = (1 : ℚ) := by
    unfold axisScale
    rw [hunits]
    exact ite_self 1
  unfold Keeps writtenMm
  rw [hadded, hscale, mul_one, add_zero, ← hwritten, abs_sub_comm]
  refine (abs_printedEven_sub_le 3 p.written).trans ?_
  norm_num

end OffsetState

/-- **When a touch-off sets the zero that it promises**: the parser and the coordinate model agree on
the system in force, and what the machine reads the words as, with the `G92` offset and the tool
length, is where the zero is to be. -/
theorem touchOff_zeroLaw_iff (s : OffsetState) (t : TouchOff) {line : List Char}
    (hline : t.line = some line) {promises : List Promise}
    (hpromises : t.promises s.coords = some promises) :
    ZeroLaw s.coords (s.after line) promises
      ↔ (s.coords.active : ℕ) = s.parser.wcs ∧ ∀ p ∈ promises, s.Keeps p := by
  have hlineOf := t.line_eq s.coords
  rw [hline, hpromises, Option.map_some, Option.some.injEq] at hlineOf
  rw [hlineOf]
  exact s.zeroLaw_lineOf_iff (TouchOff.nodup_promises hpromises)

/-- No offsets, and the first system. -/
def noOffsets : CoordinateSystems ℚ := ⟨fun _ _ => 0, ⟨0, by decide⟩, fun _ => 0, 0, fun _ _ => 0⟩

/-- The machine in some units, with no offsets. -/
def unitState (units : Units) : OffsetState :=
  ⟨{ ModalState.default with units := units }, noOffsets, 0, fun _ => 0, Nat.succ_pos 5⟩

/-- A plate of a millimetre, touched ten millimetres below the origin. -/
def plateTouch : TouchOff := .zeroZ [0, 0, -10] 1

/-- Its line. -/
def plateLine : List Char := "G10 L2 P0 Z-11.000".toList

theorem line_plateTouch : plateTouch.line = some plateLine := by decide +kernel

theorem zeroLaw_plateTouch :
    ZeroLaw (unitState .millimeter).coords ((unitState .millimeter).after plateLine) [⟨.z, -11, -10, 1⟩] := by
  have hpromises : plateTouch.promises (unitState .millimeter).coords = some [⟨.z, -11, -10, 1⟩] := by
    decide +kernel
  refine (touchOff_zeroLaw_iff (unitState .millimeter) plateTouch line_plateTouch hpromises).2
    ⟨rfl, List.forall_mem_singleton.2 (OffsetState.keeps_of_millimeter _ rfl ?_ ?_)⟩
  · decide +kernel
  · decide +kernel

/-- In inches, the zero of the plate is set elsewhere. -/
theorem not_zeroLaw : ¬∀ (s : OffsetState) (t : TouchOff) (line : List Char) (promises : List Promise),
    (s.coords.active : ℕ) = s.parser.wcs → t.line = some line → t.promises s.coords = some promises →
      ZeroLaw s.coords (s.after line) promises := by
  intro h
  have hpromises : plateTouch.promises (unitState .inch).coords = some [⟨.z, -11, -10, 1⟩] := by
    decide +kernel
  have hlaw := h (unitState .inch) plateTouch plateLine _ rfl line_plateTouch hpromises
  have hline : plateLine = TouchOff.lineOf [⟨.z, -11, -10, 1⟩] := by decide +kernel
  rw [hline] at hlaw
  have hnodup : ([⟨.z, -11, -10, 1⟩] : List Promise).map Promise.axis = [.z] := rfl
  have hkeeps := ((OffsetState.zeroLaw_lineOf_iff _ (hnodup ▸ List.nodup_singleton _)).1 hlaw).2 _
    (List.mem_singleton.2 rfl)
  revert hkeeps
  unfold OffsetState.Keeps
  decide +kernel

end Galdr
