import Galdr.ImportArc
import Galdr.ImportModes
import Galdr.MotionPath
import Galdr.Runs

/-!
# The path that the import shows

A program is read twice: by the parser and the planner of the machine, and by the import. The
moves of the two agree when they end within half a step of each other, and an arc is the same
arc on both sides.

The import is the smaller of the two. It takes the axis words of a line for a move whatever
else the line says, so that setting an offset with `G92` becomes one (`not_agrees`); it forgets
the plane behind the line that names it; it knows nothing of `G28` and of probes. On the lines
that it reads as the machine does (`ReadAlike`) its moves are those of the machine
(`import_agrees`).
-/

namespace Galdr.Import

open Text Runs

/-! ## Agreement -/

/-- The coordinates of a point; there is none for the rotary axis. -/
def Point3.along (p : Point3 ℝ) : Axes ℝ := ![p.x, p.y, p.z, 0]

/-- A position in steps is the nearest one to a point, or as near. -/
def Near (config : PlannerConfig ℝ) (p : Point3 ℝ) (steps : Axes Int32) : Prop :=
  ∀ axis, axis ≠ aAxis →
    |((steps axis).toInt : ℝ) - p.along axis * config.stepsPerMm axis| ≤ 1 / 2

/-- The import and the machine cut one arc. The import puts its points on it, evenly, and none of
its chords leaves it by more than the tolerance; so does the machine, with chords of its own. -/
structure Draws (config : PlannerConfig ℝ) (arc : HelicalArc) (ms : List (PreviewMove ℝ))
    (bs : List MachineMove) : Prop where
  /-- The moves of the import are cuts. -/
  cuts : ∀ m ∈ ms, m.kind = .cut
  /-- They begin on the arc, the first at its start. -/
  starts : ms.map PreviewMove.start
    = (List.range ms.length).map fun k : ℕ => arc.at ((k : ℝ) / ms.length)
  /-- They end on it, the last at its end. -/
  targets : ms.map PreviewMove.target
    = (List.range ms.length).map fun k : ℕ => arc.at (((k + 1 : ℕ) : ℝ) / ms.length)
  /-- They are close to it. -/
  close : ∀ k < ms.length, ∀ s, (k : ℝ) / ms.length ≤ s → s ≤ ((k + 1 : ℕ) : ℝ) / ms.length →
    arc.NearChord ((k : ℝ) / ms.length) (((k + 1 : ℕ) : ℝ) / ms.length) s chordToleranceMm
  /-- The moves of the machine are cuts. -/
  machineCuts : ∀ b ∈ bs, b.rapid = false
  /-- They begin and end on the arc. -/
  ends : List.Forall₂ (fun (k : ℕ) b => Near config (arc.at ((k : ℝ) / bs.length)) b.start
      ∧ Near config (arc.at (((k + 1 : ℕ) : ℝ) / bs.length)) b.target)
    (List.range bs.length) bs

/-- The moves of the import and those of the machine agree, in their order. -/
inductive Agrees (config : PlannerConfig ℝ) : List (PreviewMove ℝ) → List MachineMove → Prop
  /-- There are none. -/
  | nil : Agrees config [] []
  /-- A straight move. -/
  | straight {m : PreviewMove ℝ} {b : MachineMove} {ms : List (PreviewMove ℝ)}
      {bs : List MachineMove} (kind : m.kind = if b.rapid = true then .rapid else .cut)
      (start : Near config m.start b.start) (target : Near config m.target b.target)
      (rest : Agrees config ms bs) : Agrees config (m :: ms) (b :: bs)
  /-- A move of the machine that only turns the rotary axis. -/
  | still {b : MachineMove} {ms : List (PreviewMove ℝ)} {bs : List MachineMove}
      (same : ∀ axis, axis ≠ aAxis → b.target axis = b.start axis)
      (rest : Agrees config ms bs) : Agrees config ms (b :: bs)
  /-- An arc. -/
  | arc {arc : HelicalArc} {ms ms' : List (PreviewMove ℝ)} {bs bs' : List MachineMove}
      (drawn : Draws config arc ms bs) (rest : Agrees config ms' bs') :
      Agrees config (ms ++ ms') (bs ++ bs')

theorem Agrees.append {config : PlannerConfig ℝ} {ms ms' : List (PreviewMove ℝ)}
    {bs bs' : List MachineMove} (h : Agrees config ms bs) (h' : Agrees config ms' bs') :
    Agrees config (ms ++ ms') (bs ++ bs') := by
  induction h with
  | nil => exact h'
  | straight kind start target rest ih => exact .straight kind start target ih
  | still same rest ih => exact .still same ih
  | arc drawn rest ih =>
    rw [List.append_assoc, List.append_assoc]
    exact .arc drawn ih

/-! ## The two readers side by side -/

/-- A line as the machine lexes it. -/
noncomputable def read (line : List Char) : GcodeLine ℝ := ⟨lineWords (utf8 line), [], false⟩

/-- The machine and the import, behind some lines of a program. -/
structure Tandem where
  /-- The machine. -/
  machine : Interpreter ℝ
  /-- The import. -/
  modal : Modal ℝ
  /-- A program end has taken the modes of the machine back to the defaults. -/
  ended : Prop

/-- Where a line takes the import. -/
noncomputable def Modal.target (modal : Modal ℝ) (line : GcodeLine ℝ) : Point3 ℝ where
  x := resolve (line.value 'X') modal.pos.x modal.absolute modal.unitsScale
  y := resolve (line.value 'Y') modal.pos.y modal.absolute modal.unitsScale
  z := resolve (line.value 'Z') modal.pos.z modal.absolute modal.unitsScale

/-- The centre of the arc that a line asks for. -/
noncomputable def Modal.center (modal : Modal ℝ) (line : GcodeLine ℝ) : ℝ × ℝ :=
  (modal.pos.x + (line.value 'I').getD 0 * modal.unitsScale,
    modal.pos.y + (line.value 'J').getD 0 * modal.unitsScale)

/-- The radius at the start of the arc. -/
noncomputable def Modal.startRadius (modal : Modal ℝ) (line : GcodeLine ℝ) : ℝ × ℝ :=
  (modal.pos.x - (modal.center line).1, modal.pos.y - (modal.center line).2)

/-- The radius at its end. -/
noncomputable def Modal.endRadius (modal : Modal ℝ) (line : GcodeLine ℝ) : ℝ × ℝ :=
  ((modal.target line).x - (modal.center line).1, (modal.target line).y - (modal.center line).2)

/-- The import takes the end of the arc for its start. -/
noncomputable def Modal.full (modal : Modal ℝ) (line : GcodeLine ℝ) : Bool :=
  coincident (modal.pos.x, modal.pos.y) ((modal.target line).x, (modal.target line).y)

/-- The turn from the start of the arc to its end, from nothing to a whole one. -/
noncomputable def Modal.turn (modal : Modal ℝ) (line : GcodeLine ℝ) : ℝ :=
  remEuclid (atan2f (modal.endRadius line).2 (modal.endRadius line).1
    - atan2f (modal.startRadius line).2 (modal.startRadius line).1) tau

/-- The arc. -/
noncomputable def Modal.arc (modal : Modal ℝ) (line : GcodeLine ℝ) (ccw : Bool) : HelicalArc where
  center := modal.center line
  radius := hypot (modal.startRadius line).1 (modal.startRadius line).2
  thetaStart := atan2f (modal.startRadius line).2 (modal.startRadius line).1
  sweep := arcSweep (atan2f (modal.startRadius line).2 (modal.startRadius line).1)
    (atan2f (modal.endRadius line).2 (modal.endRadius line).1) ccw (modal.full line)
  zStart := modal.pos.z
  zDelta := (modal.target line).z - modal.pos.z

/-- No letter stands twice on a line: of two, the import takes the first and the machine the
last. -/
def Once (line : GcodeLine ℝ) (letter : Char) : Prop :=
  (line.words.filter fun w => w.letter = letter).length ≤ 1

/-- The import sees no move in a line. -/
def Modal.CommandsNothing (modal : Modal ℝ) (line : GcodeLine ℝ) : Prop :=
  modal.motion = none
    ∨ (line.has 'X' || line.has 'Y' || line.has 'Z') = false
      ∧ (modal.motion = some .arcCw ∨ modal.motion = some .arcCcw →
        (line.has 'I' || line.has 'J' || line.has 'R') = false)

/-- A straight move of the machine is one of the import. -/
structure MoveAlike (p : Planner ℝ) (modal : Modal ℝ) (line : GcodeLine ℝ) (axes : AxisWords ℝ)
    (units : Units) (distance : DistanceMode) : Prop where
  /-- A line has named the motion. -/
  named : axes.x.isSome = true ∨ axes.y.isSome = true ∨ axes.z.isSome = true →
    modal.motion ≠ none
  once : ∀ letter ∈ ['X', 'Y', 'Z'], Once line letter
  /-- An axis whose word is in inches is linear. -/
  linear : units = .inch → ∀ axis, axis ≠ aAxis → axes.word axis ≠ none →
    p.config.isRotary axis = false
  /-- What is added to the position is a whole number of steps, so that the machine does not
  round it. -/
  whole : distance = .incremental → ∀ axis, axis ≠ aAxis → ∀ v, axes.word axis = some v →
    ∃ n : ℤ, v * unitsScale units * p.config.stepsPerMm axis = n
  /-- The machine can count the steps to the target. -/
  fits : ∀ axis, axis ≠ aAxis → ∀ v, axes.word axis = some v →
    FitsI32 (roundf (((if distance = .incremental then p.positionMm axis else 0)
      + v * unitsScale units) * p.config.stepsPerMm axis))

/-- An arc of the machine is one of the import. -/
structure ArcAlike (p : Planner ℝ) (modal : Modal ℝ) (line : GcodeLine ℝ) (cw : Bool)
    (axes : AxisWords ℝ) (i j : Option ℝ) (plane : Plane) (units : Units) : Prop where
  once : ∀ letter ∈ ['X', 'Y', 'Z', 'I', 'J'], Once line letter
  linear : units = .inch → ∀ axis, axis ≠ aAxis → axes.word axis ≠ none →
    p.config.isRotary axis = false
  /-- It is in the plane of X and Y. -/
  plane : plane = .xy ∧ outOfPlane line = false
  /-- It has a centre. -/
  centre : i.isSome = true ∨ j.isSome = true
  /-- It begins at a whole number of steps. -/
  start : ∀ axis, axis ≠ aAxis → ((p.positionSteps axis).toInt : ℝ)
    = modal.pos.along axis * p.config.stepsPerMm axis
  /-- The planner takes a radius of its length. -/
  radius : lengthEpsilonMm ≤ (modal.arc line !cw).radius
  /-- It does not end in its centre. -/
  outside : modal.endRadius line ≠ 0
  /-- It ends where it begins, or so far from there, both ways, that the import can tell. -/
  turn : modal.full line = true ∧ modal.endRadius line = modal.startRadius line
    ∨ modal.full line = false ∧ f64Epsilon < modal.turn line ∧ modal.turn line < tau - f64Epsilon
  /-- It ends so near to its circle that the machine counts the steps of the end. -/
  circle : ∀ axis, axis ≠ aAxis →
    |(roundf (((modal.arc line !cw).at 1).along axis * p.config.stepsPerMm axis) : ℝ)
      - (modal.target line).along axis * p.config.stepsPerMm axis| ≤ 1 / 2
  /-- It is not too great for 512 chords. -/
  fine : (modal.arc line !cw).radius
      * (1 - Real.cos (|(modal.arc line !cw).sweep| / (2 * 512))) ≤ chordToleranceMm
  /-- The machine can count the steps to all of its points. -/
  fits : ∀ s, 0 ≤ s → s ≤ 1 → ∀ axis, axis ≠ aAxis →
    FitsI32 (roundf (((modal.arc line !cw).at s).along axis * p.config.stepsPerMm axis))

namespace Tandem

/-- Both at the start of a program, at the origin. -/
noncomputable def start (config : PlannerConfig ℝ) (predefined : Bool → Axes ℝ) : Tandem where
  machine := ⟨.default, .new config, predefined⟩
  modal := .start
  ended := False

/-- Both go on by a line. -/
noncomputable def step (t : Tandem) (line : List Char) : Tandem where
  machine := ((t.machine.line (utf8 line)).map Prod.snd).getD t.machine
  modal := (walkLine t.modal (read line)).2
  ended := t.ended ∨ (parseLine t.machine.modal (utf8 line)).1 = .ok (some .programEnd)

/-- **The import reads a line as the machine does.** Behind a program end, a line has to name the
modes anew that the motion depends on. -/
def ReadAlike (t : Tandem) (line : List Char) : Prop :=
  let modal := t.modal.applyLine (read line)
  match parseLine t.machine.modal (utf8 line) with
  | (.ok (some (.move _ axes units distance _ _ _)), next) =>
    (t.ended → Follows modal next)
      ∧ MoveAlike t.machine.planner modal (read line) axes units distance
  | (.ok (some (.arc cw axes i j _ plane units _ _ _ _)), next) =>
    (t.ended → Follows modal next)
      ∧ ArcAlike t.machine.planner modal (read line) cw axes i j plane units
  | (.ok (some (.goToPredefined _ _ _ _)), _) => False
  | (.ok (some (.probe _ _ _ _ _)), _) => False
  | _ => modal.CommandsNothing (read line)

end Tandem

end Galdr.Import
