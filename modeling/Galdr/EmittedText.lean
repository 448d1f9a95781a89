import Galdr.ConformanceGap
import Galdr.Postprocessor
import Galdr.Realtime

/-!
# The text of an emitted program on the wire

An emitted program is meant to be streamed as it is. Its first line is a comment with a
dash that is no ASCII character. On the wire the dash is three bytes; the firmware takes
two of them out of the stream as real-time commands, a status report and a decrease of
the feed override (`banner_captured`), so that no emitted program reaches the firmware
as it was rendered (`not_executable`).
-/

namespace Galdr.Eitri

open Comms Text

/-! ## What an executable program is -/

/-- A coordinate of a command, as a coordinate that was rounded to four decimals. -/
def NearCoord (a b : Option ℚ) : Prop :=
  match a, b with
  | some a, some b => |a - b| ≤ 1 / 20000
  | none, none => True
  | _, _ => False

/-- The words of a command, as the axes of a move. -/
def NearAxes (axes : Axes ℚ) (words : AxisWords ℚ) : Prop :=
  NearCoord axes.x words.x ∧ NearCoord axes.y words.y ∧ NearCoord axes.z words.z
    ∧ words.a = none

/-- A command makes a move. -/
def Draws : Hook ℚ → PlannerCommand ℚ → Prop
  | .rapid axes, command => ∃ words feed,
    command = .move true words .millimeter .absolute feed .unitsPerMin false
      ∧ NearAxes axes words
  | .linear axes _, command => ∃ words feed,
    command = .move false words .millimeter .absolute feed .unitsPerMin false
      ∧ NearAxes axes words
  | .arc arc _, command => ∃ words i j feed,
    command = .arc (decide (arc.dir = .cw)) words i j none .xy .millimeter .absolute feed
        .unitsPerMin false
      ∧ NearAxes (.xy arc.x arc.y) words
      ∧ NearCoord (some arc.offset.i) i ∧ NearCoord (some arc.offset.j) j
  | _, _ => False

/-- A call that moves the tool. -/
def Hook.moves : Hook ℚ → Bool
  | .rapid _ | .linear _ _ | .arc _ _ => true
  | _ => false

/-- A command that moves the tool. -/
def commandMoves : PlannerCommand ℚ → Bool
  | .move .. | .arc .. => true
  | _ => false

/-- The commands of the lines that are accepted. -/
def commandsFrom (state : ModalState ℚ) : List (List UInt8) → List (PlannerCommand ℚ)
  | [] => []
  | line :: rest =>
    ((parseLine state line).1.toOption.bind id).toList ++ commandsFrom (parseLine state line).2 rest

/-- The text of a program can be streamed, and traces the moves it was rendered from. -/
structure Executable (hooks : List (Hook ℚ)) (text : List Char) : Prop where
  /-- The checker passes it. -/
  conformant : isGrblConformant text = true
  /-- No byte of it is a real-time command. -/
  uncaptured : ∀ b ∈ utf8 text, classifyRealtime b = none
  /-- Every line of it is accepted. -/
  accepted : AcceptedFrom (.default : ModalState ℚ) (wireLines text)
  /-- The moves of its lines are those it was rendered from, up to rounding. -/
  traces : (hooks.filter Hook.moves).Forall₂ Draws
    ((commandsFrom .default (wireLines text)).filter commandMoves)

/-! ## The first line -/

namespace Program

theorem lines_push (p : Program) (line : List Char) : p.lines <+: (p.push line).lines :=
  List.prefix_append ..

theorem lines_comment (p : Program) (text : List Char) : p.lines <+: (p.comment text).lines := by
  unfold comment
  split
  · exact List.prefix_append ..
  · exact List.prefix_rfl

end Program

theorem lines_optionalComment (p : Program) (text : Option (List Char)) :
    p.lines <+: (GrblHal.optionalComment p text).lines := by
  cases text with
  | none => exact List.prefix_rfl
  | some text => exact p.lines_comment text

/-- A call adds lines and changes none. -/
theorem lines_call (p : Program) (hook : Hook ℚ) :
    p.lines <+: (GrblHal.post.call p hook).lines := by
  cases hook with
  | startCode job =>
    exact ((p.lines_comment _).trans (lines_optionalComment _ _)).trans
      ((lines_optionalComment _ _).trans (Program.lines_push _ _))
  | endCode job => exact (p.lines_push _).trans (Program.lines_push _ _)
  | toolChange tool => exact (p.lines_comment _).trans (Program.lines_push _ _)
  | _ => exact p.lines_push _

theorem lines_foldl_call (p : Program) (hooks : List (Hook ℚ)) :
    p.lines <+: (hooks.foldl GrblHal.post.call p).lines := by
  induction hooks generalizing p with
  | nil => exact List.prefix_rfl
  | cons hook hooks ih => exact (lines_call p hook).trans (ih _)

/-- The comment that a program begins with, as a line. -/
def bannerLine : List Char := '(' :: sanitizeComment GrblHal.banner true ++ [')']

/-- A program begins with the comment that says what made it. -/
theorem bannerLine_prefix (job : JobContext) (hooks : List (Hook ℚ)) :
    [bannerLine] <+: (GrblHal.post.emit (.startCode job :: hooks)).lines := by
  have hfirst : [bannerLine] <+: ((Program.new GrblHal.post.format).comment GrblHal.banner).lines :=
    List.prefix_rfl
  have hstart : [bannerLine] <+: (GrblHal.post.call (.new GrblHal.post.format) (.startCode job)).lines :=
    (hfirst.trans (lines_optionalComment _ _)).trans
      ((lines_optionalComment _ _).trans (Program.lines_push _ _))
  exact hstart.trans (lines_foldl_call _ hooks)

/-- **The dash of the first line** is a status report and a decrease of the feed override. -/
theorem banner_captured : captured (utf8 bannerLine) = [.statusReport, .override 0x94] := by
  decide +kernel

/-- The real-time commands in the text of a program begin with those of its first line. -/
theorem captured_prefix (job : JobContext) (hooks : List (Hook ℚ)) :
    [.statusReport, .override 0x94]
      <+: captured (utf8 (GrblHal.post.emit (.startCode job :: hooks)).render) := by
  obtain ⟨rest, hlines⟩ := bannerLine_prefix job hooks
  unfold Program.render
  rw [← hlines, List.flatMap_append, utf8_append]
  have hline : utf8 ([bannerLine].flatMap (· ++
      (GrblHal.post.emit (.startCode job :: hooks)).format.lineEnding.asStr))
      = utf8 bannerLine ++ utf8 (GrblHal.post.emit (.startCode job :: hooks)).format.lineEnding.asStr := by
    rw [List.flatMap_singleton, utf8_append]
  rw [hline]
  unfold captured
  rw [List.filterMap_append, List.filterMap_append]
  show _ <+: captured (utf8 bannerLine) ++ _ ++ _
  rw [banner_captured, List.append_assoc]
  exact List.prefix_append ..

/-- A program is not executable as it is rendered. -/
theorem not_executable_of_startCode (job : JobContext) (hooks : List (Hook ℚ)) :
    ¬Executable (.startCode job :: hooks) (GrblHal.post.emit (.startCode job :: hooks)).render := by
  intro h
  obtain ⟨rest, hcaptured⟩ := captured_prefix job hooks
  have hmem : RealtimeCommand.statusReport
      ∈ captured (utf8 (GrblHal.post.emit (.startCode job :: hooks)).render) := by
    rw [← hcaptured]
    exact List.mem_cons_self ..
  obtain ⟨b, hb, hclass⟩ := List.mem_filterMap.1 hmem
  rw [h.uncaptured b hb] at hclass
  cases hclass

/-- **No emitted program is executable as it is rendered**, whatever is cut or drilled. -/
theorem not_executable {G : Type} [CutRing ℚ G] (note : Option (List Char))
    (origin : Origin ℚ) :
    (∀ (toolpaths : IsolationToolpaths G) (job : IsolationJob ℚ),
        ¬Executable (emitIsolation toolpaths job origin note)
          (GrblHal.post.emit (emitIsolation toolpaths job origin note)).render)
      ∧ ∀ (plan : DrillPlan ℚ) (job : DrillJob ℚ),
        ¬Executable (emitDrilling plan job origin note)
          (GrblHal.post.emit (emitDrilling plan job origin note)).render :=
  ⟨fun _ _ => not_executable_of_startCode _ _, fun _ _ => not_executable_of_startCode _ _⟩

/-- A cut to a point and back. -/
def cutAndBack : IsolationToolpaths (RingPath ℚ) := ⟨[⟨⟨[⟨0, 0⟩, ⟨10, 0⟩, ⟨0, 0⟩]⟩⟩]⟩

/-- The program of `cutAndBack`. -/
def cutAndBackHooks : List (Hook ℚ) :=
  emitIsolation cutAndBack ⟨1 / 10, 1 / 10, 120, 60, 2, 10000, none⟩ .native none

/-- **A conformant program holds real-time commands**: the firmware reports its status and
slows the feed down where the comment of the first line has a dash. -/
theorem captured_cutAndBack :
    isGrblConformant (GrblHal.post.emit cutAndBackHooks).render = true
      ∧ captured (utf8 (GrblHal.post.emit cutAndBackHooks).render)
        = [.statusReport, .override 0x94]
      ∧ ¬Executable cutAndBackHooks (GrblHal.post.emit cutAndBackHooks).render :=
  ⟨by decide +kernel, by decide +kernel, not_executable_of_startCode _ _⟩

end Galdr.Eitri
