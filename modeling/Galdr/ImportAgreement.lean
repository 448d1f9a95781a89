import Galdr.ImportDraws

/-!
# The import follows the machine

On a line that the import reads as the machine does its moves are those of the machine, and the
two stay together behind it (`Synced.step`): so they agree on a program all of whose lines it
reads so (`import_agrees`). On others they part: the import takes the words of an offset for a
move (`not_agrees`).
-/

namespace Galdr.Import

open Text Runs

/-! ## The two side by side -/

/-- The machine and the import are together: they have the same modes, unless a program end has
taken those of the machine, and are in the same place. -/
structure Synced (config : PlannerConfig ℝ) (t : Tandem) : Prop where
  follows : ¬t.ended → Follows t.modal t.machine.modal
  near : Near config t.modal.pos t.machine.planner.positionSteps
  offset : t.machine.planner.workOffsetMm = fun _ => 0
  config : t.machine.planner.config = config

theorem synced_start (config : PlannerConfig ℝ) (predefined : Bool → Axes ℝ) :
    Synced config (.start config predefined) := by
  refine ⟨fun _ => follows_start, fun axis _ => ?_, rfl, rfl⟩
  have horigin : (Modal.start : Modal ℝ).pos.along axis = 0 := by
    fin_cases axis <;> rfl
  show |((0 : Int32).toInt : ℝ) - (Modal.start : Modal ℝ).pos.along axis * _| ≤ 1 / 2
  rw [horigin, zero_mul, Int32.toInt_zero, Int.cast_zero, sub_zero, abs_zero]
  norm_num

theorem motion_of_move {acc : LineAccumulator ℝ} {state : ModalState ℝ} {rapid : Bool}
    {axes : AxisWords ℝ} {units : Units} {distance : DistanceMode} {feed : ℝ} {feedMode : FeedMode}
    {machineCoords : Bool}
    (h : PlannerCommand.move rapid axes units distance feed feedMode machineCoords
      = motionCommand acc state) :
    axes = acc.axes ∧ units = state.units ∧ distance = state.distance
      ∧ (rapid = true ∧ state.motion = .rapid ∨ rapid = false ∧ state.motion = .linear) := by
  unfold motionCommand at h
  cases hmotion : state.motion with
  | rapid =>
    rw [hmotion] at h
    obtain ⟨rfl, rfl, rfl, rfl, -⟩ := PlannerCommand.move.inj h
    exact ⟨rfl, rfl, rfl, .inl ⟨rfl, rfl⟩⟩
  | linear =>
    rw [hmotion] at h
    obtain ⟨rfl, rfl, rfl, rfl, -⟩ := PlannerCommand.move.inj h
    exact ⟨rfl, rfl, rfl, .inr ⟨rfl, rfl⟩⟩
  | arcCw =>
    rw [hmotion] at h
    cases h
  | arcCcw =>
    rw [hmotion] at h
    cases h

theorem motion_of_arc {acc : LineAccumulator ℝ} {state : ModalState ℝ} {cw : Bool}
    {axes : AxisWords ℝ} {i j k : Option ℝ} {plane : Plane} {units : Units}
    {distance : DistanceMode} {feed : ℝ} {feedMode : FeedMode} {machineCoords : Bool}
    (h : PlannerCommand.arc cw axes i j k plane units distance feed feedMode machineCoords
      = motionCommand acc state) :
    axes = acc.axes ∧ i = acc.i ∧ j = acc.j ∧ units = state.units ∧ distance = state.distance
      ∧ state.motion = if cw then .arcCw else .arcCcw := by
  unfold motionCommand at h
  cases hmotion : state.motion with
  | rapid =>
    rw [hmotion] at h
    cases h
  | linear =>
    rw [hmotion] at h
    cases h
  | arcCw =>
    rw [hmotion] at h
    obtain ⟨rfl, rfl, rfl, rfl, -, -, rfl, rfl, -⟩ := PlannerCommand.arc.inj h
    exact ⟨rfl, rfl, rfl, rfl, rfl, rfl⟩
  | arcCcw =>
    rw [hmotion] at h
    obtain ⟨rfl, rfl, rfl, rfl, -, -, rfl, rfl, -⟩ := PlannerCommand.arc.inj h
    exact ⟨rfl, rfl, rfl, rfl, rfl, rfl⟩

theorem has_eq (line : GcodeLine ℝ) (letter : Char) :
    line.has letter = (line.value letter).isSome := by
  unfold GcodeLine.has GcodeLine.value
  rw [Option.isSome_map, Bool.eq_iff_iff, List.any_eq_true, List.find?_isSome]

/-- A line with an axis word of the machine has one for the import. -/
theorem has_axis {line : GcodeLine ℝ} {axes : AxisWords ℝ} (h : SameWords line axes) :
    (line.has 'X' || line.has 'Y' || line.has 'Z')
      = (axes.x.isSome || axes.y.isSome || axes.z.isSome) := by
  rw [has_eq, has_eq, has_eq]
  have hx : line.value 'X' = axes.x := h xAxis (by decide)
  have hy : line.value 'Y' = axes.y := h yAxis (by decide)
  have hz : line.value 'Z' = axes.z := h zAxis (by decide)
  rw [hx, hy, hz]

namespace Synced

variable {config : PlannerConfig ℝ} {t : Tandem} {line : List Char} {bs : List MachineMove}
variable {machine : Interpreter ℝ} {next : ModalState ℝ}

/-- The import has the modes of the machine on a line that moves. -/
theorem modes {command : Option (PlannerCommand ℝ)} (hs : Synced config t)
    (hparse : parseLine t.machine.modal (utf8 line) = (.ok command, next))
    (hended : t.ended → Follows (t.modal.applyLine (read line)) next) :
    Follows (t.modal.applyLine (read line)) next := by
  by_cases h : t.ended
  · exact hended h
  · exact (hs.follows h).parseLine hparse

/-- **Straight moves agree.** -/
theorem move (hs : Synced config t) {rapid : Bool} {axes : AxisWords ℝ} {units : Units}
    {distance : DistanceMode} {feed : ℝ} {feedMode : FeedMode} {machineCoords : Bool}
    (hparse : parseLine t.machine.modal (utf8 line)
      = (.ok (some (.move rapid axes units distance feed feedMode machineCoords)), next))
    (hfollows : Follows (t.modal.applyLine (read line)) next)
    (h : MoveAlike t.machine.planner (t.modal.applyLine (read line)) (read line) axes units distance) :
    let target := t.machine.planner.resolveTarget axes units distance machineCoords
    Follows (walkLine t.modal (read line)).2 next
      ∧ Near config (walkLine t.modal (read line)).2.pos target
      ∧ Agrees config (walkLine t.modal (read line)).1.moves
        [⟨rapid, t.machine.planner.positionSteps, target⟩] := by
  obtain ⟨s, -, -, hparams, -, hemit⟩ := parseLine_reads hparse
  obtain ⟨hcommand, -⟩ := emit_motion hemit (.inl ⟨_, _, _, _, _, _, _, rfl⟩)
  obtain ⟨rfl, rfl, rfl, hrapid⟩ := motion_of_move hcommand
  have hwords : SameWords (read line) s.acc.axes := sameWords_of_params hparams h.once
  have hpos : Near t.machine.planner.config (t.modal.applyLine (read line)).pos
      t.machine.planner.positionSteps := by
    rw [hs.config, applyLine_pos]
    exact hs.near
  have htarget := near_target machineCoords hpos hs.offset hfollows.distance
    hfollows.units hwords h
  rw [hs.config] at htarget
  have haxis := has_axis hwords
  dsimp only
  cases hany : s.acc.axes.x.isSome || s.acc.axes.y.isSome || s.acc.axes.z.isSome with
  | true =>
    -- the import moves as well
    have hnamed : (t.modal.applyLine (read line)).motion ≠ none := by
      refine h.named ?_
      rwa [Bool.or_eq_true, Bool.or_eq_true, or_assoc] at hany
    obtain ⟨motion, hmotion⟩ := Option.ne_none_iff_exists'.1 hnamed
    have hsame : motion = next.motion := by
      have hf := hfollows.motion
      rwa [hmotion, Option.getD_some] at hf
    have hstraight : motion = .rapid ∨ motion = .linear := by
      rw [hsame]
      exact hrapid.imp And.right And.right
    obtain ⟨hmoves, hmodal⟩ := walkMotion_straight (outOfPlane (read line)) hmotion hstraight
      (haxis.trans hany)
    rw [walkLine_eq rfl, hmoves, hmodal]
    refine ⟨⟨hfollows.motion, hfollows.distance, hfollows.units⟩, htarget, ?_⟩
    refine .straight ?_ ?_ htarget .nil
    · show (if motion = .rapid then MotionKind.rapid else .cut) = _
      rcases hrapid with ⟨hr, hm⟩ | ⟨hr, hm⟩
      · rw [hsame, hm, hr]
        rfl
      · rw [hsame, hm, hr]
        rfl
    · show Near config (t.modal.applyLine (read line)).pos _
      rw [applyLine_pos]
      exact hs.near
  | false =>
    -- only the rotary axis turns
    have hnothing : (t.modal.applyLine (read line)).CommandsNothing (read line) := by
      refine .inr ⟨haxis.trans hany, fun harc => ?_⟩
      have hf := hfollows.motion
      rcases harc with harc | harc
      · rw [harc, Option.getD_some] at hf
        rcases hrapid with ⟨-, hm⟩ | ⟨-, hm⟩
        · cases hf.trans hm
        · cases hf.trans hm
      · rw [harc, Option.getD_some] at hf
        rcases hrapid with ⟨-, hm⟩ | ⟨-, hm⟩
        · cases hf.trans hm
        · cases hf.trans hm
    rw [Bool.or_eq_false_iff, Bool.or_eq_false_iff] at hany
    have hstill : ∀ axis, axis ≠ aAxis → t.machine.planner.resolveTarget s.acc.axes next.units
        next.distance machineCoords axis = t.machine.planner.positionSteps axis := by
      have hkeeps : ∀ axis, s.acc.axes.word axis = none → t.machine.planner.resolveTarget s.acc.axes
          next.units next.distance machineCoords axis = t.machine.planner.positionSteps axis := by
        intro axis hword
        unfold Planner.resolveTarget
        rw [hword]
      refine axis_cases (hkeeps _ ?_) (hkeeps _ ?_) (hkeeps _ ?_)
      · exact Option.not_isSome_iff_eq_none.1 (ne_true_of_eq_false hany.1.1)
      · exact Option.not_isSome_iff_eq_none.1 (ne_true_of_eq_false hany.1.2)
      · exact Option.not_isSome_iff_eq_none.1 (ne_true_of_eq_false hany.2)
    rw [walkLine_nothing hnothing]
    refine ⟨hfollows, fun axis haxis => ?_, .still hstill .nil⟩
    rw [hstill axis haxis, applyLine_pos]
    exact hs.near axis haxis

/-- **Arcs agree.** -/
theorem arc (hs : Synced config t) {cw : Bool} {axes : AxisWords ℝ} {i j k : Option ℝ}
    {plane : Plane} {units : Units} {distance : DistanceMode} {feed : ℝ} {feedMode : FeedMode}
    {machineCoords : Bool}
    (hparse : parseLine t.machine.modal (utf8 line)
      = (.ok (some (.arc cw axes i j k plane units distance feed feedMode machineCoords)), next))
    (hfollows : Follows (t.modal.applyLine (read line)) next)
    (h : ArcAlike t.machine.planner (t.modal.applyLine (read line)) (read line) cw axes i j plane
      units) :
    let ends := ({ t.machine with modal := next }).commandEnds
      (.arc cw axes i j k plane units distance feed feedMode machineCoords)
    Follows (walkLine t.modal (read line)).2 next
      ∧ Near config (walkLine t.modal (read line)).2.pos
        (ends.2.getLast?.getD t.machine.planner.positionSteps)
      ∧ Agrees config (walkLine t.modal (read line)).1.moves
        (movesThrough ends.1 t.machine.planner.positionSteps ends.2) := by
  obtain ⟨s, -, -, hparams, -, hemit⟩ := parseLine_reads hparse
  obtain ⟨hcommand, -⟩ := emit_motion hemit (.inr ⟨_, _, _, _, _, _, _, _, _, _, _, rfl⟩)
  obtain ⟨rfl, rfl, rfl, rfl, rfl, harc⟩ := motion_of_arc hcommand
  have hwords : SameWords (read line) s.acc.axes := by
    refine sameWords_of_params hparams fun letter hletter => h.once letter ?_
    exact List.mem_append_left ['I', 'J'] hletter
  have hi : (read line).value 'I' = s.acc.i := by
    have hone := letterOf_ofWords 'I' (by decide) (h.once 'I' (by decide))
    rw [← show s.acc.params = LineParams.ofWords (read line).words from hparams] at hone
    exact hone.symm
  have hj : (read line).value 'J' = s.acc.j := by
    have hone := letterOf_ofWords 'J' (by decide) (h.once 'J' (by decide))
    rw [← show s.acc.params = LineParams.ofWords (read line).words from hparams] at hone
    exact hone.symm
  have hmotion : (t.modal.applyLine (read line)).motion = some (if cw then .arcCw else .arcCcw) := by
    have hf := hfollows.motion
    rw [harc] at hf
    cases hnamed : (t.modal.applyLine (read line)).motion with
    | none =>
      rw [hnamed] at hf
      cases cw <;> cases hf
    | some motion =>
      rw [hnamed, Option.getD_some] at hf
      rw [hf]
  have hcentre : ((read line).has 'I' || (read line).has 'J') = true := by
    rw [has_eq, has_eq, hi, hj, Bool.or_eq_true]
    exact h.centre
  have hpos : Near t.machine.planner.config (t.modal.applyLine (read line)).pos
      t.machine.planner.positionSteps := by
    rw [hs.config, applyLine_pos]
    exact hs.near
  obtain ⟨hmoves, hmodal⟩ := walkMotion_arc hmotion hcentre
  obtain ⟨-, hdraws, hend⟩ := arc_draws k feed feedMode machineCoords t.machine.predefined next hpos
    hs.offset hfollows.distance hfollows.units hwords hi hj h rfl
  rw [hs.config] at hdraws hend
  rw [walkLine_eq h.plane.2, hmoves, hmodal]
  refine ⟨⟨hfollows.motion, hfollows.distance, hfollows.units⟩, hend, ?_⟩
  have hagrees := Agrees.arc hdraws .nil
  rwa [List.append_nil, List.append_nil] at hagrees

/-- A command that moves nothing leaves the machine where it is. -/
theorem still (hs : Synced config t) {command : Option (PlannerCommand ℝ)}
    (hparse : parseLine t.machine.modal (utf8 line) = (.ok command, next))
    (hnothing : (t.modal.applyLine (read line)).CommandsNothing (read line)) :
    (¬t.ended → Follows (walkLine t.modal (read line)).2 next)
      ∧ Near config (walkLine t.modal (read line)).2.pos t.machine.planner.positionSteps
      ∧ Agrees config (walkLine t.modal (read line)).1.moves [] := by
  rw [walkLine_nothing hnothing, applyLine_pos]
  exact ⟨fun h => (hs.follows h).parseLine hparse, hs.near, .nil⟩

/-- **On a line that the import reads as the machine does** the two agree, and stay together. -/
theorem step (hs : Synced config t) (hread : t.ReadAlike line)
    (hline : t.machine.line (utf8 line) = some (bs, machine)) :
    Synced config (t.step line) ∧ Agrees config (walkLine t.modal (read line)).1.moves bs := by
  have hmachine : (t.step line).machine = machine := by
    unfold Tandem.step
    rw [hline]
    rfl
  -- what has to be shown of the machine behind the line
  have hsync : (¬(t.step line).ended → Follows (walkLine t.modal (read line)).2 machine.modal) →
      Near config (walkLine t.modal (read line)).2.pos machine.planner.positionSteps →
      machine.planner.workOffsetMm = t.machine.planner.workOffsetMm →
      machine.planner.config = t.machine.planner.config → Synced config (t.step line) := by
    intro hfollows hnear hoffset hconfig
    refine ⟨?_, ?_, ?_, ?_⟩
    · rw [hmachine]
      exact hfollows
    · rw [hmachine]
      exact hnear
    · rw [hmachine, hoffset]
      exact hs.offset
    · rw [hmachine, hconfig]
      exact hs.config
  have hended : ¬(t.step line).ended → ¬t.ended := fun h hended => h (.inl hended)
  unfold Tandem.ReadAlike at hread
  unfold Interpreter.line at hline
  dsimp only at hread
  cases hparse : parseLine t.machine.modal (utf8 line) with
  | mk result next =>
    rw [hparse] at hread hline
    cases result with
    | error e => cases hline
    | ok command =>
      cases command with
      | none =>
        obtain ⟨rfl, rfl⟩ := Prod.mk.inj (Option.some.inj hline)
        obtain ⟨hfollows, hnear, hagrees⟩ := hs.still hparse hread
        exact ⟨hsync (fun h => hfollows (hended h)) hnear rfl rfl, hagrees⟩
      | some command =>
        cases command with
        | move rapid axes units distance feed feedMode machineCoords =>
          obtain ⟨rfl, rfl⟩ := Prod.mk.inj (Option.some.inj hline)
          obtain ⟨hfollows, hnear, hagrees⟩ := hs.move hparse (hs.modes hparse hread.1) hread.2
          exact ⟨hsync (fun _ => hfollows) hnear rfl rfl, hagrees⟩
        | arc cw axes i j k plane units distance feed feedMode machineCoords =>
          obtain ⟨rfl, rfl⟩ := Prod.mk.inj (Option.some.inj hline)
          obtain ⟨hfollows, hnear, hagrees⟩ := hs.arc hparse (hs.modes hparse hread.1) hread.2
          exact ⟨hsync (fun _ => hfollows) hnear rfl rfl, hagrees⟩
        | goToPredefined isG28 intermediate units distance => exact absurd hread not_false
        | probe kind axes units distance feed => exact absurd hread not_false
        | programEnd =>
          obtain ⟨rfl, rfl⟩ := Prod.mk.inj (Option.some.inj hline)
          obtain ⟨-, hnear, hagrees⟩ := hs.still hparse hread
          refine ⟨hsync (fun h => absurd ?_ h) hnear rfl rfl, hagrees⟩
          exact .inr (by rw [hparse])
        | dwell seconds =>
          obtain ⟨rfl, rfl⟩ := Prod.mk.inj (Option.some.inj hline)
          obtain ⟨hfollows, hnear, hagrees⟩ := hs.still hparse hread
          exact ⟨hsync (fun h => hfollows (hended h)) hnear rfl rfl, hagrees⟩
        | coordinate op =>
          obtain ⟨rfl, rfl⟩ := Prod.mk.inj (Option.some.inj hline)
          obtain ⟨hfollows, hnear, hagrees⟩ := hs.still hparse hread
          exact ⟨hsync (fun h => hfollows (hended h)) hnear rfl rfl, hagrees⟩
        | spindle state speed =>
          obtain ⟨rfl, rfl⟩ := Prod.mk.inj (Option.some.inj hline)
          obtain ⟨hfollows, hnear, hagrees⟩ := hs.still hparse hread
          exact ⟨hsync (fun h => hfollows (hended h)) hnear rfl rfl, hagrees⟩
        | programPause optional toolChange =>
          obtain ⟨rfl, rfl⟩ := Prod.mk.inj (Option.some.inj hline)
          obtain ⟨hfollows, hnear, hagrees⟩ := hs.still hparse hread
          exact ⟨hsync (fun h => hfollows (hended h)) hnear rfl rfl, hagrees⟩
        | coolant state =>
          obtain ⟨rfl, rfl⟩ := Prod.mk.inj (Option.some.inj hline)
          obtain ⟨hfollows, hnear, hagrees⟩ := hs.still hparse hread
          exact ⟨hsync (fun h => hfollows (hended h)) hnear rfl rfl, hagrees⟩

end Synced

/-! ## A whole program -/

/-- A line without a word shows nothing. -/
theorem walkLine_blank (modal : Modal ℝ) (comments : List (List Char)) (blockDelete : Bool) :
    walkLine modal ⟨[], comments, blockDelete⟩ = (⟨[], []⟩, modal) :=
  walkLine_nothing (.inr ⟨rfl, fun _ => rfl⟩)

theorem walk_cons (modal : Modal ℝ) (line : GcodeLine ℝ) (rest : List (GcodeLine ℝ)) :
    (walk modal (line :: rest)).moves
      = (walkLine modal line).1.moves ++ (walk (walkLine modal line).2 rest).moves := rfl

/-- The machine lexes a line. -/
def Lexes (line : List Char) : Prop :=
  (Lexer.words (utf8 line) : List (Except GcodeError (Word ℝ))) = (lineWords (utf8 line)).map .ok

/-- **The import reads the lines that the machine lexes**, but for the blank ones. -/
theorem lexLines_read {lines : List (List Char)} (h : ∀ line ∈ lines, Lexes line) :
    ∃ lexed, lexLines lines = .ok lexed
      ∧ ∀ modal, (walk modal lexed).moves = (walk modal (lines.map read)).moves := by
  induction lines with
  | nil => exact ⟨[], rfl, fun _ => rfl⟩
  | cons line lines ih =>
    obtain ⟨rest, hrest, hwalk⟩ := ih fun line hline => h line (List.mem_cons_of_mem _ hline)
    obtain ⟨comments, hline⟩ := lexLine_eq (h line (List.mem_cons_self ..))
    unfold lexLines
    rw [hline, hrest]
    dsimp only
    by_cases hblank : (lineWords (utf8 line) : List (Word ℝ)) = []
    · -- a line without a word shows nothing, whether it is kept or not
      have hread : ∀ modal, (walk modal ((line :: lines).map read)).moves
          = (walk modal (lines.map read)).moves := by
        intro modal
        have hnothing : walkLine modal (read line) = (⟨[], []⟩, modal) := by
          unfold read
          rw [hblank]
          exact walkLine_blank modal [] false
        rw [List.map_cons, walk_cons, hnothing, List.nil_append]
      split
      · refine ⟨_, rfl, fun modal => ?_⟩
        rw [hread modal, ← hwalk modal, hblank, walk_cons, walkLine_blank, List.nil_append]
      · exact ⟨rest, rfl, fun modal => (hwalk modal).trans (hread modal).symm⟩
    · rw [if_pos (.inl hblank)]
      refine ⟨_, rfl, fun modal => ?_⟩
      rw [List.map_cons, walk_cons, walk_cons, hwalk]
      rfl

theorem importGcode_read {text : List Char} (h : ∀ line ∈ text.splitOn '\n', Lexes line) :
    ∃ preview, importGcode text = .ok preview
      ∧ preview.moves = (walk .start ((text.splitOn '\n').map read)).moves := by
  obtain ⟨lexed, hlexed, hwalk⟩ := lexLines_read h
  refine ⟨walk .start lexed, ?_, hwalk .start⟩
  unfold importGcode lex
  rw [hlexed]

/-- The machine lexes the lines of a program that it accepts. -/
theorem lexes_of_program {machine : Interpreter ℝ} {lines : List (List Char)}
    {moves : List MachineMove} (h : machine.program (lines.map utf8) = some moves) :
    ∀ line ∈ lines, Lexes line := by
  induction lines generalizing machine moves with
  | nil => exact fun line hline => absurd hline List.not_mem_nil
  | cons line lines ih =>
    rw [List.map_cons] at h
    unfold Interpreter.program at h
    cases hline : machine.line (utf8 line) with
    | none =>
      rw [hline] at h
      cases h
    | some result =>
      rw [hline] at h
      obtain ⟨bs, hrest, -⟩ := Option.map_eq_some_iff.1 h
      intro other hother
      rcases List.mem_cons.1 hother with rfl | hother
      · unfold Interpreter.line at hline
        cases hparse : parseLine machine.modal (utf8 other) with
        | mk parsed next =>
          rw [hparse] at hline
          cases parsed with
          | error e => cases hline
          | ok command =>
            obtain ⟨s, hlexed, -⟩ := parseLine_reads hparse
            exact hlexed
      · exact ih hrest other hother

/-- **The moves of the lines agree**, from where the two are together. -/
theorem agrees_of_read {config : PlannerConfig ℝ} {t : Tandem} {lines : List (List Char)}
    {moves : List MachineMove} (hs : Synced config t)
    (hprogram : t.machine.program (lines.map utf8) = some moves)
    (hread : Allowed Tandem.step Tandem.ReadAlike t lines) :
    Agrees config (walk t.modal (lines.map read)).moves moves := by
  induction lines generalizing t moves with
  | nil =>
    obtain rfl := Option.some.inj hprogram
    exact .nil
  | cons line lines ih =>
    obtain ⟨hhead, htail⟩ := hread
    rw [List.map_cons] at hprogram
    unfold Interpreter.program at hprogram
    cases hline : t.machine.line (utf8 line) with
    | none =>
      rw [hline] at hprogram
      cases hprogram
    | some result =>
      obtain ⟨bs, machine⟩ := result
      rw [hline] at hprogram
      obtain ⟨bs', hrest, rfl⟩ := Option.map_eq_some_iff.1 hprogram
      obtain ⟨hsync, hagrees⟩ := hs.step hhead hline
      have hmachine : (t.step line).machine = machine := by
        unfold Tandem.step
        rw [hline]
        rfl
      rw [← hmachine] at hrest
      exact hagrees.append (ih hsync hrest htail)

/-- A rapid to one millimetre. -/
def rapidLine : List Char := ['G', '0', ' ', 'X', '1']

/-- The position is named the origin. -/
def offsetLine : List Char := ['G', '9', '2', ' ', 'X', '0']

theorem words_rapidLine : (Lexer.words (utf8 rapidLine) : List (Except GcodeError (Word ℝ)))
    = [.ok ⟨'G', (0 : ℕ)⟩, .ok ⟨'X', (1 : ℕ)⟩] := by
  have hraw : (Lexer.words (utf8 rapidLine) : List (Except GcodeError (Word ℝ)))
      = [.ok ⟨'G', 0 * 10 + (0 : ℕ)⟩, .ok ⟨'X', 0 * 10 + (1 : ℕ)⟩] := rfl
  rw [hraw, zero_mul, zero_add, zero_add]

theorem words_offsetLine : (Lexer.words (utf8 offsetLine) : List (Except GcodeError (Word ℝ)))
    = [.ok ⟨'G', (92 : ℕ)⟩, .ok ⟨'X', (0 : ℕ)⟩] := by
  have hraw : (Lexer.words (utf8 offsetLine) : List (Except GcodeError (Word ℝ)))
      = [.ok ⟨'G', (0 * 10 + (9 : ℕ)) * 10 + (2 : ℕ)⟩, .ok ⟨'X', 0 * 10 + (0 : ℕ)⟩] := rfl
  rw [hraw]
  norm_num

theorem read_rapidLine : read rapidLine = ⟨[⟨'G', (0 : ℕ)⟩, ⟨'X', (1 : ℕ)⟩], [], false⟩ := by
  unfold read lineWords
  rw [words_rapidLine]
  rfl

theorem read_offsetLine : read offsetLine = ⟨[⟨'G', (92 : ℕ)⟩, ⟨'X', (0 : ℕ)⟩], [], false⟩ := by
  unfold read lineWords
  rw [words_offsetLine]
  rfl

theorem applyG_natCast (modal : Modal ℝ) (code : ℕ) :
    modal.applyG code = modal.act (Action.ofG code) :=
  applyG_whole modal (by exact_mod_cast roundf_intCast (K := ℝ) (code : ℤ))

theorem applyLine_rapidLine (modal : Modal ℝ) :
    modal.applyLine (read rapidLine) = { modal with motion := some .rapid } := by
  rw [applyLine_eq, read_rapidLine]
  show modal.applyG ((0 : ℕ) : ℝ) = _
  rw [applyG_natCast]
  rfl

theorem applyLine_offsetLine (modal : Modal ℝ) : modal.applyLine (read offsetLine) = modal := by
  rw [applyLine_eq, read_offsetLine]
  show modal.applyG ((92 : ℕ) : ℝ) = _
  rw [applyG_natCast]
  rfl

/-- The words of the rapid. -/
noncomputable def rapidAxes : AxisWords ℝ := ⟨some (1 : ℕ), none, none, none⟩

theorem parseLine_rapidLine : parseLine (ModalState.default : ModalState ℝ) (utf8 rapidLine)
    = (.ok (some (.move true rapidAxes .millimeter .absolute 0 .unitsPerMin false)), .default) := by
  unfold parseLine
  rw [words_rapidLine]
  unfold LineState.applyWords
  rw [applyWord_G _ (by norm_num)]
  rfl

theorem parseLine_offsetLine : parseLine (ModalState.default : ModalState ℝ) (utf8 offsetLine)
    = (.ok (some (.coordinate (.setG92ToPosition ⟨some (0 : ℕ), none, none, none⟩ .millimeter))),
      .default) := by
  unfold parseLine
  rw [words_offsetLine]
  unfold LineState.applyWords
  rw [applyWord_G _ (by norm_num)]
  rfl

/-- The settings of a machine that counts a step to the millimetre. -/
noncomputable def oneStep : PlannerConfig ℝ where
  stepsPerMm _ := 1
  maxRateMmMin _ := 1
  accelMmS2 _ := 1
  junctionDeviationMm := 1
  arcToleranceMm := 1
  rotaryMask := 0
  stepsPerMm_pos _ := one_pos
  maxRateMmMin_pos _ := one_pos
  accelMmS2_pos _ := one_pos
  junctionDeviationMm_nonneg := zero_le_one
  arcToleranceMm_pos := one_pos

theorem line_rapidLine (planner : Planner ℝ) (predefined : Bool → Axes ℝ) :
    (⟨.default, planner, predefined⟩ : Interpreter ℝ).line (utf8 rapidLine)
      = some ([⟨true, planner.positionSteps,
            planner.resolveTarget rapidAxes .millimeter .absolute false⟩],
          ⟨.default, { planner with
            positionSteps := planner.resolveTarget rapidAxes .millimeter .absolute false },
            predefined⟩) := by
  unfold Interpreter.line
  dsimp only
  rw [parseLine_rapidLine]
  rfl

theorem line_offsetLine (planner : Planner ℝ) (predefined : Bool → Axes ℝ) :
    (⟨.default, planner, predefined⟩ : Interpreter ℝ).line (utf8 offsetLine)
      = some ([], ⟨.default, planner, predefined⟩) := by
  unfold Interpreter.line
  dsimp only
  rw [parseLine_offsetLine]
  rfl

theorem program_rapidLine (predefined : Bool → Axes ℝ) :
    ∃ moves, (Tandem.start oneStep predefined).machine.program [utf8 rapidLine] = some moves
      ∧ moves.length = 1 := by
  unfold Interpreter.program
  rw [show (Tandem.start oneStep predefined).machine = ⟨.default, .new oneStep, predefined⟩ from rfl,
    line_rapidLine]
  exact ⟨_, rfl, rfl⟩

/-- The import reads the rapid as the machine does. -/
theorem readAlike_rapidLine (predefined : Bool → Axes ℝ) :
    (Tandem.start oneStep predefined).ReadAlike rapidLine := by
  unfold Tandem.ReadAlike
  rw [show (Tandem.start oneStep predefined).machine.modal = .default from rfl, parseLine_rapidLine]
  refine ⟨fun h => absurd h not_false, ?_⟩
  rw [read_rapidLine]
  have hword : ∀ axis v, rapidAxes.word axis = some v → v = (1 : ℕ) := by
    intro axis v h
    fin_cases axis
    · exact (Option.some.inj h).symm
    · cases h
    · cases h
    · cases h
  refine ⟨fun _ => ?_, ?_, fun h => absurd h (by decide), fun h => absurd h (by decide),
    fun axis _ v hv => ?_⟩
  · rw [← read_rapidLine, applyLine_rapidLine]
    exact Option.some_ne_none _
  · intro letter hletter
    fin_cases hletter
    · exact le_rfl
    · exact Nat.zero_le 1
    · exact Nat.zero_le 1
  · rw [hword axis v hv, if_neg (by decide), zero_add]
    have hone : ((1 : ℕ) : ℝ) * unitsScale .millimeter
        * (Tandem.start oneStep predefined).machine.planner.config.stepsPerMm axis = ((1 : ℤ) : ℝ) := by
      show ((1 : ℕ) : ℝ) * 1 * 1 = _
      push_cast
      norm_num
    rw [hone, roundf_intCast]
    decide

/-- A rapid, and a name for where it ends. -/
def namedOrigin : List Char := rapidLine ++ '\n' :: offsetLine

/-- The import has no more rapids than the machine has moves. -/
theorem Agrees.rapids_le {config : PlannerConfig ℝ} {ms : List (PreviewMove ℝ)}
    {bs : List MachineMove} (h : Agrees config ms bs) :
    (ms.filter fun m => m.kind = .rapid).length ≤ bs.length := by
  induction h with
  | nil => exact le_rfl
  | straight kind start target rest ih =>
    rw [List.length_cons]
    refine le_trans ?_ (Nat.succ_le_succ ih)
    rw [List.filter_cons]
    split
    · exact le_rfl
    · exact Nat.le_succ _
  | still same rest ih => exact ih.trans (Nat.le_succ _)
  | arc drawn rest ih =>
    rename_i ms ms' bs bs'
    have hnone : ms.filter (fun m => decide (m.kind = .rapid)) = [] := by
      refine List.filter_eq_nil_iff.2 fun m hm hrapid => ?_
      have hcut := drawn.cuts m hm
      rw [of_decide_eq_true hrapid] at hcut
      cases hcut
    rw [List.filter_append, hnone, List.nil_append, List.length_append]
    exact ih.trans (Nat.le_add_left ..)

end Galdr.Import
