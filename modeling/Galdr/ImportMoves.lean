import Galdr.ImportPath

/-!
# Straight moves in the import

The import and the machine read the same words of a line, as long as none stands twice
(`letterOf_ofWords`), and keep the same modes (`Follows.parseLine`). From there they place the
target of a straight move alike (`near_target`).
-/

namespace Galdr.Import

open Text

/-! ## The words of a line -/

section Words

variable {K : Type} [Field K] [LinearOrder K] [FloorRing K]

/-- The parameter of a letter that both read. -/
def letterOf (params : LineParams K) (letter : Char) : Option K :=
  if letter = 'X' then params.axes.x
  else if letter = 'Y' then params.axes.y
  else if letter = 'Z' then params.axes.z
  else if letter = 'I' then params.i
  else if letter = 'J' then params.j
  else none

/-- The letters that both read. -/
def readLetters : List Char := ['X', 'Y', 'Z', 'I', 'J']

omit [Field K] [LinearOrder K] [FloorRing K] in
/-- The last word of a letter counts. -/
theorem letterOf_fold (params : LineParams K) (word : Word K) {letter : Char}
    (h : letter ∈ readLetters) :
    letterOf (params.fold word) letter
      = if word.letter = letter then some word.value else letterOf params letter := by
  obtain ⟨c, v⟩ := word
  by_cases hc : c ∈ ['X', 'Y', 'Z', 'A', 'I', 'J', 'K', 'L', 'P']
  · unfold readLetters at h
    fin_cases hc <;> fin_cases h <;> rfl
  · have hne : ∀ d ∈ ['X', 'Y', 'Z', 'A', 'I', 'J', 'K', 'L', 'P'], c ≠ d := fun d hd heq =>
      hc (heq ▸ hd)
    have hletter : c ≠ letter := by
      unfold readLetters at h
      fin_cases h <;> exact hne _ (by decide)
    have hfold : params.fold ⟨c, v⟩ = params := by
      unfold LineParams.fold
      rw [if_neg (hne 'X' (by decide)), if_neg (hne 'Y' (by decide)), if_neg (hne 'Z' (by decide)),
        if_neg (hne 'A' (by decide)), if_neg (hne 'I' (by decide)), if_neg (hne 'J' (by decide)),
        if_neg (hne 'K' (by decide)), if_neg (hne 'L' (by decide)), if_neg (hne 'P' (by decide))]
    rw [hfold, if_neg hletter]

omit [Field K] [LinearOrder K] [FloorRing K] in
/-- **The two read the same word** of a letter that stands once. -/
theorem letterOf_ofWords {words : List (Word K)} (letter : Char) (h : letter ∈ readLetters)
    (hone : (words.filter fun w => w.letter = letter).length ≤ 1) :
    letterOf (LineParams.ofWords words) letter
      = (words.find? fun w => w.letter = letter).map Word.value := by
  induction words using List.reverseRecOn with
  | nil =>
    unfold readLetters at h
    fin_cases h <;> rfl
  | append_singleton words word ih =>
    rw [List.filter_append, List.length_append] at hone
    rw [LineParams.ofWords_concat, letterOf_fold _ _ h, List.find?_append]
    by_cases hword : word.letter = letter
    · -- no word before it is of the letter
      have hkept : [word].filter (fun w => decide (w.letter = letter)) = [word] :=
        List.filter_cons_of_pos (decide_eq_true hword)
      rw [hkept, List.length_singleton] at hone
      have hnone : words.find? (fun w => decide (w.letter = letter)) = none := by
        refine List.find?_eq_none.2 fun w hw heq => ?_
        have hmem : w ∈ words.filter fun w => decide (w.letter = letter) :=
          List.mem_filter.2 ⟨hw, heq⟩
        have hpos := List.length_pos_of_mem hmem
        omega
      have hfound : [word].find? (fun w => decide (w.letter = letter)) = some word :=
        List.find?_cons_of_pos (decide_eq_true hword)
      rw [if_pos hword, hnone, Option.none_or, hfound]
      rfl
    · have hpassed : [word].find? (fun w => decide (w.letter = letter)) = none :=
        List.find?_cons_of_neg fun heq => hword (of_decide_eq_true heq)
      rw [if_neg hword, hpassed, Option.or_none]
      exact ih (by omega)

/-- A line that is accepted, in the parts that both read. -/
theorem parseLine_reads {state next : ModalState K} {bytes : List UInt8}
    {command : Option (PlannerCommand K)} (h : parseLine state bytes = (.ok command, next)) :
    ∃ s : LineState K, Lexer.words bytes = (lineWords bytes : List (Word K)).map .ok
      ∧ (LineState.start state).applyWords ((lineWords bytes).map .ok) = .ok s
      ∧ s.acc.params = LineParams.ofWords (lineWords bytes)
      ∧ s.next = next ∧ emit s.acc next state.wcs = .ok command := by
  unfold parseLine at h
  cases hwords : (LineState.start state).applyWords (Lexer.words bytes) with
  | error e =>
    rw [hwords] at h
    cases h
  | ok s =>
    obtain ⟨words, hlexed, hfolded⟩ := (folded_start state).applyWords hwords
    rw [List.nil_append] at hfolded
    have hline : (lineWords bytes : List (Word K)) = words := by
      unfold lineWords
      rw [hlexed, List.filterMap_map]
      exact List.filterMap_some
    rw [hwords] at h
    dsimp only at h
    split at h
    · cases h
    cases hemit : emit s.acc s.next state.wcs with
    | error e =>
      rw [hemit] at h
      cases h
    | ok command' =>
      rw [hemit] at h
      obtain ⟨hcommand, rfl⟩ := Prod.mk.inj h
      obtain rfl := Except.ok.inj hcommand
      rw [hline]
      exact ⟨s, hlexed, hlexed ▸ hwords, hfolded.params, rfl, hemit⟩

/-- The command of a line that moves is its motion. -/
theorem emit_motion {acc : LineAccumulator K} {state : ModalState K} {wcs : ℕ}
    {command : PlannerCommand K} (h : emit acc state wcs = .ok (some command))
    (hmove : (∃ rapid axes units distance feed feedMode machineCoords,
        command = .move rapid axes units distance feed feedMode machineCoords)
      ∨ ∃ cw axes i j k plane units distance feed feedMode machineCoords,
        command = .arc cw axes i j k plane units distance feed feedMode machineCoords) :
    command = motionCommand acc state ∧ acc.axes.any = true := by
  have hother : ∀ {c : PlannerCommand K}, Except.ok (some c) = (.ok (some command) : Except GcodeError _)
      → c = command := fun hc => Option.some.inj (Except.ok.inj hc)
  unfold emit probeCommand at h
  repeat' split at h
  all_goals first
    | exact ⟨(hother h).symm, ‹_›⟩
    | (cases h; done)
    | (rw [← hother h] at hmove; rcases hmove with ⟨_, _, _, _, _, _, _, hc⟩ | ⟨_, _, _, _, _, _, _, _, _, _, _, hc⟩ <;> cases hc)

/-- The import keeps the modes of the machine over a line that is accepted. -/
theorem Follows.parseLine [IsStrictOrderedRing K] {modal : Modal K} {state next : ModalState K}
    {bytes : List UInt8} {command : Option (PlannerCommand K)} (hf : Follows modal state)
    (h : Galdr.parseLine state bytes = (.ok command, next)) :
    Follows (modal.applyLine ⟨lineWords bytes, [], false⟩) next := by
  obtain ⟨s, -, happly, -, rfl, -⟩ := parseLine_reads h
  rw [applyLine_eq]
  exact Follows.line hf happly

theorem applyG_pos (modal : Modal K) (value : K) : (modal.applyG value).pos = modal.pos := by
  unfold Modal.applyG
  dsimp only
  split_ifs <;> rfl

/-- The `G` words move nothing. -/
@[simp] theorem applyLine_pos (modal : Modal K) (line : GcodeLine K) :
    (modal.applyLine line).pos = modal.pos := by
  unfold Modal.applyLine
  induction line.words.filter (fun w => decide (w.letter = 'G')) generalizing modal with
  | nil => rfl
  | cons word words ih => rw [List.foldl_cons, ih, applyG_pos]

end Words

/-! ## Straight moves -/

/-- The letter of an axis. -/
def axisLetter : Fin 4 → Char := ![ 'X', 'Y', 'Z', 'A']

theorem axis_cases {P : Fin 4 → Prop} (hx : P xAxis) (hy : P yAxis) (hz : P zAxis) :
    ∀ axis, axis ≠ aAxis → P axis := by
  intro axis haxis
  fin_cases axis
  · exact hx
  · exact hy
  · exact hz
  · exact absurd rfl haxis

/-- A target, by its axes. -/
theorem target_along (modal : Modal ℝ) (line : GcodeLine ℝ) (axis : Fin 4) (haxis : axis ≠ aAxis) :
    (modal.target line).along axis = resolve (line.value (axisLetter axis)) (modal.pos.along axis)
      modal.absolute modal.unitsScale :=
  axis_cases (P := fun axis => (modal.target line).along axis
    = resolve (line.value (axisLetter axis)) (modal.pos.along axis) modal.absolute modal.unitsScale)
    rfl rfl rfl axis haxis

/-- The import reads the axis words of the machine. -/
def SameWords (line : GcodeLine ℝ) (axes : AxisWords ℝ) : Prop :=
  ∀ axis, axis ≠ aAxis → line.value (axisLetter axis) = axes.word axis

theorem sameWords_of_params {line : List Char} {params : LineParams ℝ}
    (hparams : params = LineParams.ofWords (lineWords (utf8 line)))
    (hone : ∀ letter ∈ ['X', 'Y', 'Z'], Once (read line) letter) :
    SameWords (read line) params.axes := by
  subst hparams
  refine axis_cases ?_ ?_ ?_
  · exact (letterOf_ofWords 'X' (by decide) (hone 'X' (by decide))).symm
  · exact (letterOf_ofWords 'Y' (by decide) (hone 'Y' (by decide))).symm
  · exact (letterOf_ofWords 'Z' (by decide) (hone 'Z' (by decide))).symm

/-- The scale of a word on the machine. -/
theorem machineScale {config : PlannerConfig ℝ} {axes : AxisWords ℝ} {units : Units} {axis : Fin 4}
    (haxis : axis ≠ aAxis) (hword : axes.word axis ≠ none)
    (h : units = .inch → ∀ axis, axis ≠ aAxis → axes.word axis ≠ none →
      config.isRotary axis = false) :
    (if config.isRotary axis then 1 else (unitsScale units : ℝ)) = unitsScale units := by
  cases units with
  | inch => rw [h rfl axis haxis hword, if_neg Bool.false_ne_true]
  | millimeter =>
    show (if _ then 1 else (1 : ℝ)) = 1
    exact ite_self _

/-- **The two place the target of a straight move alike.** -/
theorem near_target {p : Planner ℝ} {modal : Modal ℝ} {line : GcodeLine ℝ} {axes : AxisWords ℝ}
    {units : Units} {distance : DistanceMode} (machineCoords : Bool)
    (hpos : Near p.config modal.pos p.positionSteps) (hoffset : p.workOffsetMm = fun _ => 0)
    (hdistance : modal.absolute = decide (distance = .absolute))
    (hunits : modal.unitsScale = unitsScale units) (hwords : SameWords line axes)
    (h : MoveAlike p modal line axes units distance) :
    Near p.config (modal.target line) (p.resolveTarget axes units distance machineCoords) := by
  intro axis haxis
  have hsteps := p.config.stepsPerMm_pos axis
  rw [target_along modal line axis haxis, hwords axis haxis, hdistance, hunits]
  unfold Planner.resolveTarget
  cases hword : axes.word axis with
  | none => exact hpos axis haxis
  | some v =>
    have hscale := machineScale haxis (by rw [hword]; exact Option.some_ne_none v) h.linear
    have hfits := h.fits axis haxis v hword
    dsimp only
    rw [hscale, hoffset]
    unfold mmToSteps
    rw [toInt_roundToI32]
    cases distance with
    | absolute =>
      have hplain : (if machineCoords then v * unitsScale units else v * unitsScale units + 0)
          = v * (unitsScale units : ℝ) := by rw [add_zero, ite_self]
      rw [if_neg (by decide : ¬ DistanceMode.absolute = .incremental), zero_add] at hfits
      dsimp only
      rw [hplain, clampI32_of_fits hfits]
      unfold resolve
      dsimp only
      rw [if_pos (decide_eq_true rfl)]
      exact abs_roundf_sub_le _
    | incremental =>
      -- a whole number of steps from where the machine is
      obtain ⟨n, hn⟩ := h.whole rfl axis haxis v hword
      have hwhole : (p.positionMm axis + v * unitsScale units) * p.config.stepsPerMm axis
          = (((p.positionSteps axis).toInt + n : ℤ) : ℝ) := by
        unfold Planner.positionMm
        push_cast
        rw [add_mul, div_mul_cancel₀ _ hsteps.ne', hn]
      rw [if_pos rfl] at hfits
      dsimp only
      rw [clampI32_of_fits hfits, hwhole, roundf_intCast]
      unfold resolve
      dsimp only
      rw [if_neg (by decide), add_mul, hn]
      have hnear := hpos axis haxis
      push_cast
      rwa [add_sub_add_right_eq_sub]

/-! ## What the import makes of a line -/

theorem walkLine_nothing {modal : Modal ℝ} {line : GcodeLine ℝ}
    (h : (modal.applyLine line).CommandsNothing line) :
    walkLine modal line = (⟨[], []⟩, modal.applyLine line) := by
  unfold walkLine walkMotion
  dsimp only
  split
  · rfl
  rename_i motion hmotion
  rcases h with hnone | ⟨haxis, hcenter⟩
  · cases hnone.symm.trans hmotion
  · rw [if_pos]
    rintro (hhas | ⟨harc, hhas⟩)
    · exact Bool.false_ne_true (haxis.symm.trans hhas)
    · exact Bool.false_ne_true ((hcenter harc).symm.trans hhas)

theorem walkLine_eq {modal : Modal ℝ} {line : GcodeLine ℝ} {plane : Bool}
    (h : outOfPlane line = plane) :
    walkLine modal line = walkMotion line (modal.applyLine line) plane := by
  unfold walkLine
  rw [h]

/-- A line with an axis word, under a straight motion. -/
theorem walkMotion_straight {modal : Modal ℝ} {line : GcodeLine ℝ} {motion : MotionMode}
    (outOfPlane : Bool) (hmotion : modal.motion = some motion)
    (hstraight : motion = .rapid ∨ motion = .linear)
    (haxis : (line.has 'X' || line.has 'Y' || line.has 'Z') = true) :
    (walkMotion line modal outOfPlane).1.moves
        = [⟨if motion = .rapid then .rapid else .cut, modal.pos, modal.target line⟩]
      ∧ (walkMotion line modal outOfPlane).2 = { modal with pos := modal.target line } := by
  obtain ⟨pos, absolute, unitsScale, named⟩ := modal
  obtain rfl : named = some motion := hmotion
  unfold walkMotion
  dsimp only
  rw [if_neg (not_not.2 (.inl haxis))]
  rcases hstraight with rfl | rfl
  · exact ⟨rfl, rfl⟩
  · exact ⟨rfl, rfl⟩

/-- A line with a centre, under an arc. -/
theorem walkMotion_arc {modal : Modal ℝ} {line : GcodeLine ℝ} {cw : Bool}
    (hmotion : modal.motion = some (if cw then .arcCw else .arcCcw))
    (hcentre : (line.has 'I' || line.has 'J') = true) :
    (walkMotion line modal false).1.moves
        = (let arc := modal.arc line !cw
          let pts := flattenArc arc.center.1 arc.center.2 arc.radius arc.thetaStart arc.sweep
          chords arc.zStart arc.zDelta pts.length 0 modal.pos pts)
      ∧ (walkMotion line modal false).2 = { modal with pos := modal.target line } := by
  have hhas : (line.has 'I' || line.has 'J' || line.has 'R') = true := by
    rw [hcentre, Bool.true_or]
  obtain ⟨pos, absolute, unitsScale, named⟩ := modal
  cases cw with
  | true =>
    obtain rfl : named = some .arcCw := hmotion
    unfold walkMotion
    dsimp only
    rw [if_neg (not_not.2 (.inr ⟨.inl rfl, hhas⟩))]
    unfold emitArc arcCentre
    rw [if_neg Bool.false_ne_true, if_pos hcentre]
    exact ⟨rfl, rfl⟩
  | false =>
    obtain rfl : named = some .arcCcw := hmotion
    unfold walkMotion
    dsimp only
    rw [if_neg (not_not.2 (.inr ⟨.inr rfl, hhas⟩))]
    unfold emitArc arcCentre
    rw [if_neg Bool.false_ne_true, if_pos hcentre]
    exact ⟨rfl, rfl⟩

/-- The chords through the points of a helix. -/
theorem chords_points (z0 dz : ℝ) (n : ℕ) (f : ℕ → ℝ × ℝ) (m k : ℕ) (prev : Point3 ℝ) :
    let helix := fun i : ℕ => (⟨(f i).1, (f i).2, z0 + dz * (((i + 1 : ℕ) : ℝ) / n)⟩ : Point3 ℝ)
    let ms := chords z0 dz n k prev ((List.range' k m).map f)
    ms.map PreviewMove.target = (List.range' k m).map helix
      ∧ ms.map PreviewMove.start = (prev :: (List.range' k m).map helix).take m
      ∧ ∀ move ∈ ms, move.kind = .cut := by
  dsimp only
  induction m generalizing k prev with
  | zero => exact ⟨rfl, rfl, fun _ h => absurd h List.not_mem_nil⟩
  | succ m ih =>
    obtain ⟨htargets, hstarts, hcuts⟩ :=
      ih (k + 1) ⟨(f k).1, (f k).2, z0 + dz * (((k + 1 : ℕ) : ℝ) / n)⟩
    rw [List.range'_succ, List.map_cons, List.map_cons]
    unfold chords
    dsimp only
    refine ⟨?_, ?_, fun move hmove => ?_⟩
    · rw [List.map_cons, htargets]
    · rw [List.map_cons, hstarts, List.take_succ_cons]
    · rcases List.mem_cons.1 hmove with rfl | hmove
      · rfl
      · exact hcuts move hmove

end Galdr.Import
