import Galdr.RenderedLines

/-!
# The moves of a rendered program

A program without an arc is read back as the moves that it was rendered from, each to the point
that its axes are printed as (`importGcode_emit`). The other lines, which set modes and switch
the spindle, show nothing.
-/

namespace Galdr.Eitri

open Import Text

/-! ## Calls as lines -/

/-- The comment of a text. -/
def commentLine (text : List Char) : List Char := '(' :: sanitizeComment text true ++ [')']

theorem comment_default (lines : List (List Char)) (text : List Char) :
    (⟨.default, lines⟩ : Program).comment text = ⟨.default, lines ++ [commentLine text]⟩ := rfl

theorem optionalComment_default (lines : List (List Char)) (text : Option (List Char)) :
    GrblHal.optionalComment ⟨.default, lines⟩ text
      = ⟨.default, lines ++ text.toList.map commentLine⟩ := by
  cases text with
  | none => exact congrArg _ (List.append_nil _).symm
  | some text => rfl

/-- The line that sets the modes. -/
def modesLine : List Char := "G90 G21 G54 G17 G94".toList

/-- A program begins with comments, and the modes. -/
theorem startCode_default (lines : List (List Char)) (job : JobContext) :
    GrblHal.post.call ⟨.default, lines⟩ (.startCode job) = ⟨.default, lines
      ++ ((GrblHal.banner :: job.name.toList ++ job.tool.toList).map commentLine ++ [modesLine])⟩ := by
  show (GrblHal.optionalComment (GrblHal.optionalComment
    ((⟨.default, lines⟩ : Program).comment GrblHal.banner) job.name) job.tool).push _ = _
  rw [comment_default, optionalComment_default, optionalComment_default]
  unfold Program.push
  have hmodes : ['G', '9', '0', ' '] ++ OutputFormat.default.unitsWord
      ++ [' ', 'G', '5', '4', ' ', 'G', '1', '7', ' ', 'G', '9', '4'] = modesLine := by decide
  have htrim : modesLine.rdropWhile isWhitespace = modesLine := by decide
  rw [hmodes, htrim]
  simp only [List.map_append, List.map_cons, List.cons_append, List.append_assoc, List.nil_append]

/-- The lines of a call. -/
def hookLines (hook : Hook ℚ) : List (List Char) := (GrblHal.post.call (.new .default) hook).lines

/-- A call adds its lines. -/
theorem call_lines {p : Program} (hp : p.format = .default) (hook : Hook ℚ) :
    (GrblHal.post.call p hook).lines = p.lines ++ hookLines hook
      ∧ (GrblHal.post.call p hook).format = .default := by
  obtain ⟨format, lines⟩ := p
  obtain rfl : format = .default := hp
  unfold hookLines
  cases hook with
  | startCode job =>
    rw [startCode_default, Program.new, startCode_default]
    exact ⟨rfl, rfl⟩
  | endCode job => exact ⟨List.append_assoc _ _ _, rfl⟩
  | toolChange tool => exact ⟨List.append_assoc _ _ _, rfl⟩
  | _ => exact ⟨rfl, rfl⟩

theorem foldl_call_lines {p : Program} (hp : p.format = .default) (hooks : List (Hook ℚ)) :
    (hooks.foldl GrblHal.post.call p).lines = p.lines ++ hooks.flatMap hookLines
      ∧ (hooks.foldl GrblHal.post.call p).format = .default := by
  induction hooks generalizing p with
  | nil => exact ⟨(List.append_nil _).symm, hp⟩
  | cons hook hooks ih =>
    obtain ⟨hlines, hformat⟩ := call_lines hp hook
    obtain ⟨hrest, hend⟩ := ih hformat
    rw [List.foldl_cons, hrest, hlines, List.flatMap_cons, List.append_assoc]
    exact ⟨rfl, hend⟩

/-- The text of a program: the lines of its calls. -/
theorem render_emit (hooks : List (Hook ℚ)) :
    (GrblHal.post.emit hooks).render = (hooks.flatMap hookLines).flatMap (· ++ ['\n']) := by
  obtain ⟨hlines, hformat⟩ := foldl_call_lines (p := .new GrblHal.post.format) rfl hooks
  unfold Postprocessor.emit Program.render
  rw [hlines, hformat]
  rfl

/-- The lines of a text. -/
theorem splitOn_lines {lines : List (List Char)} (h : ∀ line ∈ lines, '\n' ∉ line) :
    (lines.flatMap (· ++ ['\n'])).splitOn '\n' = lines ++ [[]] := by
  induction lines with
  | nil => rfl
  | cons line lines ih =>
    rw [List.flatMap_cons, List.append_assoc, List.singleton_append,
      List.splitOn_append_cons_self_of_not_mem (h line (List.mem_cons_self ..)),
      ih fun line hmem => h line (List.mem_cons_of_mem _ hmem)]
    rfl

/-! ## What the import reads of a line -/

/-- A line is read as its words, or is a comment. -/
structure LineReads (line : List Char) (read : GcodeLine ℚ) : Prop where
  lexes : Import.lexLine line = .ok read
  lineFeed : '\n' ∉ line
  kept : read.words ≠ [] ∨ read.comments ≠ [] ∨ read.blockDelete = true

theorem ReadsLine.lineReads {text : List Char} {words : List (Galdr.Word ℚ)} (h : ReadsLine text words) :
    LineReads text ⟨words, [], false⟩ := by
  refine ⟨h.lexLine, h.lineFeed, .inl ?_⟩
  have hreads := h.reads
  cases hreads with
  | cons => exact List.cons_ne_nil _ _

theorem lexFrom_paren (src : List Char) (fuel : ℕ) (rest : List Char) (line : GcodeLine ℚ) :
    Import.lexFrom src (fuel + 1) ('(' :: rest) line
      = Import.lexFrom src fuel (lexParenComment rest line).1 (lexParenComment rest line).2 := by
  conv_lhs => unfold Import.lexFrom
  rw [if_neg (by decide), if_neg (by decide), if_pos rfl]

/-- A comment is no word. -/
theorem lineReads_comment (text : List Char) :
    ∃ comment, LineReads (commentLine text) ⟨[], [comment], false⟩ := by
  have hclean : ∀ c ∈ sanitizeComment text true, (c != ')') = true ∧ c ≠ '\n' := by
    intro c hc
    have hkept := (List.mem_filter.1 hc).2
    simp only [Bool.true_and, Bool.and_eq_true, bne_iff_ne, Bool.not_eq_true', Bool.or_eq_false_iff,
      beq_eq_false_iff_ne] at hkept
    exact ⟨bne_iff_ne.2 hkept.2.2, hkept.1.1⟩
  have htake : (sanitizeComment text true ++ [')']).takeWhile (· != ')') = sanitizeComment text true := by
    rw [List.takeWhile_append_of_pos fun c hc => (hclean c hc).1]
    exact List.append_nil _
  have hdrop : (sanitizeComment text true ++ [')']).dropWhile (· != ')') = [')'] := by
    rw [List.dropWhile_append_of_pos fun c hc => (hclean c hc).1]
    rfl
  refine ⟨trim (sanitizeComment text true), ?_, ?_, .inr (.inl (List.cons_ne_nil _ _))⟩
  · have hcomment : lexParenComment (sanitizeComment text true ++ [')']) (GcodeLine.empty : GcodeLine ℚ)
        = ([], ⟨[], [trim (sanitizeComment text true)], false⟩) := by
      unfold lexParenComment
      rw [htake, hdrop]
      rfl
    show Import.lexFrom _ ((sanitizeComment text true ++ [')']).length + 1)
      ('(' :: (sanitizeComment text true ++ [')'])) GcodeLine.empty = _
    rw [lexFrom_paren, hcomment]
    cases (sanitizeComment text true ++ [')']).length with
    | zero => rfl
    | succ fuel => rfl
  · intro hmem
    rcases List.mem_cons.1 hmem with hmem | hmem
    · exact absurd hmem (by decide)
    · rcases List.mem_append.1 hmem with hmem | hmem
      · exact (hclean _ hmem).2 rfl
      · exact absurd hmem (by decide)

/-- **The lines of a program are read one by one.** -/
theorem lex_lines {lines : List (List Char)} {reads : List (GcodeLine ℚ)}
    (h : lines.Forall₂ LineReads reads) : lex (lines.flatMap (· ++ ['\n'])) = .ok reads := by
  have hfeed : ∀ line ∈ lines, '\n' ∉ line := by
    induction h with
    | nil => exact List.forall_mem_nil _
    | cons hline _ ih => exact List.forall_mem_cons.2 ⟨hline.lineFeed, ih⟩
  have hlex : lexLines (lines ++ [[]]) = .ok reads := by
    clear hfeed
    induction h with
    | nil => rfl
    | @cons line read lines reads hline _ ih =>
      rw [List.cons_append]
      unfold lexLines
      rw [hline.lexes, ih]
      exact if_pos hline.kept
  unfold lex
  rw [splitOn_lines hfeed, hlex]

/-! ## What the calls are read as -/

/-- A letter and a whole number. -/
theorem reads_code {letter : Char} (hletter : letter ∈ renderedLetters) (n : ℕ) :
    Reads (' ' :: letter :: Nat.toDigits 10 n) [⟨letter, n⟩] :=
  .word hletter (numberText_toDigits false n) (parseF64_toDigits false n)

/-- A letter and a number of so many decimals. -/
theorem reads_fmtFixed {letter : Char} (hletter : letter ∈ renderedLetters) (value : ℚ)
    (decimals : ℕ) : Reads (' ' :: letter :: fmtFixed value decimals) [⟨letter, printed decimals value⟩] :=
  .word hletter (numberText_fixed _ _ _) (parseF64_signedFixed decimals _)

/-- The word of an axis. -/
def axisWords (letter : Char) (value : Option ℚ) : List (Galdr.Word ℚ) :=
  match value with
  | some v => [⟨letter, printed 4 v⟩]
  | none => []

theorem reads_axisWord {letter : Char} (hletter : letter ∈ renderedLetters) (value : Option ℚ) :
    Reads (axisWord .default letter value) (axisWords letter value) := by
  cases value with
  | none => exact .nil
  | some v => exact reads_fmtFixed hletter v 4

/-- The words of a move. -/
def axesWords (axes : Axes ℚ) : List (Galdr.Word ℚ) :=
  axisWords 'X' axes.x ++ axisWords 'Y' axes.y ++ axisWords 'Z' axes.z

theorem reads_axesText (axes : Axes ℚ) : Reads (axesText .default axes) (axesWords axes) :=
  ((reads_axisWord (by decide) axes.x).append (reads_axisWord (by decide) axes.y)).append
    (reads_axisWord (by decide) axes.z)

theorem readsLine_rapid (axes : Axes ℚ) :
    ReadsLine (['G', '0'] ++ axesText .default axes) (⟨'G', 0⟩ :: axesWords axes) := by
  refine ⟨?_⟩
  have h := (@reads_code 'G' (by decide) 0).append (reads_axesText axes)
  rwa [Nat.cast_zero] at h

theorem readsLine_linear (axes : Axes ℚ) (feed : ℚ) :
    ReadsLine (['G', '1'] ++ axesText .default axes ++ ' ' :: 'F' :: OutputFormat.default.feed feed)
      (⟨'G', 1⟩ :: (axesWords axes ++ [⟨'F', printed 1 feed⟩])) := by
  refine ⟨?_⟩
  have h := ((@reads_code 'G' (by decide) 1).append (reads_axesText axes)).append
    (@reads_fmtFixed 'F' (by decide) feed 1)
  rwa [Nat.cast_one] at h

/-- The words that set the modes. -/
def modesWords : List (Galdr.Word ℚ) :=
  [⟨'G', (90 : ℕ)⟩, ⟨'G', (21 : ℕ)⟩, ⟨'G', (54 : ℕ)⟩, ⟨'G', (17 : ℕ)⟩, ⟨'G', (94 : ℕ)⟩]

theorem readsLine_modes : ReadsLine modesLine modesWords :=
  ⟨((((@reads_code 'G' (by decide) 90).append (@reads_code 'G' (by decide) 21)).append
    (@reads_code 'G' (by decide) 54)).append (@reads_code 'G' (by decide) 17)).append
    (@reads_code 'G' (by decide) 94)⟩

/-! ## The walk -/

/-- Distances are absolute, and in millimetres. -/
structure Ready (modal : Modal ℚ) : Prop where
  absolute : modal.absolute = true
  unitsScale : modal.unitsScale = 1

theorem ready_start : Ready Modal.start := ⟨rfl, rfl⟩

/-- A line that commands no motion, and leaves distances absolute and in millimetres. -/
structure Still (read : GcodeLine ℚ) : Prop where
  axis : (read.has 'X' || read.has 'Y' || read.has 'Z') = false
  center : (read.has 'I' || read.has 'J' || read.has 'R') = false
  modes : ∀ w ∈ read.words, w.letter = 'G' → ∃ n : ℕ, w.value = n ∧ n ≠ 91 ∧ n ≠ 20

theorem Ready.applyG {modal : Modal ℚ} (h : Ready modal) {n : ℕ} (h91 : n ≠ 91) (h20 : n ≠ 20) :
    Ready (modal.applyG n) ∧ (modal.applyG n).pos = modal.pos := by
  have hcode : roundf (n : ℚ) = (n : ℤ) := roundf_intCast (n : ℤ)
  have h91' : (n : ℤ) ≠ 91 := by exact_mod_cast h91
  have h20' : (n : ℤ) ≠ 20 := by exact_mod_cast h20
  unfold Modal.applyG
  dsimp only
  rw [hcode, if_neg h91', if_neg h20']
  split_ifs
  iterate 4
    · exact ⟨⟨h.absolute, h.unitsScale⟩, rfl⟩
  · exact ⟨⟨rfl, h.unitsScale⟩, rfl⟩
  · exact ⟨⟨h.absolute, rfl⟩, rfl⟩
  · exact ⟨h, rfl⟩

theorem Ready.applyLine {modal : Modal ℚ} (h : Ready modal) {read : GcodeLine ℚ}
    (hmodes : ∀ w ∈ read.words, w.letter = 'G' → ∃ n : ℕ, w.value = n ∧ n ≠ 91 ∧ n ≠ 20) :
    Ready (modal.applyLine read) ∧ (modal.applyLine read).pos = modal.pos := by
  unfold Modal.applyLine
  have hall : ∀ w ∈ read.words.filter (fun w => w.letter = 'G'),
      ∃ n : ℕ, w.value = n ∧ n ≠ 91 ∧ n ≠ 20 := fun w hw =>
    hmodes w (List.mem_filter.1 hw).1 (of_decide_eq_true (List.mem_filter.1 hw).2)
  generalize read.words.filter (fun w => w.letter = 'G') = words at hall
  induction words generalizing modal with
  | nil => exact ⟨h, rfl⟩
  | cons w words ih =>
    obtain ⟨n, hn, h91, h20⟩ := hall w (List.mem_cons_self ..)
    obtain ⟨hready, hpos⟩ := h.applyG h91 h20
    obtain ⟨hend, hsame⟩ := ih hready fun w hw => hall w (List.mem_cons_of_mem _ hw)
    rw [List.foldl_cons, hn]
    exact ⟨hend, hsame.trans hpos⟩

theorem walkLine_still {read : GcodeLine ℚ} (h : Still read) (modal : Modal ℚ) :
    walkLine modal read = (⟨[], []⟩, modal.applyLine read) := by
  unfold walkLine walkMotion
  dsimp only
  split
  · rfl
  · rw [if_pos]
    rintro (hhas | ⟨-, hhas⟩)
    · exact Bool.false_ne_true (h.axis.symm.trans hhas)
    · exact Bool.false_ne_true (h.center.symm.trans hhas)

/-- Lines that command no motion. -/
theorem walk_still {reads : List (GcodeLine ℚ)} (h : ∀ read ∈ reads, Still read) {modal : Modal ℚ}
    (hready : Ready modal) :
    ∃ modal', Ready modal' ∧ modal'.pos = modal.pos
      ∧ ∀ rest, walk modal (reads ++ rest) = walk modal' rest := by
  induction reads generalizing modal with
  | nil => exact ⟨modal, hready, rfl, fun _ => rfl⟩
  | cons read reads ih =>
    have hread := h read (List.mem_cons_self ..)
    obtain ⟨hnext, hpos⟩ := hready.applyLine hread.modes
    obtain ⟨modal', hend, hsame, hwalk⟩ := ih (fun read hmem => h read (List.mem_cons_of_mem _ hmem)) hnext
    refine ⟨modal', hend, hsame.trans hpos, fun rest => ?_⟩
    have hcons : walk modal (read :: (reads ++ rest))
        = walk (modal.applyLine read) (reads ++ rest) := by
      conv_lhs => unfold walk
      rw [walkLine_still hread]
      rfl
    rw [List.cons_append, hcons, hwalk rest]

/-! ## Calls as moves -/

/-- There is an axis to move along. -/
def Axes.any (axes : Axes ℚ) : Bool :=
  axes.x.isSome || axes.y.isSome || axes.z.isSome

/-- Where a move goes from a point: an axis that is not given stays. -/
def Axes.dest (axes : Axes ℚ) (pos : Point3 ℚ) : Point3 ℚ where
  x := (axes.x.map (printed 4)).getD pos.x
  y := (axes.y.map (printed 4)).getD pos.y
  z := (axes.z.map (printed 4)).getD pos.z

namespace Hook

/-- A call that is no arc, and that moves along an axis if it moves. -/
def isStraight : Hook ℚ → Bool
  | .rapid axes => axes.any
  | .linear axes _ => axes.any
  | .arc _ _ => false
  | _ => true

/-- Where the tool is behind a call. -/
def dest (pos : Point3 ℚ) : Hook ℚ → Point3 ℚ
  | .rapid axes => axes.dest pos
  | .linear axes _ => axes.dest pos
  | _ => pos

/-- The move of a call. -/
def preview (pos : Point3 ℚ) : Hook ℚ → List (PreviewMove ℚ)
  | .rapid axes => [⟨.rapid, pos, axes.dest pos⟩]
  | .linear axes _ => [⟨.cut, pos, axes.dest pos⟩]
  | _ => []

/-- The moves of calls. -/
def previews : Point3 ℚ → List (Hook ℚ) → List (PreviewMove ℚ)
  | _, [] => []
  | pos, hook :: rest => hook.preview pos ++ previews (hook.dest pos) rest

end Hook

/-- A call is read as its move. -/
structure HookReads (hook : Hook ℚ) (reads : List (GcodeLine ℚ)) (modal modal' : Modal ℚ) : Prop where
  lines : (hookLines hook).Forall₂ LineReads reads
  ready : Ready modal'
  pos : modal'.pos = hook.dest modal.pos
  walk : ∀ rest, (walk modal (reads ++ rest)).moves
    = hook.preview modal.pos ++ (walk modal' rest).moves

/-- A call whose lines command no motion. -/
theorem hookReads_still {hook : Hook ℚ} {modal : Modal ℚ} (hready : Ready modal)
    (reads : List (GcodeLine ℚ)) (hlines : (hookLines hook).Forall₂ LineReads reads)
    (hstill : ∀ read ∈ reads, Still read) (hdest : hook.dest modal.pos = modal.pos)
    (hpreview : hook.preview modal.pos = []) :
    ∃ reads modal', HookReads hook reads modal modal' := by
  obtain ⟨modal', hend, hpos, hwalk⟩ := walk_still hstill hready
  refine ⟨reads, modal', hlines, hend, hpos.trans hdest.symm, fun rest => ?_⟩
  rw [hwalk rest, hpreview, List.nil_append]

/-- What is behind the axis words of a move. -/
def feedWords (feed : Option ℚ) : List (Galdr.Word ℚ) :=
  match feed with
  | some f => [⟨'F', printed 1 f⟩]
  | none => []

/-- The line of a move. -/
def moveLine (code : ℚ) (axes : Axes ℚ) (feed : Option ℚ) : GcodeLine ℚ :=
  ⟨⟨'G', code⟩ :: (axesWords axes ++ feedWords feed), [], false⟩

theorem value_moveLine (code : ℚ) (axes : Axes ℚ) (feed : Option ℚ) :
    (moveLine code axes feed).value 'X' = axes.x.map (printed 4)
      ∧ (moveLine code axes feed).value 'Y' = axes.y.map (printed 4)
      ∧ (moveLine code axes feed).value 'Z' = axes.z.map (printed 4) := by
  obtain ⟨x, y, z⟩ := axes
  cases x <;> cases y <;> cases z <;> cases feed <;> exact ⟨rfl, rfl, rfl⟩

theorem has_moveLine (code : ℚ) (axes : Axes ℚ) (feed : Option ℚ) :
    ((moveLine code axes feed).has 'X' || (moveLine code axes feed).has 'Y'
      || (moveLine code axes feed).has 'Z') = axes.any := by
  obtain ⟨x, y, z⟩ := axes
  cases x <;> cases y <;> cases z <;> cases feed <;> rfl

theorem applyLine_moveLine (modal : Modal ℚ) (code : ℚ) (axes : Axes ℚ) (feed : Option ℚ) :
    modal.applyLine (moveLine code axes feed) = modal.applyG code := by
  obtain ⟨x, y, z⟩ := axes
  cases x <;> cases y <;> cases z <;> cases feed <;> rfl

/-- **The line of a straight move is read as the move.** -/
theorem walkLine_moveLine {modal : Modal ℚ} (hready : Ready modal) {code : ℚ} {motion : MotionMode}
    (hcode : modal.applyG code = { modal with motion := some motion })
    (hmotion : motion = .rapid ∨ motion = .linear) {axes : Axes ℚ} (haxes : axes.any = true)
    (feed : Option ℚ) :
    ∃ modal', Ready modal' ∧ modal'.pos = axes.dest modal.pos
      ∧ (walkLine modal (moveLine code axes feed)).2 = modal'
      ∧ (walkLine modal (moveLine code axes feed)).1.moves
        = [⟨if motion = .rapid then .rapid else .cut, modal.pos, axes.dest modal.pos⟩] := by
  obtain ⟨hx, hy, hz⟩ := value_moveLine code axes feed
  have hresolve : ∀ (value : Option ℚ) (current : ℚ),
      resolve (value.map (printed 4)) current modal.absolute modal.unitsScale
        = (value.map (printed 4)).getD current := by
    intro value current
    rw [hready.absolute, hready.unitsScale]
    cases value with
    | none => rfl
    | some v => exact mul_one _
  unfold walkLine walkMotion
  rw [applyLine_moveLine, hcode]
  dsimp only
  rw [if_neg (not_not.2 (.inl ((has_moveLine code axes feed).trans haxes))), hx, hy, hz, hresolve,
    hresolve, hresolve]
  rcases hmotion with rfl | rfl
  · exact ⟨{ modal with motion := some .rapid, pos := axes.dest modal.pos },
      ⟨hready.absolute, hready.unitsScale⟩, rfl, rfl, rfl⟩
  · exact ⟨{ modal with motion := some .linear, pos := axes.dest modal.pos },
      ⟨hready.absolute, hready.unitsScale⟩, rfl, rfl, rfl⟩

/-- A call with one line, which moves. -/
theorem hookReads_move {hook : Hook ℚ} {modal : Modal ℚ} (hready : Ready modal) {code : ℚ}
    {motion : MotionMode} (hcode : modal.applyG code = { modal with motion := some motion })
    (hmotion : motion = .rapid ∨ motion = .linear) {axes : Axes ℚ} (haxes : axes.any = true)
    {feed : Option ℚ} {line : List Char} (hhook : hookLines hook = [line.rdropWhile isWhitespace])
    (hline : ReadsLine line (moveLine code axes feed).words)
    (hdest : hook.dest modal.pos = axes.dest modal.pos)
    (hpreview : hook.preview modal.pos
      = [⟨if motion = .rapid then .rapid else .cut, modal.pos, axes.dest modal.pos⟩]) :
    ∃ reads modal', HookReads hook reads modal modal' := by
  obtain ⟨modal', hend, hpos, hnext, hmoves⟩ := walkLine_moveLine hready hcode hmotion haxes feed
  refine ⟨[moveLine code axes feed], modal', ?_, hend, hpos.trans hdest.symm, fun rest => ?_⟩
  · rw [hhook, hline.rdropWhile]
    exact .cons hline.lineReads .nil
  · rw [hpreview, ← hmoves, ← hnext]
    rfl

theorem still_comment (comment : List Char) : Still ⟨[], [comment], false⟩ :=
  ⟨rfl, rfl, fun _ hw => absurd hw List.not_mem_nil⟩

/-- A line of words of which none moves. -/
theorem still_words {words : List (Galdr.Word ℚ)} (h : ∀ w ∈ words, w.letter ∉ ['X', 'Y', 'Z', 'I', 'J', 'R']
    ∧ (w.letter = 'G' → ∃ n : ℕ, w.value = n ∧ n ≠ 91 ∧ n ≠ 20)) : Still ⟨words, [], false⟩ := by
  have hhas : ∀ letter ∈ ['X', 'Y', 'Z', 'I', 'J', 'R'],
      (⟨words, [], false⟩ : GcodeLine ℚ).has letter = false := by
    intro letter hletter
    unfold GcodeLine.has
    rw [List.any_eq_false]
    intro w hw heq
    exact (h w hw).1 (of_decide_eq_true heq ▸ hletter)
  refine ⟨?_, ?_, fun w hw => (h w hw).2⟩
  · rw [hhas 'X' (by decide), hhas 'Y' (by decide), hhas 'Z' (by decide)]
    rfl
  · rw [hhas 'I' (by decide), hhas 'J' (by decide), hhas 'R' (by decide)]
    rfl

/-- The comments that a program begins with, and their lines. -/
theorem forall₂_comments (texts : List (List Char)) :
    ∃ reads, (texts.map commentLine).Forall₂ LineReads reads ∧ ∀ read ∈ reads, Still read := by
  induction texts with
  | nil => exact ⟨[], .nil, List.forall_mem_nil _⟩
  | cons text texts ih =>
    obtain ⟨reads, hreads, hstill⟩ := ih
    obtain ⟨comment, hcomment⟩ := lineReads_comment text
    exact ⟨_, .cons hcomment hreads, List.forall_mem_cons.2 ⟨still_comment comment, hstill⟩⟩

/-- One line of words of which none moves. -/
theorem hookReads_words {hook : Hook ℚ} {modal : Modal ℚ} (hready : Ready modal) {line : List Char}
    {words : List (Galdr.Word ℚ)} (hline : ReadsLine line words)
    (hhook : hookLines hook = [line.rdropWhile isWhitespace])
    (hwords : ∀ w ∈ words, w.letter ∉ ['X', 'Y', 'Z', 'I', 'J', 'R']
      ∧ (w.letter = 'G' → ∃ n : ℕ, w.value = n ∧ n ≠ 91 ∧ n ≠ 20))
    (hdest : hook.dest modal.pos = modal.pos) (hpreview : hook.preview modal.pos = []) :
    ∃ reads modal', HookReads hook reads modal modal' := by
  refine hookReads_still hready [⟨words, [], false⟩] ?_ ?_ hdest hpreview
  · rw [hhook, hline.rdropWhile]
    exact .cons hline.lineReads .nil
  · exact List.forall_mem_singleton.2 (still_words hwords)

/-- A word that sets no mode. -/
theorem still_word {letter : Char} (v : ℚ) (h : letter ∉ ['X', 'Y', 'Z', 'I', 'J', 'R', 'G']) :
    ∀ w ∈ ([⟨letter, v⟩] : List (Galdr.Word ℚ)), w.letter ∉ ['X', 'Y', 'Z', 'I', 'J', 'R']
      ∧ (w.letter = 'G' → ∃ n : ℕ, w.value = n ∧ n ≠ 91 ∧ n ≠ 20) := by
  intro w hw
  obtain rfl := List.mem_singleton.1 hw
  refine ⟨fun hmem => h (List.mem_append_left ['G'] hmem), ?_⟩
  rintro rfl
  exact absurd (by decide) h

/-- A word that sets a mode. -/
theorem still_mode {n : ℕ} (h91 : n ≠ 91) (h20 : n ≠ 20) :
    ∀ w ∈ ([⟨'G', n⟩] : List (Galdr.Word ℚ)), w.letter ∉ ['X', 'Y', 'Z', 'I', 'J', 'R']
      ∧ (w.letter = 'G' → ∃ n : ℕ, w.value = n ∧ n ≠ 91 ∧ n ≠ 20) := by
  intro w hw
  obtain rfl := List.mem_singleton.1 hw
  refine ⟨?_, fun _ => ⟨n, rfl, h91, h20⟩⟩
  show 'G' ∉ ['X', 'Y', 'Z', 'I', 'J', 'R']
  decide

/-- **A call that is no arc is read as its move.** -/
theorem exists_hookReads {hook : Hook ℚ} (hstraight : hook.isStraight = true) {modal : Modal ℚ}
    (hready : Ready modal) : ∃ reads modal', HookReads hook reads modal modal' := by
  cases hook with
  | rapid axes =>
    have hline : ReadsLine (['G', '0'] ++ axesText .default axes) (moveLine 0 axes none).words := by
      unfold moveLine feedWords
      rw [List.append_nil]
      exact readsLine_rapid axes
    have hcode : modal.applyG 0 = { modal with motion := some .rapid } := by
      unfold Modal.applyG
      exact if_pos (roundf_intCast (0 : ℤ))
    exact hookReads_move hready hcode (.inl rfl) hstraight rfl hline rfl rfl
  | linear axes feed =>
    have hcode : modal.applyG 1 = { modal with motion := some .linear } := by
      have hround : roundf (1 : ℚ) = 1 := roundf_intCast (1 : ℤ)
      unfold Modal.applyG
      dsimp only
      rw [hround]
      rfl
    have hline : ReadsLine (['G', '1'] ++ axesText .default axes
        ++ ' ' :: 'F' :: OutputFormat.default.feed feed) (moveLine 1 axes (some feed)).words :=
      readsLine_linear axes feed
    exact hookReads_move hready hcode (.inr rfl) hstraight rfl hline rfl rfl
  | arc arc feed => cases hstraight
  | startCode job =>
    obtain ⟨reads, hreads, hstill⟩ :=
      forall₂_comments (GrblHal.banner :: job.name.toList ++ job.tool.toList)
    have hlines : hookLines (.startCode job) = (GrblHal.banner :: job.name.toList
        ++ job.tool.toList).map commentLine ++ [modesLine] := by
      unfold hookLines Program.new
      rw [startCode_default]
      rfl
    refine hookReads_still hready (reads ++ [⟨modesWords, [], false⟩]) ?_ ?_ rfl rfl
    · rw [hlines]
      exact List.rel_append hreads (.cons readsLine_modes.lineReads .nil)
    · refine List.forall_mem_append.2 ⟨hstill, List.forall_mem_singleton.2 (still_words ?_)⟩
      exact List.forall_mem_append.2 ⟨still_mode (by decide) (by decide),
        List.forall_mem_append.2 ⟨still_mode (by decide) (by decide),
          List.forall_mem_append.2 ⟨still_mode (by decide) (by decide),
            List.forall_mem_append.2 ⟨still_mode (by decide) (by decide),
              still_mode (by decide) (by decide)⟩⟩⟩⟩
  | endCode job =>
    have hstop : ReadsLine ['M', '5'] [⟨'M', (5 : ℕ)⟩] := ⟨@reads_code 'M' (by decide) 5⟩
    have hend : ReadsLine ['M', '2'] [⟨'M', (2 : ℕ)⟩] := ⟨@reads_code 'M' (by decide) 2⟩
    refine hookReads_still hready _ (.cons hstop.lineReads (.cons hend.lineReads .nil)) ?_ rfl rfl
    exact List.forall_mem_cons.2 ⟨still_words (still_word _ (by decide)),
      List.forall_mem_singleton.2 (still_words (still_word _ (by decide)))⟩
  | dwell seconds =>
    have hline : ReadsLine (['G', '4', ' ', 'P'] ++ formatFixed seconds 3) _ :=
      ⟨(@reads_code 'G' (by decide) 4).append
        (.word (by decide) (numberText_fixed _ _ _) (parseF64_fixed _ _ _))⟩
    exact hookReads_words hready hline rfl (List.forall_mem_append.2
      ⟨still_mode (by decide) (by decide), still_word _ (by decide)⟩) rfl rfl
  | spindleOn rpm =>
    have hline : ReadsLine (['M', '3', ' ', 'S']
        ++ signedText (max (-i64Max - 1) (min (roundf rpm) i64Max))) _ :=
      ⟨(@reads_code 'M' (by decide) 3).append
        (.word (by decide) (numberText_toDigits _ _) (parseF64_toDigits _ _))⟩
    exact hookReads_words hready hline rfl (List.forall_mem_append.2
      ⟨still_word _ (by decide), still_word _ (by decide)⟩) rfl rfl
  | toolChange tool =>
    obtain ⟨reads, hreads, hstill⟩ := forall₂_comments ["tool ".toList
      ++ Nat.toDigits 10 tool.number.toNat ++ " — ".toList ++ formatFixed tool.diameter 3
      ++ " mm".toList]
    have hline : ReadsLine (['M', '6', ' ', 'T'] ++ Nat.toDigits 10 tool.number.toNat) _ :=
      ⟨(@reads_code 'M' (by decide) 6).append (@reads_code 'T' (by decide) tool.number.toNat)⟩
    refine hookReads_still hready (reads ++ [⟨⟨'M', (6 : ℕ)⟩ :: [⟨'T', tool.number.toNat⟩], [], false⟩])
      ?_ ?_ rfl rfl
    · refine List.rel_append hreads (.cons ?_ .nil)
      have h := hline.lineReads
      rwa [← hline.rdropWhile] at h
    · exact List.forall_mem_append.2 ⟨hstill, List.forall_mem_singleton.2 (still_words
        (List.forall_mem_append.2 ⟨still_word _ (by decide), still_word _ (by decide)⟩))⟩

/-- **A program without an arc is read as its moves.** -/
theorem importGcode_emit {hooks : List (Hook ℚ)} (h : ∀ hook ∈ hooks, hook.isStraight = true) :
    ∃ preview, importGcode (GrblHal.post.emit hooks).render = .ok preview
      ∧ preview.moves = Hook.previews ⟨0, 0, 0⟩ hooks := by
  have hreads : ∀ {modal : Modal ℚ}, Ready modal → ∃ reads,
      (hooks.flatMap hookLines).Forall₂ LineReads reads
        ∧ (walk modal reads).moves = Hook.previews modal.pos hooks := by
    induction hooks with
    | nil => exact fun _ => ⟨[], .nil, rfl⟩
    | cons hook hooks ih =>
      intro modal hready
      obtain ⟨first, modal', hfirst⟩ := exists_hookReads (h hook (List.mem_cons_self ..)) hready
      obtain ⟨rest, hrest, hwalk⟩ :=
        ih (fun hook hmem => h hook (List.mem_cons_of_mem _ hmem)) hfirst.ready
      refine ⟨first ++ rest, ?_, ?_⟩
      · rw [List.flatMap_cons]
        exact List.rel_append hfirst.lines hrest
      · rw [hfirst.walk, hwalk, hfirst.pos]
        rfl
  obtain ⟨reads, hlines, hwalk⟩ := hreads ready_start
  refine ⟨walk .start reads, ?_, hwalk⟩
  unfold importGcode
  rw [render_emit, lex_lines hlines]

end Galdr.Eitri
