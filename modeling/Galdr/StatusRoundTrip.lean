import Galdr.StatusParsing

/-!
# A status report read back

No separator is printed inside an element of a report, so that the host's splits undo the
firmware's joins, and each element is read as what was printed into it. What the host gets is
the snapshot, with its positions rounded to three decimals and its feed to none
(`parseStatus_body`).
-/

namespace Galdr.Telemetry

open Text Host Status

/-! ## Text without separators -/

/-- The characters that separate the parts of a report. -/
def isSeparator (c : Char) : Bool := c = '|' || c = ':' || c = ','

/-- A text without a separator. -/
def Plain (text : List Char) : Prop := ∀ c ∈ text, isSeparator c = false

theorem plain_of_all {text : List Char} (h : text.all (fun c => !isSeparator c) = true) :
    Plain text := fun c hc => by simpa using List.all_eq_true.1 h c hc

theorem Plain.append {text text' : List Char} (h : Plain text) (h' : Plain text') :
    Plain (text ++ text') := fun c hc => (List.mem_append.1 hc).elim (h c) (h' c)

theorem Plain.notMem {text : List Char} (h : Plain text) {c : Char} (hc : isSeparator c = true) :
    c ∉ text := fun hmem => Bool.false_ne_true ((h c hmem).symm.trans hc)

theorem plain_of_isDigit {text : List Char} (h : ∀ c ∈ text, c.isDigit = true) : Plain text := by
  intro c hc
  by_contra hsep
  rw [Bool.not_eq_false] at hsep
  simp only [isSeparator, Bool.or_eq_true, decide_eq_true_eq] at hsep
  obtain (rfl | rfl) | rfl := hsep <;> exact absurd (h _ hc) (by decide)

theorem plain_printNat (n : ℕ) : Plain (printNat n) :=
  plain_of_isDigit fun _ => isDigit_of_mem_toDigits

theorem plain_sign (negative : Bool) : Plain (F32.sign negative) := by
  cases negative <;> exact plain_of_all rfl

theorem plain_format (count : ℕ) (x : F32) : Plain (x.format count) := by
  have hinf : Plain ['i', 'n', 'f'] := plain_of_all rfl
  cases x with
  | nan => exact plain_of_all rfl
  | inf negative => exact (plain_sign negative).append hinf
  | finite negative m =>
    refine (plain_sign negative).append (Plain.append ?_ (List.forall_mem_cons.2 ⟨rfl, ?_⟩))
    · exact plain_of_isDigit fun _ => isDigit_of_mem_toDigits
    · exact plain_of_isDigit fun _ => isDigit_of_mem_decimals

theorem plain_formatWhole (x : F32) : Plain x.formatWhole := by
  have hinf : Plain ['i', 'n', 'f'] := plain_of_all rfl
  cases x with
  | nan => exact plain_of_all rfl
  | inf negative => exact (plain_sign negative).append hinf
  | finite negative m =>
    exact (plain_sign negative).append (plain_of_isDigit fun _ => isDigit_of_mem_toDigits)

theorem solid_formatWhole (x : F32) : Solid x.formatWhole := by
  have hinf : Solid ['i', 'n', 'f'] := by simp [Solid, isWhitespace]
  cases x with
  | nan => exact show Solid ['N', 'a', 'N'] by simp [Solid, isWhitespace]
  | inf negative => exact (F32.solid_sign negative).append hinf
  | finite negative m =>
    exact (F32.solid_sign negative).append (solid_of_isDigit fun _ => isDigit_of_mem_toDigits)

theorem plain_token (state : Status.MachineState) : Plain state.token := by
  cases state <;> exact plain_of_all rfl

/-! ## The splits undo the joins -/

theorem splitOnce_append {sep : Char} {tag : List Char} (h : sep ∉ tag) (value : List Char) :
    splitOnce sep (tag ++ sep :: value) = some (tag, value) := by
  have hall : ∀ c ∈ tag, decide (c ≠ sep) = true := fun c hc =>
    decide_eq_true fun heq => h (heq ▸ hc)
  unfold splitOnce
  rw [List.dropWhile_append_of_pos hall, List.takeWhile_append_of_pos hall,
    List.dropWhile_cons_of_neg (by simp), List.takeWhile_cons_of_neg (by simp), List.append_nil]

theorem splitOnce_of_notMem {sep : Char} {text : List Char} (h : sep ∉ text) :
    splitOnce sep text = none := by
  have hall : text.dropWhile (fun c => c ≠ sep) = [] :=
    List.dropWhile_eq_nil_iff.2 fun c hc => decide_eq_true fun heq => h (heq ▸ hc)
  unfold splitOnce
  rw [hall]

theorem splitOn_csv {numbers : List (List Char)} (h : ∀ n ∈ numbers, Plain n)
    (hne : numbers ≠ []) : (csv numbers).splitOn ',' = numbers :=
  List.splitOn_intercalate ',' (fun n hn => (h n hn).notMem rfl) hne

/-- A list of numbers holds no bar. -/
theorem bar_notMem_csv {numbers : List (List Char)} (h : ∀ n ∈ numbers, Plain n) :
    '|' ∉ csv numbers := by
  match numbers with
  | [] => exact List.not_mem_nil
  | [number] =>
    rw [csv, List.intercalate_singleton]
    exact (h number List.mem_cons_self).notMem rfl
  | number :: next :: rest =>
    have ih : '|' ∉ csv (next :: rest) :=
      bar_notMem_csv fun n hn => h n (List.mem_cons_of_mem _ hn)
    rw [csv, List.intercalate_cons_cons, List.append_assoc]
    intro hmem
    rcases List.mem_append.1 hmem with hmem | hmem
    · exact (h number List.mem_cons_self).notMem rfl hmem
    · exact (List.mem_cons.1 hmem).elim (by decide) ih

/-- The numbers that are read of one number for each axis. -/
def printedAxes (values : Axes F32) : List F64 :=
  [.printed 3 (values xAxis), .printed 3 (values yAxis), .printed 3 (values zAxis),
    .printed 3 (values aAxis)]

theorem plain_axes (values : Axes F32) :
    ∀ n ∈ [(values xAxis).format 3, (values yAxis).format 3, (values zAxis).format 3,
      (values aAxis).format 3], Plain n := by
  simp only [List.mem_cons, List.not_mem_nil, or_false, forall_eq_or_imp, forall_eq]
  exact ⟨plain_format 3 _, plain_format 3 _, plain_format 3 _, plain_format 3 _⟩

theorem parse_trim_format (count : ℕ) (x : F32) :
    F64.parse (trim (x.format count)) = some (.printed count x) := by
  rw [trim_eq_self (F32.solid_format count x), F64.parse_format]

theorem parseFloats_axesText (values : Axes F32) :
    parseFloats (axesText values) = printedAxes values := by
  unfold parseFloats axesText
  rw [splitOn_csv (plain_axes values) (List.cons_ne_nil _ _)]
  simp only [List.filterMap_cons, List.filterMap_nil, parse_trim_format]
  rfl

theorem parseU32_printNat {n : ℕ} (h : n ≤ u32Max) : parseU32 (printNat n) = some n := by
  unfold parseU32
  rw [trim_eq_self (solid_of_isDigit fun _ => isDigit_of_mem_toDigits), parseUnsigned_toDigits h]

theorem parseFeedSpeed_csv (feed : F32) {rpm : ℕ} (h : rpm < 2 ^ 53) :
    parseFeedSpeed (csv [feed.formatWhole, printNat rpm])
      = some (.printed 0 feed, .finite rpm, none) := by
  have hplain : ∀ n ∈ [feed.formatWhole, printNat rpm], Plain n := by
    simp only [List.mem_cons, List.not_mem_nil, or_false, forall_eq_or_imp, forall_eq]
    exact ⟨plain_formatWhole feed, plain_printNat rpm⟩
  have hfeed : F64.parse (trim feed.formatWhole) = some (.printed 0 feed) := by
    rw [trim_eq_self (solid_formatWhole feed), F64.parse_formatWhole]
  have hrpm : F64.parse (trim (printNat rpm)) = some (.finite rpm) := by
    rw [trim_eq_self (solid_of_isDigit fun _ => isDigit_of_mem_toDigits), F64.parse_printNat h]
  unfold parseFeedSpeed
  rw [splitOn_csv hplain (List.cons_ne_nil _ _)]
  show (F64.parse (trim feed.formatWhole)).bind (fun f =>
    (F64.parse (trim (printNat rpm))).bind fun r => some (f, r, none)) = _
  rw [hfeed, hrpm]
  rfl

theorem parsePairU32_csv {a b : ℕ} (ha : a ≤ u32Max) (hb : b ≤ u32Max) :
    parsePairU32 (csv [printNat a, printNat b]) = some (a, b) := by
  have hplain : ∀ n ∈ [printNat a, printNat b], Plain n := by
    simp only [List.mem_cons, List.not_mem_nil, or_false, forall_eq_or_imp, forall_eq]
    exact ⟨plain_printNat a, plain_printNat b⟩
  unfold parsePairU32
  rw [splitOn_csv hplain (List.cons_ne_nil _ _)]
  show (parseU32 (printNat a)).bind (fun x => (parseU32 (printNat b)).bind fun y =>
    some (x, y)) = _
  rw [parseU32_printNat ha, parseU32_printNat hb]
  rfl

theorem parseOverrides_csv {a b c : ℕ} (ha : a ≤ u32Max) (hb : b ≤ u32Max) (hc : c ≤ u32Max) :
    parseOverrides (csv [printNat a, printNat b, printNat c]) = some (a, b, c) := by
  have hplain : ∀ n ∈ [printNat a, printNat b, printNat c], Plain n := by
    simp only [List.mem_cons, List.not_mem_nil, or_false, forall_eq_or_imp, forall_eq]
    exact ⟨plain_printNat a, plain_printNat b, plain_printNat c⟩
  unfold parseOverrides
  rw [splitOn_csv hplain (List.cons_ne_nil _ _)]
  show (parseU32 (printNat a)).bind (fun x => (parseU32 (printNat b)).bind fun y =>
    (parseU32 (printNat c)).bind fun z => some (x, y, z)) = _
  rw [parseU32_printNat ha, parseU32_printNat hb, parseU32_printNat hc]
  rfl

/-! ## What is read of a snapshot -/

/-- The host's name of a run state. -/
def runState : Status.MachineState → RunState
  | .idle => .idle
  | .run => .run
  | .hold _ => .hold
  | .jog => .jog
  | .alarm _ => .alarm
  | .door => .door
  | .check => .check
  | .home => .home
  | .sleep => .sleep
  | .tool => .tool

/-- The host's name of the reported position. -/
def positionKind : PositionReport → PositionKind
  | .machine => .machine
  | .work => .work

/-- **What a report says of a snapshot**: all that is in it, the numbers rounded to the decimals
they are printed with, and what is left out of a report left out. -/
def reported (snap : MachineSnapshot) : StatusReport where
  machineState := ⟨runState snap.state, snap.state.substate⟩
  positionKind := positionKind snap.positionReport
  position := printedAxes snap.position
  wco := if snap.includeWco then some (printedAxes snap.wcoMm) else none
  feedSpeed := some (.printed 0 snap.feedMmMin, .finite snap.spindleRpm.toNat, none)
  overrides := if snap.includeOv then
    some (snap.overrides.feed.toNat, snap.overrides.rapid.toNat, snap.overrides.spindle.toNat)
    else none
  pins := snap.pins.letters
  buffer := some (snap.plannerBlocksFree.toNat, snap.rxBytesFree.toNat)
  line := none

theorem fromToken_token (state : Status.MachineState) :
    RunState.fromToken state.token = runState state := by
  cases state <;> rfl

theorem parseMachineState_stateText (state : Status.MachineState) :
    parseMachineState (stateText state) = ⟨runState state, state.substate⟩ := by
  have hcolon : ':' ∉ state.token := (plain_token state).notMem rfl
  unfold parseMachineState stateText
  cases hsub : state.substate with
  | none =>
    dsimp only
    rw [List.append_nil, splitOnce_of_notMem hcolon, fromToken_token]
  | some code =>
    have hcode : code ≤ u32Max := by
      cases state with
      | hold inProgress =>
        obtain rfl := Option.some.inj hsub
        exact (Bool.toNat_le inProgress).trans (by decide)
      | alarm code =>
        obtain rfl := Option.some.inj hsub
        exact code.toNat_lt.le.trans (by decide)
      | _ => exact absurd hsub (Option.some_ne_none _).symm
    dsimp only
    rw [splitOnce_append hcolon]
    dsimp only
    rw [fromToken_token, parseU32_printNat hcode]

theorem applyField_tag (r : StatusReport) {tag : List Char} (h : ':' ∉ tag) (value : List Char) :
    applyField r (tag ++ ':' :: value) = applyTag r tag value := by
  unfold applyField
  rw [splitOnce_append h]

/-- An element that may be left out. -/
theorem foldl_applyField_ite (r : StatusReport) (condition : Bool) (field : List Char) :
    (if condition then [field] else []).foldl applyField r
      = if condition then applyField r field else r := by
  cases condition <;> rfl

/-- A letter of an asserted pin is neither a separator nor white space. -/
theorem letter_of_mem {pins : PinReport} {c : Char} (h : c ∈ pins.letters) :
    isSeparator c = false ∧ isWhitespace c = false := by
  rcases PinReport.mem_letters.1 h with ⟨-, rfl⟩ | ⟨axis, -, rfl⟩ | ⟨-, rfl⟩ | ⟨-, rfl⟩
    | ⟨-, rfl⟩ | ⟨-, rfl⟩
  case inr.inl => fin_cases axis <;> decide
  all_goals decide

theorem filter_letters (pins : PinReport) :
    pins.letters.filter (fun c => !isWhitespace c) = pins.letters :=
  List.filter_eq_self.2 fun _ hc => by rw [(letter_of_mem hc).2]; rfl

/-- No asserted pin has no letter. -/
theorem letters_of_not_any {pins : PinReport} (h : pins.any = false) : pins.letters = [] := by
  unfold PinReport.any at h
  simp only [Bool.or_eq_false_iff, List.any_eq_false, Bool.not_eq_true] at h
  obtain ⟨⟨⟨⟨⟨hprobe, hlimits⟩, hdoor⟩, hhold⟩, hreset⟩, hstart⟩ := h
  have hnone : ∀ axis ∈ List.finRange 4, pinLetter (axisLetters axis) (pins.limits axis) = [] :=
    fun axis haxis => by
      rw [hlimits axis haxis]
      rfl
  unfold PinReport.letters
  rw [hprobe, hdoor, hhold, hreset, hstart, List.flatMap_eq_nil_iff.2 hnone]
  rfl

/-- A tag, a colon and numbers hold no bar. -/
theorem bar_notMem_tagged {tag : List Char} {numbers : List (List Char)} (htag : '|' ∉ tag)
    (h : ∀ n ∈ numbers, Plain n) : '|' ∉ tag ++ ':' :: csv numbers := by
  intro hmem
  refine (List.mem_append.1 hmem).elim htag fun hmem => ?_
  exact (List.mem_cons.1 hmem).elim (by decide) (bar_notMem_csv h)

theorem bar_notMem_stateText (state : Status.MachineState) : '|' ∉ stateText state := by
  have htoken : '|' ∉ state.token := (plain_token state).notMem rfl
  unfold stateText
  cases state.substate with
  | none =>
    dsimp only
    rwa [List.append_nil]
  | some code =>
    intro hmem
    refine (List.mem_append.1 hmem).elim htoken fun hmem => ?_
    exact (List.mem_cons.1 hmem).elim (by decide) ((plain_printNat code).notMem rfl)

theorem colon_notMem_label (snap : MachineSnapshot) : ':' ∉ snap.label ∧ '|' ∉ snap.label := by
  unfold MachineSnapshot.label
  cases snap.positionReport <;> decide

/-- No element holds a bar. -/
theorem bar_notMem_fields (snap : MachineSnapshot) : ∀ field ∈ fields snap, '|' ∉ field := by
  have hnat : ∀ numbers : List ℕ, ∀ n ∈ numbers.map printNat, Plain n := by
    intro numbers n hn
    obtain ⟨m, -, rfl⟩ := List.mem_map.1 hn
    exact plain_printNat m
  have hfeed : ∀ n ∈ [snap.feedMmMin.formatWhole, printNat snap.spindleRpm.toNat], Plain n :=
    List.forall_mem_cons.2 ⟨plain_formatWhole _, hnat [_]⟩
  have hpins : '|' ∉ "Pn:".toList ++ snap.pins.letters := fun hmem =>
    (List.mem_append.1 hmem).elim (by decide) fun hmem =>
      Bool.false_ne_true ((letter_of_mem hmem).1.symm.trans rfl)
  unfold fields
  simp only [List.cons_append, List.nil_append, List.append_assoc, List.forall_mem_cons,
    List.forall_mem_append]
  refine ⟨bar_notMem_stateText _,
    bar_notMem_tagged (colon_notMem_label snap).2 (plain_axes _),
    @bar_notMem_tagged "FS".toList _ (by decide) hfeed,
    @bar_notMem_tagged "Bf".toList _ (by decide) (hnat [_, _]), ?_, ?_, ?_⟩
  · cases snap.pins.any with
    | false => exact List.forall_mem_nil _
    | true => exact List.forall_mem_singleton.2 hpins
  · cases snap.includeWco with
    | false => exact List.forall_mem_nil _
    | true =>
      exact List.forall_mem_singleton.2
        (@bar_notMem_tagged "WCO".toList _ (by decide) (plain_axes _))
  · cases snap.includeOv with
    | false => exact List.forall_mem_nil _
    | true =>
      exact List.forall_mem_singleton.2
        (@bar_notMem_tagged "Ov".toList _ (by decide) (hnat [_, _, _]))

theorem applyField_position (r : StatusReport) (snap : MachineSnapshot) :
    applyField r (snap.label ++ ':' :: axesText snap.position)
      = { r with positionKind := positionKind snap.positionReport,
                 position := printedAxes snap.position } := by
  rw [applyField_tag r (colon_notMem_label snap).1, ← parseFloats_axesText]
  unfold MachineSnapshot.label
  cases snap.positionReport <;> rfl

/-- **The host reads the body of a report as what it says.** -/
theorem parseStatus_body (snap : MachineSnapshot) :
    parseStatus (Status.body snap) = reported snap := by
  have hsplit : (Status.body snap).splitOn '|' = fields snap :=
    List.splitOn_intercalate '|' (bar_notMem_fields snap) (List.cons_ne_nil _ _)
  have hfs (r : StatusReport) : applyField r
      ("FS:".toList ++ csv [snap.feedMmMin.formatWhole, printNat snap.spindleRpm.toNat])
      = { r with feedSpeed := some (F64.printed 0 snap.feedMmMin,
            F64.finite snap.spindleRpm.toNat, none) } := by
    rw [← parseFeedSpeed_csv snap.feedMmMin (snap.spindleRpm.toNat_lt.trans (by decide))]
    exact @applyField_tag r "FS".toList (by decide) _
  have hbf (r : StatusReport) : applyField r
      ("Bf:".toList
        ++ csv [printNat snap.plannerBlocksFree.toNat, printNat snap.rxBytesFree.toNat])
      = { r with buffer := some (snap.plannerBlocksFree.toNat, snap.rxBytesFree.toNat) } := by
    rw [← parsePairU32_csv (snap.plannerBlocksFree.toNat_lt.le.trans (by decide))
      (snap.rxBytesFree.toNat_lt.le.trans (by decide))]
    exact @applyField_tag r "Bf".toList (by decide) _
  have hpn (r : StatusReport) : applyField r ("Pn:".toList ++ snap.pins.letters)
      = { r with pins := snap.pins.letters } := by
    nth_rewrite 2 [← filter_letters snap.pins]
    exact @applyField_tag r "Pn".toList (by decide) _
  have hwco (r : StatusReport) : applyField r ("WCO:".toList ++ axesText snap.wcoMm)
      = { r with wco := some (printedAxes snap.wcoMm) } := by
    rw [← parseFloats_axesText]
    exact @applyField_tag r "WCO".toList (by decide) _
  have hov (r : StatusReport) : applyField r
      ("Ov:".toList ++ csv [printNat snap.overrides.feed.toNat,
        printNat snap.overrides.rapid.toNat, printNat snap.overrides.spindle.toNat])
      = { r with overrides := some (snap.overrides.feed.toNat, snap.overrides.rapid.toNat,
          snap.overrides.spindle.toNat) } := by
    rw [← parseOverrides_csv (snap.overrides.feed.toNat_lt.le.trans (by decide))
      (snap.overrides.rapid.toNat_lt.le.trans (by decide))
      (snap.overrides.spindle.toNat_lt.le.trans (by decide))]
    exact @applyField_tag r "Ov".toList (by decide) _
  unfold parseStatus
  rw [hsplit]
  unfold fields
  simp only [List.cons_append, List.nil_append, List.append_assoc, List.foldl_cons,
    List.foldl_append, foldl_applyField_ite, applyField_position, hfs, hbf, hpn, hwco, hov,
    parseMachineState_stateText]
  unfold reported
  cases hany : snap.pins.any with
  | false =>
    rw [letters_of_not_any hany]
    cases snap.includeWco <;> cases snap.includeOv <;> rfl
  | true => cases snap.includeWco <;> cases snap.includeOv <;> rfl

end Galdr.Telemetry
